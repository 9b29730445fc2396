/-
# The plain meaning, computed

The rules of `Parses` can be read as a program: the answer to a goal comes from the answers to
the goals inside it (`Machine.infer`), and these from others again, to some depth
(`Machine.answer?`).  An answer that is found is right, more depth does not change it, and
every answer is found at some depth (`parses_iff_answer?`).  One inference is right also where trees
and places only stand for others, if it is right for those (`Machine.infer_depicts`).

Nothing is remembered, so this is no way to parse long texts.  It has no table and no output
to cut back either, which makes it a way to see what short texts come to.
-/

import Packrat.Proofs.Peg.Plain

namespace Packrat
namespace Peg

/-- The answer with other trees and at another place. -/
def Answer.fill (fill : Match → Match) (place : Pos → Pos) (a : Answer) : Answer :=
  a.map fun r => (r.1.map fill, place r.2)

/-- The goal with other trees gathered so far. -/
def Goal.fill (fill : Match → Match) : Goal → Goal
  | .term t => .term t
  | .rounds tails left ns => .rounds tails left (ns.map fill)

/-- Trees that are put behind others, or under a node, can be filled before or afterwards. -/
theorem Answer.fill_mapTrees {fill : Match → Match} {place : Pos → Pos}
    (f f' : List Match → List Match) (h : ∀ ns, (f ns).map fill = f' (ns.map fill)) (a : Answer) :
    Answer.fill fill place (a.mapTrees f) = (Answer.fill fill place a).mapTrees f' := by
  cases a with
  | none => rfl
  | some r => exact congrArg (fun ns => some (ns, place r.2)) (h r.1)

theorem Answer.fill_id (a : Answer) : Answer.fill id id a = a := by
  cases a <;> simp [fill]

theorem Goal.fill_id (goal : Goal) : goal.fill id = goal := by
  cases goal <;> simp [fill]

namespace Machine

variable {m : Machine}

/-- Answers to some goals. -/
abbrev Known := Flags → Goal → Pos → Option Answer

/-- Where there is a match, go on behind it. -/
def andThen (a : Option Answer) (more : List Match → Pos → Option Answer) : Option Answer :=
  a.bind fun
    | none => some none
    | some (ns, mid) => more ns mid

/-- The answer to a goal from the answers to the goals inside it. -/
def infer (m : Machine) (known : Known) : Known := fun f goal pos =>
  match goal with
  | .term t =>
    match t with
    | .seq [] => some (some ([], pos))
    | .seq (t :: ts) =>
      andThen (known f (.term t) pos) fun ns mid =>
        (known f (.term (.seq ts)) mid).map (·.mapTrees (ns ++ ·))
    | .choice [] => some none
    | .choice (t :: ts) =>
      (known f (.term t) pos).bind fun
        | none => known f (.term (.choice ts)) pos
        | some r => some (some r)
    | .opt t => (known f (.term t) pos).map fun a => some (a.getD ([], pos))
    | .star t =>
      (known f (.term t) pos).bind fun
        | none => some (some ([], pos))
        | some (ns, mid) =>
          if mid = pos then some (some ([], pos))
          else (known f (.term (.star t)) mid).map (·.mapTrees (ns ++ ·))
    | .plus t =>
      andThen (known f (.term t) pos) fun ns mid =>
        (known f (.term (.star t)) mid).map (·.mapTrees (ns ++ ·))
    | .ahead t => (known f (.term t) pos).map fun a => a.map fun _ => ([], pos)
    | .notAhead t =>
      (known f (.term t) pos).map fun a => if a.isSome then none else some ([], pos)
    | .ref r =>
      match m.grammar.resolve? r with
      | none => some none
      | some id =>
        (m.grammar.rules[id]?).bind fun rule =>
          (known f (.term rule.body) pos).map (·.mapTrees rule.close)
    | .node kind t =>
      (known f (.term t) pos).map (·.mapTrees fun ns => [.node kind ns])
    | .scoped set clear t => known ((f.union set).diff clear) (.term t) pos
    | .gate flags whenSet t =>
      if f.intersects flags = whenSet then known f (.term t) pos else some none
    | .fold operand tails max =>
      andThen (known f (.term operand) pos) fun ns mid => known f (.rounds tails max ns) mid
    | t => some (m.read? pos t)
  | .rounds tails left ns =>
    if left = some 0 then some (some (ns, pos))
    else
      (known f (.term (.ofTails tails)) pos).bind fun
        | none => some (some (ns, pos))
        | some ([.node kind ms], mid) =>
          known f (.rounds tails (left.map (· - 1)) [.node kind (ns ++ ms)]) mid
        | some _ => none

/-- The answer to a goal, if it can be found to a depth of `n` inferences. -/
def answer? (m : Machine) : Nat → Known
  | 0 => fun _ _ _ => none
  | n + 1 => m.infer (m.answer? n)

/-! ## Answers that are found are right

The answers may also be about other places and have other trees in them: inferences look at no tree
but to see that it is a node, and compare places only to see that a round of a repetition was
empty. -/

/-- The answers are right, with their places and trees replaced. -/
def Known.Depicts (m : Machine) (fill : Match → Match) (place : Pos → Pos) (known : Known) :
    Prop :=
  ∀ f goal pos a, known f goal pos = some a →
    Parses m f (goal.fill fill) (place pos) (a.fill fill place)

/-- The answers are right. -/
def Known.IsSound (m : Machine) (known : Known) : Prop :=
  ∀ f goal pos a, known f goal pos = some a → Parses m f goal pos a

theorem depicts_id_iff {known : Known} : known.Depicts m id id ↔ known.IsSound m := by
  simp only [Known.Depicts, Known.IsSound, Goal.fill_id, Answer.fill_id, id_eq]

theorem andThen_eq_some_iff {a : Option Answer} {more : List Match → Pos → Option Answer}
    {b : Answer} : andThen a more = some b ↔
      a = some none ∧ b = none ∨ ∃ ns mid, a = some (some (ns, mid)) ∧ more ns mid = some b := by
  rcases a with _ | _ | ⟨ns, mid⟩
  · simp [andThen]
  · simp [andThen, eq_comm]
  · constructor
    · exact fun h => .inr ⟨ns, mid, rfl, h⟩
    · rintro (⟨⟨⟩, -⟩ | ⟨ns', mid', hsome, h⟩)
      cases hsome
      exact h

section

variable {m₀ : Machine} {fill : Match → Match} {place : Pos → Pos} {known : Known}

/-- One inference from right answers is right: a case for each constructor, by the rules for
it.  The machine that infers has the same rules; its terminals and the places that it tells apart
have to be those of the other one where they are asked for. -/
theorem infer_depicts (hgrammar : m₀.grammar = m.grammar)
    (hnode : ∀ kind ns, fill (.node kind ns) = .node kind (ns.map fill))
    (h : known.Depicts m fill place) {f : Flags} {goal : Goal} {pos : Pos} {a : Answer}
    (hread : ∀ t, goal = .term t → t.isTerminal = true →
      Answer.fill fill place (m₀.read? pos t) = m.read? (place pos) t)
    (hstar : ∀ t, goal = .term (.star t) → ∀ p q, place p = place q → p = q)
    (ha : m₀.infer known f goal pos = some a) :
    Parses m f (goal.fill fill) (place pos) (Answer.fill fill place a) := by
  have happend : ∀ (ns : List Match) (a : Answer), Answer.fill fill place
      (a.mapTrees (ns ++ ·)) = (Answer.fill fill place a).mapTrees (ns.map fill ++ ·) :=
    fun ns => Answer.fill_mapTrees _ _ fun ms => List.map_append
  cases goal with
  | rounds tails left ns =>
    simp only [infer] at ha
    split_ifs at ha with hleft
    · cases ha
      subst hleft
      exact .rounds_spent
    · obtain ⟨b, hb, hmore⟩ := Option.bind_eq_some_iff.mp ha
      have htail := h _ _ _ _ hb
      split at hmore
      · cases hmore
        exact .rounds_end hleft htail
      · have hrest := h _ _ _ _ hmore
        simp only [Answer.fill, Goal.fill, Option.map_some, List.map_cons, List.map_nil, hnode,
          List.map_append] at htail hrest
        exact .rounds_more hleft htail hrest
      · cases hmore
  | term t =>
    cases t with
    | seq ts =>
      cases ts with
      | nil =>
        cases ha
        exact .seq_nil
      | cons t ts =>
        rcases andThen_eq_some_iff.mp ha with ⟨hfail, rfl⟩ | ⟨ns, mid, hfirst, hmore⟩
        · exact .seq_fail (h _ _ _ _ hfail)
        · obtain ⟨b, hb, rfl⟩ := Option.map_eq_some_iff.mp hmore
          rw [happend]
          exact .seq_cons (h _ _ _ _ hfirst) (h _ _ _ _ hb)
    | choice ts =>
      cases ts with
      | nil =>
        cases ha
        exact .choice_nil
      | cons t ts =>
        obtain ⟨b, hb, hmore⟩ := Option.bind_eq_some_iff.mp ha
        cases b with
        | none => exact .choice_next (h _ _ _ _ hb) (h _ _ _ _ hmore)
        | some r =>
          cases hmore
          exact .choice_here (h _ _ _ _ hb)
    | opt t =>
      obtain ⟨b, hb, rfl⟩ := Option.map_eq_some_iff.mp ha
      have hbody := Parses.opt (h _ _ _ _ hb)
      cases b <;> exact hbody
    | star t =>
      obtain ⟨b, hb, hmore⟩ := Option.bind_eq_some_iff.mp ha
      have hround := h _ _ _ _ hb
      rcases b with _ | ⟨ns, mid⟩
      · cases hmore
        exact .star_fail hround
      · simp only at hmore
        split_ifs at hmore with hmid
        · cases hmore
          subst hmid
          exact .star_empty hround
        · obtain ⟨c, hc, rfl⟩ := Option.map_eq_some_iff.mp hmore
          rw [happend]
          exact .star_more hround (mt (hstar t rfl _ _) hmid) (h _ _ _ _ hc)
    | plus t =>
      rcases andThen_eq_some_iff.mp ha with ⟨hfail, rfl⟩ | ⟨ns, mid, hfirst, hmore⟩
      · exact .plus_fail (h _ _ _ _ hfail)
      · obtain ⟨b, hb, rfl⟩ := Option.map_eq_some_iff.mp hmore
        rw [happend]
        exact .plus_more (h _ _ _ _ hfirst) (h _ _ _ _ hb)
    | ahead t =>
      obtain ⟨b, hb, rfl⟩ := Option.map_eq_some_iff.mp ha
      have hbody := Parses.ahead (h _ _ _ _ hb)
      cases b <;> exact hbody
    | notAhead t =>
      obtain ⟨b, hb, rfl⟩ := Option.map_eq_some_iff.mp ha
      have hbody := Parses.notAhead (h _ _ _ _ hb)
      cases b <;> exact hbody
    | ref r =>
      simp only [infer, hgrammar] at ha
      split at ha
      · next hid =>
        cases ha
        exact .ref_none hid
      · next id hid =>
        obtain ⟨rule, hrule, hbody⟩ := Option.bind_eq_some_iff.mp ha
        obtain ⟨b, hb, rfl⟩ := Option.map_eq_some_iff.mp hbody
        have hclose : ∀ ns, (rule.close ns).map fill = rule.close (ns.map fill) := by
          intro ns
          unfold Rule.close
          cases rule.kind with
          | none => rfl
          | some kind => exact congrArg (fun n => [n]) (hnode kind ns)
        rw [Answer.fill_mapTrees _ _ hclose]
        exact .ref_rule hid hrule (h _ _ _ _ hb)
    | node kind t =>
      obtain ⟨b, hb, rfl⟩ := Option.map_eq_some_iff.mp ha
      rw [Answer.fill_mapTrees _ (fun ns => [.node kind ns]) (by simp [hnode])]
      exact .node (h _ _ _ _ hb)
    | «scoped» set clear t => exact .scope (h _ _ _ _ ha)
    | gate flags whenSet t =>
      simp only [infer] at ha
      split_ifs at ha with hopen
      · exact .gate_open hopen (h _ _ _ _ ha)
      · cases ha
        exact .gate_shut hopen
    | fold operand tails max =>
      rcases andThen_eq_some_iff.mp ha with ⟨hfail, rfl⟩ | ⟨ns, mid, hfirst, hmore⟩
      · exact .fold_fail (h _ _ _ _ hfail)
      · exact .fold_rounds (h _ _ _ _ hfirst) (h _ _ _ _ hmore)
    | _ =>
      cases ha
      rw [hread _ rfl rfl]
      exact .terminal rfl

end

/-- One inference from right answers is right. -/
theorem infer_isSound {known : Known} (h : known.IsSound m) : (m.infer known).IsSound m := by
  refine depicts_id_iff.mp fun f goal pos a ha => ?_
  refine infer_depicts rfl (fun kind ns => by simp) (depicts_id_iff.mpr h) (fun t _ _ => ?_)
    (fun t _ p q hpq => hpq) ha
  exact Answer.fill_id _

/-- An answer that is found is right. -/
theorem answer?_isSound (n : Nat) : (m.answer? n).IsSound m := by
  induction n with
  | zero => exact fun _ _ _ _ h => nomatch h
  | succ n ih => exact infer_isSound ih

/-! ## Every answer is found -/

/-- The answer to a goal is found at some depth and at every greater one. -/
def IsFound (m : Machine) (f : Flags) (goal : Goal) (pos : Pos) (a : Answer) : Prop :=
  ∃ n, ∀ k, n ≤ k → m.answer? k f goal pos = some a

variable {f : Flags} {goal : Goal} {pos : Pos} {a : Answer}

/-- One inference more. -/
theorem IsFound.of_infer (n : Nat)
    (h : ∀ k, n ≤ k → m.infer (m.answer? k) f goal pos = some a) : m.IsFound f goal pos a := by
  refine ⟨n + 1, fun k hk => ?_⟩
  cases k with
  | zero => omega
  | succ k => exact h k (by omega)

end Machine

open Machine

/-- Every answer is found. -/
theorem Parses.isFound {m : Machine} {f : Flags} {goal : Goal} {pos : Pos} {a : Answer}
    (h : Parses m f goal pos a) : m.IsFound f goal pos a := by
  induction h with
  | @terminal f t pos ht =>
    refine .of_infer 0 fun k _ => ?_
    cases t <;> first | rfl | cases ht
  | seq_nil => exact .of_infer 0 fun _ _ => rfl
  | seq_fail _ ih =>
    obtain ⟨n, h⟩ := ih
    exact .of_infer n fun k hk => by simp [infer, andThen, h k hk]
  | seq_cons _ _ ih₁ ih₂ =>
    obtain ⟨n₁, h₁⟩ := ih₁
    obtain ⟨n₂, h₂⟩ := ih₂
    refine .of_infer (max n₁ n₂) fun k hk => ?_
    simp [infer, andThen, h₁ k (by omega), h₂ k (by omega)]
  | choice_nil => exact .of_infer 0 fun _ _ => rfl
  | choice_here _ ih =>
    obtain ⟨n, h⟩ := ih
    exact .of_infer n fun k hk => by simp [infer, h k hk]
  | choice_next _ _ ih₁ ih₂ =>
    obtain ⟨n₁, h₁⟩ := ih₁
    obtain ⟨n₂, h₂⟩ := ih₂
    refine .of_infer (max n₁ n₂) fun k hk => ?_
    simp [infer, h₁ k (by omega), h₂ k (by omega)]
  | star_more _ hmid _ ih₁ ih₂ =>
    obtain ⟨n₁, h₁⟩ := ih₁
    obtain ⟨n₂, h₂⟩ := ih₂
    refine .of_infer (max n₁ n₂) fun k hk => ?_
    simp [infer, h₁ k (by omega), h₂ k (by omega), hmid]
  | plus_more _ _ ih₁ ih₂ =>
    obtain ⟨n₁, h₁⟩ := ih₁
    obtain ⟨n₂, h₂⟩ := ih₂
    refine .of_infer (max n₁ n₂) fun k hk => ?_
    simp [infer, andThen, h₁ k (by omega), h₂ k (by omega)]
  | ref_none hid => exact .of_infer 0 fun _ _ => by simp [infer, hid]
  | ref_rule hid hrule _ ih =>
    obtain ⟨n, h⟩ := ih
    exact .of_infer n fun k hk => by simp [infer, hid, hrule, h k hk]
  | gate_open hopen _ ih =>
    obtain ⟨n, h⟩ := ih
    exact .of_infer n fun k hk => by simp [infer, hopen, h k hk]
  | gate_shut hshut => exact .of_infer 0 fun _ _ => by simp [infer, hshut]
  | fold_rounds _ _ ih₁ ih₂ =>
    obtain ⟨n₁, h₁⟩ := ih₁
    obtain ⟨n₂, h₂⟩ := ih₂
    refine .of_infer (max n₁ n₂) fun k hk => ?_
    simp [infer, andThen, h₁ k (by omega), h₂ k (by omega)]
  | rounds_spent => exact .of_infer 0 fun _ _ => by simp [infer]
  | rounds_end hleft _ ih =>
    obtain ⟨n, h⟩ := ih
    exact .of_infer n fun k hk => by simp [infer, hleft, h k hk]
  | rounds_more hleft _ _ ih₁ ih₂ =>
    obtain ⟨n₁, h₁⟩ := ih₁
    obtain ⟨n₂, h₂⟩ := ih₂
    refine .of_infer (max n₁ n₂) fun k hk => ?_
    simp [infer, hleft, h₁ k (by omega), h₂ k (by omega)]
  | opt _ ih | star_fail _ ih | star_empty _ ih | plus_fail _ ih | ahead _ ih | notAhead _ ih
  | node _ ih | scope _ ih | fold_fail _ ih =>
    obtain ⟨n, h⟩ := ih
    exact .of_infer n fun k hk => by simp [infer, andThen, h k hk]

/-- **The plain meaning can be computed.**  The answers are those that are found at some
depth. -/
theorem parses_iff_answer? {m : Machine} {f : Flags} {goal : Goal} {pos : Pos} {a : Answer} :
    Parses m f goal pos a ↔ ∃ n, m.answer? n f goal pos = some a := by
  constructor
  · intro h
    obtain ⟨n, hn⟩ := h.isFound
    exact ⟨n, hn n (Nat.le_refl n)⟩
  · rintro ⟨n, hn⟩
    exact answer?_isSound n f goal pos a hn

end Peg
end Packrat
