/-
# Nodes cover tokens

A match is filled (`Match.IsFilled`) when there is a token under every node of it.  A node that a
term or a rule puts around what it has matched is empty at most if the term inside may match
without reading, so a grammar in which no such term is nullable (`Grammar.IsFilling`) gives filled
matches only (`Parses.fills`).

What a term matches has leaves unless the term is nullable.  That is known of references because
the nullable rules are closed, and of the rounds of a fold because they wrap the trees gathered so
far, and these began with an operand that is not nullable.
-/

import Packrat.Proofs.Peg.Nullable
import Packrat.Proofs.Peg.Tiling

namespace Packrat
namespace Peg

/-- There is a token under every node. -/
inductive Match.IsFilled : Match → Prop where
  | token {index kind part} : IsFilled (.token index kind part)
  | node {kind children} : leavesAll children ≠ [] → (∀ c ∈ children, IsFilled c) →
    IsFilled (.node kind children)

namespace Grammar

/-- A node is put around terms only that are not nullable. -/
def isFilling (g : Grammar) : Term → Bool
  | .node _ body => !body.nullable g.isNullable
  | .fold operand tails _ =>
    !operand.nullable g.isNullable && tails.all fun tail => !tail.2.nullable g.isNullable
  | _ => true

/-- All parts of a term fill their nodes. -/
abbrev Fills (g : Grammar) (t : Term) : Prop := t.Every (g.isFilling · = true)

/-- All rules fill their nodes, and those of the terms in them. -/
def IsFilling (g : Grammar) : Prop :=
  ∀ (id : Nat) (rule : Rule), g.rules[id]? = some rule →
    g.Fills rule.body ∧ (rule.kind ≠ none → rule.body.nullable g.isNullable = false)

variable {g : Grammar}

/-- The tails of a fold fill the nodes of its rounds. -/
theorem fills_ofTails {operand : Term} {tails : List (Kind × Term)} {max : Option Nat}
    (h : g.Fills (.fold operand tails max)) : g.Fills (Term.ofTails tails) := by
  refine Term.every_iff.mpr ⟨rfl, fun c hc => ?_⟩
  obtain ⟨tail, htail, rfl⟩ := List.mem_map.mp hc
  have hall := (Bool.and_eq_true_iff.mp (Term.Every.self h)).2
  refine Term.every_iff.mpr ⟨List.all_eq_true.mp hall tail htail, fun c hc => ?_⟩
  obtain rfl := List.mem_singleton.mp hc
  exact h.child (List.mem_cons_of_mem _ (List.mem_map_of_mem htail))

/-- A rule that is not nullable has a body that is not. -/
theorem nullable_body {r : RuleRef} {id : Nat} {rule : Rule} (hr : g.resolve? r = some id)
    (hrule : g.rules[id]? = some rule) (h : g.isNullable r = false) :
    rule.body.nullable g.isNullable = false := by
  rw [isNullable_eq_linked hr] at h
  cases hbody : rule.body.nullable g.isNullable with
  | false => rfl
  | true =>
    rw [isNullable_of_body hrule hbody] at h
    cases h

end Grammar

/-- What has been matched is filled, and has leaves unless it may have none. -/
def Answer.Fills (mayBeBare : Bool) (a : Answer) : Prop :=
  ∀ ns stop, a = some (ns, stop) →
    (∀ n ∈ ns, n.IsFilled) ∧ (mayBeBare = false → Match.leavesAll ns ≠ [])

/-- What is matched of a goal is filled.  The rounds of a fold go on from trees that are filled
and have leaves. -/
def Goal.Fills (g : Grammar) (a : Answer) : Goal → Prop
  | .term t => g.Fills t → a.Fills (t.nullable g.isNullable)
  | .rounds tails _ done => g.Fills (Term.ofTails tails) → (∀ n ∈ done, n.IsFilled) →
      Match.leavesAll done ≠ [] → a.Fills false

namespace Answer

variable {a : Answer} {b c : Bool} {ns : List Match} {pos : Pos}

theorem fills_none : Fills b none := by
  rintro ns stop ⟨⟩

/-- A match of nothing. -/
theorem fills_stay : Fills true (some ([], pos)) := by
  rintro ns stop ⟨⟩
  exact ⟨by simp, by simp⟩

theorem Fills.imp (h : a.Fills b) (hbc : c = false → b = false) : a.Fills c :=
  fun ns stop heq => ⟨(h ns stop heq).1, fun hc => (h ns stop heq).2 (hbc hc)⟩

/-- A node around trees that have leaves. -/
theorem Fills.wrap (h : a.Fills false) (kind : Kind) :
    (a.mapTrees fun ns => [.node kind ns]).Fills c := by
  intro ns stop heq
  obtain ⟨⟨ns', stop'⟩, rfl, hr⟩ := Option.map_eq_some_iff.mp heq
  cases hr
  obtain ⟨hfilled, hleaves⟩ := h ns' stop' rfl
  refine ⟨fun n hn => ?_, fun _ => by simpa using hleaves rfl⟩
  obtain rfl := List.mem_singleton.mp hn
  exact .node (hleaves rfl) hfilled

/-- Trees behind others. -/
theorem Fills.after (h : a.Fills b) (hfirst : Fills c (some (ns, pos))) :
    (a.mapTrees (ns ++ ·)).Fills (c && b) := by
  intro ms stop heq
  obtain ⟨⟨ns', stop'⟩, rfl, hr⟩ := Option.map_eq_some_iff.mp heq
  cases hr
  obtain ⟨hfilled, hleaves⟩ := h ns' stop' rfl
  obtain ⟨hfilled', hleaves'⟩ := hfirst ns pos rfl
  refine ⟨fun n hn => (List.mem_append.mp hn).elim (hfilled' n) (hfilled n), fun hcb => ?_⟩
  rw [Match.leavesAll_append]
  cases c with
  | false => exact List.append_ne_nil_of_left_ne_nil (hleaves' rfl) _
  | true => exact List.append_ne_nil_of_right_ne_nil _ (hleaves (by simpa using hcb))

/-- What a rule makes of what its body has matched. -/
theorem Fills.close (h : a.Fills b) {rule : Rule} (hb : rule.kind ≠ none → b = false) :
    (a.mapTrees rule.close).Fills b := by
  cases hkind : rule.kind with
  | none =>
    have hclose : rule.close = id := by
      funext ns
      simp [Rule.close, hkind]
    rw [hclose]
    simpa [Answer.mapTrees] using h
  | some kind =>
    obtain rfl := hb (by simp [hkind])
    have hclose : rule.close = fun ns => [.node kind ns] := by
      funext ns
      simp [Rule.close, hkind]
    rw [hclose]
    exact h.wrap kind

end Answer

namespace Machine

variable {m : Machine} {pos stop : Pos} {ns : List Match}

/-- A terminal matches a token, unless it asks for the end of the text. -/
theorem read?_fills {t : Term} (null : RuleRef → Bool) (h : m.read? pos t = some (ns, stop)) :
    (∀ n ∈ ns, n.IsFilled) ∧ (t.nullable null = false → Match.leavesAll ns ≠ []) := by
  have hone (index : Nat) (kind : Kind) (part : Option (UInt8 × UInt8)) :
      (∀ n ∈ [Match.token index kind part], n.IsFilled) ∧
        (t.nullable null = false → Match.leavesAll [.token index kind part] ≠ []) :=
    ⟨fun n hn => List.mem_singleton.mp hn ▸ .token, fun _ => by simp⟩
  cases t with
  | token kind =>
    simp only [read?] at h
    split_ifs at h
    cases h
    exact hone ..
  | split kind =>
    simp only [read?] at h
    split_ifs at h
    · cases h
      exact hone ..
    · obtain ⟨spelling, -, hcut⟩ := Option.bind_eq_some_iff.mp h
      split_ifs at hcut
      cases hcut
      exact hone ..
  | word text =>
    simp only [read?] at h
    split_ifs at h
    cases h
    exact hone ..
  | any =>
    simp only [read?] at h
    split_ifs at h
    cases h
    exact hone ..
  | ended =>
    simp only [read?] at h
    split_ifs at h
    cases h
    exact ⟨by simp, by simp [Term.nullable]⟩
  | _ => cases h

end Machine

namespace Parses

variable {m : Machine} {f : Flags} {goal : Goal} {pos : Pos} {a : Answer}

/-- **Nodes cover tokens.** -/
theorem fills (hg : m.grammar.IsFilling) (h : Parses m f goal pos a) :
    goal.Fills m.grammar a := by
  induction h with
  | terminal => exact fun _ ns stop => Machine.read?_fills m.grammar.isNullable
  | seq_nil => exact fun _ => Answer.fills_stay
  | seq_fail => exact fun _ => Answer.fills_none
  | seq_cons _ _ ih₁ ih₂ =>
    intro hevery
    have hfirst := ih₁ (hevery.child (by simp [Term.children]))
    have hrest := ih₂ (Term.every_iff.mpr ⟨rfl, fun c hc =>
      hevery.child (List.mem_cons_of_mem _ hc)⟩)
    exact hrest.after hfirst
  | choice_nil => exact fun _ => Answer.fills_none
  | choice_here _ ih =>
    intro hevery
    refine (ih (hevery.child (by simp [Term.children]))).imp fun hnull => ?_
    exact (Bool.or_eq_false_iff.mp hnull).1
  | choice_next _ _ _ ih =>
    intro hevery
    refine (ih (Term.every_iff.mpr ⟨rfl, fun c hc =>
      hevery.child (List.mem_cons_of_mem _ hc)⟩)).imp fun hnull => ?_
    exact (Bool.or_eq_false_iff.mp hnull).2
  | @opt f t pos a _ ih =>
    intro hevery
    have hbody := ih (hevery.child (by simp [Term.children]))
    cases a with
    | none => exact Answer.fills_stay
    | some r => exact hbody.imp (by simp [Term.nullable])
  | star_fail => exact fun _ => Answer.fills_stay
  | star_empty => exact fun _ => Answer.fills_stay
  | star_more _ _ _ ih₁ ih₂ =>
    intro hevery
    have hfirst := ih₁ (hevery.child (by simp [Term.children]))
    exact ((ih₂ hevery).after hfirst).imp (by simp [Term.nullable])
  | plus_fail => exact fun _ => Answer.fills_none
  | plus_more _ _ ih₁ ih₂ =>
    intro hevery
    have hfirst := ih₁ (hevery.child (by simp [Term.children]))
    have hrest := ih₂ (Term.every_iff.mpr ⟨rfl, fun c hc => hevery.child hc⟩)
    exact (hrest.after hfirst).imp fun hnull => Bool.and_eq_false_iff.mpr (.inl hnull)
  | @ahead f t pos a _ _ =>
    intro _
    cases a with
    | none => exact Answer.fills_none
    | some r => exact Answer.fills_stay
  | @notAhead f t pos a _ _ =>
    intro _
    cases a with
    | none => exact Answer.fills_stay
    | some r => exact Answer.fills_none
  | ref_none => exact fun _ => Answer.fills_none
  | ref_rule hr hrule _ ih =>
    intro _
    obtain ⟨hbody, hkind⟩ := hg _ _ hrule
    exact ((ih hbody).close hkind).imp (Grammar.nullable_body hr hrule)
  | @node f kind t pos a _ ih =>
    intro hevery
    have hlive : t.nullable m.grammar.isNullable = false := by
      simpa [Grammar.isFilling] using Term.Every.self hevery
    have hbody := ih (hevery.child (by simp [Term.children]))
    rw [hlive] at hbody
    exact hbody.wrap _
  | scope _ ih => exact fun hevery => ih (hevery.child (by simp [Term.children]))
  | gate_open _ _ ih => exact fun hevery => ih (hevery.child (by simp [Term.children]))
  | gate_shut => exact fun _ => Answer.fills_none
  | fold_fail => exact fun _ => Answer.fills_none
  | fold_rounds _ _ ih₁ ih₂ =>
    intro hevery
    obtain ⟨hfilled, hleaves⟩ := ih₁ (hevery.child (by simp [Term.children])) _ _ rfl
    have hlive := (Bool.and_eq_true_iff.mp (Term.Every.self hevery)).1
    have hrounds := ih₂ (Grammar.fills_ofTails hevery) hfilled (hleaves (by simpa using hlive))
    exact hrounds.imp fun _ => rfl
  | rounds_spent =>
    rintro _ hfilled hleaves ns stop ⟨⟩
    exact ⟨hfilled, fun _ => hleaves⟩
  | rounds_end =>
    rintro _ hfilled hleaves ns stop ⟨⟩
    exact ⟨hfilled, fun _ => hleaves⟩
  | @rounds_more f tails left pos ns kind ms mid a _ _ _ ih₁ ih₂ =>
    intro htails hfilled hleaves
    have hround := (ih₁ htails _ _ rfl).1 _ List.mem_cons_self
    have hwrapped : (Match.node kind (ns ++ ms)).IsFilled := by
      cases hround with
      | node _ hchildren =>
        refine .node ?_ fun c hc => (List.mem_append.mp hc).elim (hfilled c) (hchildren c)
        rw [Match.leavesAll_append]
        exact List.append_ne_nil_of_left_ne_nil hleaves _
    refine ih₂ htails (fun n hn => List.mem_singleton.mp hn ▸ hwrapped) ?_
    rw [Match.leavesAll_node, Match.leavesAll_append]
    exact List.append_ne_nil_of_left_ne_nil hleaves _

end Parses
end Peg
end Packrat
