/-
# Packrat evaluation is plain evaluation

The machine remembers rules in a table, keeps one output for all terms, cuts it back when a
term fails, and stops working when a limit is passed.  None of this shows in an answer: as
long as no limit has been passed, an evaluation that ends answers what `Parses` says.

The invariant is that the table holds true entries only (`Machine.MemoTrue`).  It is kept by
every evaluation that ends with no limit passed; a limit is never forgotten, so it is enough
to look at the end (`Machine.Sound`).  The output is traced by `State.Extends`.  Together
they are what an outcome must satisfy (`Outcome.Answers`), and there is one lemma for each
loop of the machine and one for rules.  `eval_isFaithful` puts them together, and
`runWith_eq_plain` says what follows for whole runs.
-/

import Packrat.Proofs.Peg.Output
import Packrat.Proofs.Peg.Plain

namespace Packrat
namespace Peg

@[simp] theorem Answer.mapTrees_none (f : List Match → List Match) :
    Answer.mapTrees f none = none := rfl

@[simp] theorem Answer.mapTrees_some (f : List Match → List Match) (ns : List Match) (pos : Pos) :
    Answer.mapTrees f (some (ns, pos)) = some (f ns, pos) := rfl

@[simp] theorem Answer.mapTrees_id (a : Answer) : Answer.mapTrees (fun ns => ns) a = a := by
  cases a <;> rfl

namespace Machine

variable (m : Machine)

/-- A rule answers `a` at a place under some flags. -/
def RuleParses (f : Flags) (id : Nat) (pos : Pos) (a : Answer) : Prop :=
  ∃ rule b, m.grammar.rules[id]? = some rule ∧ Parses m f (.term rule.body) pos b ∧
    a = b.mapTrees rule.close

/-- What a table says of a key is so. -/
def EntryTrue (key : MemoKey) : MemoEntry → Prop
  | .inProgress => True
  | .failed => m.RuleParses key.flags key.rule key.pos none
  | .matched stop ns => m.RuleParses key.flags key.rule key.pos (some (ns, stop))

/-- Everything a table says is so. -/
def MemoTrue (memo : Memo) : Prop := ∀ key e, memo.get? key = some e → m.EntryTrue key e

theorem memoTrue_empty : m.MemoTrue {} := fun key e h => by simp at h

/-- No limit is set. -/
def IsUnlimited : Prop := m.limits.maxSteps = none ∧ m.limits.maxDepth = none

/-- What work that leads from state `s` to state `s'` keeps.  A limit that has been passed is
not forgotten; if none has been, a table that said only what is so still does, and `p` holds.
Where no limit is set, none is passed. -/
def Sound (s s' : State) (p : Prop) : Prop :=
  (s'.halted = false → s.halted = false) ∧
    (s'.halted = false → m.MemoTrue s.memo → m.MemoTrue s'.memo ∧ p) ∧
    (m.IsUnlimited → s.halted = false → s'.halted = false)

variable {m}

theorem MemoTrue.insert {memo : Memo} (h : m.MemoTrue memo) {key : MemoKey} {e : MemoEntry}
    (he : m.EntryTrue key e) : m.MemoTrue (memo.insert key e) := by
  intro key' e' hget
  rw [Memo.get?_insert] at hget
  split at hget
  · next heq =>
    cases hget
    exact heq ▸ he
  · exact h key' e' hget

theorem Sound.refl {s : State} {p : Prop} (h : p) : m.Sound s s p :=
  ⟨fun hlive => hlive, fun _ hmemo => ⟨hmemo, h⟩, fun _ hlive => hlive⟩

/-- One stretch of work after another. -/
theorem Sound.trans {s s' s'' : State} {p q r : Prop} (h : m.Sound s s' p)
    (h' : m.Sound s' s'' q) (hr : p → q → r) : m.Sound s s'' r := by
  obtain ⟨hlive, hmemo, hnone⟩ := h
  obtain ⟨hlive', hmemo', hnone'⟩ := h'
  refine ⟨fun h => hlive (hlive' h), fun h htrue => ?_, fun hlim h => hnone' hlim (hnone hlim h)⟩
  obtain ⟨htrue', hp⟩ := hmemo (hlive' h) htrue
  obtain ⟨htrue'', hq⟩ := hmemo' h htrue'
  exact ⟨htrue'', hr hp hq⟩

theorem Sound.imp {s s' : State} {p q : Prop} (h : m.Sound s s' p) (hpq : p → q) :
    m.Sound s s' q :=
  h.trans (.refl trivial) fun hp _ => hpq hp

end Machine

/-- An outcome of work that began in state `s`, above which `base` had the trees `ns` less:
a match has put its trees behind them, a failure has cut them off, and the answer
satisfies `P`. -/
def Outcome.Answers (m : Machine) (base s : State) (ns : List Match) (P : Answer → Prop) :
    Outcome → Prop
  | .matched stop s' => ∃ ms, base.Extends s' (ns ++ ms) ∧ m.Sound s s' (P (some (ms, stop)))
  | .failed s' => base.Extends s' [] ∧ m.Sound s s' (P none)
  | .fault _ => True

namespace Outcome

variable {m : Machine} {base s s₁ : State} {ns ns₁ : List Match} {P P₁ : Answer → Prop} {p : Prop}

/-- Work in state `s₁`, which an earlier stretch of work in state `s` left with the trees
`ns₁` put behind the output. -/
theorem Answers.after {o : Outcome} (h : o.Answers m base s₁ (ns ++ ns₁) P₁)
    (hs : m.Sound s s₁ p) (hP : ∀ a, p → P₁ a → P (a.mapTrees (ns₁ ++ ·))) :
    o.Answers m base s ns P := by
  cases o with
  | matched stop s' =>
    obtain ⟨ms, hext, hsound⟩ := h
    exact ⟨ns₁ ++ ms, by rwa [← List.append_assoc], hs.trans hsound (hP _)⟩
  | failed s' => exact ⟨h.1, hs.trans h.2 (hP none)⟩
  | fault f => trivial

/-- Work that begins in state `s₁`, in which nothing has been put behind the output. -/
theorem Answers.next {o : Outcome} (h : o.Answers m base s₁ ns P₁) (hs : m.Sound s s₁ p)
    (hP : ∀ a, p → P₁ a → P a) : o.Answers m base s ns P := by
  have h' : o.Answers m base s₁ (ns ++ []) P₁ := by rwa [List.append_nil]
  exact h'.after hs fun a hp ha => by simpa using hP a hp ha

theorem Answers.imp {o : Outcome} (h : o.Answers m base s ns P₁) (hP : ∀ a, P₁ a → P a) :
    o.Answers m base s ns P :=
  h.next (p := True) (.refl trivial) fun a _ => hP a

/-- Counting a step does not matter. -/
theorem Answers.of_steps {o : Outcome} {n : Nat}
    (h : o.Answers m { s with steps := n } { s with steps := n } [] P) :
    o.Answers m s s [] P := by
  cases o with
  | matched stop s' =>
    obtain ⟨ms, hext, hsound⟩ := h
    exact ⟨ms, ⟨hext.out, hext.flags, hext.contexts, hext.suppress, hext.depth⟩, hsound⟩
  | failed s' =>
    obtain ⟨hext, hsound⟩ := h
    exact ⟨⟨hext.out, hext.flags, hext.contexts, hext.suppress, hext.depth⟩, hsound⟩
  | fault f => trivial

/-- What is read by a terminal is put behind the output. -/
theorem ReadsAs.answers {o : Outcome} {pos : Pos} {a : Answer} (h : o.ReadsAs m pos s a)
    (hP : P a) : o.Answers m s s [] P := by
  cases o with
  | matched stop s' =>
    obtain ⟨ns, rfl, rfl⟩ := h
    exact ⟨ns, .append s ns, .refl hP⟩
  | failed s' =>
    obtain ⟨rfl, hnotes⟩ := h
    refine ⟨hnotes.extends, ?_⟩
    obtain ⟨failure, rfl⟩ := hnotes
    exact ⟨fun hlive => hlive, fun _ htrue => ⟨htrue, hP⟩, fun _ hlive => hlive⟩
  | fault f => trivial

end Outcome

namespace Machine

variable {m : Machine} {eval : Evaluator}

/-- An evaluator that answers what the plain meaning of every term says. -/
def IsFaithful (m : Machine) (eval : Evaluator) : Prop :=
  ∀ t pos s, (eval t pos s).Answers m s s [] (Parses m s.flags (.term t) pos)

/-- What a match means when no limit has been passed. -/
theorem IsFaithful.of_matched (heval : m.IsFaithful eval) {t : Term} {pos mid : Pos}
    {s s' : State} (htrue : m.MemoTrue s.memo) (hlive : s'.halted = false)
    (ho : eval t pos s = .matched mid s') : ∃ ns, s.Extends s' ns ∧ m.MemoTrue s'.memo ∧
      Parses m s.flags (.term t) pos (some (ns, mid)) := by
  have ht := heval t pos s
  rw [ho] at ht
  obtain ⟨ns, hext, -, hmemo, -⟩ := ht
  exact ⟨ns, by simpa using hext, hmemo hlive htrue⟩

/-- What a failure means when no limit has been passed. -/
theorem IsFaithful.of_failed (heval : m.IsFaithful eval) {t : Term} {pos : Pos} {s s' : State}
    (htrue : m.MemoTrue s.memo) (hlive : s'.halted = false) (ho : eval t pos s = .failed s') :
    s.Extends s' [] ∧ m.MemoTrue s'.memo ∧ Parses m s.flags (.term t) pos none := by
  have ht := heval t pos s
  rw [ho] at ht
  obtain ⟨hext, -, hmemo, -⟩ := ht
  exact ⟨hext, hmemo hlive htrue⟩

theorem seqFrom_answers (heval : m.IsFaithful eval) {base : State} (ts : List Term) :
    ∀ pos s ns, base.Extends s ns → (seqFrom eval base.out.size ts pos s).Answers m base s ns
      (Parses m base.flags (.term (.seq ts)) pos) := by
  induction ts with
  | nil => exact fun pos s ns hs => ⟨[], by simpa using hs, .refl .seq_nil⟩
  | cons t ts ih =>
    intro pos s ns hs
    have ht := heval t pos s
    rw [hs.flags] at ht
    simp only [seqFrom]
    cases ho : eval t pos s with
    | matched mid s₁ =>
      rw [ho] at ht
      obtain ⟨ns₁, hext, hsound⟩ := ht
      exact (ih mid s₁ (ns ++ ns₁) (hs.trans hext)).after hsound fun a h₁ h₂ => .seq_cons h₁ h₂
    | failed s₁ =>
      rw [ho] at ht
      exact ⟨(hs.trans ht.1).truncate, ht.2.imp .seq_fail⟩
    | fault f => trivial

theorem choiceFrom_answers (heval : m.IsFaithful eval) {base : State} {pos : Pos}
    (ts : List Term) : ∀ s, base.Extends s [] →
      (choiceFrom eval base.out.size pos ts s).Answers m base s []
        (Parses m base.flags (.term (.choice ts)) pos) := by
  induction ts with
  | nil => exact fun s hs => ⟨hs, .refl .choice_nil⟩
  | cons t ts ih =>
    intro s hs
    have ht := heval t pos s
    rw [hs.flags] at ht
    simp only [choiceFrom]
    cases ho : eval t pos s with
    | matched stop s₁ =>
      rw [ho] at ht
      obtain ⟨ns₁, hext, hsound⟩ := ht
      exact ⟨ns₁, hs.trans hext, hsound.imp .choice_here⟩
    | failed s₁ =>
      rw [ho] at ht
      have hback : base.Extends (s₁.truncate base.out.size) [] := (hs.trans ht.1).truncate
      exact (ih _ hback).next (m := m) (s := s) ht.2 fun a h₁ h₂ => .choice_next h₁ h₂
    | fault f => trivial

theorem repeatFrom_answers (heval : m.IsFaithful eval) {base : State} {t : Term} (fuel : Nat) :
    ∀ pos s ns, base.Extends s ns → (repeatFrom eval t fuel pos s).Answers m base s ns
      (Parses m base.flags (.term (.star t)) pos) := by
  induction fuel with
  | zero => exact fun _ _ _ _ => trivial
  | succ fuel ih =>
    intro pos s ns hs
    have ht := heval t pos s
    rw [hs.flags] at ht
    simp only [repeatFrom]
    cases ho : eval t pos s with
    | matched mid s₁ =>
      rw [ho] at ht
      obtain ⟨ns₁, hext, hsound⟩ := ht
      by_cases hmid : mid = pos
      · subst hmid
        simp only [if_true]
        exact ⟨[], hs.trans hext.truncate, hsound.imp .star_empty⟩
      · simp only [hmid, if_false]
        exact (ih mid s₁ (ns ++ ns₁) (hs.trans hext)).after hsound
          fun a h₁ h₂ => .star_more h₁ hmid h₂
    | failed s₁ =>
      rw [ho] at ht
      exact ⟨[], hs.trans ht.1.truncate, ht.2.imp .star_fail⟩
    | fault f => trivial

/-- A tail that matches wraps the trees gathered so far and its own. -/
theorem tailFrom_answers (heval : m.IsFaithful eval) {base : State} (pos : Pos)
    {ns : List Match} (tails : List (Kind × Term)) : ∀ s, base.Extends s ns →
      match tailFrom eval base.out.size pos tails s with
      | .matched stop s' => ∃ kind ms, base.Extends s' [.node kind (ns ++ ms)] ∧
        m.Sound s s' (Parses m base.flags (.term (.ofTails tails)) pos
          (some ([.node kind ms], stop)))
      | .failed s' => base.Extends s' ns ∧
        m.Sound s s' (Parses m base.flags (.term (.ofTails tails)) pos none)
      | .fault _ => True := by
  induction tails with
  | nil => exact fun s hs => ⟨hs, .refl .choice_nil⟩
  | cons tail tails ih =>
    obtain ⟨kind, t⟩ := tail
    intro s hs
    have ht := heval t pos s
    rw [hs.flags] at ht
    simp only [tailFrom]
    cases ho : eval t pos s with
    | matched stop s₁ =>
      rw [ho] at ht
      obtain ⟨ms, hext, hsound⟩ := ht
      exact ⟨kind, ms, (hs.trans hext).wrap kind, hsound.imp fun h => .choice_here (.node h)⟩
    | failed s₁ =>
      rw [ho] at ht
      have hback : base.Extends (s₁.truncate s.out.size) ns := by
        simpa using hs.trans ht.1.truncate
      have hrest := ih _ hback
      have hsound : m.Sound s (s₁.truncate s.out.size) (Parses m base.flags (.term t) pos none) :=
        ht.2
      simp only
      split at hrest
      · obtain ⟨kind', ms, hext, hsound'⟩ := hrest
        exact ⟨kind', ms, hext, hsound.trans hsound' fun h₁ h₂ => .choice_next (.node h₁) h₂⟩
      · exact ⟨hrest.1, hsound.trans hrest.2 fun h₁ h₂ => .choice_next (.node h₁) h₂⟩
      · trivial
    | fault f => trivial

/-- A fold may go on unless no round is left. -/
theorem any_le_iff_left {max : Option Nat} {folded : Nat} :
    max.any (· ≤ folded) = true ↔ max.map (· - folded) = some 0 := by
  cases max <;> simp [Nat.sub_eq_zero_iff_le]

theorem foldFrom_answers (heval : m.IsFaithful eval) {base : State} {tails : List (Kind × Term)}
    {max : Option Nat} (fuel : Nat) : ∀ folded pos s ns, base.Extends s ns →
      (foldFrom eval tails max base.out.size fuel folded pos s).Answers m base s []
        (Parses m base.flags (.rounds tails (max.map (· - folded)) ns) pos) := by
  induction fuel with
  | zero => exact fun _ _ _ _ _ => trivial
  | succ fuel ih =>
    intro folded pos s ns hs
    simp only [foldFrom, any_le_iff_left]
    by_cases hleft : max.map (· - folded) = some 0
    · rw [if_pos hleft, hleft]
      exact ⟨ns, hs, .refl .rounds_spent⟩
    · rw [if_neg hleft]
      have ht := tailFrom_answers heval pos tails s hs
      cases ho : tailFrom eval base.out.size pos tails s with
      | matched stop s₁ =>
        rw [ho] at ht
        obtain ⟨kind, ms, hext, hsound⟩ := ht
        refine (ih (folded + 1) stop s₁ _ hext).next hsound fun a h₁ h₂ => .rounds_more hleft h₁ ?_
        simpa [Option.map_map, Function.comp_def, Nat.sub_sub] using h₂
      | failed s₁ =>
        rw [ho] at ht
        exact ⟨ns, ht.1, ht.2.imp (.rounds_end hleft)⟩
      | fault f => trivial

/-- The work on a rule: its key is entered before and what came of it is noted behind. -/
theorem Sound.noted (key : MemoKey) (e : MemoEntry) {s s₁ s₂ entered : State} {p : Prop}
    (h : m.Sound entered s₁ p) (hs : entered.halted = s.halted)
    (hmemo : entered.memo = s.memo.insert key .inProgress) (hs₂ : s₂.halted = s₁.halted)
    (hmemo₂ : s₂.memo = s₁.memo.insert key e) (he : p → m.EntryTrue key e) :
    m.Sound s s₂ (m.EntryTrue key e) := by
  obtain ⟨hlive, htable, hnone⟩ := h
  rw [hs, ← hs₂] at hlive hnone
  rw [hmemo, ← hs₂] at htable
  refine ⟨hlive, fun h htrue => ?_, hnone⟩
  obtain ⟨htrue₂, hp⟩ := htable h (htrue.insert trivial)
  rw [hmemo₂]
  exact ⟨htrue₂.insert (he hp), he hp⟩

/-- **A rule is remembered as what it is.**  The body is evaluated while the rule counts as
being evaluated; what comes of it is closed by the rule's node and noted. -/
theorem enterRule_answers (heval : m.IsFaithful eval) {id : Nat} {rule : Rule} (pos : Pos)
    (s : State) (hrule : m.grammar.rules[id]? = some rule) :
    (enterRule eval rule ⟨id, pos, s.flags⟩ pos s).Answers m s s []
      (m.RuleParses s.flags id pos) := by
  simp only [enterRule]
  generalize hentered : State.mk s.out s.flags s.failure _ s.suppress s.steps s.exhausted
    (s.depth + 1) s.tooDeep (s.memo.insert ⟨id, pos, s.flags⟩ .inProgress) = entered
  have hbody := heval rule.body pos entered
  cases ho : eval rule.body pos entered with
  | matched stop s₁ =>
    rw [ho] at hbody
    subst hentered
    obtain ⟨ns, hext, hsound⟩ := hbody
    have hout : s.Extends { s₁ with contexts := s.contexts, depth := s₁.depth - 1 } ns :=
      ⟨hext.out, hext.flags, rfl, hext.suppress, by simp [hext.depth]⟩
    -- the rule's node, or none, is put around what the body matched
    cases hkind : rule.kind with
    | none =>
      have hclose : rule.close ns = ns := by simp [Rule.close, hkind]
      refine ⟨ns, ⟨hout.out, hout.flags, rfl, hout.suppress, hout.depth⟩, ?_⟩
      simp only [hout.outputFrom]
      exact Sound.noted ⟨id, pos, s.flags⟩ (.matched stop ns) hsound rfl rfl rfl rfl
        fun h => ⟨rule, _, hrule, h, by simp [hclose]⟩
    | some kind =>
      have hclose : rule.close ns = [.node kind ns] := by simp [Rule.close, hkind]
      have hwrap := hout.wrap kind
      refine ⟨[.node kind ns], ⟨hwrap.out, hwrap.flags, rfl, hwrap.suppress, hwrap.depth⟩, ?_⟩
      simp only [hwrap.outputFrom]
      exact Sound.noted ⟨id, pos, s.flags⟩ (.matched stop [.node kind ns]) hsound rfl rfl rfl rfl
        fun h => ⟨rule, _, hrule, h, by simp [hclose]⟩
  | failed s₁ =>
    rw [ho] at hbody
    subst hentered
    obtain ⟨hext, hsound⟩ := hbody
    have hout : s.Extends { s₁ with contexts := s.contexts, depth := s₁.depth - 1 } [] :=
      ⟨hext.out, hext.flags, rfl, hext.suppress, by simp [hext.depth]⟩
    have hback := hout.truncate
    -- a label changes the record of failures only
    cases hlabel : rule.label with
    | none =>
      refine ⟨⟨hback.out, hback.flags, rfl, hback.suppress, hback.depth⟩, ?_⟩
      exact Sound.noted ⟨id, pos, s.flags⟩ .failed hsound rfl rfl rfl rfl
        fun h => ⟨rule, none, hrule, h, rfl⟩
    | some label =>
      obtain ⟨failure, hnotes⟩ := State.notes_expectLabel
        (State.truncate { s₁ with contexts := s.contexts, depth := s₁.depth - 1 } s.out.size)
        pos s.failure label
      simp only [hnotes]
      refine ⟨⟨hback.out, hback.flags, rfl, hback.suppress, hback.depth⟩, ?_⟩
      exact Sound.noted ⟨id, pos, s.flags⟩ .failed hsound rfl rfl rfl rfl
        fun h => ⟨rule, none, hrule, h, rfl⟩
  | fault f => trivial

/-- Work that ends with a limit passed promises nothing. -/
theorem Sound.halt {s s' : State} {p : Prop} (h : s'.halted = true)
    (hnone : m.IsUnlimited → s.halted = false → s'.halted = false) : m.Sound s s' p :=
  ⟨fun hlive => by simp [hlive] at h, fun hlive => by simp [hlive] at h, hnone⟩

/-- What a true table says is so. -/
theorem Sound.known {s s' : State} {key : MemoKey} {e : MemoEntry}
    (hget : s.memo.get? key = some e) (hmemo : s'.memo = s.memo)
    (hhalted : s'.halted = s.halted) : m.Sound s s' (m.EntryTrue key e) := by
  unfold Sound
  rw [hmemo, hhalted]
  exact ⟨id, fun _ htrue => ⟨htrue, htrue key e hget⟩, fun _ => id⟩

/-- A rule is applied in place of its body: entered, or answered from the table. -/
theorem applyRule_answers (heval : m.IsFaithful eval) {id : Nat} {rule : Rule} (pos : Pos)
    (s : State) (hrule : m.grammar.rules[id]? = some rule) :
    (m.applyRule eval id rule pos s).Answers m s s [] (m.RuleParses s.flags id pos) := by
  unfold applyRule
  split
  · next hhalted => exact ⟨.refl s, .halt hhalted fun _ hlive => hlive⟩
  · apply Outcome.Answers.of_steps
    simp only
    split
    · next hspent =>
      refine ⟨⟨by simp, rfl, rfl, rfl, rfl⟩, .halt rfl fun hnone _ => ?_⟩
      simp [hnone.1] at hspent
    · split
      · next hdeep =>
        refine ⟨⟨by simp, rfl, rfl, rfl, rfl⟩, .halt (by simp [State.halted]) fun hnone _ => ?_⟩
        simp [hnone.2] at hdeep
      · have henter := enterRule_answers heval pos { s with steps := s.steps + 1 } hrule
        split
        · exact henter
        · trivial
        · next hget =>
          split
          · exact ⟨.refl _, .known hget rfl rfl⟩
          · exact henter
        · next stop nodes hget =>
          split
          · exact ⟨nodes, .append _ nodes, .known hget rfl rfl⟩
          · exact henter

/-! ## Terms -/

section

variable (heval : m.IsFaithful eval) (fuel : Nat) (body : Term) (pos : Pos) (s : State)
include heval

theorem opt_answers : (m.step fuel eval (.opt body) pos s).Answers m s s []
    (Parses m s.flags (.term (.opt body)) pos) := by
  have hbody := heval body pos s
  simp only [step]
  cases ho : eval body pos s with
  | matched stop s' =>
    rw [ho] at hbody
    obtain ⟨ns, hext, hsound⟩ := hbody
    exact ⟨ns, hext, hsound.imp .opt⟩
  | failed s' =>
    rw [ho] at hbody
    exact ⟨[], hbody.1.truncate, hbody.2.imp .opt⟩
  | fault f => trivial

theorem plus_answers : (m.step fuel eval (.plus body) pos s).Answers m s s []
    (Parses m s.flags (.term (.plus body)) pos) := by
  have hbody := heval body pos s
  simp only [step]
  cases ho : eval body pos s with
  | matched mid s' =>
    rw [ho] at hbody
    obtain ⟨ns, hext, hsound⟩ := hbody
    have hrest := repeatFrom_answers heval (t := body) fuel mid s' _ hext
    exact hrest.after hsound fun a h₁ h₂ => .plus_more h₁ h₂
  | failed s' =>
    rw [ho] at hbody
    exact ⟨hbody.1, hbody.2.imp .plus_fail⟩
  | fault f => trivial

theorem ahead_answers : (m.step fuel eval (.ahead body) pos s).Answers m s s []
    (Parses m s.flags (.term (.ahead body)) pos) := by
  have hbody := heval body pos s
  simp only [step]
  cases ho : eval body pos s with
  | matched stop s' =>
    rw [ho] at hbody
    obtain ⟨ns, hext, hsound⟩ := hbody
    exact ⟨[], hext.truncate, hsound.imp .ahead⟩
  | failed s' =>
    rw [ho] at hbody
    exact ⟨hbody.1.truncate, hbody.2.imp .ahead⟩
  | fault f => trivial

theorem notAhead_answers : (m.step fuel eval (.notAhead body) pos s).Answers m s s []
    (Parses m s.flags (.term (.notAhead body)) pos) := by
  have hbody := heval body pos { s with suppress := s.suppress + 1 }
  simp only [step]
  cases ho : eval body pos { s with suppress := s.suppress + 1 } with
  | matched stop s' =>
    rw [ho] at hbody
    obtain ⟨ns, hext, hsound⟩ := hbody
    exact ⟨hext.of_suppressed.truncate, hsound.imp .notAhead⟩
  | failed s' =>
    rw [ho] at hbody
    exact ⟨[], hbody.1.of_suppressed.truncate, hbody.2.imp .notAhead⟩
  | fault f => trivial

theorem node_answers (kind : Kind) : (m.step fuel eval (.node kind body) pos s).Answers m s s []
    (Parses m s.flags (.term (.node kind body)) pos) := by
  have hbody := heval body pos s
  simp only [step]
  cases ho : eval body pos s with
  | matched stop s' =>
    rw [ho] at hbody
    obtain ⟨ns, hext, hsound⟩ := hbody
    exact ⟨[.node kind ns], hext.wrap kind, hsound.imp .node⟩
  | failed s' =>
    rw [ho] at hbody
    exact ⟨hbody.1, hbody.2.imp .node⟩
  | fault f => trivial

theorem scoped_answers (set clear : Flags) :
    (m.step fuel eval (.scoped set clear body) pos s).Answers m s s []
      (Parses m s.flags (.term (.scoped set clear body)) pos) := by
  have hbody := heval body pos { s with flags := (s.flags.union set).diff clear }
  simp only [step]
  cases ho : eval body pos { s with flags := (s.flags.union set).diff clear } with
  | matched stop s' =>
    rw [ho] at hbody
    obtain ⟨ns, hext, hsound⟩ := hbody
    exact ⟨ns, hext.of_flags, hsound.imp .scope⟩
  | failed s' =>
    rw [ho] at hbody
    exact ⟨hbody.1.of_flags, hbody.2.imp .scope⟩
  | fault f => trivial

theorem fold_answers (tails : List (Kind × Term)) (max : Option Nat) :
    (m.step fuel eval (.fold body tails max) pos s).Answers m s s []
      (Parses m s.flags (.term (.fold body tails max)) pos) := by
  have hoperand := heval body pos s
  simp only [step]
  cases ho : eval body pos s with
  | matched mid s' =>
    rw [ho] at hoperand
    obtain ⟨ns, hext, hsound⟩ := hoperand
    refine (foldFrom_answers heval _ 0 mid s' ns hext).next hsound fun a h₁ h₂ =>
      .fold_rounds h₁ ?_
    simpa using h₂
  | failed s' =>
    rw [ho] at hoperand
    exact ⟨hoperand.1, hoperand.2.imp .fold_fail⟩
  | fault f => trivial

theorem ref_answers (r : RuleRef) : (m.step fuel eval (.ref r) pos s).Answers m s s []
    (Parses m s.flags (.term (.ref r)) pos) := by
  simp only [step]
  cases hid : m.grammar.resolve? r with
  | none => exact ⟨.refl s, .refl (.ref_none hid)⟩
  | some id =>
    simp only
    cases hrule : m.grammar.rules[id]? with
    | none => trivial
    | some rule =>
      simp only
      refine (applyRule_answers heval pos s hrule).imp fun a h => ?_
      obtain ⟨rule', b, hrule', hparses, rfl⟩ := h
      exact .ref_rule hid hrule' hparses

/-- One step of evaluation is faithful when the evaluation of the terms inside is: a case
for each constructor, by the rules of `Parses` for it. -/
theorem step_isFaithful : m.IsFaithful (m.step fuel eval) := by
  intro t pos s
  cases t with
  | token _ | split _ | word _ | any | ended =>
    exact (m.step_readsAs pos s fuel eval rfl).answers (.terminal rfl)
  | seq items => exact seqFrom_answers heval items pos s [] (.refl s)
  | choice alternatives => exact choiceFrom_answers heval alternatives s (.refl s)
  | opt body => exact opt_answers heval fuel body pos s
  | star body => exact repeatFrom_answers heval fuel pos s [] (.refl s)
  | plus body => exact plus_answers heval fuel body pos s
  | ahead body => exact ahead_answers heval fuel body pos s
  | notAhead body => exact notAhead_answers heval fuel body pos s
  | ref r => exact ref_answers heval fuel pos s r
  | node kind body => exact node_answers heval fuel body pos s kind
  | «scoped» set clear body => exact scoped_answers heval fuel body pos s set clear
  | gate flags whenSet body =>
    simp only [step]
    split
    · next hopen => exact (heval body pos s).imp fun a => .gate_open hopen
    · next hshut => exact ⟨.refl s, .refl (.gate_shut hshut)⟩
  | fold operand tails max => exact fold_answers heval fuel operand pos s tails max

end

/-- **Every evaluation is faithful**, whatever fuel it is given. -/
theorem eval_isFaithful (m : Machine) (fuel : Nat) : m.IsFaithful (m.eval fuel) := by
  induction fuel with
  | zero => exact fun _ _ _ => trivial
  | succ fuel ih => exact step_isFaithful ih fuel

/-! ## Runs -/

/-- What a run answers, unless a limit has cut it short. -/
def Run.answer? (r : Run) : Option Answer :=
  match r.result with
  | .ok parsed => some (some parsed)
  | .error (.failure _) => some none
  | .error _ => none

theorem ended_answer? {s : State} {result : Except Stop (List Match × Pos)} :
    (runWith.ended m s result).answer? =
      if s.halted then none else Run.answer? ⟨result, s⟩ := by
  cases hspent : s.exhausted <;> cases hdeep : s.tooDeep <;>
    simp [runWith.ended, State.halted, Run.answer?, hspent, hdeep]

/-- What is seen of a run that is computed is seen of a run. -/
theorem exists_run_of_toOption {fuel : Nat} {root : Term} {s : State} {α : Type} {see : Run → α}
    {a : α} (h : (m.runWith fuel root s).toOption.map see = some a) :
    ∃ r, m.runWith fuel root s = .ok r ∧ see r = a := by
  cases hrun : m.runWith fuel root s with
  | error f =>
    rw [hrun] at h
    cases h
  | ok r =>
    rw [hrun] at h
    exact ⟨r, rfl, Option.some.inj h⟩

/-- What a run answers is so, when it began with a table that said only what is so. -/
theorem runWith_answers {fuel : Nat} {root : Term} {s : State} {r : Run}
    (htrue : m.MemoTrue s.memo) (hrun : m.runWith fuel root s = .ok r) :
    (∀ a, r.answer? = some a → Parses m s.flags (.term root) {} a) ∧
      (m.IsUnlimited → s.halted = false → r.answer?.isSome) := by
  have hroot := m.eval_isFaithful fuel root {} { s with out := #[] }
  simp only [runWith] at hrun
  cases ho : m.eval fuel root {} { s with out := #[] } with
  | matched stop s' =>
    rw [ho] at hroot hrun
    obtain ⟨ns, hext, -, hmemo, hnone⟩ := hroot
    cases hrun
    have hout : s'.out.toList = ns := by simpa using hext.out
    rw [ended_answer?]
    refine ⟨fun a ha => ?_, fun hlim hlive => by simp [hnone hlim hlive, Run.answer?]⟩
    split at ha
    · cases ha
    · next hlive =>
      cases ha
      rw [hout]
      exact (hmemo (by simpa using hlive) htrue).2
  | failed s' =>
    rw [ho] at hroot hrun
    obtain ⟨-, -, hmemo, hnone⟩ := hroot
    cases hrun
    rw [ended_answer?]
    have hsame : ({ s' with failure := if s'.halted then s'.failure else {} } : State).halted =
        s'.halted := rfl
    rw [hsame]
    refine ⟨fun a ha => ?_, fun hlim hlive => by simp [hnone hlim hlive, Run.answer?]⟩
    split at ha
    · cases ha
    · next hlive =>
      cases ha
      exact (hmemo (by simpa using hlive) htrue).2
  | fault f =>
    rw [ho] at hrun
    cases hrun

/-- **Packrat evaluation is plain evaluation.**  A run with no limit, with an empty table
and any fuel that suffices, answers what the plain meaning of the root says, and nothing
else is an answer. -/
theorem runWith_eq_plain {fuel : Nat} {root : Term} {r : Run} (hlim : m.IsUnlimited)
    (hrun : m.runWith fuel root {} = .ok r) :
    ∃ a, r.answer? = some a ∧ ∀ b, Parses m {} (.term root) {} b ↔ b = a := by
  obtain ⟨hanswers, hsome⟩ := runWith_answers m.memoTrue_empty hrun
  obtain ⟨a, ha⟩ := Option.isSome_iff_exists.mp (hsome hlim rfl)
  have hparses := hanswers a ha
  exact ⟨a, ha, fun b => ⟨fun hb => hb.unique hparses, fun hb => hb ▸ hparses⟩⟩

/-- A grammar of one rule: parentheses, around nothing or around such parentheses again. -/
def nest : Grammar :=
  ⟨#[{ name := "nest", kind := some .parenExpr,
       body := .seq [.token .lParen, .opt (.ref (.linked 0)), .token .rParen] }]⟩

/-- The conditions can be met: the plain meaning of two pairs of parentheses. -/
theorem runWith_eq_plain_nest :
    let m : Machine := ⟨nest, #[⟨.lParen, "("⟩, ⟨.lParen, "("⟩, ⟨.rParen, ")"⟩, ⟨.rParen, ")"⟩,
      ⟨.eof, ""⟩], {}⟩
    let inner : Match := .node .parenExpr [.token 1 .lParen none, .token 2 .rParen none]
    let outer : Match := .node .parenExpr [.token 0 .lParen none, inner, .token 3 .rParen none]
    Parses m {} (.term (.ref (.linked 0))) {} (some ([outer], ⟨4, 0⟩)) := by
  intro m inner outer
  have hrun : (m.runWith 12 (.ref (.linked 0)) {}).toOption.bind (·.answer?) =
      some (some ([outer], ⟨4, 0⟩)) := by cbv
  obtain ⟨r, hr, hanswer⟩ := Option.bind_eq_some_iff.mp hrun
  have hok : m.runWith 12 (.ref (.linked 0)) {} = .ok r := by
    cases h : m.runWith 12 (.ref (.linked 0)) {} <;> simp_all [Except.toOption]
  obtain ⟨a, ha, hplain⟩ := runWith_eq_plain ⟨rfl, rfl⟩ hok
  rw [hanswer] at ha
  cases ha
  exact (hplain _).mpr rfl

end Machine
end Peg
end Packrat
