/-
# What is reported when rules are evaluated again

A machine that reuses nothing (`Machine.afresh`) gives the same answers, but it may report more:
answering a rule from the table repeats its match and none of its requests.  These may have been
made where nothing is noted, inside a negative lookahead, or a label may have taken their place.

| grammar | record with reuse, beside the record without |
| --- | --- |
| any | of an earlier place, or of the same with no more expected |
| no rule in a negative lookahead | of the same place |
| the same, and no label expected | the same |

The first line needs no more than that records grow.  For the others it is shown that rules in the
table are *settled*: evaluating one again adds nothing that is in view (`Machine.Settles`).  That
rests on a second comparison, of the evaluation of a body with another from any later record, so two
relations are carried along (`Machine.Echoes`).
-/

import Packrat.Proofs.Peg.Computed
import Packrat.Proofs.Peg.Record

namespace Packrat
namespace Peg

namespace Term

/-- The term applies a rule. -/
def isRef : Term → Bool
  | .ref _ => true
  | _ => false

/-- No rule is applied in the term. -/
def appliesNone (t : Term) : Bool := t.parts.all fun u => !u.isRef

/-- The term is no negative lookahead in which a rule is applied. -/
def isLoud : Term → Bool
  | .notAhead body => body.appliesNone
  | _ => true

/-- No rule is applied in a negative lookahead. -/
def isOutspoken (t : Term) : Bool := t.parts.all isLoud

/-- Rules may be applied, unless a negative lookahead is around. -/
def SpeaksIn (n : Nat) (t : Term) : Prop :=
  t.isOutspoken = true ∧ (0 < n → t.appliesNone = true)

theorem speaksIn_isInherited : IsInherited SpeaksIn where
  child {n t c} h _ hc := by
    have hparts : ∀ u ∈ c.parts, u ∈ t.parts := fun u hu => mem_parts_iff.mpr (.inr ⟨c, hc, hu⟩)
    refine ⟨List.all_eq_true.mpr fun u hu => List.all_eq_true.mp h.1 u (hparts u hu), fun hn => ?_⟩
    exact List.all_eq_true.mpr fun u hu => List.all_eq_true.mp (h.2 hn) u (hparts u hu)
  lookahead {n body} h := by
    refine ⟨List.all_eq_true.mpr fun u hu => List.all_eq_true.mp h.1 u ?_, fun _ => ?_⟩
    · exact mem_parts_iff.mpr (.inr ⟨body, by simp [children], hu⟩)
    · exact List.all_eq_true.mp h.1 _ (self_mem_parts _)

/-- Rules are applied outside of negative lookaheads only. -/
theorem SpeaksIn.eq_zero {n : Nat} {r : RuleRef} (h : SpeaksIn n (.ref r)) : n = 0 := by
  refine Nat.eq_zero_of_not_pos fun hn => ?_
  have hnone := List.all_eq_true.mp (h.2 hn) _ (self_mem_parts _)
  simp [isRef] at hnone

end Term

namespace Outcome

/-- What is left is as each of some properties says. -/
theorem leaves_forall {α : Sort*} {o : Outcome} {P : α → State → Prop}
    (h : ∀ a, o.Leaves (P a)) : o.Leaves fun s => ∀ a, P a s := by
  cases o with
  | matched stop s => exact h
  | failed s => exact h
  | fault f => trivial

theorem Leaves.and {o : Outcome} {P Q : State → Prop} (h : o.Leaves P) (h' : o.Leaves Q) :
    o.Leaves fun s => P s ∧ Q s := by
  cases o with
  | matched stop s => exact ⟨h, h'⟩
  | failed s => exact ⟨h, h'⟩
  | fault f => trivial

/-- What ties two evaluations, told of the second. -/
theorem Alongside.leaves {R : State → State → Prop} {o o' : Outcome} (h : o.Alongside R o') :
    o.Leaves fun s => o'.Leaves (R s) := by
  cases o with
  | matched stop s =>
    cases o' with
    | matched stop' s' => exact h.2
    | failed s' => exact absurd h id
    | fault f => trivial
  | failed s =>
    cases o' with
    | matched stop' s' => exact absurd h id
    | failed s' => exact h
    | fault f => trivial
  | fault f => trivial

end Outcome

namespace Machine

/-- The machine that evaluates a rule again wherever it is applied. -/
abbrev afresh (m : Machine) : Machine := m.under { m.limits with reuse := false }

variable {m : Machine} {limits : Limits} {f : Flags} {n id : Nat} {rule : Rule} {pos : Pos}
  {s s' : State} {eval eval' : Evaluator}

/-! ## The same answers -/

theorem answer?_under (k : Nat) : (m.under limits).answer? k = m.answer? k := by
  induction k with
  | zero => rfl
  | succ k ih =>
    simp only [answer?, ih]
    rfl

/-- Limits have no part in the plain meaning. -/
theorem parses_under {goal : Goal} {a : Answer} :
    Parses (m.under limits) f goal pos a ↔ Parses m f goal pos a := by
  simp only [parses_iff_answer?, answer?_under]

theorem ruleParses_under {a : Answer} :
    (m.under limits).RuleParses f id pos a ↔ m.RuleParses f id pos a := by
  simp only [RuleParses, parses_under]
  rfl

theorem RuleParses.unique {a b : Answer} (h : m.RuleParses f id pos a)
    (h' : m.RuleParses f id pos b) : a = b := by
  obtain ⟨rule, c, hrule, hparses, rfl⟩ := h
  obtain ⟨rule', c', hrule', hparses', rfl⟩ := h'
  cases hrule.symm.trans hrule'
  rw [hparses.unique hparses']

/-- A state with given flags and so many negative lookaheads around, in which no limit has been
passed and the table says only what is so. -/
structure InOrder (m : Machine) (f : Flags) (n : Nat) (s : State) : Prop where
  flags : s.flags = f
  muted : s.suppress = n
  live : s.halted = false
  memo : m.MemoTrue s.memo

/-- It does not matter what has been matched, asked for and counted. -/
theorem InOrder.of_same (h : m.InOrder f n s) (hflags : s'.flags = s.flags)
    (hsuppress : s'.suppress = s.suppress) (hhalted : s'.halted = s.halted)
    (hmemo : s'.memo = s.memo) : m.InOrder f n s' :=
  ⟨hflags.trans h.flags, hsuppress.trans h.muted, hhalted.trans h.live, hmemo ▸ h.memo⟩

theorem InOrder.expect (h : m.InOrder f n s) (pos : Pos) (what : Expected) :
    m.InOrder f n (s.expect pos what) := by
  obtain ⟨failure, heq⟩ := s.notes_expect pos what
  rw [heq]
  exact h.of_same rfl rfl rfl rfl

theorem InOrder.flagged (h : m.InOrder f n s) (f' : Flags) : m.InOrder f' n (flagged s f') :=
  ⟨rfl, h.muted, h.live, h.memo⟩

theorem InOrder.mute (h : m.InOrder f n s) : m.InOrder f (n + 1) (Machine.muted s) :=
  ⟨h.flags, congrArg (· + 1) h.muted, h.live, h.memo⟩

theorem InOrder.unmute (h : m.InOrder f (n + 1) s) :
    m.InOrder f n { s with suppress := s.suppress - 1 } :=
  ⟨h.flags, by simp [h.muted], h.live, h.memo⟩

theorem InOrder.entering (h : m.InOrder f n s) (rule : Rule) (key : MemoKey) :
    m.InOrder f n (entering pos s rule key) :=
  ⟨h.flags, h.muted, h.live, h.memo.insert trivial⟩

end Machine

/-- An evaluation without limits leaves a state in order, in the contexts that it began in. -/
theorem Outcome.Answers.inOrder {m : Machine} {f : Flags} {n : Nat} {s : State} {o : Outcome}
    {P : Answer → Prop} (h : o.Answers m s s [] P) (hlim : m.IsUnlimited) (hs : m.InOrder f n s) :
    o.Leaves fun s' => m.InOrder f n s' ∧ s'.contexts = s.contexts := by
  cases o with
  | matched stop s' =>
    obtain ⟨ms, hext, -, hmemo, hlive⟩ := h
    have hlive' := hlive hlim hs.live
    exact ⟨⟨hext.flags.trans hs.flags, hext.suppress.trans hs.muted, hlive',
      (hmemo hlive' hs.memo).1⟩, hext.contexts⟩
  | failed s' =>
    obtain ⟨hext, -, hmemo, hlive⟩ := h
    have hlive' := hlive hlim hs.live
    exact ⟨⟨hext.flags.trans hs.flags, hext.suppress.trans hs.muted, hlive',
      (hmemo hlive' hs.memo).1⟩, hext.contexts⟩
  | fault f => trivial

namespace Machine

variable {m : Machine} {f : Flags} {n id fuel fuel' : Nat} {rule : Rule} {key : MemoKey}
  {pos q : Pos} {s s' : State} {eval eval' : Evaluator}

/-! ## Rules, with the table and without -/

theorem applyRule_of_unlimited (hlim : m.IsUnlimited) (hlive : s.halted = false) :
    m.applyRule eval id rule pos s =
      consult m.limits.reuse eval rule ⟨id, pos, s.flags⟩ pos (stepped s) := by
  rw [applyRule_eq m eval pos s id rule hlive]
  simp [hlim.1, hlim.2]

/-- A machine that reuses nothing enters the rule, if it does not go wrong. -/
theorem applyRule_afresh (eval : Evaluator) (rule : Rule) (id : Nat) (pos : Pos)
    (hlim : m.IsUnlimited) (hlive : s.halted = false) :
    (∃ f, m.afresh.applyRule eval id rule pos s = .fault f) ∨
      m.afresh.applyRule eval id rule pos s =
        enterRule eval rule ⟨id, pos, s.flags⟩ pos (stepped s) := by
  rw [applyRule_of_unlimited (m := m.afresh) hlim hlive]
  change (∃ f, consult false _ _ _ _ _ = .fault f) ∨ consult false _ _ _ _ _ = _
  unfold consult
  split
  · exact .inl ⟨_, rfl⟩
  · simp_all
  · simp_all
  · exact .inr rfl

/-- A rule that is entered without the table answers the same rule. -/
theorem enterRule_afresh (pos : Pos) (hrule : m.grammar.rules[id]? = some rule)
    (hfaith : m.afresh.IsFaithful eval') (hs' : m.afresh.InOrder f n s') :
    (enterRule eval' rule ⟨id, pos, f⟩ pos s').Answers m.afresh s' s' []
      (m.afresh.RuleParses f id pos) := by
  have hrule' : m.afresh.grammar.rules[id]? = some rule := hrule
  have hanswers := enterRule_answers hfaith pos s' hrule'
  rwa [hs'.flags] at hanswers

/-- A rule that the table answers, beside the same rule evaluated again: they end in the same
way. -/
theorem known_alongside (hlim : m.IsUnlimited) (hrule : m.grammar.rules[id]? = some rule)
    (hfaith : m.afresh.IsFaithful eval') (hs' : m.afresh.InOrder f n s') {P : State → Prop}
    (hP : (enterRule eval' rule ⟨id, pos, f⟩ pos s').Leaves P) {o : Outcome} {a : Answer}
    (ha : m.RuleParses f id pos a)
    (ho : o = .failed s ∧ a = none ∨ ∃ stop ns, o = .matched stop s ∧ a = some (ns, stop)) :
    o.Alongside (fun s₁ s₁' => s₁ = s ∧ P s₁') (enterRule eval' rule ⟨id, pos, f⟩ pos s') := by
  have hanswers := enterRule_afresh pos hrule hfaith hs'
  cases he : enterRule eval' rule ⟨id, pos, f⟩ pos s' with
  | matched stop' s₁' =>
    rw [he] at hanswers hP
    obtain ⟨ms, -, -, hmemo, hlive⟩ := hanswers
    have hparses := (hmemo (hlive hlim hs'.live) hs'.memo).2
    have hsame := ha.unique (ruleParses_under.mp hparses)
    rcases ho with ⟨-, rfl⟩ | ⟨stop, ns, rfl, rfl⟩
    · cases hsame
    · cases hsame
      exact ⟨rfl, rfl, hP⟩
  | failed s₁' =>
    rw [he] at hanswers hP
    obtain ⟨-, -, hmemo, hlive⟩ := hanswers
    have hparses := (hmemo (hlive hlim hs'.live) hs'.memo).2
    have hsame := ha.unique (ruleParses_under.mp hparses)
    rcases ho with ⟨rfl, -⟩ | ⟨stop, ns, -, rfl⟩
    · exact ⟨rfl, hP⟩
    · cases hsame
  | fault f => exact Outcome.alongside_of_fault _ f

/-- A rule that is applied with the table and without: it is entered in both runs, or answered
from the table in one and entered in the other. -/
theorem applyRule_alongside (hlim : m.IsUnlimited) (hrule : m.grammar.rules[id]? = some rule)
    (hfaith : m.afresh.IsFaithful eval') {R : State → State → Prop} (hs : m.InOrder s.flags n s)
    (hs' : m.afresh.InOrder s.flags n s')
    (henter : (enterRule eval rule ⟨id, pos, s.flags⟩ pos (stepped s)).Alongside R
      (enterRule eval' rule ⟨id, pos, s.flags⟩ pos (stepped s')))
    (hknown : ∀ e, s.memo.get? ⟨id, pos, s.flags⟩ = some e → e ≠ .inProgress →
      (enterRule eval' rule ⟨id, pos, s.flags⟩ pos (stepped s')).Leaves fun s₁ =>
        ∀ out, R { stepped s with out := out } s₁) :
    (m.applyRule eval id rule pos s).Alongside R (m.afresh.applyRule eval' id rule pos s') := by
  rcases applyRule_afresh eval' rule id pos hlim hs'.live with
    ⟨f, hf⟩ | hfresh
  · rw [hf]
    exact Outcome.alongside_of_fault _ f
  · have hcounted : m.afresh.InOrder s.flags n (stepped s') := hs'.of_same rfl rfl rfl rfl
    rw [hfresh, applyRule_of_unlimited hlim hs.live, hs'.flags]
    unfold consult
    split
    · exact Outcome.alongside_fault _ _
    · next hget _ =>
      refine (known_alongside hlim hrule hfaith hcounted (hknown _ hget (by simp))
        (hs.memo _ _ hget) (.inl ⟨rfl, rfl⟩)).imp ?_
      rintro s₁ s₁' ⟨rfl, hR⟩
      exact hR s.out
    · next stop ns hget _ =>
      refine (known_alongside hlim hrule hfaith hcounted (hknown _ hget (by simp))
        (hs.memo _ _ hget) (.inr ⟨stop, ns, rfl, rfl⟩)).imp ?_
      rintro s₁ s₁' ⟨rfl, hR⟩
      exact hR _
    · exact henter

@[simp] theorem failure_leavingMatched (stop : Pos) :
    (leavingMatched s rule key stop s').failure = s'.failure := by
  unfold leavingMatched
  cases rule.kind <;> rfl

theorem contexts_leavingMatched (stop : Pos) :
    (leavingMatched s rule key stop s').contexts = s.contexts := by
  unfold leavingMatched
  cases rule.kind <;> rfl

theorem memo_leavingFailed (pos : Pos) (s s' : State) (rule : Rule) (key : MemoKey) :
    (leavingFailed pos s rule key s').memo = s'.memo.insert key .failed := by
  unfold leavingFailed
  cases rule.label with
  | none => rfl
  | some label =>
    obtain ⟨failure, h⟩ :=
      State.notes_expectLabel ((leaving s s').truncate s.out.size) pos s.failure label
    simp only [h]
    rfl

theorem memo_leavingMatched (s s' : State) (rule : Rule) (key : MemoKey) (stop : Pos) :
    ∃ ns, (leavingMatched s rule key stop s').memo = s'.memo.insert key (.matched stop ns) := by
  unfold leavingMatched
  cases rule.kind <;> exact ⟨_, rfl⟩

/-- A rule that fails changes the record only by its label. -/
theorem failure_leavingFailed : (leavingFailed pos s rule key s').failure = match rule.label with
    | some label =>
      (((leaving s s').truncate s.out.size).expectLabel pos s.failure label).failure
    | none => s'.failure := by
  unfold leavingFailed
  cases rule.label <;> rfl

theorem leavingFailed_eq (pos : Pos) (s : State) (rule : Rule) (key : MemoKey) (s' : State) :
    ∃ failure, leavingFailed pos s rule key s' =
    { (leaving s s').truncate s.out.size with
      failure := failure
      memo := s'.memo.insert key .failed } := by
  unfold leavingFailed
  cases rule.label with
  | none => exact ⟨_, rfl⟩
  | some label =>
    obtain ⟨failure, heq⟩ :=
      ((leaving s s').truncate s.out.size).notes_expectLabel pos s.failure label
    exact ⟨failure, by simp only [heq]; rfl⟩

/-! ## No more is reported -/

/-- Two states in order, in which the first record is within the second. -/
structure Reports (m : Machine) (n : Nat) (s s' : State) : Prop where
  order : m.InOrder s.flags n s
  fresh : m.afresh.InOrder s.flags n s'
  within : s.failure.IsWithin s'.failure

theorem reports_isSteadfast (m : Machine) : State.IsSteadfast m.Reports where
  flags h := h.fresh.flags
  output h out out' := ⟨h.order.of_same rfl rfl rfl rfl, h.fresh.of_same rfl rfl rfl rfl, h.within⟩
  expect {n s s'} h pos what := by
    have hflags : (s.expect pos what).flags = s.flags := (h.order.expect pos what).flags
    refine ⟨hflags ▸ h.order.expect pos what, hflags ▸ h.fresh.expect pos what, ?_⟩
    exact State.isWithin_expect (h.fresh.muted.trans h.order.muted.symm) h.within
  flagged h f := ⟨h.order.flagged f, h.fresh.flagged f, h.within⟩
  muted h := ⟨h.order.mute, h.fresh.mute, h.within⟩
  unmuted h := ⟨h.order.unmute, h.fresh.unmute, h.within⟩

/-- A rule that is entered in both runs. -/
theorem enterRule_reports (hlim : m.IsUnlimited) (hrule : m.grammar.rules[id]? = some rule)
    (heval : GoAlongside (fun _ _ => True) m.Reports (m.eval fuel) (m.afresh.eval fuel'))
    (hs : m.Reports n s s') :
    (enterRule (m.eval fuel) rule ⟨id, pos, s.flags⟩ pos s).Alongside (m.Reports n)
      (enterRule (m.afresh.eval fuel') rule ⟨id, pos, s.flags⟩ pos s') := by
  have hbody := (heval n rule.body pos (entering pos s rule ⟨id, pos, s.flags⟩)
    (entering pos s' rule ⟨id, pos, s.flags⟩) trivial
    ⟨hs.order.entering rule ⟨id, pos, s.flags⟩, hs.fresh.entering rule ⟨id, pos, s.flags⟩,
      hs.within⟩).and_leaves (S := fun s₁ s₁' => (s₁'.suppress = s₁.suppress ∧
        s₁.failure.IsWithin s₁'.failure) ∧
        s.failure.Precedes s₁.failure ∧ s'.failure.Precedes s₁'.failure)
    (eval_precedes m fuel s.failure rule.body pos _ (.refl _))
    (eval_precedes m.afresh fuel' s'.failure rule.body pos _ (.refl _))
    fun s₁ s₁' h hleft hright =>
      ⟨⟨h.fresh.muted.trans h.order.muted.symm, h.within⟩, hleft, hright⟩
  have hraw : (enterRule (m.eval fuel) rule ⟨id, pos, s.flags⟩ pos s).Alongside
      (fun s₁ s₁' => s₁.failure.IsWithin s₁'.failure)
      (enterRule (m.afresh.eval fuel') rule ⟨id, pos, s.flags⟩ pos s') := by
    rw [enterRule_eq, enterRule_eq]
    refine hbody.resume (fun stop s₁ s₁' h => ⟨rfl, ?_⟩) fun s₁ s₁' h => ?_
    · change Failure.IsWithin _ _
      rw [failure_leavingMatched, failure_leavingMatched]
      exact h.1.2
    · change Failure.IsWithin _ _
      rw [failure_leavingFailed, failure_leavingFailed]
      cases rule.label with
      | none => exact h.1.2
      | some label => exact State.isWithin_expectLabel h.1.1 hs.within h.1.2 h.2.1 h.2.2
  have hanswers := enterRule_answers (m.eval_isFaithful fuel) pos s hrule
  have hanswers' := enterRule_afresh pos hrule (m.afresh.eval_isFaithful fuel') hs.fresh
  refine hraw.and_leaves (hanswers.inOrder hlim hs.order) (hanswers'.inOrder hlim hs.fresh)
    fun s₁ s₁' hwithin hleft hright => ?_
  exact ⟨hleft.1.flags.symm ▸ hleft.1, hleft.1.flags.symm ▸ hright.1, hwithin⟩

/-- **What is on record is on record without reuse, too**, or overtaken. -/
theorem eval_reports (hlim : m.IsUnlimited) (fuel fuel' : Nat) :
    GoAlongside (fun _ _ => True) m.Reports (m.eval fuel) (m.afresh.eval fuel') := by
  refine eval_alongside (ι := Unit) (R := fun _ => m.Reports) (fun _ => reports_isSteadfast m)
    ⟨fun _ _ _ => trivial, fun _ => trivial⟩ ?_ fuel fuel' ()
  intro fuel heval fuel' _ n r id rule pos s s' _ _ hrule hs
  have hcounted : m.Reports n (stepped s) (stepped s') :=
    ⟨hs.order.of_same rfl rfl rfl rfl, hs.fresh.of_same rfl rfl rfl rfl, hs.within⟩
  have hanswers := enterRule_afresh pos hrule (m.afresh.eval_isFaithful fuel') hcounted.fresh
  refine applyRule_alongside hlim hrule (m.afresh.eval_isFaithful fuel') hs.order hs.fresh
    (enterRule_reports hlim hrule (heval fuel' ()) hcounted) fun e _ _ => ?_
  -- a rule that is known asks for nothing; evaluated again, it adds to the record
  have hgrows := enterRule_precedes (eval_precedes m.afresh fuel') rule ⟨id, pos, s.flags⟩ pos
    (stepped s') (.refl _)
  exact (hgrows.and (hanswers.inOrder hlim hcounted.fresh)).imp fun s₁ h out =>
    ⟨hcounted.order.of_same rfl rfl rfl rfl, h.2.1, hs.within.trans h.1.isWithin⟩

/-! ## Where no rule is applied in a negative lookahead -/

/-- Evaluating a rule again, with a record to which `F` is known, adds nothing to it that is in
view. -/
def Settles (m : Machine) (q : Pos) (F : Failure) (key : MemoKey) : Prop :=
  ∀ rule, m.grammar.rules[key.rule]? = some rule → ∀ fuel s, m.afresh.InOrder key.flags 0 s →
    F.KnownAt q s.failure →
    (enterRule (m.afresh.eval fuel) rule key key.pos s).Leaves fun s' =>
      s.failure.AgreesAt q s'.failure

theorem Settles.later {F G : Failure} (h : m.Settles q F key) (hlater : F.KnownAt q G) :
    m.Settles q G key :=
  fun rule hrule fuel s hs hknown => h rule hrule fuel s hs (hlater.trans hknown)

/-- How the record of the second run is tied to the first: it agrees with the first, in the same
contexts; or it still agrees with a record `G`, if the first is known to that. -/
def Tells (q : Pos) (i : Option Failure) (s s' : State) : Prop :=
  match i with
  | none => s'.contexts = s.contexts ∧ s.failure.AgreesAt q s'.failure
  | some G => s.failure.KnownAt q G → G.AgreesAt q s'.failure

/-- Two states in order, with records that are tied.  The rules that the table of the first answers
are settled. -/
structure Echoes (m : Machine) (q : Pos) (i : Option Failure) (n : Nat) (s s' : State) : Prop where
  order : m.InOrder s.flags n s
  fresh : m.afresh.InOrder s.flags n s'
  settled : ∀ key e, s.memo.get? key = some e → e ≠ .inProgress → m.Settles q s.failure key
  tells : Tells q i s s'

variable {i : Option Failure}

theorem echoes_isSteadfast (m : Machine) (q : Pos) (i : Option Failure) :
    State.IsSteadfast (m.Echoes q i) where
  flags h := h.fresh.flags
  output h out out' := by
    refine ⟨h.order.of_same rfl rfl rfl rfl, h.fresh.of_same rfl rfl rfl rfl, h.settled, ?_⟩
    cases i <;> exact h.tells
  flagged h f := by
    refine ⟨h.order.flagged f, h.fresh.flagged f, h.settled, ?_⟩
    cases i <;> exact h.tells
  muted h := by
    refine ⟨h.order.mute, h.fresh.mute, h.settled, ?_⟩
    cases i <;> exact h.tells
  unmuted h := by
    refine ⟨h.order.unmute, h.fresh.unmute, h.settled, ?_⟩
    cases i <;> exact h.tells
  expect {n s s'} h pos what := by
    have hflags : (s.expect pos what).flags = s.flags := (h.order.expect pos what).flags
    have hsuppress : s'.suppress = s.suppress := h.fresh.muted.trans h.order.muted.symm
    refine ⟨hflags ▸ h.order.expect pos what, hflags ▸ h.fresh.expect pos what, ?_, ?_⟩
    · obtain ⟨failure, heq⟩ := s.notes_expect pos what
      have hknown := s.knownAt_expect pos what q
      have hmemo : (s.expect pos what).memo = s.memo := by rw [heq]
      rw [hmemo]
      exact fun key e hget hne => (h.settled key e hget hne).later hknown
    · cases i with
      | none =>
        obtain ⟨hcontexts, hagrees⟩ := h.tells
        obtain ⟨failure, heq⟩ := s.notes_expect pos what
        obtain ⟨failure', heq'⟩ := s'.notes_expect pos what
        refine ⟨?_, State.agreesAt_expect hsuppress hcontexts hagrees⟩
        rw [heq, heq']
        exact hcontexts
      | some G =>
        intro hknown
        have hagrees := h.tells ((s.knownAt_expect pos what q).trans hknown)
        exact hagrees.trans
          (State.agreesAt_expect_of_knownAt hsuppress (hknown.trans hagrees.knownAt))

theorem Echoes.entering (h : m.Echoes q i n s s') (rule : Rule) (key : MemoKey) (pos : Pos) :
    m.Echoes q i n (entering pos s rule key) (entering pos s' rule key) := by
  refine ⟨h.order.entering rule key, h.fresh.entering rule key, fun key' e hget hne => ?_, ?_⟩
  · have hget : (s.memo.insert key .inProgress).get? key' = some e := hget
    rw [Memo.get?_insert] at hget
    split at hget
    · cases hget
      exact absurd rfl hne
    · exact h.settled key' e hget hne
  · cases i with
    | none =>
      obtain ⟨hcontexts, hagrees⟩ := h.tells
      refine ⟨?_, hagrees⟩
      change innerContexts rule pos s'.contexts = innerContexts rule pos s.contexts
      rw [hcontexts]
    | some G => exact h.tells

/-- The records behind a rule that is entered in both runs, and the other rules that the table
answers. -/
theorem enterRule_tells
    (heval : GoAlongside Term.SpeaksIn (m.Echoes q i) (m.eval fuel) (m.afresh.eval fuel'))
    (hbody : Term.SpeaksIn 0 rule.body) (hs : m.Echoes q i 0 s s') :
    (enterRule (m.eval fuel) rule key pos s).Alongside
      (fun s₁ s₁' => Tells q i s₁ s₁' ∧ ∀ key' e, key' ≠ key → s₁.memo.get? key' = some e →
        e ≠ .inProgress → m.Settles q s₁.failure key')
      (enterRule (m.afresh.eval fuel') rule key pos s') := by
  rw [enterRule_eq, enterRule_eq]
  have hcontexts : i = none → s'.contexts = s.contexts := by
    rintro rfl
    exact hs.tells.1
  refine (heval 0 rule.body pos _ _ hbody (hs.entering rule key pos)).resume
    (fun stop s₁ s₁' h => ⟨rfl, ?_, fun key' e hkey hget hne => ?_⟩)
    fun s₁ s₁' h => ⟨?_, fun key' e hkey hget hne => ?_⟩
  · cases i with
    | none =>
      refine ⟨?_, ?_⟩
      · rw [contexts_leavingMatched, contexts_leavingMatched]
        exact hcontexts rfl
      · rw [failure_leavingMatched, failure_leavingMatched]
        exact h.tells.2
    | some G =>
      change Failure.KnownAt _ _ _ → Failure.AgreesAt _ _ _
      rw [failure_leavingMatched, failure_leavingMatched]
      exact h.tells
  · obtain ⟨ns, hmemo⟩ := memo_leavingMatched s s₁ rule key stop
    rw [hmemo, Memo.get?_insert, if_neg (Ne.symm hkey)] at hget
    rw [failure_leavingMatched]
    exact h.settled key' e hget hne
  · -- a label is expected in both runs, or in neither
    have hsuppress : s₁'.suppress = s₁.suppress := h.fresh.muted.trans h.order.muted.symm
    cases i with
    | none =>
      refine ⟨?_, ?_⟩
      · obtain ⟨failure, heq⟩ := leavingFailed_eq pos s rule key s₁
        obtain ⟨failure', heq'⟩ := leavingFailed_eq pos s' rule key s₁'
        rw [heq, heq']
        exact hcontexts rfl
      · rw [failure_leavingFailed, failure_leavingFailed]
        cases rule.label with
        | none => exact h.tells.2
        | some label => exact State.agreesAt_expectLabel_both hsuppress h.tells.2
    | some G =>
      change Failure.KnownAt _ _ _ → Failure.AgreesAt _ _ _
      rw [failure_leavingFailed, failure_leavingFailed]
      cases rule.label with
      | none => exact h.tells
      | some label =>
        intro hknown
        have hlabel : s₁.failure.KnownAt q _ := (State.agreesAt_expectLabel
          ((leaving s s₁).truncate s.out.size) pos s.failure label q).knownAt
        exact (h.tells (hlabel.trans hknown)).trans (State.agreesAt_expectLabel
          ((leaving s' s₁').truncate s'.out.size) _ _ _ q)
  · obtain ⟨failure, heq⟩ := leavingFailed_eq pos s rule key s₁
    have hmemo : (leavingFailed pos s rule key s₁).memo = s₁.memo.insert key .failed := by rw [heq]
    rw [hmemo, Memo.get?_insert, if_neg (Ne.symm hkey)] at hget
    have hknown : s₁.failure.KnownAt q (leavingFailed pos s rule key s₁).failure := by
      rw [failure_leavingFailed]
      cases rule.label with
      | none => exact (Failure.AgreesAt.refl q _).knownAt
      | some label => exact (State.agreesAt_expectLabel
          ((leaving s s₁).truncate s.out.size) _ _ _ q).knownAt
    exact (h.settled key' e hget hne).later hknown

/-- **A rule is settled when it has been evaluated.**  Compared with its first evaluation, another
from a later record asks for nothing new. -/
theorem enterRule_settles
    (heval : ∀ fuel' i, GoAlongside Term.SpeaksIn (m.Echoes q i) (m.eval fuel)
      (m.afresh.eval fuel'))
    (hbody : Term.SpeaksIn 0 rule.body) (hrule : m.grammar.rules[id]? = some rule)
    (hs : m.Echoes q i 0 s s') :
    (enterRule (m.eval fuel) rule ⟨id, pos, s.flags⟩ pos s).Leaves fun s₁ =>
      m.Settles q s₁.failure ⟨id, pos, s.flags⟩ := by
  refine Outcome.leaves_forall fun rule' => Outcome.leaves_forall fun hrule' =>
    Outcome.leaves_forall fun fuel' => Outcome.leaves_forall fun s'' =>
    Outcome.leaves_forall fun horder => ?_
  cases hrule.symm.trans hrule'
  have hstart : m.Echoes q (some s''.failure) 0 s s'' :=
    ⟨hs.order, horder, hs.settled, fun _ => .refl q _⟩
  refine (enterRule_tells (heval fuel' _) hbody hstart).leaves.imp fun s₁ h hknown => ?_
  exact h.imp fun s₁' h => h.1 hknown

/-- A rule that is entered in both runs. -/
theorem enterRule_echoes (hlim : m.IsUnlimited) (hrule : m.grammar.rules[id]? = some rule)
    (heval : ∀ fuel' i, GoAlongside Term.SpeaksIn (m.Echoes q i) (m.eval fuel)
      (m.afresh.eval fuel'))
    (hbody : Term.SpeaksIn 0 rule.body) (hs : m.Echoes q i 0 s s') :
    (enterRule (m.eval fuel) rule ⟨id, pos, s.flags⟩ pos s).Alongside (m.Echoes q i 0)
      (enterRule (m.afresh.eval fuel') rule ⟨id, pos, s.flags⟩ pos s') := by
  have hanswers := enterRule_answers (m.eval_isFaithful fuel) pos s hrule
  have hanswers' := enterRule_afresh pos hrule (m.afresh.eval_isFaithful fuel') hs.fresh
  refine (enterRule_tells (heval fuel' i) hbody hs).and_leaves
    ((enterRule_settles heval hbody hrule hs).and (hanswers.inOrder hlim hs.order))
    (hanswers'.inOrder hlim hs.fresh) fun s₁ s₁' h hleft hright => ?_
  obtain ⟨htells, hothers⟩ := h
  obtain ⟨hsettles, horder, -⟩ := hleft
  refine ⟨horder.flags.symm ▸ horder, horder.flags.symm ▸ hright.1, fun key e hget hne => ?_,
    htells⟩
  by_cases hkey : key = ⟨id, pos, s.flags⟩
  · exact hkey ▸ hsettles
  · exact hothers key e hkey hget hne

/-- **Records agree when no rule is applied in a negative lookahead**, as far as they are in
view. -/
theorem eval_echoes (hlim : m.IsUnlimited) (q : Pos)
    (hrules : ∀ (id : Nat) (rule : Rule), m.grammar.rules[id]? = some rule →
      rule.body.isOutspoken = true) (fuel fuel' : Nat) (i : Option Failure) :
    GoAlongside Term.SpeaksIn (m.Echoes q i) (m.eval fuel) (m.afresh.eval fuel') := by
  refine eval_alongside (fun i => echoes_isSteadfast m q i) Term.speaksIn_isInherited ?_ fuel
    fuel' i
  intro fuel heval fuel' i n r id rule pos s s' href _ hrule hs
  obtain rfl := href.eq_zero
  have hbody : Term.SpeaksIn 0 rule.body := ⟨hrules id rule hrule, fun h => absurd h (by omega)⟩
  have hcounted : m.Echoes q i 0 (stepped s) (stepped s') := by
    refine ⟨hs.order.of_same rfl rfl rfl rfl, hs.fresh.of_same rfl rfl rfl rfl, hs.settled, ?_⟩
    cases i <;> exact hs.tells
  have hanswers := enterRule_afresh pos hrule (m.afresh.eval_isFaithful fuel') hcounted.fresh
  refine applyRule_alongside hlim hrule (m.afresh.eval_isFaithful fuel') hs.order hs.fresh
    (enterRule_echoes hlim hrule heval hbody hcounted) fun e hget hne => ?_
  -- the rule is settled, so its new evaluation changes nothing that is in view
  have hsettles := hs.settled ⟨id, pos, s.flags⟩ e hget hne rule hrule fuel' (stepped s')
    hcounted.fresh
  cases i with
  | none =>
    obtain ⟨hcontexts, hagrees⟩ := hs.tells
    refine ((hsettles hagrees.knownAt).and (hanswers.inOrder hlim hcounted.fresh)).imp
      fun s₁ h out => ⟨hcounted.order.of_same rfl rfl rfl rfl, h.2.1, hs.settled, ?_⟩
    exact ⟨h.2.2.trans hcontexts, hagrees.trans h.1⟩
  | some G =>
    refine ((Outcome.leaves_forall hsettles).and (hanswers.inOrder hlim hcounted.fresh)).imp
      fun s₁ h out => ⟨hcounted.order.of_same rfl rfl rfl rfl, h.2.1, hs.settled, fun hknown => ?_⟩
    have hagrees := hs.tells hknown
    exact hagrees.trans (h.1 (hknown.trans hagrees.knownAt))

end Machine
end Peg
end Packrat
