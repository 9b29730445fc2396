/-
# Two runs side by side

Two machines that differ in their limits alone read the same tokens by the same rules, from states
that some relation ties together.  If rules keep the states tied, then so does every term, and the
two evaluations end in the same way (`Machine.eval_alongside`).  What the relation must survive is
listed once (`State.IsSteadfast`): that trees are matched and cut off, that something is asked for
in vain, that flags change and that a negative lookahead begins and ends.

The relation may depend on the number of negative lookaheads around, and the terms that are allowed
may, too (`Term.IsInherited`).  Several relations can be carried along at once, so that the one for
a rule may rest on another for its body.
-/

import Packrat.Proofs.Peg.Furthest
import Packrat.Proofs.Peg.Part
import Packrat.Proofs.Peg.Resume

namespace Packrat
namespace Peg

/-- Two evaluations end in the same way, in states that `R` relates.  Of one that goes wrong
nothing is said. -/
def Outcome.Alongside (R : State → State → Prop) : Outcome → Outcome → Prop
  | .matched stop s, .matched stop' s' => stop = stop' ∧ R s s'
  | .failed s, .failed s' => R s s'
  | .fault _, _ | _, .fault _ => True
  | .matched _ _, .failed _ | .failed _, .matched _ _ => False

namespace Outcome

variable {R S : State → State → Prop} {o o' : Outcome}

theorem alongside_fault (f : Fault) (o' : Outcome) : (Outcome.fault f).Alongside R o' := by
  cases o' <;> trivial

theorem alongside_of_fault (o : Outcome) (f : Fault) : o.Alongside R (.fault f) := by
  cases o <;> trivial

/-- Going on in both evaluations. -/
theorem Alongside.resume {onMatch onMatch' : Pos → State → Outcome}
    {onFail onFail' : State → Outcome} (h : o.Alongside R o')
    (hmatch : ∀ stop s s', R s s' → (onMatch stop s).Alongside S (onMatch' stop s'))
    (hfail : ∀ s s', R s s' → (onFail s).Alongside S (onFail' s')) :
    (o.resume onMatch onFail).Alongside S (o'.resume onMatch' onFail') := by
  cases o with
  | matched stop s =>
    cases o' with
    | matched stop' s' =>
      obtain ⟨rfl, hs⟩ := h
      exact hmatch stop s s' hs
    | failed s' => exact absurd h id
    | fault f => exact alongside_of_fault _ f
  | failed s =>
    cases o' with
    | matched stop' s' => exact absurd h id
    | failed s' => exact hfail s s' h
    | fault f => exact alongside_of_fault _ f
  | fault f => exact alongside_fault f _

/-- What each evaluation leaves may be added to what ties them. -/
theorem Alongside.and_leaves {P Q : State → Prop} (h : o.Alongside R o') (hleft : o.Leaves P)
    (hright : o'.Leaves Q) (himp : ∀ s s', R s s' → P s → Q s' → S s s') :
    o.Alongside S o' := by
  cases o with
  | matched stop s =>
    cases o' with
    | matched stop' s' => exact ⟨h.1, himp s s' h.2 hleft hright⟩
    | failed s' => exact absurd h id
    | fault f => exact alongside_of_fault _ f
  | failed s =>
    cases o' with
    | matched stop' s' => exact absurd h id
    | failed s' => exact himp s s' h hleft hright
    | fault f => exact alongside_of_fault _ f
  | fault f => exact alongside_fault f _

theorem Alongside.imp (h : o.Alongside R o') (himp : ∀ s s', R s s' → S s s') :
    o.Alongside S o' :=
  h.and_leaves (P := fun _ => True) (Q := fun _ => True) (by cases o <;> trivial)
    (by cases o' <;> trivial) fun s s' hs _ _ => himp s s' hs

end Outcome

/-- A relation between states, with a number of negative lookaheads around, that lasts whatever
terms do to the states besides applying rules. -/
structure State.IsSteadfast (R : Nat → State → State → Prop) : Prop where
  flags {n s s'} : R n s s' → s'.flags = s.flags
  output {n s s'} : R n s s' → ∀ out out', R n { s with out := out } { s' with out := out' }
  expect {n s s'} : R n s s' → ∀ pos what, R n (s.expect pos what) (s'.expect pos what)
  flagged {n s s'} : R n s s' → ∀ f, R n (Machine.flagged s f) (Machine.flagged s' f)
  muted {n s s'} : R n s s' → R (n + 1) (Machine.muted s) (Machine.muted s')
  unmuted {n s s'} : R (n + 1) s s' →
    R n { s with suppress := s.suppress - 1 } { s' with suppress := s'.suppress - 1 }

/-- What is allowed of terms, with a number of negative lookaheads around, is allowed of the terms
right inside them. -/
structure Term.IsInherited (P : Nat → Term → Prop) : Prop where
  child {n t c} : P n t → (∀ body, t ≠ .notAhead body) → c ∈ t.children → P n c
  lookahead {n body} : P n (.notAhead body) → P (n + 1) body

namespace Machine

/-- The machine under other limits. -/
def under (m : Machine) (limits : Limits) : Machine := { m with limits := limits }

variable {m : Machine} {limits : Limits} {P : Nat → Term → Prop} {R : Nat → State → State → Prop}
  {eval eval' : Evaluator} {n : Nat}

/-- Two evaluators keep states tied, for all terms that are allowed. -/
def GoAlongside (P : Nat → Term → Prop) (R : Nat → State → State → Prop)
    (eval eval' : Evaluator) : Prop :=
  ∀ n t pos s s', P n t → R n s s' → (eval t pos s).Alongside (R n) (eval' t pos s')

/-! ## Loops -/

section

variable (hR : State.IsSteadfast R) (heval : GoAlongside P R eval eval')
include hR heval

theorem seqFrom_alongside (mark mark' : Nat) (ts : List Term) : ∀ pos s s', (∀ t ∈ ts, P n t) →
    R n s s' → (seqFrom eval mark ts pos s).Alongside (R n) (seqFrom eval' mark' ts pos s') := by
  induction ts with
  | nil => exact fun _ _ _ _ hs => ⟨rfl, hs⟩
  | cons t ts ih =>
    intro pos s s' hts hs
    rw [seqFrom_cons, seqFrom_cons]
    refine (heval n t pos s s' (hts t (by simp)) hs).resume (fun stop s s' hs => ?_)
      fun s s' hs => hR.output hs _ _
    exact ih stop s s' (fun t ht => hts t (by simp [ht])) hs

theorem choiceFrom_alongside (mark mark' : Nat) (pos : Pos) (ts : List Term) : ∀ s s',
    (∀ t ∈ ts, P n t) → R n s s' →
    (choiceFrom eval mark pos ts s).Alongside (R n) (choiceFrom eval' mark' pos ts s') := by
  induction ts with
  | nil => exact fun _ _ _ hs => hs
  | cons t ts ih =>
    intro s s' hts hs
    rw [choiceFrom_cons, choiceFrom_cons]
    refine (heval n t pos s s' (hts t (by simp)) hs).resume (fun stop s s' hs => ⟨rfl, hs⟩)
      fun s s' hs => ?_
    exact ih _ _ (fun t ht => hts t (by simp [ht])) (hR.output hs _ _)

theorem repeatFrom_alongside {t : Term} (ht : P n t) (fuel : Nat) : ∀ fuel' pos s s', R n s s' →
    (repeatFrom eval t fuel pos s).Alongside (R n) (repeatFrom eval' t fuel' pos s') := by
  induction fuel with
  | zero => exact fun _ _ _ _ _ => Outcome.alongside_fault _ _
  | succ fuel ih =>
    intro fuel' pos s s' hs
    cases fuel' with
    | zero => exact Outcome.alongside_of_fault _ _
    | succ fuel' =>
      rw [repeatFrom_succ, repeatFrom_succ]
      refine (heval n t pos s s' ht hs).resume (fun stop s₁ s₁' hs₁ => ?_)
        fun s₁ s₁' hs₁ => ⟨rfl, hR.output hs₁ _ _⟩
      split
      · exact ⟨rfl, hR.output hs₁ _ _⟩
      · exact ih fuel' stop s₁ s₁' hs₁

theorem tailFrom_alongside (mark mark' : Nat) (pos : Pos) (tails : List (Kind × Term)) : ∀ s s',
    (∀ tail ∈ tails, P n tail.2) → R n s s' →
    (tailFrom eval mark pos tails s).Alongside (R n) (tailFrom eval' mark' pos tails s') := by
  induction tails with
  | nil => exact fun _ _ _ hs => hs
  | cons tail tails ih =>
    intro s s' htails hs
    rw [tailFrom_cons, tailFrom_cons]
    refine (heval n tail.2 pos s s' (htails tail (by simp)) hs).resume
      (fun stop s₁ s₁' hs₁ => ⟨rfl, hR.output hs₁ _ _⟩) fun s₁ s₁' hs₁ => ?_
    exact ih _ _ (fun tail ht => htails tail (by simp [ht])) (hR.output hs₁ _ _)

theorem foldFrom_alongside (mark mark' : Nat) {tails : List (Kind × Term)} (max : Option Nat)
    (htails : ∀ tail ∈ tails, P n tail.2) (fuel : Nat) : ∀ fuel' folded pos s s', R n s s' →
    (foldFrom eval tails max mark fuel folded pos s).Alongside (R n)
      (foldFrom eval' tails max mark' fuel' folded pos s') := by
  induction fuel with
  | zero => exact fun _ _ _ _ _ _ => Outcome.alongside_fault _ _
  | succ fuel ih =>
    intro fuel' folded pos s s' hs
    cases fuel' with
    | zero => exact Outcome.alongside_of_fault _ _
    | succ fuel' =>
      rw [foldFrom_succ, foldFrom_succ]
      split
      · exact ⟨rfl, hs⟩
      · exact (tailFrom_alongside hR heval mark mark' pos tails s s' htails hs).resume
          (ih fuel' (folded + 1)) fun s s' hs => ⟨rfl, hs⟩

end

/-! ## Terms -/

/-- A terminal that fails asks for the same in both runs. -/
theorem terminal_alongside (hR : State.IsSteadfast R) (fuel fuel' : Nat) {t : Term}
    (ht : t.isTerminal = true) (pos : Pos) {s s' : State} (hs : R n s s') :
    (m.step fuel eval t pos s).Alongside (R n) ((m.under limits).step fuel' eval' t pos s') := by
  have hreads := m.step_readsAs pos s fuel eval ht
  have hreads' := (m.under limits).step_readsAs pos s' fuel' eval' ht
  have hsame : (m.under limits).read? pos t = m.read? pos t := by cases t <;> rfl
  rw [hsame] at hreads'
  cases ho : m.step fuel eval t pos s with
  | matched stop s₁ =>
    rw [ho] at hreads
    obtain ⟨ns, hread, rfl⟩ := hreads
    cases ho' : (m.under limits).step fuel' eval' t pos s' with
    | matched stop' s₁' =>
      rw [ho'] at hreads'
      obtain ⟨ns', hread', rfl⟩ := hreads'
      cases hread.symm.trans hread'
      exact ⟨rfl, hR.output hs _ _⟩
    | failed s₁' =>
      rw [ho'] at hreads'
      cases hread.symm.trans hreads'.1
    | fault f => exact Outcome.alongside_of_fault _ f
  | failed s₁ =>
    rw [ho] at hreads
    cases ho' : (m.under limits).step fuel' eval' t pos s' with
    | matched stop' s₁' =>
      rw [ho'] at hreads'
      obtain ⟨ns', hread', rfl⟩ := hreads'
      cases hreads.1.symm.trans hread'
    | failed s₁' =>
      rw [step_terminal_failed ht ho, step_terminal_failed ht ho']
      change R n _ _
      cases t.asks? with
      | none => exact hs
      | some what => exact hR.expect hs pos what
    | fault f => exact Outcome.alongside_of_fault _ f
  | fault f => exact Outcome.alongside_fault f _

/-- One step of evaluation keeps the states tied when the evaluation of the terms inside and of
rules does. -/
theorem step_alongside (hR : State.IsSteadfast R) (hP : Term.IsInherited P)
    (heval : GoAlongside P R eval eval')
    (hrule : ∀ n r id rule pos s s', P n (.ref r) → m.grammar.resolve? r = some id →
      m.grammar.rules[id]? = some rule → R n s s' →
      (m.applyRule eval id rule pos s).Alongside (R n)
        ((m.under limits).applyRule eval' id rule pos s')) (fuel fuel' : Nat) :
    GoAlongside P R (m.step fuel eval) ((m.under limits).step fuel' eval') := by
  intro n t pos s s' ht hs
  have hbody : ∀ body s s', (∀ u, t ≠ .notAhead u) → body ∈ t.children → R n s s' →
      (eval body pos s).Alongside (R n) (eval' body pos s') :=
    fun body s s' hne hmem => heval n body pos s s' (hP.child ht hne hmem)
  cases t with
  | token _ | split _ | word _ | any | ended => exact terminal_alongside hR fuel fuel' rfl pos hs
  | seq items =>
    exact seqFrom_alongside hR heval _ _ items pos s s'
      (fun t hmem => hP.child ht (by simp) hmem) hs
  | choice items =>
    exact choiceFrom_alongside hR heval _ _ pos items s s'
      (fun t hmem => hP.child ht (by simp) hmem) hs
  | opt body =>
    rw [step_opt, step_opt]
    exact (hbody body s s' (by simp) (by simp [Term.children]) hs).resume
      (fun _ _ _ hs => ⟨rfl, hs⟩) fun _ _ hs => ⟨rfl, hR.output hs _ _⟩
  | star body =>
    exact repeatFrom_alongside hR heval
      (hP.child ht (by simp) (by simp [Term.children])) fuel fuel' pos s s' hs
  | plus body =>
    have hmem : P n body := hP.child ht (by simp) (by simp [Term.children])
    rw [step_plus, step_plus]
    exact (heval n body pos s s' hmem hs).resume
      (repeatFrom_alongside hR heval hmem fuel fuel') fun _ _ hs => hs
  | ahead body =>
    rw [step_ahead, step_ahead]
    exact (hbody body s s' (by simp) (by simp [Term.children]) hs).resume
      (fun _ _ _ hs => ⟨rfl, hR.output hs _ _⟩) fun _ _ hs => hR.output hs _ _
  | notAhead body =>
    -- the one term that evaluates what is inside a lookahead deeper
    rw [step_notAhead, step_notAhead]
    exact (heval (n + 1) body pos _ _ (hP.lookahead ht) (hR.muted hs)).resume
      (fun _ _ _ hs => hR.output (hR.unmuted hs) _ _)
      fun _ _ hs => ⟨rfl, hR.output (hR.unmuted hs) _ _⟩
  | ref r =>
    cases hid : m.grammar.resolve? r with
    | none =>
      have hid' : (m.under limits).grammar.resolve? r = none := hid
      simp only [step, hid, hid']
      exact hs
    | some id =>
      have hid' : (m.under limits).grammar.resolve? r = some id := hid
      cases hget : m.grammar.rules[id]? with
      | none =>
        simp only [step, hid, hget]
        exact Outcome.alongside_fault _ _
      | some rule =>
        rw [step_ref m eval fuel pos s hid hget,
          step_ref (m.under limits) eval' fuel' pos s' hid' hget]
        exact hrule n r id rule pos s s' ht hid hget hs
  | node kind body =>
    rw [step_node, step_node]
    exact (hbody body s s' (by simp) (by simp [Term.children]) hs).resume
      (fun _ _ _ hs => ⟨rfl, hR.output hs _ _⟩) fun _ _ hs => hs
  | «scoped» set clear body =>
    rw [step_scoped, step_scoped, hR.flags hs]
    exact (hbody body _ _ (by simp) (by simp [Term.children])
      (hR.flagged hs ((s.flags.union set).diff clear))).resume
      (fun _ _ _ hs => ⟨rfl, hR.flagged hs s.flags⟩) fun _ _ hs => hR.flagged hs s.flags
  | gate flags whenSet body =>
    rw [step_gate, step_gate, hR.flags hs]
    split
    · exact hbody body s s' (by simp) (by simp [Term.children]) hs
    · exact hs
  | fold operand tails max =>
    rw [step_fold, step_fold]
    refine (hbody operand s s' (by simp) (by simp [Term.children]) hs).resume
      (foldFrom_alongside hR heval _ _ max (fun tail hmem => ?_) _ _ 0) fun _ _ hs => hs
    exact hP.child ht (by simp)
      (List.mem_cons_of_mem _ (List.mem_map_of_mem hmem))

/-- **Two runs keep states tied** when rules do, whatever fuel they are given.  For rules it may be
used that all relations of a family are kept on the way inside. -/
theorem eval_alongside {ι : Type*} {R : ι → Nat → State → State → Prop}
    (hR : ∀ i, State.IsSteadfast (R i)) (hP : Term.IsInherited P)
    (hrule : ∀ fuel, (∀ fuel' i, GoAlongside P (R i) (m.eval fuel) ((m.under limits).eval fuel')) →
      ∀ fuel' i n r id rule pos s s', P n (.ref r) → m.grammar.resolve? r = some id →
        m.grammar.rules[id]? = some rule → R i n s s' →
        (m.applyRule (m.eval fuel) id rule pos s).Alongside (R i n)
          ((m.under limits).applyRule ((m.under limits).eval fuel') id rule pos s'))
    (fuel : Nat) :
    ∀ fuel' i, GoAlongside P (R i) (m.eval fuel) ((m.under limits).eval fuel') := by
  induction fuel with
  | zero => exact fun _ _ _ _ _ _ _ _ _ => Outcome.alongside_fault _ _
  | succ fuel ih =>
    intro fuel' i
    cases fuel' with
    | zero => exact fun _ _ _ _ _ _ _ => Outcome.alongside_of_fault _ _
    | succ fuel' =>
      exact step_alongside (hR i) hP (ih fuel' i) (hrule fuel ih fuel' i) fuel fuel'

end Machine
end Peg
end Packrat
