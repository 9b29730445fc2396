/-
# Places that a run comes to

Whatever is true of the first place, and of the place behind each terminal that matches if it is
true of the place before it, is true of all places of a run (`Machine.eval_staysIn`): of those
where terms match, of those that the table knows, and of the place of the furthest failure.  The
last is what an error is told from.  The same induction shows that a record of a failure is never
bare: but for the record of the beginning, where nothing need have been asked for, it says what was
expected.

For terms that fail only where the text goes on, the beginning is no exception
(`Machine.expected_of_seqFrom`).
-/

import Packrat.Proofs.Peg.Record

namespace Packrat
namespace Peg

/-- The record is of the beginning, or says what was expected. -/
def Failure.IsTold (F : Failure) : Prop := F.pos = {} ∨ F.expected ≠ []

/-- Matches that the table knows end, and the record is of, a place in `K`; the record is told. -/
def State.StaysIn (K : Pos → Prop) (s : State) : Prop :=
  (∀ key stop ns, s.memo.get? key = some (.matched stop ns) → K stop) ∧
    K s.failure.pos ∧ s.failure.IsTold

/-- A match ends in `K`, and the state that is left stays there. -/
def Outcome.StaysIn (K : Pos → Prop) : Outcome → Prop
  | .matched stop s => K stop ∧ s.StaysIn K
  | .failed s => s.StaysIn K
  | .fault _ => True

variable {K : Pos → Prop}

theorem Outcome.StaysIn.resume {o : Outcome} {onMatch : Pos → State → Outcome}
    {onFail : State → Outcome} (h : o.StaysIn K)
    (hmatch : ∀ stop s, K stop → s.StaysIn K → (onMatch stop s).StaysIn K)
    (hfail : ∀ s, s.StaysIn K → (onFail s).StaysIn K) : (o.resume onMatch onFail).StaysIn K := by
  cases o with
  | matched stop s => exact hmatch stop s h.1 h.2
  | failed s => exact hfail s h
  | fault f => trivial

namespace State

variable {s : State} {pos : Pos}

/-- The record after asking in vain at a place in `K`. -/
theorem StaysIn.expect (h : s.StaysIn K) (hpos : K pos) (what : Expected) :
    (s.expect pos what).StaysIn K := by
  by_cases hs : s.suppress = 0
  · refine ⟨?_, ?_⟩
    · obtain ⟨failure, heq⟩ := s.notes_expect pos what
      rw [heq]
      exact h.1
    · rcases expect_cases pos what hs with ⟨-, hsame⟩ | ⟨-, hat, hmem⟩
      · rw [hsame]
        exact h.2
      · exact ⟨hat.symm ▸ hpos, .inr (List.ne_nil_of_mem hmem)⟩
  · rwa [expect_of_muted (by omega)]

/-- A label is told in the place of what it stands for. -/
theorem StaysIn.expectLabel (h : s.StaysIn K) (pos : Pos) (before : Failure) (label : String) :
    (s.expectLabel pos before label).StaysIn K := by
  by_cases hcond : s.suppress = 0 ∧ s.failure.pos = pos
  · obtain ⟨hat, kept, -, hmem, -⟩ :=
      failure_expectLabel before label hcond.1 hcond.2
    refine ⟨?_, ?_, .inr (List.ne_nil_of_mem ((hmem _).mpr (.inl rfl)))⟩
    · obtain ⟨failure, heq⟩ := s.notes_expectLabel pos before label
      rw [heq]
      exact h.1
    · rw [hat, ← hcond.2]
      exact h.2.1
  · rwa [expectLabel_of_not hcond]

/-- Noting in the table what came of a rule. -/
theorem StaysIn.insert (h : s.StaysIn K) (key : MemoKey) {e : MemoEntry}
    (he : ∀ stop ns, e = .matched stop ns → K stop) :
    State.StaysIn K { s with memo := s.memo.insert key e } := by
  refine ⟨fun key' stop ns hget => ?_, h.2⟩
  simp only [Memo.get?_insert] at hget
  split at hget
  · exact he stop ns (Option.some.inj hget)
  · exact h.1 key' stop ns hget

end State

namespace Machine

/-- The place behind the match of a terminal is in `K` if the place before it is. -/
def Stays (m : Machine) (K : Pos → Prop) (t : Term) : Prop :=
  ∀ pos ns stop, K pos → m.read? pos t = some (ns, stop) → K stop

/-- An evaluator that comes to places in `K` only. -/
def EvalStaysIn (m : Machine) (K : Pos → Prop) (eval : Evaluator) : Prop :=
  ∀ t pos s, t.Every (m.Stays K) → K pos → s.StaysIn K → (eval t pos s).StaysIn K

variable {m : Machine} {eval : Evaluator}

section

variable (heval : m.EvalStaysIn K eval)
include heval

theorem seqFrom_staysIn (mark : Nat) (ts : List Term) : ∀ pos s,
    (∀ t ∈ ts, t.Every (m.Stays K)) → K pos → s.StaysIn K →
    (seqFrom eval mark ts pos s).StaysIn K := by
  induction ts with
  | nil => exact fun _ _ _ hpos hs => ⟨hpos, hs⟩
  | cons t ts ih =>
    intro pos s hts hpos hs
    rw [seqFrom_cons]
    exact (heval t pos s (hts t (by simp)) hpos hs).resume
      (fun stop s => ih stop s fun t ht => hts t (by simp [ht])) fun s hs => hs

theorem choiceFrom_staysIn (mark : Nat) {pos : Pos} (hpos : K pos) (ts : List Term) : ∀ s,
    (∀ t ∈ ts, t.Every (m.Stays K)) → s.StaysIn K →
    (choiceFrom eval mark pos ts s).StaysIn K := by
  induction ts with
  | nil => exact fun _ _ hs => hs
  | cons t ts ih =>
    intro s hts hs
    rw [choiceFrom_cons]
    exact (heval t pos s (hts t (by simp)) hpos hs).resume (fun stop s hstop hs => ⟨hstop, hs⟩)
      fun s hs => ih (s.truncate mark) (fun t ht => hts t (by simp [ht])) hs

theorem repeatFrom_staysIn {t : Term} (ht : t.Every (m.Stays K)) (fuel : Nat) : ∀ pos s,
    K pos → s.StaysIn K → (repeatFrom eval t fuel pos s).StaysIn K := by
  induction fuel with
  | zero => exact fun _ _ _ _ => trivial
  | succ fuel ih =>
    intro pos s hpos hs
    rw [repeatFrom_succ]
    refine (heval t pos s ht hpos hs).resume (fun stop s hstop hs => ?_) fun s hs => ⟨hpos, hs⟩
    split
    · exact ⟨hpos, hs⟩
    · exact ih stop s hstop hs

theorem tailFrom_staysIn (mark : Nat) {pos : Pos} (hpos : K pos) (tails : List (Kind × Term)) :
    ∀ s, (∀ tail ∈ tails, tail.2.Every (m.Stays K)) → s.StaysIn K →
    (tailFrom eval mark pos tails s).StaysIn K := by
  induction tails with
  | nil => exact fun _ _ hs => hs
  | cons tail tails ih =>
    intro s htails hs
    rw [tailFrom_cons]
    exact (heval tail.2 pos s (htails tail (by simp)) hpos hs).resume
      (fun stop s' hstop hs => ⟨hstop, hs⟩)
      fun s' hs => ih (s'.truncate s.out.size) (fun tail ht => htails tail (by simp [ht])) hs

theorem foldFrom_staysIn {tails : List (Kind × Term)} (max : Option Nat) (mark : Nat)
    (htails : ∀ tail ∈ tails, tail.2.Every (m.Stays K)) (fuel : Nat) : ∀ folded pos s,
    K pos → s.StaysIn K → (foldFrom eval tails max mark fuel folded pos s).StaysIn K := by
  induction fuel with
  | zero => exact fun _ _ _ _ _ => trivial
  | succ fuel ih =>
    intro folded pos s hpos hs
    rw [foldFrom_succ]
    split
    · exact ⟨hpos, hs⟩
    · exact (tailFrom_staysIn heval mark hpos tails s htails hs).resume
        (ih (folded + 1)) fun s hs => ⟨hpos, hs⟩

/-- A rule notes in the table where its body has ended. -/
theorem enterRule_staysIn {rule : Rule} (hbody : rule.body.Every (m.Stays K)) (key : MemoKey)
    {pos : Pos} (hpos : K pos) {s : State} (hs : s.StaysIn K) :
    (enterRule eval rule key pos s).StaysIn K := by
  have hentering : (entering pos s rule key).StaysIn K :=
    hs.insert key (e := .inProgress) (by simp)
  rw [enterRule_eq]
  refine (heval rule.body pos _ hbody hpos hentering).resume (fun stop s' hstop hs' => ?_)
    fun s' hs' => ?_
  · refine ⟨hstop, ?_⟩
    have hnoted : ∀ (closed : State) nodes, closed.StaysIn K → State.StaysIn K
        { closed with memo := closed.memo.insert key (.matched stop nodes) } := by
      intro closed nodes hclosed
      refine hclosed.insert key fun stop' ns heq => ?_
      cases heq
      exact hstop
    unfold leavingMatched
    cases rule.kind with
    | none => exact hnoted (leaving s s') _ hs'
    | some kind => exact hnoted ((leaving s s').wrap s.out.size kind) _ hs'
  · have hcut : ((leaving s s').truncate s.out.size).StaysIn K := hs'
    change (leavingFailed pos s rule key s').StaysIn K
    unfold leavingFailed
    cases rule.label with
    | none => exact hcut.insert key (by simp)
    | some label => exact (hcut.expectLabel pos s.failure label).insert key (by simp)

theorem applyRule_staysIn (id : Nat) {rule : Rule} (hbody : rule.body.Every (m.Stays K))
    {pos : Pos} (hpos : K pos) {s : State} (hs : s.StaysIn K) :
    (m.applyRule eval id rule pos s).StaysIn K := by
  have henter : (enterRule eval rule ⟨id, pos, s.flags⟩ pos (stepped s)).StaysIn K :=
    enterRule_staysIn heval hbody _ hpos hs
  cases hlive : s.halted with
  | true =>
    rw [applyRule_of_halted m eval pos s id rule hlive]
    exact hs
  | false =>
    rw [applyRule_eq m eval pos s id rule hlive]
    split
    · exact hs
    · split
      · exact hs
      · unfold consult
        split
        · trivial
        · exact hs
        · next hget _ => exact ⟨hs.1 _ _ _ hget, hs⟩
        · exact henter

/-- One step of evaluation stays in `K` when the evaluation of the terms inside does. -/
theorem step_staysIn (hrules : ∀ (id : Nat) (rule : Rule), m.grammar.rules[id]? = some rule →
    rule.body.Every (m.Stays K)) (fuel : Nat) : m.EvalStaysIn K (m.step fuel eval) := by
  intro t pos s ht hpos hs
  have hchild : ∀ c ∈ t.children, c.Every (m.Stays K) := fun c hc => ht.child hc
  cases t with
  | token _ | split _ | word _ | any | ended =>
    have hterminal : ∀ t : Term, t.isTerminal = true → m.Stays K t →
        (m.step fuel eval t pos s).StaysIn K := by
      intro t ht hstays
      have hread := m.step_readsAs pos s fuel eval ht
      cases ho : m.step fuel eval t pos s with
      | matched stop s' =>
        rw [ho] at hread
        obtain ⟨ns, hread, rfl⟩ := hread
        exact ⟨hstays pos ns stop hpos hread, hs⟩
      | failed s' =>
        rw [step_terminal_failed ht ho]
        change State.StaysIn K _
        cases t.asks? with
        | none => exact hs
        | some what => exact hs.expect hpos what
      | fault f => trivial
    exact hterminal _ rfl ht.self
  | seq items => exact seqFrom_staysIn heval _ items pos s hchild hpos hs
  | choice items => exact choiceFrom_staysIn heval _ hpos items s hchild hs
  | opt body =>
    rw [step_opt]
    exact (heval body pos s (hchild body (by simp [Term.children])) hpos hs).resume
      (fun _ _ hstop hs => ⟨hstop, hs⟩) fun _ hs => ⟨hpos, hs⟩
  | star body =>
    exact repeatFrom_staysIn heval (hchild body (by simp [Term.children])) fuel pos s hpos hs
  | plus body =>
    have hbody := hchild body (by simp [Term.children])
    rw [step_plus]
    exact (heval body pos s hbody hpos hs).resume (repeatFrom_staysIn heval hbody fuel)
      fun _ hs => hs
  | ahead body =>
    rw [step_ahead]
    exact (heval body pos s (hchild body (by simp [Term.children])) hpos hs).resume
      (fun _ _ _ hs => ⟨hpos, hs⟩) fun _ hs => hs
  | notAhead body =>
    rw [step_notAhead]
    exact (heval body pos (muted s) (hchild body (by simp [Term.children])) hpos hs).resume
      (fun _ _ _ hs => hs) fun _ hs => ⟨hpos, hs⟩
  | ref r =>
    cases hid : m.grammar.resolve? r with
    | none =>
      simp only [step, hid]
      exact hs
    | some id =>
      cases hrule : m.grammar.rules[id]? with
      | none =>
        simp only [step, hid, hrule]
        trivial
      | some rule =>
        rw [step_ref m eval fuel pos s hid hrule]
        exact applyRule_staysIn heval id (hrules id rule hrule) hpos hs
  | node kind body =>
    rw [step_node]
    exact (heval body pos s (hchild body (by simp [Term.children])) hpos hs).resume
      (fun _ _ hstop hs => ⟨hstop, hs⟩) fun _ hs => hs
  | «scoped» set clear body =>
    rw [step_scoped]
    exact (heval body pos (flagged s ((s.flags.union set).diff clear))
      (hchild body (by simp [Term.children])) hpos hs).resume
      (fun _ s' hstop (hs : s'.StaysIn K) => ⟨hstop, hs⟩) fun s' (hs : s'.StaysIn K) => hs
  | gate flags whenSet body =>
    rw [step_gate]
    split
    · exact heval body pos s (hchild body (by simp [Term.children])) hpos hs
    · exact hs
  | fold operand tails max =>
    rw [step_fold]
    refine (heval operand pos s (hchild operand (by simp [Term.children])) hpos hs).resume
      (foldFrom_staysIn heval max _ (fun tail htail => ?_) _ 0) fun _ hs => hs
    exact hchild tail.2 (List.mem_cons_of_mem _ (List.mem_map_of_mem htail))

end

/-- **All places of a run are in `K`** if it begins there and no terminal leaves it. -/
theorem eval_staysIn (hrules : ∀ (id : Nat) (rule : Rule), m.grammar.rules[id]? = some rule →
    rule.body.Every (m.Stays K)) (fuel : Nat) : m.EvalStaysIn K (m.eval fuel) := by
  induction fuel with
  | zero => exact fun _ _ _ _ _ _ => trivial
  | succ fuel ih => exact step_staysIn ih hrules fuel

/-! ## What was expected -/

/-- Terms that match whatever there is, and the end of the text behind them. -/
def readsToEnd : List Term → Bool
  | [.ended] => true
  | .star _ :: ts => readsToEnd ts
  | _ => false

theorem repeatFrom_ne_failed {eval : Evaluator} {t : Term} (fuel : Nat) : ∀ pos s s',
    repeatFrom eval t fuel pos s ≠ .failed s' := by
  induction fuel with
  | zero => rintro _ _ _ ⟨⟩
  | succ fuel ih =>
    intro pos s s' h
    rw [repeatFrom_succ] at h
    cases ho : eval t pos s with
    | matched stop s₁ =>
      simp only [ho, Outcome.resume] at h
      split at h
      · cases h
      · exact ih stop s₁ s' h
    | failed s₁ => rw [ho] at h; cases h
    | fault f => rw [ho] at h; cases h

/-- **When only the end of the text is missing, something is expected.**  Either it is the end, or
more was asked for at a later place, which is not the beginning. -/
theorem expected_of_seqFrom (hrules : ∀ (id : Nat) (rule : Rule), m.grammar.rules[id]? = some rule →
    rule.body.Every (m.Stays K)) {fuel mark : Nat} {ts : List Term} (hts : readsToEnd ts = true)
    {after : State} : ∀ pos (before : State), (∀ t ∈ ts, t.Every (m.Stays K)) → K pos →
      before.StaysIn K → before.suppress = 0 →
      seqFrom (m.eval fuel) mark ts pos before = .failed after → after.failure.expected ≠ [] := by
  induction ts with
  | nil => cases hts
  | cons t ts ih =>
    intro pos before hstays hpos hbefore hloud h
    rw [seqFrom_cons] at h
    have ht := eval_staysIn hrules fuel t pos before (hstays t (by simp)) hpos hbefore
    have hfaith := eval_isFaithful m fuel t pos before
    cases ho : m.eval fuel t pos before with
    | fault f => rw [ho] at h; cases h
    | matched stop mid =>
      rw [ho] at h ht hfaith
      obtain ⟨ns, hext, -⟩ := hfaith
      cases t with
      | star body =>
        exact ih hts stop mid (fun t ht => hstays t (by simp [ht])) ht.1 ht.2
          (hext.suppress.trans hloud) h
      | ended =>
        cases ts with
        | nil => cases h
        | cons _ _ => cases hts
      | _ => cases hts
    | failed mid =>
      rw [ho] at h
      cases h
      cases fuel with
      | zero => cases ho
      | succ fuel =>
        cases t with
        | star body => exact absurd ho (repeatFrom_ne_failed fuel pos before mid)
        | ended =>
          rw [show m.eval (fuel + 1) = m.step fuel (m.eval fuel) from rfl] at ho
          have hmid : mid = before.expect pos (.token .eof) := step_terminal_failed rfl ho
          subst hmid
          change (before.expect pos (.token .eof)).failure.expected ≠ []
          rcases State.expect_cases pos (.token .eof) hloud with
            ⟨hlt, hsame⟩ | ⟨-, -, hmem⟩
          · -- the record is of a later place, so it is not the empty one
            rw [hsame]
            exact hbefore.2.2.resolve_left fun heq => Pos.not_lt_start (heq ▸ hlt)
          · exact List.ne_nil_of_mem hmem
        | _ => cases hts

/-- A rule of which nothing is known fails with its body, unless a limit is passed. -/
theorem failed_of_applyRule {id : Nat} {rule : Rule} {pos : Pos} {s s' : State}
    (hlive : s.halted = false) (hnone : s.memo.get? ⟨id, pos, s.flags⟩ = none)
    (h : m.applyRule eval id rule pos s = .failed s') (hlive' : s'.halted = false) :
    ∃ mid, eval rule.body pos (entering pos (stepped s) rule ⟨id, pos, s.flags⟩) = .failed mid ∧
      s' = leavingFailed pos (stepped s) rule ⟨id, pos, s.flags⟩ mid := by
  rw [applyRule_eq m eval pos s id rule hlive] at h
  split at h
  · cases h
    simp [State.halted] at hlive'
  · split at h
    · cases h
      simp [State.halted] at hlive'
    · have hentered : consult m.limits.reuse eval rule ⟨id, pos, s.flags⟩ pos (stepped s) =
          enterRule eval rule ⟨id, pos, s.flags⟩ pos (stepped s) := by
        have hnone : (stepped s).memo.get? ⟨id, pos, s.flags⟩ = none := hnone
        simp only [consult, hnone]
      rw [hentered, enterRule_eq] at h
      cases ho : eval rule.body pos (entering pos (stepped s) rule ⟨id, pos, s.flags⟩) with
      | matched stop mid => rw [ho] at h; cases h
      | failed mid =>
        rw [ho] at h
        cases h
        exact ⟨mid, rfl, rfl⟩
      | fault f => rw [ho] at h; cases h

end Machine
end Peg
end Packrat
