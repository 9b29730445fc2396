/-
# What the check of a grammar looks up

The check asks for marks by number, and stops at a number that no rule has.  Otherwise it comes to
what is told plainly (`Grammar.checkLeftCalls_attempts`).

What it looks up are left calls.  While marks are still being set, a reference is asked for only
where all that stands before it may match without reading by the marks that there are, so by those
that there will be in the end; what is followed afterwards are left calls too.  Hence an error
about a number shows a rule that left-calls it (`Grammar.IsStray`), and rules that pass the check
left-call only rules (`Grammar.of_checkLeftCalls`).

| in the check | plainly |
| --- | --- |
| `askNullable`, `askLeftCalls` | `nullable`, `leftCalls` |
| `markRule`, `markFrom`, `markPasses` | `visit`, `visitFrom`, `passes` |
| `findNullable`, `findLeftCalls` | `nullableRules`, `leftCallGraph` |
| `follow` | `search` |
| `checkLeftCalls` | `plainCheck` |
-/

import Packrat.Proofs.Peg.LeftCall
import Packrat.Proofs.Peg.Part
import Packrat.Proofs.Peg.Passes

namespace Packrat
namespace Peg

/-! ## Computations that may stop -/

/-- A computation comes out as another, unless it stops with an error of which `P` holds. -/
def Attempts {ε α : Type} (P : ε → Prop) (x y : Except ε α) : Prop :=
  x = y ∨ ∃ e, x = .error e ∧ P e

namespace Attempts

variable {ε α β : Type} {P : ε → Prop} {x y : Except ε α}

theorem refl (x : Except ε α) : Attempts P x x := .inl rfl

theorem stop {e : ε} (h : P e) : Attempts P (.error e) y := .inr ⟨e, rfl, h⟩

/-- Where no error is allowed, the two are the same. -/
theorem eq (h : Attempts P x y) (hP : ∀ e, ¬ P e) : x = y := by
  rcases h with heq | ⟨e, -, he⟩
  · exact heq
  · exact absurd he (hP e)

/-- What comes out is what comes out of the other. -/
theorem eq_of_ok {a : α} (h : Attempts P x y) (hx : x = .ok a) : y = .ok a := by
  rcases h with rfl | ⟨e, hstop, -⟩
  · exact hx
  · cases hstop.symm.trans hx

/-- Going on in two ways. -/
theorem bind {f f' : α → Except ε β} (h : Attempts P x y)
    (hf : ∀ a, y = .ok a → Attempts P (f a) (f' a)) : Attempts P (x >>= f) (y >>= f') := by
  rcases h with rfl | ⟨e, rfl, he⟩
  · cases x with
    | error e => exact .refl _
    | ok a => exact hf a rfl
  · exact stop he

/-- Going on with a value. -/
theorem andThen {a : α} {f : α → Except ε β} {z : Except ε β} (h : Attempts P x (.ok a))
    (hf : Attempts P (f a) z) : Attempts P (x >>= f) z := by
  rcases h with rfl | ⟨e, rfl, he⟩
  · exact hf
  · exact stop he

/-- What came out was made of the value. -/
theorem ok_of_bind {a : α} {b : β} {f : α → Except ε β} (h : Attempts P x (.ok a))
    (hx : x >>= f = .ok b) : f a = .ok b := by
  rcases h with rfl | ⟨e, rfl, -⟩
  · exact hx
  · cases hx

/-- One step after the other. -/
theorem foldlM {f f' : β → α → Except ε β} {as : List α}
    (h : ∀ a ∈ as, ∀ b, Attempts P (f b a) (f' b a)) :
    ∀ b, Attempts P (as.foldlM f b) (as.foldlM f' b) := by
  induction as with
  | nil => exact fun b => .refl _
  | cons a as ih =>
    intro b
    rw [List.foldlM_cons, List.foldlM_cons]
    exact (h a (by simp) b).bind fun b' _ => ih (fun a' ha' => h a' (by simp [ha'])) b'

theorem mapM {f : α → Except ε β} {v : α → β} {as : List α}
    (h : ∀ a ∈ as, Attempts P (f a) (.ok (v a))) :
    Attempts P (as.mapM f) (.ok (as.map v)) := by
  induction as with
  | nil => exact .refl _
  | cons a as ih =>
    rw [List.mapM_cons]
    refine (h a (by simp)).andThen ?_
    exact (ih fun a' ha' => h a' (by simp [ha'])).andThen (.refl _)

end Attempts

section

variable {ε ε' α β : Type} (h : ε → ε')

/-- Other words for the errors of a computation that goes on. -/
theorem mapError_bind (x : Except ε α) (f : α → Except ε β) :
    (x >>= f).mapError h = x.mapError h >>= fun a => (f a).mapError h := by
  cases x <;> rfl

/-- Other words for the errors of some steps. -/
theorem mapError_foldlM (f : β → α → Except ε β) (as : List α) :
    ∀ b, (as.foldlM f b).mapError h = as.foldlM (fun b a => (f b a).mapError h) b := by
  induction as with
  | nil => exact fun _ => rfl
  | cons a as ih =>
    intro b
    rw [List.foldlM_cons, List.foldlM_cons, mapError_bind]
    exact congrArg _ (funext ih)

end

/-! ## Terms -/

namespace Term

variable {ε : Type} {P : ε → Prop} {look : RuleRef → Except ε Bool} {null null' : RuleRef → Bool}

mutual

/-- **Only left calls are looked up**: those by the marks there will be, where references are asked
for the marks that there are. -/
theorem askNullable_attempts (hle : ∀ r, null r = true → null' r = true) : ∀ t : Term,
    (∀ r ∈ t.leftCalls null', Attempts P (look r) (.ok (null r))) →
      Attempts P (t.askNullable look) (.ok (t.nullable null))
  | .token _, _ | .split _, _ | .word _, _ | .any, _ | .ended, _ | .opt _, _ | .star _, _
  | .ahead _, _ | .notAhead _, _ => .refl _
  | .seq items, h => askAllNullable_attempts hle items h
  | .choice items, h => askAnyNullable_attempts hle items h
  | .plus body, h | .node _ body, h | .scoped _ _ body, h | .gate _ _ body, h =>
    askNullable_attempts hle body h
  | .ref r, h => h r (List.mem_singleton_self r)
  | .fold operand _ _, h =>
    askNullable_attempts hle operand fun r hr => h r (List.mem_append_left _ hr)

theorem askAllNullable_attempts (hle : ∀ r, null r = true → null' r = true) : ∀ ts : List Term,
    (∀ r ∈ leftCallsOfSeq null' ts, Attempts P (look r) (.ok (null r))) →
      Attempts P (askAllNullable look ts) (.ok (allNullable null ts))
  | [], _ => .refl _
  | t :: ts, h => by
    refine (askNullable_attempts hle t fun r hr => h r (List.mem_append_left _ hr)).andThen ?_
    rw [allNullable]
    cases hfirst : t.nullable null with
    | false => exact .refl _
    | true =>
      refine askAllNullable_attempts hle ts fun r hr => h r (List.mem_append_right _ ?_)
      rwa [if_pos (nullable_mono hle t hfirst)]

theorem askAnyNullable_attempts (hle : ∀ r, null r = true → null' r = true) : ∀ ts : List Term,
    (∀ r ∈ leftCallsOfAll null' ts, Attempts P (look r) (.ok (null r))) →
      Attempts P (askAnyNullable look ts) (.ok (anyNullable null ts))
  | [], _ => .refl _
  | t :: ts, h => by
    refine (askNullable_attempts hle t fun r hr => h r (List.mem_append_left _ hr)).andThen ?_
    rw [anyNullable]
    cases t.nullable null with
    | true => exact .refl _
    | false => exact askAnyNullable_attempts hle ts fun r hr => h r (List.mem_append_right _ hr)

end

mutual

/-- The left calls of a term are found. -/
theorem askLeftCalls_attempts : ∀ t : Term,
    (∀ r ∈ t.leftCalls null, Attempts P (look r) (.ok (null r))) →
      Attempts P (t.askLeftCalls look) (.ok (t.leftCalls null))
  | .token _, _ | .split _, _ | .word _, _ | .any, _ | .ended, _ | .ref _, _ => .refl _
  | .seq items, h => askLeftCallsOfSeq_attempts items h
  | .choice items, h => askLeftCallsOfAll_attempts items h
  | .opt body, h | .star body, h | .plus body, h | .ahead body, h | .notAhead body, h
  | .node _ body, h | .scoped _ _ body, h | .gate _ _ body, h => askLeftCalls_attempts body h
  | .fold operand tails _, h => by
    have hoperand := fun r hr => h r (List.mem_append_left _ hr)
    refine (askLeftCalls_attempts operand hoperand).andThen
      ((askNullable_attempts (fun _ => id) operand hoperand).andThen ?_)
    rw [leftCalls]
    cases hnull : operand.nullable null with
    | false => simpa using .refl _
    | true =>
      refine (askLeftCallsOfTails_attempts tails fun r hr => h r ?_).andThen (.refl _)
      exact List.mem_append_right _ (by rwa [if_pos hnull])

theorem askLeftCallsOfSeq_attempts : ∀ ts : List Term,
    (∀ r ∈ leftCallsOfSeq null ts, Attempts P (look r) (.ok (null r))) →
      Attempts P (askLeftCallsOfSeq look ts) (.ok (leftCallsOfSeq null ts))
  | [], _ => .refl _
  | t :: ts, h => by
    have hfirst := fun r hr => h r (List.mem_append_left _ hr)
    refine (askLeftCalls_attempts t hfirst).andThen
      ((askNullable_attempts (fun _ => id) t hfirst).andThen ?_)
    rw [leftCallsOfSeq]
    cases hnull : t.nullable null with
    | false => simpa using .refl _
    | true =>
      refine (askLeftCallsOfSeq_attempts ts fun r hr => h r ?_).andThen (.refl _)
      exact List.mem_append_right _ (by rwa [if_pos hnull])

theorem askLeftCallsOfAll_attempts : ∀ ts : List Term,
    (∀ r ∈ leftCallsOfAll null ts, Attempts P (look r) (.ok (null r))) →
      Attempts P (askLeftCallsOfAll look ts) (.ok (leftCallsOfAll null ts))
  | [], _ => .refl _
  | t :: ts, h =>
    (askLeftCalls_attempts t fun r hr => h r (List.mem_append_left _ hr)).andThen
      ((askLeftCallsOfAll_attempts ts fun r hr => h r (List.mem_append_right _ hr)).andThen
        (.refl _))

theorem askLeftCallsOfTails_attempts : ∀ tails : List (Kind × Term),
    (∀ r ∈ leftCallsOfTails null tails, Attempts P (look r) (.ok (null r))) →
      Attempts P (askLeftCallsOfTails look tails) (.ok (leftCallsOfTails null tails))
  | [], _ => .refl _
  | (_, t) :: tails, h =>
    (askLeftCalls_attempts t fun r hr => h r (List.mem_append_left _ hr)).andThen
      ((askLeftCallsOfTails_attempts tails fun r hr => h r (List.mem_append_right _ hr)).andThen
        (.refl _))

end

mutual

/-- The left calls of a term stand in it. -/
theorem ref_mem_parts {r : RuleRef} : ∀ t : Term, r ∈ t.leftCalls null → .ref r ∈ t.parts
  | .token _, h | .split _, h | .word _, h | .any, h | .ended, h => by cases h
  | .ref _, h => by
    obtain rfl := List.mem_singleton.mp h
    exact List.mem_singleton_self _
  | .seq items, h => List.mem_cons_of_mem _ (ref_mem_partsOfAll_of_seq items h)
  | .choice items, h => List.mem_cons_of_mem _ (ref_mem_partsOfAll items h)
  | .opt body, h | .star body, h | .plus body, h | .ahead body, h | .notAhead body, h
  | .node _ body, h | .scoped _ _ body, h | .gate _ _ body, h =>
    List.mem_cons_of_mem _ (ref_mem_parts body h)
  | .fold operand tails _, h => by
    refine List.mem_cons_of_mem _ (List.mem_append.mpr ?_)
    refine (List.mem_append.mp h).imp (ref_mem_parts operand) fun h => ?_
    split at h
    · exact ref_mem_partsOfTails tails h
    · cases h

theorem ref_mem_partsOfAll_of_seq {r : RuleRef} : ∀ ts : List Term,
    r ∈ leftCallsOfSeq null ts → .ref r ∈ partsOfAll ts
  | [], h => by cases h
  | t :: ts, h => by
    refine List.mem_append.mpr ((List.mem_append.mp h).imp (ref_mem_parts t) fun h => ?_)
    split at h
    · exact ref_mem_partsOfAll_of_seq ts h
    · cases h

theorem ref_mem_partsOfAll {r : RuleRef} : ∀ ts : List Term,
    r ∈ leftCallsOfAll null ts → .ref r ∈ partsOfAll ts
  | [], h => by cases h
  | t :: ts, h =>
    List.mem_append.mpr
      ((List.mem_append.mp h).imp (ref_mem_parts t) (ref_mem_partsOfAll ts))

theorem ref_mem_partsOfTails {r : RuleRef} : ∀ tails : List (Kind × Term),
    r ∈ leftCallsOfTails null tails → .ref r ∈ partsOfTails tails
  | [], h => by cases h
  | (_, t) :: tails, h =>
    List.mem_append.mpr
      ((List.mem_append.mp h).imp (ref_mem_parts t) (ref_mem_partsOfTails tails))

end

end Term

namespace Grammar

variable {g : Grammar} {marks : Array Bool}

/-- The error names a number that no rule has, and a rule left-calls it. -/
def IsStray (g : Grammar) (e : GrammarError) : Prop :=
  ∃ id i, e = .noRule id g.rules.size ∧ g.rules.size ≤ id ∧ g.LeftCalls i id

/-! ## Marking -/

/-- **Looking up a left call** gives its mark, or shows that it is to no rule. -/
theorem lookUp_attempts (hsize : marks.size = g.rules.size) {i : Nat} {rule : Rule}
    (hrule : g.rules[i]? = some rule) {r : RuleRef} (hr : r ∈ rule.body.leftCalls g.isNullable) :
    Attempts g.IsStray (g.lookUp marks r) (.ok (g.isMarked marks r)) := by
  rw [lookUp, isMarked]
  cases hid : g.resolve? r with
  | none => exact .refl _
  | some id =>
    simp only [Option.any_some]
    cases hmark : marks[id]? with
    | some mark => simpa [Array.getD_eq_getD_getElem?, hmark] using .refl _
    | none =>
      rw [Array.getElem?_eq_none_iff] at hmark
      have hstray : g.IsStray (.noRule id marks.size) :=
        ⟨id, i, by rw [hsize], hsize ▸ hmark, rule, hrule, r, hr, hid⟩
      exact .stop hstray

/-- A rule is visited. -/
theorem markRule_attempts {p : Pass} (hsize : p.marks.size = g.rules.size)
    (hmarks : markedIn p.marks ≤ markedIn g.nullableRules) {id : Nat} {rule : Rule}
    (hrule : g.rules[id]? = some rule) :
    Attempts g.IsStray (g.markRule id rule p) (.ok (g.visit id rule p)) := by
  rw [markRule, visit]
  by_cases hnew : p.marks[id]? = some false
  · rw [if_pos hnew]
    refine (Term.askNullable_attempts (any_of_isMarked hmarks) rule.body fun r hr =>
      lookUp_attempts hsize hrule hr).andThen ?_
    cases hbody : rule.body.nullable (g.isMarked p.marks) with
    | false => simpa using .refl _
    | true => simpa [hnew] using .refl _
  · rw [if_neg hnew, if_neg fun h => hnew h.1]
    exact .refl _

/-- Rules are visited one after the other. -/
theorem markFrom_attempts {rules : List Rule} : ∀ {start : Nat} {p : Pass},
    p.marks.size = g.rules.size → markedIn p.marks ≤ markedIn g.nullableRules →
    (∀ i rule, rules[i]? = some rule → g.rules[start + i]? = some rule) →
      Attempts g.IsStray (g.markFrom start rules p) (.ok (g.visitFrom start rules p)) := by
  induction rules with
  | nil => exact fun _ _ _ => .refl _
  | cons rule rules ih =>
    intro start p hsize hmarks hrules
    have hrule : g.rules[start]? = some rule := hrules 0 rule rfl
    refine (markRule_attempts hsize hmarks hrule).andThen (ih ?_ ?_ fun i rule' hrule' => ?_)
    · exact (visit_grows g start rule p).size.trans hsize
    · exact IsClosed.visit_le g.isLeast_nullableRules.1 hrule hmarks
    · rw [Nat.add_assoc, Nat.add_comm 1]
      exact hrules (i + 1) rule' hrule'

/-- Passes are made, if there may be more of them than rules that are not marked yet. -/
theorem markPasses_attempts (n : Nat) : ∀ {marks : Array Bool}, marks.size = g.rules.size →
    markedIn marks ≤ markedIn g.nullableRules → marks.count false < n →
      Attempts g.IsStray (g.markPasses n marks) (.ok (g.passes marks)) := by
  induction n with
  | zero =>
    intro marks _ _ hcount
    omega
  | succ n ih =>
    intro marks hsize hmarks hcount
    have hrules : ∀ i rule, g.rules.toList[i]? = some rule → g.rules[0 + i]? = some rule :=
      fun i rule hrule => by simpa using hrule
    refine (markFrom_attempts hsize hmarks hrules).andThen ?_
    rw [passes]
    cases hchanged : (g.pass marks).changed with
    | false =>
      rw [pass] at hchanged
      simpa [pass, hchanged] using .refl _
    | true =>
      -- a pass that has set a mark leaves fewer rules to be marked
      have hgrows := visitFrom_grows g g.rules.toList 0 ⟨marks, false⟩
      have hlt : (g.pass marks).marks.count false < marks.count false :=
        (hgrows.changed hchanged).resolve_left (by simp)
      have hnext := ih ((size_pass g marks).trans hsize)
        (IsClosed.pass_le g.isLeast_nullableRules.1 hmarks) (by omega)
      rw [pass] at hchanged hnext
      simpa [pass, hchanged] using hnext

/-- **The nullable rules are found**, or a left call to no rule is. -/
theorem findNullable_attempts (g : Grammar) :
    Attempts g.IsStray g.findNullable (.ok g.nullableRules) := by
  rw [← g.passes_eq_nullableRules]
  refine markPasses_attempts _ Array.size_replicate (markedIn_replicate_le _ _) ?_
  rw [Array.count_replicate]
  simp

/-! ## Following left calls -/

theorem size_nullableRules (g : Grammar) : g.nullableRules.size = g.rules.size := by
  rw [← g.markRound_nullableRules, g.size_markRound]

/-- The graph of left calls is found, or a left call to no rule is. -/
theorem findLeftCalls_attempts (g : Grammar) :
    Attempts g.IsStray (g.findLeftCalls g.nullableRules) (.ok g.leftCallGraph.toList) := by
  rw [findLeftCalls, leftCallGraph, Array.toList_map]
  refine .mapM fun rule hmem => ?_
  obtain ⟨i, hrule⟩ := Array.getElem?_of_mem (Array.mem_toList_iff.mp hmem)
  have hfound : Attempts g.IsStray (rule.body.askLeftCalls (g.lookUp g.nullableRules))
      (.ok (rule.body.leftCalls g.isNullable)) :=
    Term.askLeftCalls_attempts rule.body fun _ => lookUp_attempts g.size_nullableRules hrule
  exact hfound.andThen (.refl _)

/-- An error about a cycle, which names the rules on it. -/
def cycleError (g : Grammar) (walk : List Nat) : GrammarError := .leftRecursion (g.namesOn walk)

/-- **Left calls are followed**, or one of them is to no rule. -/
theorem follow_attempts (depth : Nat) : ∀ {path : List Nat} {id : Nat} {done : List Nat},
    (g.rules.size ≤ id → ∃ i, g.LeftCalls i id) →
      Attempts g.IsStray (g.follow g.leftCallGraph depth path id done)
        ((search g.leftCallGraph depth path id done).mapError g.cycleError) := by
  induction depth with
  | zero => exact fun _ => .refl _
  | succ depth ih =>
    intro path id done hid
    rw [follow, search]
    by_cases hout : g.rules.size ≤ id
    · obtain ⟨i, hcall⟩ := hid hout
      rw [if_pos hout]
      exact .stop ⟨id, i, rfl, hout, hcall⟩
    · rw [if_neg hout]
      split_ifs
      · exact .refl _
      · exact .refl _
      · have hsteps : ∀ callee ∈ g.leftCallGraph.getD id [], ∀ mid,
            Attempts g.IsStray (g.follow g.leftCallGraph depth (id :: path) callee mid)
              ((search g.leftCallGraph depth (id :: path) callee mid).mapError g.cycleError) :=
          fun callee hcallee mid => ih fun _ => ⟨id, mem_leftCallGraph.mp hcallee⟩
        have hfold := Attempts.foldlM hsteps done
        rw [← mapError_foldlM] at hfold
        rw [mapError_bind]
        exact hfold.bind fun _ _ => .refl _

/-- What steps keep, all of them together keep. -/
theorem foldlM_induction {ε α β : Type} {Q : β → Prop} {f : β → α → Except ε β} {as : List α}
    (hstep : ∀ a ∈ as, ∀ b b', Q b → f b a = .ok b' → Q b') :
    ∀ b b', Q b → as.foldlM f b = .ok b' → Q b' := by
  induction as with
  | nil =>
    intro b b' hb h
    cases h
    exact hb
  | cons a as ih =>
    intro b b' hb h
    rw [List.foldlM_cons] at h
    cases hfirst : f b a with
    | error e => rw [hfirst] at h; cases h
    | ok mid =>
      rw [hfirst] at h
      have hmid := hstep a (by simp) b mid hb hfirst
      exact ih (fun a' ha' => hstep a' (by simp [ha'])) mid b' hmid h

/-- Only rules are followed to the end. -/
theorem lt_of_follow {graph : Array (List Nat)} (depth : Nat) :
    ∀ path id done done', (∀ x ∈ done, x < g.rules.size) →
      g.follow graph depth path id done = .ok done' → ∀ x ∈ done', x < g.rules.size := by
  induction depth with
  | zero =>
    intro path id done done' hdone h
    cases h
    exact hdone
  | succ depth ih =>
    intro path id done done' hdone h
    rw [follow] at h
    split_ifs at h with hout hpath hmem
    · cases h
      exact hdone
    · cases hfold : (graph.getD id []).foldlM
          (fun done callee => g.follow graph depth (id :: path) callee done) done with
      | error e => rw [hfold] at h; cases h
      | ok mid =>
        rw [hfold] at h
        cases h
        have hmid := foldlM_induction (fun callee _ => ih (id :: path) callee) done mid hdone hfold
        exact List.forall_mem_cons.mpr ⟨Nat.lt_of_not_le hout, hmid⟩

/-- What the check says if it looks nothing up in vain. -/
def plainCheck (g : Grammar) : Except GrammarError Unit :=
  match g.leftCycle? with
  | none => .ok ()
  | some walk => .error (g.cycleError walk)

/-- The search from each rule in turn, in one piece. -/
theorem plainCheck_eq (g : Grammar) : g.plainCheck = (do
    let _ ← ((List.range g.rules.size).foldlM (fun done id =>
      search g.leftCallGraph (g.rules.size + 1) [] id done) []).mapError g.cycleError) := by
  rw [plainCheck, leftCycle?]
  cases (List.range g.rules.size).foldlM (fun done id =>
    search g.leftCallGraph (g.rules.size + 1) [] id done) [] <;> rfl

/-- Left calls are followed from each rule in turn, or one of them is to no rule. -/
theorem foldlM_follow_attempts (g : Grammar) : Attempts g.IsStray
    ((List.range g.rules.size).foldlM (fun done id =>
      g.follow g.leftCallGraph (g.rules.size + 1) [] id done) [])
    (((List.range g.rules.size).foldlM (fun done id =>
      search g.leftCallGraph (g.rules.size + 1) [] id done) []).mapError g.cycleError) := by
  rw [mapError_foldlM]
  refine .foldlM (fun id hid done => follow_attempts _ fun hout => ?_) []
  exact absurd (List.mem_range.mp hid) (Nat.not_lt.mpr hout)

/-- **The check finds a cycle of left calls exactly when there is one**, unless it finds a left call
to no rule. -/
theorem checkLeftCalls_attempts (g : Grammar) :
    Attempts g.IsStray g.checkLeftCalls g.plainCheck := by
  rw [plainCheck_eq]
  refine g.findNullable_attempts.andThen (g.findLeftCalls_attempts.andThen ?_)
  rw [Array.toArray_toList]
  exact g.foldlM_follow_attempts.bind fun _ _ => .refl _

/-- Without an error, there is no cycle. -/
theorem leftCycle?_eq_none_of_plainCheck (h : g.plainCheck = .ok ()) : g.leftCycle? = none := by
  rw [plainCheck] at h
  split at h
  · assumption
  · cases h

/-- **Rules that pass the check** left-call only rules, and there is no cycle of left calls. -/
theorem of_checkLeftCalls (h : g.checkLeftCalls = .ok ()) :
    g.leftCycle? = none ∧ ∀ i j, g.LeftCalls i j → j < g.rules.size := by
  have hcycle := leftCycle?_eq_none_of_plainCheck (g.checkLeftCalls_attempts.eq_of_ok h)
  refine ⟨hcycle, fun i j hcall => ?_⟩
  have hfollow := g.findLeftCalls_attempts.ok_of_bind (g.findNullable_attempts.ok_of_bind h)
  rw [Array.toArray_toList] at hfollow
  cases hdone : (List.range g.rules.size).foldlM (fun done id =>
      g.follow g.leftCallGraph (g.rules.size + 1) [] id done) [] with
  | error e => rw [hdone] at hfollow; cases hfollow
  | ok done =>
    have hrules := foldlM_induction (fun id _ => lt_of_follow (g.rules.size + 1) [] id) [] done
      (by simp) hdone
    -- what was followed is what the search settles, and that is closed under left calls
    obtain ⟨done', hdone', hsettled, hall⟩ := exists_settled hcycle
    have heq := g.foldlM_follow_attempts.eq_of_ok hdone
    rw [hdone'] at heq
    obtain rfl := Except.ok.inj heq
    have hcallee := mem_leftCallGraph.mpr hcall
    obtain ⟨rule, hrule, -⟩ := hcall
    have hi := hall i (Array.getElem?_eq_some_iff.mp hrule).1
    exact hrules j (hsettled.callee_mem hi hcallee)

/-- Every reference by number that stands anywhere in a rule leads to a rule. -/
def KnowsNumbers (g : Grammar) : Prop :=
  ∀ rule ∈ g.rules, ∀ id, .ref (.linked id) ∈ rule.body.parts → id < g.rules.size

/-- Left calls are to rules if references by number are. -/
theorem KnowsNumbers.lt (hnumbers : g.KnowsNumbers) {i j : Nat} (hcall : g.LeftCalls i j) :
    j < g.rules.size := by
  obtain ⟨rule, hrule, r, hr, hresolve⟩ := hcall
  cases r with
  | linked id =>
    obtain rfl := Option.some.inj hresolve
    exact hnumbers rule (Array.mem_of_getElem? hrule) id (rule.body.ref_mem_parts hr)
  | named name => exact (Array.findIdx?_eq_some_iff_getElem.mp hresolve).1

theorem KnowsNumbers.not_isStray (hnumbers : g.KnowsNumbers) {e : GrammarError} :
    ¬ g.IsStray e := by
  rintro ⟨id, i, -, hout, hcall⟩
  exact Nat.not_lt.mpr hout (hnumbers.lt hcall)

/-- With numbers of rules only, and no cycle, the check says nothing. -/
theorem checkLeftCalls_eq_ok (hnumbers : g.KnowsNumbers) (hcycle : g.leftCycle? = none) :
    g.checkLeftCalls = .ok () := by
  have hplain : g.plainCheck = .ok () := by rw [plainCheck, hcycle]
  rw [← hplain]
  exact g.checkLeftCalls_attempts.eq fun _ => hnumbers.not_isStray

/-! ## The checks of a grammar -/

/-- What is found out about the rules before their grammar is accepted: no name is used twice,
there are not too many, each name in them has a number, and the check of left calls says nothing. -/
theorem ofRules_eq_ok {rules : List Rule} (h : ofRules rules = .ok g) :
    lastDuplicate? [] rules = none ∧ rules.length ≤ maxRules ∧
      linkRules (⟨rules.toArray⟩ : Grammar).id? rules = .ok g.rules.toList ∧
      g.checkLeftCalls = .ok () := by
  unfold ofRules at h
  cases hdup : lastDuplicate? [] rules with
  | some name =>
    rw [hdup] at h
    cases h
  | none =>
    rw [hdup] at h
    by_cases hmany : rules.length > maxRules
    · simp only [if_pos hmany] at h
      cases h
    · simp only [if_neg hmany] at h
      cases hlink : linkRules (⟨rules.toArray⟩ : Grammar).id? rules with
      | error e =>
        rw [hlink] at h
        cases h
      | ok linked =>
        rw [hlink] at h
        cases hcheck : (⟨linked.toArray⟩ : Grammar).checkLeftCalls with
        | error e =>
          simp only [bind, Except.bind, hcheck] at h
          cases h
        | ok _ =>
          simp only [bind, Except.bind, hcheck] at h
          cases h
          exact ⟨rfl, Nat.le_of_not_lt hmany, by simp, hcheck⟩

/-- A grammar that is accepted has no cycle of left calls. -/
theorem leftCycle?_of_ofRules {rules : List Rule} (h : ofRules rules = .ok g) :
    g.leftCycle? = none := (of_checkLeftCalls (ofRules_eq_ok h).2.2.2).1

end Grammar
end Peg
end Packrat
