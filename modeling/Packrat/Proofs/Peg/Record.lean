/-
# Records of failures, compared

A record of failures grows: a later place displaces an earlier one, and what is asked for at the
same place is put behind what was asked for before (`Failure.Precedes`, `Machine.eval_precedes`).
Even a label takes the place of what its own rule asked for only.

Two records of different runs are compared in two ways.  One is *within* the other when it is of an
earlier place, or of the same and expects no more (`Failure.IsWithin`).  With an eye on one place
alone, at which a label may have hidden what was asked for, a record is *known* to another
(`Failure.KnownAt`), and one *agrees* with another (`Failure.AgreesAt`):

| records | places | at the place in view |
| --- | --- | --- |
| `F.KnownAt q G` | that of `F` is not later | `G` expects all that `F` does, or a label |
| `F.AgreesAt q G` | the same | `G` is `F`, or expects a label |
-/

import Packrat.Proofs.Peg.Alongside
import Packrat.Proofs.Peg.Lasting

namespace Packrat
namespace Peg

theorem Pos.lt_or_eq_or_lt (p q : Pos) : p < q ∨ p = q ∨ q < p := by
  by_cases hlt : p < q
  · exact .inl hlt
  · by_cases heq : p = q
    · exact .inr (.inl heq)
    · exact .inr (.inr (Pos.lt_of_not_lt hlt heq))

theorem Pos.ne_of_lt {p q : Pos} (h : p < q) : p ≠ q := fun heq => Pos.lt_irrefl q (heq ▸ h)

theorem Pos.not_lt_of_lt {p q : Pos} (h : p < q) : ¬ q < p :=
  fun h' => Pos.lt_irrefl p (Pos.lt_trans h h')

namespace Failure

/-- From one record to a later one of the same run. -/
def Precedes (F G : Failure) : Prop := F.pos < G.pos ∨ F.pos = G.pos ∧ F.expected <+: G.expected

/-- A record is of an earlier place than another, or of the same place and expects no more. -/
def IsWithin (F G : Failure) : Prop := F.pos < G.pos ∨ F.pos = G.pos ∧ F.expected ⊆ G.expected

/-- Some label is expected. -/
def IsLabelled (F : Failure) : Prop := ∃ label, .label label ∈ F.expected

/-- A record is of an earlier place than another, or of the same; if this is `q`, then all that it
expects is expected by the other, or a label is. -/
def KnownAt (q : Pos) (F G : Failure) : Prop :=
  F.pos < G.pos ∨ F.pos = G.pos ∧ (G.pos = q → F.expected ⊆ G.expected ∨ G.IsLabelled)

/-- Two records are of the same place; if this is `q`, then they are the same, or the second
expects a label. -/
def AgreesAt (q : Pos) (F G : Failure) : Prop := F.pos = G.pos ∧ (G.pos = q → G = F ∨ G.IsLabelled)

variable {F G H : Failure} {q : Pos}

theorem Precedes.refl (F : Failure) : F.Precedes F := .inr ⟨rfl, List.prefix_refl _⟩

theorem Precedes.trans (h : F.Precedes G) (h' : G.Precedes H) : F.Precedes H := by
  rcases h with hlt | ⟨heq, hpre⟩ <;> rcases h' with hlt' | ⟨heq', hpre'⟩
  · exact .inl (Pos.lt_trans hlt hlt')
  · exact .inl (heq' ▸ hlt)
  · exact .inl (heq ▸ hlt')
  · exact .inr ⟨heq.trans heq', hpre.trans hpre'⟩

theorem Precedes.isWithin (h : F.Precedes G) : F.IsWithin G :=
  h.imp_right fun hsame => ⟨hsame.1, hsame.2.subset⟩

theorem IsWithin.refl (F : Failure) : F.IsWithin F := .inr ⟨rfl, List.Subset.refl _⟩

theorem IsWithin.trans (h : F.IsWithin G) (h' : G.IsWithin H) : F.IsWithin H := by
  rcases h with hlt | ⟨heq, hsub⟩ <;> rcases h' with hlt' | ⟨heq', hsub'⟩
  · exact .inl (Pos.lt_trans hlt hlt')
  · exact .inl (heq' ▸ hlt)
  · exact .inl (heq ▸ hlt')
  · exact .inr ⟨heq.trans heq', List.Subset.trans hsub hsub'⟩

theorem KnownAt.trans (h : F.KnownAt q G) (h' : G.KnownAt q H) : F.KnownAt q H := by
  rcases h with hlt | ⟨heq, hall⟩ <;> rcases h' with hlt' | ⟨heq', hall'⟩
  · exact .inl (Pos.lt_trans hlt hlt')
  · exact .inl (heq' ▸ hlt)
  · exact .inl (heq ▸ hlt')
  · refine .inr ⟨heq.trans heq', fun hq => ?_⟩
    rcases hall' hq with hsub' | hlabel
    · rcases hall (heq'.trans hq) with hsub | ⟨label, hmem⟩
      · exact .inl (List.Subset.trans hsub hsub')
      · exact .inr ⟨label, hsub' hmem⟩
    · exact .inr hlabel

theorem AgreesAt.refl (q : Pos) (F : Failure) : F.AgreesAt q F := ⟨rfl, fun _ => .inl rfl⟩

theorem AgreesAt.trans (h : F.AgreesAt q G) (h' : G.AgreesAt q H) : F.AgreesAt q H := by
  refine ⟨h.1.trans h'.1, fun hq => ?_⟩
  rcases h'.2 hq with rfl | hlabel
  · exact h.2 hq
  · exact .inr hlabel

theorem AgreesAt.knownAt (h : F.AgreesAt q G) : F.KnownAt q G := by
  refine .inr ⟨h.1, fun hq => ?_⟩
  rcases h.2 hq with rfl | hlabel
  · exact .inl (List.Subset.refl _)
  · exact .inr hlabel

end Failure

/-! ## Asking in vain -/

namespace State

variable {s s' : State} {pos q : Pos} {what : Expected} {before before' : Failure} {label : String}

theorem expect_of_muted (h : 0 < s.suppress) : s.expect pos what = s := by
  unfold expect
  rw [if_pos h]

theorem precedes_expect (s : State) (pos : Pos) (what : Expected) :
    s.failure.Precedes (s.expect pos what).failure := by
  by_cases hs : s.suppress = 0
  · rw [failure_expect hs]
    split
    · next hlt => exact .inl hlt
    · split
      · next heq =>
        refine .inr ⟨heq, ?_⟩
        simp only
        split
        · exact List.prefix_refl _
        · exact List.prefix_append _ _
      · exact .refl _
  · rw [expect_of_muted (by omega)]
    exact .refl _

/-- Asking at an earlier place than that of the record changes nothing; otherwise what was asked
for is on record. -/
theorem expect_cases (pos : Pos) (what : Expected) (hs : s.suppress = 0) :
    pos < s.failure.pos ∧ (s.expect pos what).failure = s.failure ∨
      ¬ pos < s.failure.pos ∧ (s.expect pos what).failure.pos = pos ∧
        what ∈ (s.expect pos what).failure.expected := by
  rw [failure_expect hs]
  rcases Pos.lt_or_eq_or_lt pos s.failure.pos with hlt | heq | hlt
  · rw [if_neg (Pos.not_lt_of_lt hlt), if_neg (Pos.ne_of_lt hlt).symm]
    exact .inl ⟨hlt, rfl⟩
  · rw [heq, if_neg (Pos.lt_irrefl _), if_pos rfl]
    exact .inr ⟨Pos.lt_irrefl _, rfl, mem_note.mpr (.inl rfl)⟩
  · rw [if_pos hlt]
    exact .inr ⟨Pos.not_lt_of_lt hlt, rfl, List.mem_singleton_self _⟩

/-- Asking again for what is expected changes nothing. -/
theorem failure_expect_of_mem (hs : s.suppress = 0) (hpos : s.failure.pos = pos)
    (hmem : what ∈ s.failure.expected) : (s.expect pos what).failure = s.failure := by
  have hempty : s.failure.expected.isEmpty = false := by
    simpa using List.ne_nil_of_mem hmem
  rw [failure_expect hs, if_neg (hpos ▸ Pos.lt_irrefl _), if_pos hpos, hempty]
  simp [hmem, ← hpos]

theorem isWithin_expect (hsuppress : s'.suppress = s.suppress)
    (h : s.failure.IsWithin s'.failure) :
    (s.expect pos what).failure.IsWithin (s'.expect pos what).failure := by
  by_cases hs : s.suppress = 0
  · have hs' : s'.suppress = 0 := hsuppress.trans hs
    rcases expect_cases pos what hs with ⟨hlt, hsame⟩ | ⟨hnot, hpos, -⟩
    · rw [hsame]
      exact h.trans (precedes_expect s' pos what).isWithin
    · rcases expect_cases pos what hs' with
        ⟨hlt', hsame'⟩ | ⟨hnot', hpos', hmem'⟩
      · rw [hsame']
        exact .inl (by rwa [hpos])
      · refine .inr ⟨hpos.trans hpos'.symm, fun w hw => ?_⟩
        -- what is not asked for now was expected by the first record, of this same place
        rw [failure_expect hs] at hw
        split at hw
        · obtain rfl := List.mem_singleton.mp hw
          exact hmem'
        · next hnlt =>
          have heq : s.failure.pos = pos :=
            ((Pos.lt_or_eq_or_lt _ _).resolve_left hnlt).resolve_right hnot
          rw [if_pos heq] at hw
          rcases mem_note.mp hw with rfl | hw
          · exact hmem'
          · rcases h with hlt | ⟨hsame, hsub⟩
            · exact absurd (heq ▸ hlt) hnot'
            · rw [failure_expect hs', ← hsame, if_neg hnlt, if_pos heq]
              exact mem_note.mpr (.inr (hsub hw))
  · rw [expect_of_muted (by omega), expect_of_muted (by omega)]
    exact h

theorem knownAt_expect (s : State) (pos : Pos) (what : Expected) (q : Pos) :
    s.failure.KnownAt q (s.expect pos what).failure :=
  (precedes_expect s pos what).imp_right fun hsame => ⟨hsame.1, fun _ => .inl hsame.2.subset⟩

/-- Two runs in the same contexts ask for the same. -/
theorem agreesAt_expect (hsuppress : s'.suppress = s.suppress)
    (hcontexts : s'.contexts = s.contexts) (h : s.failure.AgreesAt q s'.failure) :
    (s.expect pos what).failure.AgreesAt q (s'.expect pos what).failure := by
  by_cases hs : s.suppress = 0
  · have hs' : s'.suppress = 0 := hsuppress.trans hs
    have hat : s'.contextAt pos = s.contextAt pos := by rw [contextAt, contextAt, hcontexts]
    obtain ⟨hpos, hall⟩ := h
    rw [failure_expect hs, failure_expect hs', hpos, hat]
    split
    · exact .refl _ _
    · split
      · next heq =>
        refine ⟨rfl, fun hq => ?_⟩
        rcases hall (heq.trans hq) with hsame | ⟨label, hmem⟩
        · exact .inl (by rw [hsame])
        · exact .inr ⟨label, mem_note.mpr (.inr hmem)⟩
      · exact ⟨hpos, hall⟩
  · rw [expect_of_muted (by omega), expect_of_muted (by omega)]
    exact h

/-- Asking for what another record already knows of changes nothing there. -/
theorem agreesAt_expect_of_knownAt (hsuppress : s'.suppress = s.suppress)
    (h : (s.expect pos what).failure.KnownAt q s'.failure) :
    s'.failure.AgreesAt q (s'.expect pos what).failure := by
  by_cases hs : s.suppress = 0
  · have hs' : s'.suppress = 0 := hsuppress.trans hs
    rcases expect_cases pos what hs' with
      ⟨hlt', hsame'⟩ | ⟨hnot', hpos', hmem'⟩
    · rw [hsame']
      exact .refl _ _
    · rcases expect_cases pos what hs with ⟨hlt, hsame⟩ | ⟨hnot, hpos, hmem⟩
      · -- the first record, and so the second, would be of a later place
        rw [hsame] at h
        rcases h with h | ⟨h, -⟩
        · exact absurd (Pos.lt_trans hlt h) hnot'
        · exact absurd (h ▸ hlt) hnot'
      · rcases h with h | ⟨h, hall⟩
        · exact absurd (hpos ▸ h) hnot'
        · have heq : s'.failure.pos = pos := h.symm.trans hpos
          refine ⟨heq.trans hpos'.symm, fun hq => ?_⟩
          rcases hall (heq.trans (hpos'.symm.trans hq)) with hsub | ⟨label, hlabel⟩
          · exact .inl (failure_expect_of_mem hs' heq (hsub hmem))
          · refine .inr ⟨label, ?_⟩
            rcases precedes_expect s' pos what with hlt | ⟨-, hpre⟩
            · exact absurd (heq.trans hpos'.symm) (Pos.ne_of_lt hlt)
            · exact hpre.subset hlabel
  · rw [expect_of_muted (by omega)]
    exact .refl _ _

/-! ## Labels -/

theorem expectLabel_of_not (h : ¬ (s.suppress = 0 ∧ s.failure.pos = pos)) :
    s.expectLabel pos before label = s := by
  unfold expectLabel
  rw [if_neg h]

/-- A label takes the place of what was asked for since `before`. -/
theorem failure_expectLabel (before : Failure) (label : String) (hs : s.suppress = 0)
    (hpos : s.failure.pos = pos) :
    (s.expectLabel pos before label).failure.pos = pos ∧
      ∃ kept, kept <+: (s.expectLabel pos before label).failure.expected ∧
        (∀ w, w ∈ (s.expectLabel pos before label).failure.expected ↔
          w = .label label ∨ w ∈ kept) ∧
        kept = if before.pos = pos then s.failure.expected.take before.expected.length else [] := by
  subst hpos
  unfold expectLabel
  rw [if_pos ⟨hs, rfl⟩]
  generalize hkept : (if before.pos = s.failure.pos then
    s.failure.expected.take before.expected.length else []) = kept
  have hloud : (State.suppress { s with failure := { s.failure with expected := kept } }) = 0 := hs
  simp only [failure_expect hloud, Pos.lt_irrefl, if_false, if_true, true_and]
  refine ⟨kept, ?_, fun w => mem_note, rfl⟩
  split
  · exact List.prefix_refl _
  · exact List.prefix_append _ _

/-- What was on record before a rule began stays on record. -/
theorem precedes_expectLabel (h : before.Precedes s.failure) :
    before.Precedes (s.expectLabel pos before label).failure := by
  by_cases hcond : s.suppress = 0 ∧ s.failure.pos = pos
  · obtain ⟨hs, hpos⟩ := hcond
    obtain ⟨hpos', kept, hpre, -, rfl⟩ :=
      failure_expectLabel before label hs hpos
    rcases h with hlt | ⟨heq, hpre'⟩
    · exact .inl (by rwa [hpos', ← hpos])
    · rw [if_pos (heq.trans hpos), ← List.prefix_iff_eq_take.mp hpre'] at hpre
      exact .inr ⟨heq.trans (hpos.trans hpos'.symm), hpre⟩
  · rwa [expectLabel_of_not hcond]

theorem isWithin_expectLabel (hsuppress : s'.suppress = s.suppress)
    (hbefore : before.IsWithin before') (h : s.failure.IsWithin s'.failure)
    (hgrows : before.Precedes s.failure) (hgrows' : before'.Precedes s'.failure) :
    (s.expectLabel pos before label).failure.IsWithin
      (s'.expectLabel pos before' label).failure := by
  by_cases hs : s.suppress = 0
  · have hs' : s'.suppress = 0 := hsuppress.trans hs
    by_cases hpos : s.failure.pos = pos
    · obtain ⟨hplace, kept, -, hmem, rfl⟩ :=
        failure_expectLabel before label hs hpos
      by_cases hpos' : s'.failure.pos = pos
      · obtain ⟨hplace', kept', -, hmem', rfl⟩ :=
          failure_expectLabel before' label hs' hpos'
        refine .inr ⟨hplace.trans hplace'.symm, fun w hw => (hmem' w).mpr ?_⟩
        refine ((hmem w).mp hw).imp_right fun hkept => ?_
        split at hkept
        · next hb =>
          -- what is kept was on record before, in both runs
          rcases hbefore with hlt | ⟨heq, hsub⟩
          · rcases hgrows' with hlt' | ⟨heq', -⟩
            · exact absurd (hpos' ▸ Pos.lt_trans hlt hlt') (hb ▸ Pos.lt_irrefl _)
            · exact absurd (hpos' ▸ heq' ▸ hlt) (hb ▸ Pos.lt_irrefl _)
          · have hb' : before'.pos = pos := heq.symm.trans hb
            rw [if_pos hb']
            rcases hgrows with hlt | ⟨-, hpre⟩
            · exact absurd (hpos ▸ hlt) (hb ▸ Pos.lt_irrefl _)
            · rcases hgrows' with hlt' | ⟨-, hpre'⟩
              · exact absurd (hpos' ▸ hlt') (hb' ▸ Pos.lt_irrefl _)
              · rw [← List.prefix_iff_eq_take.mp hpre] at hkept
                rw [← List.prefix_iff_eq_take.mp hpre']
                exact hsub hkept
        · cases hkept
      · rw [expectLabel_of_not (s := s') fun hcond => hpos' hcond.2]
        rcases h with hlt | ⟨heq, -⟩
        · exact .inl (by rwa [hplace, ← hpos])
        · exact absurd (heq.symm.trans hpos) hpos'
    · rw [expectLabel_of_not (s := s) fun hcond => hpos hcond.2]
      by_cases hpos' : s'.failure.pos = pos
      · have hplace' := (failure_expectLabel before' label hs' hpos').1
        rcases h with hlt | ⟨heq, -⟩
        · exact .inl (by rwa [hplace', ← hpos'])
        · exact absurd (heq.trans hpos') hpos
      · rwa [expectLabel_of_not (s := s') fun hcond => hpos' hcond.2]
  · rw [expectLabel_of_not fun hcond => hs hcond.1,
      expectLabel_of_not fun hcond => hs (hsuppress ▸ hcond.1)]
    exact h

/-- A label keeps the place, and is expected there. -/
theorem agreesAt_expectLabel (s : State) (pos : Pos) (before : Failure) (label : String) (q : Pos) :
    s.failure.AgreesAt q (s.expectLabel pos before label).failure := by
  by_cases hcond : s.suppress = 0 ∧ s.failure.pos = pos
  · obtain ⟨hplace, kept, -, hmem, -⟩ :=
      failure_expectLabel before label hcond.1 hcond.2
    exact ⟨hcond.2.trans hplace.symm, fun _ => .inr ⟨label, (hmem _).mpr (.inl rfl)⟩⟩
  · rw [expectLabel_of_not hcond]
    exact .refl _ _

theorem agreesAt_expectLabel_both (hsuppress : s'.suppress = s.suppress)
    (h : s.failure.AgreesAt q s'.failure) :
    (s.expectLabel pos before label).failure.AgreesAt q
      (s'.expectLabel pos before' label).failure := by
  by_cases hcond : s.suppress = 0 ∧ s.failure.pos = pos
  · have hcond' : s'.suppress = 0 ∧ s'.failure.pos = pos :=
      ⟨hsuppress.trans hcond.1, h.1.symm.trans hcond.2⟩
    have hplace := (failure_expectLabel before label hcond.1 hcond.2).1
    obtain ⟨hplace', kept, -, hmem, -⟩ :=
      failure_expectLabel before' label hcond'.1 hcond'.2
    exact ⟨hplace.trans hplace'.symm, fun _ => .inr ⟨label, (hmem _).mpr (.inl rfl)⟩⟩
  · rw [expectLabel_of_not (s := s) hcond]
    exact h.trans (agreesAt_expectLabel s' pos before' label q)

end State

/-! ## Evaluation -/

namespace Machine

variable {m : Machine} {eval : Evaluator} {F : Failure}

/-- An evaluator whose records grow. -/
def GrowsRecord (eval : Evaluator) : Prop :=
  ∀ (F : Failure) t pos s, F.Precedes s.failure →
    (eval t pos s).Leaves fun s' => F.Precedes s'.failure

/-- Whatever terms do to a state, the record only grows. -/
theorem precedes_isLasting (F : Failure) : State.IsLasting fun s => F.Precedes s.failure where
  output hs _ := hs
  expect hs _ _ := hs.trans (State.precedes_expect _ _ _)
  flags hs _ := hs
  suppress hs _ := hs

/-- A rule keeps what was on record before it began, also when it leaves its label. -/
theorem enterRule_precedes (heval : GrowsRecord eval) (rule : Rule) (key : MemoKey) (pos : Pos)
    (s : State) (hs : F.Precedes s.failure) :
    (enterRule eval rule key pos s).Leaves fun s' => F.Precedes s'.failure := by
  rw [enterRule_eq]
  refine (heval s.failure rule.body pos (entering pos s rule key) (.refl _)).resume
    (fun stop s' hs' => ?_) fun s' hs' => ?_
  · change F.Precedes (leavingMatched s rule key stop s').failure
    unfold leavingMatched
    cases rule.kind <;> exact hs.trans hs'
  · change F.Precedes (leavingFailed pos s rule key s').failure
    unfold leavingFailed
    cases rule.label with
    | none => exact hs.trans hs'
    | some label => exact hs.trans (State.precedes_expectLabel hs')

/-- **The record of failures only grows.** -/
theorem eval_precedes (m : Machine) (fuel : Nat) : GrowsRecord (m.eval fuel) :=
  eval_preserves precedes_isLasting (fun _ ih F id rule pos s _ hs =>
    applyRule_preserves (precedes_isLasting F) hs (fun _ => hs) (fun _ => hs) (fun _ _ => hs)
      fun _ _ _ => enterRule_precedes ih rule ⟨id, pos, s.flags⟩ pos (stepped s) hs) fuel

end Machine
end Peg
end Packrat
