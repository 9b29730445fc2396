/-
# Reuse and the failure of a run

What a failed run reports, beside the report of the same machine when it evaluates every rule
again (`Machine.afresh_reports`).  The second run ends when the first does, and fails, too.  The
first reports no later place, and at the same place expects no more; and it may well report less,
as two alternatives show of which the first looks at a rule in a negative lookahead
(`Machine.reuse_hides`).

Both runs report the same place when no rule is applied in a negative lookahead, and the same
failure if moreover no label is expected.
-/

import Packrat.Proofs.Peg.Afresh
import Packrat.Proofs.Peg.Limits

namespace Packrat
namespace Peg
namespace Machine

variable {m : Machine} {fuel : Nat} {root : Term} {s s' : State} {r : Run} {F : Failure}

/-- A run that fails has failed to match its root. -/
theorem failed_of_runWith (hrun : m.runWith fuel root s = .ok r)
    (hresult : r.result = .error (.failure F)) :
    ∃ s', m.eval fuel root {} { s with out := #[] } = .failed s' ∧ s'.halted = false ∧
      s'.failure = F := by
  rw [runWith_eq] at hrun
  cases ho : m.eval fuel root {} { s with out := #[] } with
  | matched stop s' =>
    rw [ho] at hrun
    cases hrun
    simp only [runWith.ended] at hresult
    split at hresult
    · cases hresult
    · split at hresult <;> cases hresult
  | failed s' =>
    rw [ho] at hrun
    cases hrun
    simp only [runWith.ended] at hresult
    split at hresult
    · cases hresult
    · next hspent =>
      split at hresult
      · cases hresult
      · next hdeep =>
        cases hresult
        exact ⟨s', rfl, by simp_all [State.halted], rfl⟩
  | fault f =>
    rw [ho] at hrun
    cases hrun

/-- If no limit has been passed, a run whose root does not match reports the record. -/
theorem result_of_failed (hrun : m.runWith fuel root s = .ok r)
    (ho : m.eval fuel root {} { s with out := #[] } = .failed s') (hlive : s'.halted = false) :
    r.result = .error (.failure s'.failure) := by
  obtain ⟨hspent, hdeep⟩ : s'.exhausted = false ∧ s'.tooDeep = false := by
    simpa [State.halted] using hlive
  rw [runWith_eq, ho] at hrun
  cases hrun
  simp [runWith.ended, hspent, hdeep]

/-- **Reuse reports no more than there is.**  Let a run without limits fail that begins with an
empty table.  Then the run that reuses nothing ends, and it fails: at a later place, or at the same
place, where all is expected that the first run expects.  If no rule is applied in a negative
lookahead, it fails at the same place, and if it expects no label there, then its failure is the
same. -/
theorem afresh_reports (hlim : m.IsUnlimited) (hrun : m.runWith fuel root {} = .ok r)
    (hresult : r.result = .error (.failure F)) :
    (∃ k r', m.afresh.runWith k root {} = .ok r') ∧
      ∀ k r', m.afresh.runWith k root {} = .ok r' →
        ∃ F', r'.result = .error (.failure F') ∧
          (F.pos < F'.pos ∨ F.pos = F'.pos ∧ ∀ what ∈ F.expected, what ∈ F'.expected) ∧
          ((∀ rule ∈ m.grammar.rules, rule.body.isOutspoken = true) → root.isOutspoken = true →
            F'.pos = F.pos ∧ ((∀ label, .label label ∉ F'.expected) → F' = F)) := by
  obtain ⟨s, hs, -, rfl⟩ := failed_of_runWith hrun hresult
  have hanswer : r.answer? = some none := by simp only [Run.answer?, hresult]
  have hparses := (runWith_answers m.memoTrue_empty hrun).1 none hanswer
  refine ⟨exists_fuel_of_parses (m := m.afresh) hlim (parses_under.mpr hparses),
    fun k r' hrun' => ?_⟩
  have hstart : m.Reports 0 {} {} :=
    ⟨⟨rfl, rfl, rfl, m.memoTrue_empty⟩, ⟨rfl, rfl, rfl, m.afresh.memoTrue_empty⟩, .refl _⟩
  have hreports := eval_reports hlim fuel k 0 root {} {} {} trivial hstart
  have hs : m.eval fuel root {} {} = .failed s := hs
  rw [hs] at hreports
  -- the second run has not gone wrong, so it fails
  obtain ⟨s', hs', hboth⟩ : ∃ s', m.afresh.eval k root {} {} = .failed s' ∧ m.Reports 0 s s' := by
    cases ho : m.afresh.eval k root {} {} with
    | matched stop s' =>
      rw [ho] at hreports
      exact absurd hreports id
    | failed s' =>
      rw [ho] at hreports
      exact ⟨s', rfl, hreports⟩
    | fault f =>
      rw [runWith_eq] at hrun'
      change m.afresh.closeRun (m.afresh.eval k root {} {}) = _ at hrun'
      rw [ho] at hrun'
      cases hrun'
  refine ⟨s'.failure, result_of_failed hrun' hs' hboth.fresh.live, hboth.within,
    fun hrules hroot => ?_⟩
  have hbodies : ∀ (id : Nat) (rule : Rule), m.grammar.rules[id]? = some rule →
      rule.body.isOutspoken = true := fun _ rule hrule => hrules rule (Array.mem_of_getElem? hrule)
  have hechoes := eval_echoes hlim s'.failure.pos hbodies fuel k none 0 root {} {} {}
    ⟨hroot, fun h => absurd h (Nat.lt_irrefl 0)⟩
    ⟨hstart.order, hstart.fresh, fun key e hget => by simp at hget, rfl, .refl _ _⟩
  rw [hs, hs'] at hechoes
  obtain ⟨hpos, hsame⟩ := hechoes.tells.2
  refine ⟨hpos.symm, fun hnone => (hsame rfl).resolve_right ?_⟩
  rintro ⟨label, hlabel⟩
  exact hnone label hlabel

/-- A name, and a comma or a semicolon behind it. -/
def ofEither : Machine where
  grammar := ⟨#[⟨"name", none, none, none, .token .ident⟩]⟩
  tokens := #[⟨.ident, "x"⟩, ⟨.eof, ""⟩]

/-- The conditions can be met: the rule for the name is answered from the table in the second
alternative, and without reuse both marks are expected at the same place. -/
theorem afresh_reports_ofEither :
    let root : Term := .choice [.seq [.ref (.linked 0), .token .comma],
      .seq [.ref (.linked 0), .token .semicolon]]
    let F : Failure := ⟨⟨1, 0⟩, [.token .comma, .token .semicolon], .topLevel⟩
    (∃ r, ofEither.runWith 12 root {} = .ok r ∧ r.result = .error (.failure F)) ∧
      (∃ k r', ofEither.afresh.runWith k root {} = .ok r') ∧
      ∀ k r', ofEither.afresh.runWith k root {} = .ok r' →
        ∃ F', r'.result = .error (.failure F') ∧ F'.pos = ⟨1, 0⟩ ∧
          F.expected ⊆ F'.expected ∧ ((∀ label, .label label ∉ F'.expected) → F' = F) := by
  intro root F
  have hresult : (ofEither.runWith 12 root {}).toOption.map (·.result) =
      some (.error (.failure F)) := by cbv
  obtain ⟨r, hr, hresult⟩ := Option.map_eq_some_iff.mp hresult
  have hrun : ofEither.runWith 12 root {} = .ok r := by
    cases h : ofEither.runWith 12 root {} <;> simp_all [Except.toOption]
  obtain ⟨hends, hreports⟩ := afresh_reports ⟨rfl, rfl⟩ hrun hresult
  refine ⟨⟨r, hrun, hresult⟩, hends, fun k r' hrun' => ?_⟩
  obtain ⟨F', hresult', hwithin, hsame⟩ := hreports k r' hrun'
  obtain ⟨hpos, heq⟩ := hsame (by decide) (by decide)
  refine ⟨F', hresult', hpos, ?_, heq⟩
  rcases hwithin with hlt | ⟨-, hall⟩
  · exact absurd (hpos ▸ hlt) (Pos.lt_irrefl _)
  · exact hall

/-! ## A failure that reuse hides -/

/-- A name with a comma behind it. -/
def hiddenRules : List Rule := [⟨"a", none, none, none, .seq [.token .ident, .token .comma]⟩]

/-- The rule by number, and two names to read. -/
def hiddenMachine : Machine where
  grammar := ⟨#[⟨"a", none, none, none, .seq [.token .ident, .token .comma]⟩]⟩
  tokens := #[⟨.ident, "x"⟩, ⟨.ident, "y"⟩, ⟨.eof, ""⟩]

/-- A semicolon where the rule does not match, or else the rule. -/
def hiddenRoot : Term :=
  .choice [.seq [.notAhead (.ref (.linked 0)), .token .semicolon], .ref (.linked 0)]

/-- **Reuse may hide the furthest failure.**  The grammar is accepted.  The rule has failed in the
negative lookahead, where nothing is noted, and later is answered from the table: so the run does
not report that a comma is missing behind the first name, as it does without reuse. -/
theorem reuse_hides : Grammar.ofRules hiddenRules = .ok hiddenMachine.grammar ∧
    (hiddenMachine.runWith 12 hiddenRoot {}).toOption.map (·.result) =
      some (.error (.failure ⟨{}, [.token .semicolon], .topLevel⟩)) ∧
    (hiddenMachine.afresh.runWith 12 hiddenRoot {}).toOption.map (·.result) =
      some (.error (.failure ⟨⟨1, 0⟩, [.token .comma], .topLevel⟩)) := by
  refine ⟨by cbv, by cbv, by cbv⟩

end Machine
end Peg
end Packrat
