/-
# Terminals without a state

`token`, `split`, `word`, `any` and `ended` read at most one token and look at nothing but
the tokens: what they match is a function of the place (`Machine.read?`).  An evaluation
adds to it what it does to the state, and that is little (`Outcome.ReadsAs`): a match is
put behind the output, and a failure changes the record of failures and nothing else.

Only what is left of a split token can be asked for in vain in another way, when the place
is behind the last token.
-/

import Mathlib.Tactic.SplitIfs
import Packrat.Peg.Evaluation

namespace Packrat
namespace Peg

/-- What a term makes of a place: nothing, or trees and the place behind them. -/
abbrev Answer := Option (List Match × Pos)

/-- A term that reads at most one token. -/
def Term.isTerminal : Term → Bool
  | .token _ | .split _ | .word _ | .any | .ended => true
  | _ => false

/-- What a terminal asks for where it does not match. -/
def Term.asks? : Term → Option Expected
  | .token kind | .split kind => some (.token kind)
  | .word text => some (.word text)
  | .ended => some (.token .eof)
  | _ => none

namespace State

/-- `s'` differs from `s` in the record of failures only. -/
def Notes (s s' : State) : Prop := ∃ failure, s' = { s with failure := failure }

theorem Notes.refl (s : State) : s.Notes s := ⟨s.failure, rfl⟩

/-- Asking in vain changes the record of failures only. -/
theorem notes_expect (s : State) (pos : Pos) (what : Expected) : s.Notes (s.expect pos what) := by
  unfold expect
  split
  · exact .refl s
  · split
    · exact ⟨_, rfl⟩
    · split
      · exact ⟨_, rfl⟩
      · exact .refl s

/-- Putting a label in the place of what was asked for changes the record only. -/
theorem notes_expectLabel (s : State) (pos : Pos) (before : Failure) (label : String) :
    s.Notes (s.expectLabel pos before label) := by
  unfold expectLabel
  split
  · obtain ⟨failure, h⟩ := notes_expect
      { s with failure := { s.failure with
          expected := if before.pos = pos then s.failure.expected.take before.expected.length
            else [] } } pos (.label label)
    exact ⟨failure, h⟩
  · exact .refl s

end State

namespace Machine

variable (m : Machine)

/-- The tree and the place behind it when what is at a place is read as one leaf. -/
def leafAt (pos : Pos) (kind : Kind) : List Match × Pos :=
  let part := if pos.isSplit then
      m.tokens[pos.index]?.map fun t => (pos.offset, UInt8.ofNat t.text.utf8ByteSize)
    else none
  ([.token pos.index kind part], ⟨pos.index + 1, 0⟩)

/-- The tree and the place behind it when a spelling is cut off what is at a place. -/
def pieceAt (pos : Pos) (kind : Kind) (spelling : String) : List Match × Pos :=
  let stop := pos.offset + UInt8.ofNat spelling.utf8ByteSize
  ([.token pos.index kind (some (pos.offset, stop))], ⟨pos.index, stop⟩)

/-- What is at a place begins with a spelling, and goes on behind it. -/
def BeginsWith (pos : Pos) (spelling : String) : Prop :=
  spelling.utf8ByteSize < (m.textAt pos).utf8ByteSize ∧
    spelling.toList.isPrefixOf (m.textAt pos).toList = true

instance (pos : Pos) (spelling : String) : Decidable (m.BeginsWith pos spelling) :=
  inferInstanceAs (Decidable (_ ∧ _))

/-- What a terminal makes of a place. -/
def read? (pos : Pos) : Term → Answer
  | .token kind => if m.kindAt pos = kind then some (m.leafAt pos kind) else none
  | .split kind =>
    if m.kindAt pos = kind then some (m.leafAt pos kind)
    else kind.spelling?.bind fun spelling =>
      if m.BeginsWith pos spelling then some (pieceAt pos kind spelling) else none
  | .word text =>
    if m.kindAt pos = .ident ∧ m.textAt pos = text then some (m.leafAt pos .ident) else none
  | .any =>
    let kind := m.kindAt pos
    if kind.isOpening || kind.isClosing || kind = .eof then none else some (m.leafAt pos kind)
  | .ended => if m.kindAt pos = .eof then some ([], pos) else none
  | _ => none

variable {m} in
/-- A terminal reads nothing, or one token.  The kind of the token can be told from the terminal,
or else is no bracket. -/
theorem read?_cases {pos stop : Pos} {t : Term} {ns : List Match}
    (h : m.read? pos t = some (ns, stop)) :
    t = .ended ∧ ns = [] ∨ ∃ index kind part, ns = [.token index kind part] ∧
      (t = .token kind ∨ t = .split kind ∨ (∃ text, t = .word text) ∧ kind = .ident ∨
        t = .any ∧ kind.isOpening = false ∧ kind.isClosing = false) := by
  cases t with
  | token kind =>
    simp only [read?] at h
    split at h
    · cases h
      exact .inr ⟨_, kind, _, rfl, .inl rfl⟩
    · cases h
  | split kind =>
    simp only [read?] at h
    split at h
    · cases h
      exact .inr ⟨_, kind, _, rfl, .inr (.inl rfl)⟩
    · obtain ⟨spelling, -, hcut⟩ := Option.bind_eq_some_iff.mp h
      split at hcut
      · cases hcut
        exact .inr ⟨_, kind, _, rfl, .inr (.inl rfl)⟩
      · cases hcut
  | word text =>
    simp only [read?] at h
    split at h
    · cases h
      exact .inr ⟨_, .ident, _, rfl, .inr (.inr (.inl ⟨⟨text, rfl⟩, rfl⟩))⟩
    · cases h
  | any =>
    simp only [read?] at h
    split at h
    · cases h
    · next hkind =>
      cases h
      simp only [Bool.or_eq_true, not_or, Bool.not_eq_true] at hkind
      exact .inr ⟨_, _, _, rfl, .inr (.inr (.inr ⟨rfl, hkind.1⟩))⟩
  | ended =>
    simp only [read?] at h
    split at h
    · cases h
      exact .inl ⟨rfl, rfl⟩
    · cases h
  | _ => cases h

/-- The place is inside a token that the machine does not have. -/
def IsLost (pos : Pos) : Prop := pos.isSplit = true ∧ m.tokens[pos.index]? = none

end Machine

/-- An outcome that comes from state `s` and gives the answer `a`, with no other change than
to the output and, on failure, to the record of failures. -/
def Outcome.ReadsAs (m : Machine) (pos : Pos) (s : State) (a : Answer) : Outcome → Prop
  | .matched stop s' => ∃ ns, a = some (ns, stop) ∧ s' = s.append ns
  | .failed s' => a = none ∧ s.Notes s'
  | .fault f => m.IsLost pos ∧ f = .noToken pos.index m.tokens.size

namespace Machine

variable (m : Machine) (pos : Pos) (s : State)

theorem leaf_readsAs (kind : Kind) :
    (m.leaf pos kind s).ReadsAs m pos s (some (m.leafAt pos kind)) := by
  unfold leaf
  by_cases hsplit : pos.isSplit = true
  · cases ht : m.tokens[pos.index]? with
    | none => simp [hsplit, Outcome.ReadsAs, IsLost, ht]
    | some t => simp [hsplit, ht, Outcome.ReadsAs, leafAt, State.push, State.append]
  · simp [hsplit, Outcome.ReadsAs, leafAt, State.push, State.append]

theorem readToken_readsAs (kind : Kind) :
    (m.readToken kind pos s).ReadsAs m pos s (m.read? pos (.token kind)) := by
  simp only [readToken, read?]
  split_ifs
  · exact m.leaf_readsAs pos s kind
  · exact ⟨rfl, s.notes_expect ..⟩

theorem readSplit_readsAs (kind : Kind) :
    (m.readSplit kind pos s).ReadsAs m pos s (m.read? pos (.split kind)) := by
  simp only [readSplit, read?]
  split_ifs with hkind
  · exact m.leaf_readsAs pos s kind
  · cases hspell : kind.spelling? with
    | none => exact ⟨rfl, s.notes_expect ..⟩
    | some spelling =>
      by_cases hbegins : m.BeginsWith pos spelling
      · have hcut := hbegins
        unfold BeginsWith at hcut
        simp only [hcut, and_self, if_true, Option.bind_some, hbegins]
        exact ⟨_, rfl, by simp [State.push, State.append]⟩
      · have hcut := hbegins
        unfold BeginsWith at hcut
        simp only [hcut, if_false, Option.bind_some, hbegins]
        exact ⟨rfl, s.notes_expect ..⟩

theorem readWord_readsAs (text : String) :
    (m.readWord text pos s).ReadsAs m pos s (m.read? pos (.word text)) := by
  simp only [readWord, read?]
  split_ifs
  · exact m.leaf_readsAs pos s .ident
  · exact ⟨rfl, s.notes_expect ..⟩

theorem readAny_readsAs : (m.readAny pos s).ReadsAs m pos s (m.read? pos .any) := by
  simp only [readAny, read?]
  split_ifs
  · exact ⟨rfl, .refl s⟩
  · exact m.leaf_readsAs pos s _

theorem readEnd_readsAs : (m.readEnd pos s).ReadsAs m pos s (m.read? pos .ended) := by
  simp only [readEnd, read?]
  split_ifs
  · exact ⟨[], rfl, by simp [State.append]⟩
  · exact ⟨rfl, s.notes_expect ..⟩

/-- **A terminal is a function of the place.**  Whatever evaluates the terms inside terms, a
step on a terminal answers `read?`. -/
theorem step_readsAs (fuel : Nat) (eval : Evaluator) {t : Term} (ht : t.isTerminal = true) :
    (m.step fuel eval t pos s).ReadsAs m pos s (m.read? pos t) := by
  cases t with
  | token kind => exact m.readToken_readsAs pos s kind
  | split kind => exact m.readSplit_readsAs pos s kind
  | word text => exact m.readWord_readsAs pos s text
  | any => exact m.readAny_readsAs pos s
  | ended => exact m.readEnd_readsAs pos s
  | _ => cases ht

/-- A leaf is read, unless its token is not there. -/
theorem leaf_ne_failed (kind : Kind) (s' : State) : m.leaf pos kind s ≠ .failed s' := by
  unfold leaf
  split
  · split
    · rintro ⟨⟩
    · rintro ⟨⟩
  · rintro ⟨⟩

variable {m pos s} in
/-- A terminal that fails notes what it asks for. -/
theorem step_terminal_failed {fuel : Nat} {eval : Evaluator} {t : Term} (ht : t.isTerminal = true)
    {s' : State} (h : m.step fuel eval t pos s = .failed s') :
    s' = (t.asks?.map (s.expect pos)).getD s := by
  cases t with
  | token kind =>
    simp only [step, readToken] at h
    split at h
    · exact absurd h (leaf_ne_failed _ _ _ _ _)
    · exact (Outcome.failed.inj h).symm
  | split kind =>
    simp only [step, readSplit] at h
    split at h
    · exact absurd h (leaf_ne_failed _ _ _ _ _)
    · split at h
      · split at h
        · cases h
        · exact (Outcome.failed.inj h).symm
      · exact (Outcome.failed.inj h).symm
  | word text =>
    simp only [step, readWord] at h
    split at h
    · exact absurd h (leaf_ne_failed _ _ _ _ _)
    · exact (Outcome.failed.inj h).symm
  | any =>
    simp only [step, readAny] at h
    split at h
    · exact (Outcome.failed.inj h).symm
    · exact absurd h (leaf_ne_failed _ _ _ _ _)
  | ended =>
    simp only [step, readEnd] at h
    split at h
    · cases h
    · exact (Outcome.failed.inj h).symm
  | _ => cases ht

end Machine
end Peg
end Packrat
