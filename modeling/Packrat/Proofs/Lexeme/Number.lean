/-
# Numbers end at a space

How far a number goes is decided by what stands before the next space.  Each part of a number
has a size that does not reach the space and does not depend on what is behind it
(`EndsAtSpace`), and so has the number (`numberSize_append`).
-/

import Mathlib.Tactic.SplitIfs
import Packrat.Lexeme.Number

namespace Packrat
namespace Lexeme

open Text

/-- A size does not reach beyond a space, and what is behind the space makes no difference. -/
structure EndsAtSpace (size : List Char → Nat) : Prop where
  append : ∀ cs rest, size (cs ++ ' ' :: rest) = size cs
  le_length : ∀ cs, size cs ≤ cs.length

variable {p : Char → Bool}

/-- A run of characters ends at a space that is none of them. -/
theorem takeWhile_append_space (hp : p ' ' = false) (cs rest : List Char) :
    (cs ++ ' ' :: rest).takeWhile p = cs.takeWhile p := by
  induction cs with
  | nil => simp [hp]
  | cons c cs ih => simp only [List.cons_append, List.takeWhile_cons, ih]

theorem dropWhile_append_space (hp : p ' ' = false) (cs rest : List Char) :
    (cs ++ ' ' :: rest).dropWhile p = cs.dropWhile p ++ ' ' :: rest := by
  induction cs with
  | nil => simp [hp]
  | cons c cs ih =>
    simp only [List.cons_append, List.dropWhile_cons, ih]
    split <;> rfl

/-- What comes first before a space, or the space itself. -/
theorem head?_append_space (cs rest : List Char) :
    (cs ++ ' ' :: rest).head? = some (cs.head?.getD ' ') := by
  cases cs <;> rfl

theorem endsAtSpace_run (hp : p ' ' = false) : EndsAtSpace fun cs => (cs.takeWhile p).length :=
  ⟨fun cs rest => by rw [takeWhile_append_space hp],
    fun cs => (List.takeWhile_sublist p).length_le⟩

theorem endsAtSpace_digitRun : EndsAtSpace digitRun := endsAtSpace_run (by decide)

theorem endsAtSpace_idRun : EndsAtSpace idRun := endsAtSpace_run (by decide)

/-- A size behind another one. -/
theorem EndsAtSpace.drop {size : List Char → Nat} (h : EndsAtSpace size) {n : Nat}
    {cs : List Char} (hn : n ≤ cs.length) (rest : List Char) :
    size ((cs ++ ' ' :: rest).drop n) = size (cs.drop n) ∧ n + size (cs.drop n) ≤ cs.length := by
  rw [List.drop_append_of_le_length hn, h.append]
  have hle := h.le_length (cs.drop n)
  rw [List.length_drop] at hle
  exact ⟨rfl, by omega⟩

theorem endsAtSpace_suffixSize : EndsAtSpace suffixSize where
  append cs rest := by
    cases cs with
    | nil => rfl
    | cons c cs =>
      have hrun := endsAtSpace_idRun.append (c :: cs) rest
      rw [List.cons_append] at hrun
      simp only [List.cons_append, suffixSize, hrun]
  le_length cs := by
    cases cs with
    | nil => exact Nat.le_refl 0
    | cons c cs =>
      simp only [suffixSize]
      split
      · exact endsAtSpace_idRun.le_length (c :: cs)
      · exact Nat.zero_le _

theorem endsAtSpace_fractionSize : EndsAtSpace fractionSize where
  append cs rest := by
    cases cs with
    | nil => rfl
    | cons c cs =>
      by_cases hpoint : c = '.'
      · subst hpoint
        cases cs with
        | nil => rfl
        | cons d cs =>
          have hrun := endsAtSpace_digitRun.append (d :: cs) rest
          rw [List.cons_append] at hrun
          simp only [List.cons_append, fractionSize, hrun]
      · simp [fractionSize, hpoint]
  le_length cs := by
    cases cs with
    | nil => exact Nat.le_refl 0
    | cons c cs =>
      by_cases hpoint : c = '.'
      · subst hpoint
        cases cs with
        | nil => exact Nat.le_refl 1
        | cons d cs =>
          have hrun := endsAtSpace_digitRun.le_length (d :: cs)
          simp only [fractionSize]
          simp only [List.length_cons] at hrun ⊢
          split
          · omega
          · split <;> omega
      · simp [fractionSize, hpoint]

/-- Size of the sign of an exponent. -/
def signSize (cs : List Char) : Nat := if cs.head? = some '+' ∨ cs.head? = some '-' then 1 else 0

theorem endsAtSpace_signSize : EndsAtSpace signSize where
  append cs rest := by
    cases cs with
    | nil => rfl
    | cons c cs => rfl
  le_length cs := by
    cases cs with
    | nil => exact Nat.le_refl 0
    | cons c cs =>
      simp only [signSize, List.length_cons]
      split <;> omega

/-- An exponent, told with the size of its sign. -/
theorem exponentSize_cons (c : Char) (cs : List Char) : exponentSize (c :: cs) =
    if c = 'e' ∨ c = 'E' then
      if ((cs.drop (signSize cs)).dropWhile (· = '_')).head?.any Char.isDigit then
        1 + signSize cs + digitRun (cs.drop (signSize cs))
      else 0
    else 0 := rfl

theorem endsAtSpace_exponentSize : EndsAtSpace exponentSize where
  append cs rest := by
    cases cs with
    | nil => rfl
    | cons c cs =>
      have hsign := endsAtSpace_signSize.le_length cs
      have hhead : ∀ ds : List Char, ((ds ++ ' ' :: rest).dropWhile (· = '_')).head?.any
          Char.isDigit = (ds.dropWhile (· = '_')).head?.any Char.isDigit := by
        intro ds
        rw [dropWhile_append_space (by decide), head?_append_space]
        cases ds.dropWhile (· = '_') <;> rfl
      rw [List.cons_append, exponentSize_cons, exponentSize_cons, endsAtSpace_signSize.append,
        (endsAtSpace_digitRun.drop hsign rest).1, List.drop_append_of_le_length hsign, hhead]
  le_length cs := by
    cases cs with
    | nil => exact Nat.le_refl 0
    | cons c cs =>
      have hsign := endsAtSpace_signSize.le_length cs
      have hrun := (endsAtSpace_digitRun.drop hsign []).2
      rw [exponentSize_cons, List.length_cons]
      split
      · split <;> omega
      · omega

/-- What is tested of the first character behind a number. -/
theorem head?_drop_append {n : Nat} {cs : List Char} (hn : n ≤ cs.length) (rest : List Char)
    (test : Option Char → Bool) (htest : test (some ' ') = test none) :
    test ((cs ++ ' ' :: rest).drop n).head? = test (cs.drop n).head? := by
  rw [List.drop_append_of_le_length hn, head?_append_space]
  cases (cs.drop n).head? with
  | none => exact htest
  | some c => rfl

theorem decimalSize_append (cs rest : List Char) :
    decimalSize (cs ++ ' ' :: rest) = decimalSize cs := by
  have hwhole := endsAtSpace_digitRun.append cs rest
  obtain ⟨hfraction, hread⟩ :=
    endsAtSpace_fractionSize.drop (endsAtSpace_digitRun.le_length cs) rest
  obtain ⟨hexponent, hread⟩ := endsAtSpace_exponentSize.drop hread rest
  obtain ⟨hsuffix, -⟩ := endsAtSpace_suffixSize.drop hread rest
  have hfloat := head?_drop_append hread rest (· == some 'f') rfl
  simp only [decimalSize, hwhole, hfraction, hexponent, hsuffix, hfloat]

theorem basedSize_append (base : Nat) (hbase : isDigitIn base ' ' = false) (cs rest : List Char) :
    basedSize base (cs ++ ' ' :: rest) = basedSize base cs := by
  have hplaces := takeWhile_append_space (p := fun c => c == '_' || isDigitIn base c)
    (by simp [hbase]) cs rest
  have hread : (cs.takeWhile fun c => c == '_' || isDigitIn base c).length ≤ cs.length :=
    (List.takeWhile_sublist _).length_le
  have hsuffix := (endsAtSpace_suffixSize.drop hread rest).1
  have hdigit := head?_drop_append hread rest (Option.any Char.isDigit) rfl
  simp only [basedSize, hplaces, hsuffix, hdigit]

/-- **Kind and size of a number are decided before the next space.** -/
theorem numberSize_append (before : List Char) (first : Char) (cs rest : List Char) :
    numberSize before first (cs ++ ' ' :: rest) = numberSize before first cs := by
  have hdecimal : (if isAfterPoint before then (Kind.intNumber, digitRun (cs ++ ' ' :: rest))
      else decimalSize (cs ++ ' ' :: rest)) =
      if isAfterPoint before then (.intNumber, digitRun cs) else decimalSize cs := by
    rw [endsAtSpace_digitRun.append, decimalSize_append]
  cases cs with
  | nil =>
    simp only [numberSize, hdecimal]
    rfl
  | cons c cs =>
    have hbased : ∀ base, base? c = some base →
        basedSize base (cs ++ ' ' :: rest) = basedSize base cs := by
      intro base hbase
      refine basedSize_append base ?_ cs rest
      unfold base? at hbase
      split at hbase <;> cases hbase <;> rfl
    rw [List.cons_append] at hdecimal ⊢
    simp only [numberSize, hdecimal, List.head?_cons, List.tail_cons, Option.bind_some]
    cases hbase : base? c with
    | none => rfl
    | some base =>
      by_cases hzero : first = '0'
      · subst hzero
        exact congrArg (Except.map fun n => (Kind.intNumber, n + 1)) (hbased base hbase)
      · simp [hzero]

/-- Not right behind a point, it does not matter what stands before a number. -/
theorem numberSize_of_not_isAfterPoint {before : List Char} (h : isAfterPoint before = false)
    (c : Char) (cs : List Char) : numberSize before c cs = numberSize [] c cs := by
  have hnil : isAfterPoint [] = false := rfl
  simp only [numberSize, h, hnil]

/-- A number is of one of two kinds. -/
theorem numberSize_kind {before cs : List Char} {c : Char} {kind : Kind} {n : Nat}
    (h : numberSize before c cs = .ok (kind, n)) : kind = .intNumber ∨ kind = .floatNumber := by
  unfold numberSize at h
  split at h
  · next base _ =>
    cases hsize : basedSize base cs.tail <;> rw [hsize] at h <;> cases h
    exact .inl rfl
  · split_ifs at h
    · cases h
      exact .inl rfl
    · have hkind : kind = (decimalSize cs).1 := congrArg Prod.fst (Except.ok.inj h).symm
      rw [hkind]
      simp only [decimalSize]
      split_ifs
      · exact .inr rfl
      · exact .inl rfl

/-- A word that the recogniser of numbers takes whole, as an integer. -/
def IsInteger (word : List Char) : Prop :=
  ∃ c cs, word = c :: cs ∧ c.isDigit = true ∧ numberSize [] c cs = .ok (.intNumber, cs.length)

/-- Digits and separators behind a digit make an integer. -/
theorem isInteger_of_digits {c : Char} {cs : List Char} (hc : c.isDigit = true)
    (hcs : ∀ d ∈ cs, isDigitOrUnderscore d = true) : IsInteger (c :: cs) := by
  refine ⟨c, cs, rfl, hc, ?_⟩
  have hrun : digitRun cs = cs.length := by
    rw [digitRun, ← List.append_nil cs, List.takeWhile_append_of_pos hcs, List.takeWhile_nil]
  have hbase : cs.head?.bind base? = none := by
    cases cs with
    | nil => rfl
    | cons d cs =>
      have hd := hcs d (by simp)
      rw [List.head?_cons, Option.bind_some]
      unfold base?
      split
      any_goals cases hd
      rfl
  have hdecimal : decimalSize cs = (.intNumber, cs.length) := by
    simp [decimalSize, hrun, fractionSize, exponentSize, suffixSize]
  have hnil : isAfterPoint [] = false := rfl
  simp [numberSize, hbase, hnil, hdecimal]

end Lexeme
end Packrat
