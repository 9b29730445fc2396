/-
# Lexemes read alone

A recogniser looks further than it takes, and a number looks back as well:

| lexeme | what decides it from outside |
| --- | --- |
| number | a point before it; a point, a name or a digit behind it |
| lifetime | a quote behind its first character |
| `r`, `br` | number signs, a quote or a letter behind them |
| `_`, `/` | a letter, a slash or a star behind them |
| punctuator | what would make a longer one |

None of this is missed: what a recogniser takes as a lexeme, it takes again when everything around
it is cut away (`scan_alone`).  The sizes of lexemes are sums of sizes of their parts.  A cut behind
the last part leaves each of them as it is (`EndsAtCut`), with one exception: a point that belongs
to what stands behind a number would belong to the number if the text ended there.
-/

import Mathlib
import Packrat.Proofs.Lexeme.LineBreak
import Packrat.Proofs.Lexeme.Number

namespace Packrat
namespace Lexeme

open Text

/-- A size does not change when the text is cut off behind what it counts. -/
def EndsAtCut (size : List Char → Nat) : Prop := ∀ cs n, size cs ≤ n → size (cs.take n) = size cs

variable {p : Char → Bool} {cs : List Char} {c : Char} {n : Nat}

/-! ## First characters and runs -/

/-- A cut does not bring a new character to the front. -/
theorem head?_take_ne {d : Char} (h : cs.head? ≠ some d) (n : Nat) :
    (cs.take n).head? ≠ some d := by
  rw [List.head?_take]
  split
  · rintro ⟨⟩
  · exact h

theorem any_head?_take (h : cs.head?.any p = false) (n : Nat) :
    (cs.take n).head?.any p = false := by
  rw [List.head?_take]
  split
  · rfl
  · exact h

theorem head?_take_of_pos (hn : 0 < n) : (cs.take n).head? = cs.head? := by
  rw [List.head?_take, if_neg (by omega)]

theorem endsAtCut_run (p : Char → Bool) : EndsAtCut fun cs => (cs.takeWhile p).length := by
  intro cs n hn
  simp only at hn ⊢
  rw [← List.take_takeWhile, List.take_of_length_le hn]

theorem endsAtCut_digitRun : EndsAtCut digitRun := endsAtCut_run _

theorem endsAtCut_idRun : EndsAtCut idRun := endsAtCut_run _

/-- A run that holds the first character is not empty. -/
theorem run_pos (h : cs.head?.any p = true) : 0 < (cs.takeWhile p).length := by
  cases cs with
  | nil => cases h
  | cons c cs =>
    have hc : p c = true := h
    simp [hc]

/-- What is left of a cut text behind a run. -/
theorem dropWhile_take (p : Char → Bool) (cs : List Char) (n : Nat) :
    (cs.take n).dropWhile p = (cs.dropWhile p).take (n - (cs.takeWhile p).length) := by
  induction cs generalizing n with
  | nil => simp
  | cons c cs ih =>
    cases n with
    | zero => simp
    | succ n =>
      rw [List.take_succ_cons, List.dropWhile_cons, List.dropWhile_cons, List.takeWhile_cons]
      by_cases hc : p c = true
      · rw [if_pos hc, if_pos hc, if_pos hc, ih, List.length_cons, Nat.add_sub_add_right]
      · rw [if_neg hc, if_neg hc, if_neg hc]
        rfl

/-! ## Numbers -/

theorem endsAtCut_suffixSize : EndsAtCut suffixSize := by
  intro cs n hn
  cases cs with
  | nil => simp
  | cons c cs =>
    simp only [suffixSize] at hn ⊢
    cases n with
    | zero =>
      rw [Nat.le_zero.mp hn]
      rfl
    | succ n =>
      split at hn
      · next hc =>
        have hrun := endsAtCut_idRun _ _ hn
        rw [List.take_succ_cons] at hrun ⊢
        simp only [hc, if_true, hrun]
      · next hc => simp only [List.take_succ_cons, if_neg hc]

theorem signSize_le (cs : List Char) : signSize cs ≤ 1 := by
  unfold signSize
  split <;> omega

theorem endsAtCut_signSize : EndsAtCut signSize := by
  intro cs n hn
  by_cases hsign : cs.head? = some '+' ∨ cs.head? = some '-'
  · have hone : signSize cs = 1 := if_pos hsign
    rw [signSize, head?_take_of_pos (by omega)]
    rfl
  · have hnone : signSize cs = 0 := if_neg hsign
    obtain ⟨hplus, hminus⟩ := not_or.mp hsign
    rw [hnone, signSize, if_neg]
    exact not_or.mpr ⟨head?_take_ne hplus n, head?_take_ne hminus n⟩

/-- There is a digit behind separators. -/
def hasDigit (cs : List Char) : Bool := (cs.dropWhile (· = '_')).head?.any Char.isDigit

/-- A run with a digit in it goes beyond its first separators. -/
theorem lt_digitRun (h : hasDigit cs = true) :
    (cs.takeWhile (· = '_')).length < digitRun cs := by
  have hsplit : cs.takeWhile (· = '_') ++ cs.dropWhile (· = '_') = cs :=
    List.takeWhile_append_dropWhile
  have hunder : ∀ d ∈ cs.takeWhile (· = '_'), isDigitOrUnderscore d = true := by
    intro d hd
    have hd : d = '_' := by simpa using List.all_eq_true.mp List.all_takeWhile d hd
    simp [isDigitOrUnderscore, hd]
  obtain ⟨d, hd, hdigit⟩ := (Option.any_eq_true ..).mp h
  have hfirst : 0 < digitRun (cs.dropWhile (· = '_')) := by
    refine run_pos ?_
    rw [hd]
    simp [isDigitOrUnderscore, hdigit]
  rw [digitRun, ← hsplit, List.takeWhile_append_of_pos hunder, List.length_append]
  rw [digitRun] at hfirst
  rw [hsplit]
  omega

/-- A cut behind a run leaves its digits. -/
theorem hasDigit_take (hn : hasDigit cs = true → digitRun cs ≤ n) :
    hasDigit (cs.take n) = hasDigit cs := by
  rw [hasDigit, dropWhile_take]
  cases hdigit : hasDigit cs with
  | true =>
    have hlt := lt_digitRun hdigit
    have hle := hn hdigit
    rwa [head?_take_of_pos (by omega)]
  | false => exact any_head?_take hdigit _

theorem endsAtCut_exponentSize : EndsAtCut exponentSize := by
  intro cs n hn
  cases cs with
  | nil => simp
  | cons c cs =>
    cases n with
    | zero =>
      rw [Nat.le_zero.mp hn]
      rfl
    | succ n =>
      have hcons : ∀ cs, exponentSize (c :: cs) = if c = 'e' ∨ c = 'E' then
          if hasDigit (cs.drop (signSize cs)) then
            1 + signSize cs + digitRun (cs.drop (signSize cs))
          else 0 else 0 := exponentSize_cons c
      rw [List.take_succ_cons, hcons, hcons]
      rw [hcons] at hn
      by_cases hc : c = 'e' ∨ c = 'E'
      · rw [if_pos hc] at hn
        rw [if_pos hc, if_pos hc]
        rcases Nat.eq_zero_or_pos n with rfl | hpos
        · -- a letter alone, so there was nothing behind it that counts
          have hdigit : hasDigit (cs.drop (signSize cs)) = false := by
            by_contra hdigit
            rw [Bool.not_eq_false] at hdigit
            have hlt := lt_digitRun hdigit
            rw [if_pos hdigit] at hn
            omega
          rw [hdigit]
          rfl
        · have hsign := endsAtCut_signSize cs n (Nat.le_trans (signSize_le cs) hpos)
          have hrun : hasDigit (cs.drop (signSize cs)) = true →
              digitRun (cs.drop (signSize cs)) ≤ n - signSize cs := by
            intro hdigit
            rw [if_pos hdigit] at hn
            omega
          rw [hsign, List.drop_take, hasDigit_take hrun]
          split
          · next hdigit => rw [endsAtCut_digitRun _ _ (hrun hdigit)]
          · rfl
      · rw [if_neg hc, if_neg hc]

/-- A cut behind a fraction leaves it, unless a point comes first that is none. -/
theorem fractionSize_take (hn : fractionSize cs ≤ n)
    (hpoint : cs.head? = some '.' → fractionSize cs = 0 → n = 0) :
    fractionSize (cs.take n) = fractionSize cs := by
  cases cs with
  | nil => simp
  | cons c cs =>
    by_cases hc : c = '.'
    · subst hc
      cases n with
      | zero =>
        rw [Nat.le_zero.mp hn]
        rfl
      | succ n =>
        have hne : fractionSize ('.' :: cs) ≠ 0 := fun hzero => by
          cases hpoint rfl hzero
        rw [List.take_succ_cons]
        cases cs with
        | nil => simp
        | cons d cs =>
          simp only [fractionSize] at hn hne ⊢
          by_cases hname : (d = '.' || d = '_' || isIdStart d) = true
          · rw [if_pos hname] at hne
            exact absurd rfl hne
          · rw [if_neg hname] at hn ⊢
            cases n with
            | zero =>
              split at hn
              · next hdigit =>
                have hpos : 0 < digitRun (d :: cs) :=
                  run_pos (by simp [isDigitOrUnderscore, hdigit])
                omega
              · next hdigit => simp [hdigit]
            | succ n =>
              simp only [List.take_succ_cons, if_neg hname]
              split
              · next hdigit =>
                rw [if_pos hdigit] at hn
                rw [← List.take_succ_cons, endsAtCut_digitRun _ _ (by omega)]
              · rfl
    · cases n with
      | zero => simp [fractionSize, hc]
      | succ n => simp [fractionSize, hc]

/-- **A decimal number goes as far when it is cut off at its end.** -/
theorem decimalSize_take (cs : List Char) :
    decimalSize (cs.take (decimalSize cs).2) = decimalSize cs := by
  generalize hw : digitRun cs = w
  generalize hf : fractionSize (cs.drop w) = f
  generalize he : exponentSize (cs.drop (w + f)) = e
  generalize hs : suffixSize (cs.drop (w + f + e)) = s
  have hsize : (decimalSize cs).2 = w + f + e + s := by
    simp only [decimalSize, hw, hf, he, hs]
  have hwhole : digitRun (cs.take (w + f + e + s)) = w := by
    rw [endsAtCut_digitRun _ _ (by omega), hw]
  have hfraction : fractionSize ((cs.take (w + f + e + s)).drop w) = f := by
    rw [List.drop_take, fractionSize_take (by omega), hf]
    -- behind a point that is no fraction there is neither exponent nor suffix
    intro hhead hzero
    rw [hf] at hzero
    subst hzero
    obtain ⟨rest, hrest⟩ := List.head?_eq_some_iff.mp hhead
    have he0 : e = 0 := by
      rw [← he, Nat.add_zero, hrest]
      rfl
    subst he0
    have hs0 : s = 0 := by
      rw [Nat.add_zero, hrest] at hs
      rw [← hs]
      have hnot : isIdStart '.' = false := by decide
      simp [suffixSize, hnot]
    omega
  have hexponent : exponentSize ((cs.take (w + f + e + s)).drop (w + f)) = e := by
    rw [List.drop_take, endsAtCut_exponentSize _ _ (by omega), he]
  have hrest : (cs.take (w + f + e + s)).drop (w + f + e) = (cs.drop (w + f + e)).take s := by
    rw [List.drop_take, Nat.add_sub_cancel_left]
  have hsuffix : suffixSize ((cs.drop (w + f + e)).take s) = s := by
    rw [endsAtCut_suffixSize _ _ (by omega), hs]
  have hfloat : (((cs.drop (w + f + e)).take s).head? == some 'f') =
      ((cs.drop (w + f + e)).head? == some 'f') := by
    rcases Nat.eq_zero_or_pos s with rfl | hpos
    · cases hhead : (cs.drop (w + f + e)).head? == some 'f' with
      | false => rfl
      | true =>
        obtain ⟨rest, hrest⟩ := List.head?_eq_some_iff.mp (beq_iff_eq.mp hhead)
        have hstart : isIdStart 'f' = true := by decide
        have hcontinue : isIdContinue 'f' = true := by decide
        have hrun : 0 < idRun ('f' :: rest) := run_pos hcontinue
        rw [hrest] at hs
        simp only [suffixSize, hstart, Bool.or_true, if_true] at hs
        omega
    · rw [head?_take_of_pos hpos]
  rw [hsize]
  simp only [decimalSize, hwhole, hfraction, hexponent, hrest, hsuffix, hfloat, hw, hf, he, hs]

theorem basedSize_take {base : Nat} (h : basedSize base cs = .ok n) :
    basedSize base (cs.take n) = .ok n := by
  simp only [basedSize] at h
  split at h
  · cases h
  · next hdigits =>
    cases h
    simp only [Bool.or_eq_true, not_or, Bool.not_eq_true, Bool.not_eq_false'] at hdigits
    generalize hplaces : (cs.takeWhile fun c => c == '_' || isDigitIn base c) = places at hdigits ⊢
    generalize hs : suffixSize (cs.drop places.length) = s at hdigits ⊢
    have hcut : ((cs.take (places.length + s)).takeWhile fun c => c == '_' || isDigitIn base c) =
        places := by
      rw [← List.take_takeWhile, hplaces, List.take_of_length_le (by omega)]
    have hrest : (cs.take (places.length + s)).drop places.length =
        (cs.drop places.length).take s := by
      rw [List.drop_take, Nat.add_sub_cancel_left]
    have hsuffix : suffixSize ((cs.drop places.length).take s) = s := by
      rw [endsAtCut_suffixSize _ _ (by omega), hs]
    simp [basedSize, hcut, hrest, hsuffix, any_head?_take hdigits.1, hdigits.2]

/-- **A number is the same alone**, also one that stands behind a point. -/
theorem numberSize_alone {before : List Char} {kind : Kind}
    (hfirst : c.isDigit = true) (h : numberSize before c cs = .ok (kind, n)) :
    numberSize [] c (cs.take n) = .ok (kind, n) := by
  unfold numberSize at h
  split at h
  · next base hbase =>
    cases hsize : basedSize base cs.tail with
    | error f => rw [hsize] at h; cases h
    | ok k =>
      rw [hsize] at h
      cases h
      cases cs with
      | nil => cases hbase
      | cons d cs =>
        have hd : base? d = some base := hbase
        have hcut : basedSize base (cs.take k) = .ok k := basedSize_take hsize
        simp only [numberSize, List.take_succ_cons, List.head?_cons, Option.bind_some, hd,
          List.tail_cons, hcut]
        rfl
  · next hplain =>
    split at h
    · -- behind a point there are digits only, and these are an integer anywhere
      cases h
      have hdigits : ∀ d ∈ cs.take (digitRun cs), isDigitOrUnderscore d = true := by
        intro d hd
        rw [digitRun, ← List.prefix_iff_eq_take.mp (List.takeWhile_prefix _)] at hd
        exact List.all_eq_true.mp List.all_takeWhile d hd
      obtain ⟨c', cs', heq, -, hsize⟩ := isInteger_of_digits hfirst hdigits
      cases heq
      have hlength : (cs.take (digitRun cs)).length = digitRun cs :=
        List.length_take_of_le (endsAtSpace_digitRun.le_length cs)
      rw [hsize, hlength]
    · have hdecimal : decimalSize cs = (kind, n) := Except.ok.inj h
      have hcut := decimalSize_take cs
      rw [hdecimal] at hcut
      have hnil : isAfterPoint [] = false := rfl
      unfold numberSize
      split
      · next base hbase =>
        -- a base would have been announced before the cut as well
        rcases Nat.eq_zero_or_pos n with rfl | hpos
        · cases hbase
        · rw [head?_take_of_pos hpos] at hbase
          exact absurd rfl (hplain base hbase)
      · rw [hnil, hcut]
        rfl

/-! ## Quoted literals -/

/-- An escape in braces goes to the closing brace. -/
theorem bracedSize?_take {body : List Char} {k : Nat} (h : bracedSize? body = some k)
    (hn : k ≤ n + 2) : bracedSize? (body.take n) = some k := by
  simp only [bracedSize?] at h
  generalize hinner : body.takeWhile (· ≠ '\x7d') = inner at h
  split_ifs at h with hclosed hlong
  obtain ⟨v, hv, hsize⟩ := Option.bind_eq_some_iff.mp h
  split_ifs at hsize with hvalid
  cases hsize
  have hle : inner.length ≤ body.length := hinner ▸ (List.takeWhile_sublist _).length_le
  have hcut : (body.take n).takeWhile (· ≠ '\x7d') = inner := by
    rw [← List.take_takeWhile, hinner, List.take_of_length_le (by omega)]
  have hshort : inner.length ≠ (body.take n).length := by
    rw [List.length_take]
    omega
  simp only [bracedSize?, hcut, if_neg hshort, if_neg hlong, hv, Option.bind_some, if_pos hvalid]

/-- An escape in braces has its letter and both braces. -/
theorem three_le_of_bracedSize? {body : List Char} {k : Nat} (h : bracedSize? body = some k) :
    3 ≤ k := by
  simp only [bracedSize?] at h
  split_ifs at h
  obtain ⟨v, -, hsize⟩ := Option.bind_eq_some_iff.mp h
  split_ifs at hsize
  cases hsize
  omega

/-- No escape is empty. -/
theorem escapeSize?_pos {bytesOnly inString : Bool} {k : Nat}
    (h : escapeSize? bytesOnly inString cs = some k) : 0 < k := by
  cases cs with
  | nil => cases h
  | cons c cs =>
    simp only [escapeSize?] at h
    grind [Option.bind_eq_some_iff, → three_le_of_bracedSize?]

/-- An escape is the same when the text is cut off behind it. -/
theorem escapeSize?_take {bytesOnly inString : Bool} {k : Nat}
    (h : escapeSize? bytesOnly inString cs = some k) (hn : k ≤ n) :
    escapeSize? bytesOnly inString (cs.take n) = some k := by
  have hpos := escapeSize?_pos h
  obtain ⟨n, rfl⟩ : ∃ n', n = n' + 1 := ⟨n - 1, by omega⟩
  cases cs with
  | nil => cases h
  | cons c cs =>
    rw [List.take_succ_cons]
    simp only [escapeSize?] at h ⊢
    by_cases hplain : c = 'n' ∨ c = 'r' ∨ c = 't' ∨ c = '\\' ∨ c = '0' ∨ c = '\'' ∨ c = '"'
    · rwa [if_pos hplain] at h ⊢
    rw [if_neg hplain] at h ⊢
    by_cases hx : c = 'x'
    · rw [if_pos hx] at h ⊢
      split at h
      · next a b rest =>
        obtain ⟨v, hv, hsize⟩ := Option.bind_eq_some_iff.mp h
        split_ifs at hsize
        cases hsize
        obtain ⟨n, rfl⟩ : ∃ n', n = n' + 2 := ⟨n - 2, by omega⟩
        exact h
      · cases h
    rw [if_neg hx] at h ⊢
    by_cases hu : c = 'u'
    · rw [if_pos hu] at h ⊢
      split at h
      · next body =>
        split_ifs at h with hbytes
        have hthree := three_le_of_bracedSize? h
        obtain ⟨n, rfl⟩ : ∃ n', n = n' + 1 := ⟨n - 1, by omega⟩
        rw [List.take_succ_cons]
        simp only [if_neg hbytes]
        exact bracedSize?_take h (by omega)
      · cases h
    rw [if_neg hu] at h ⊢
    by_cases hfeed : c = '\n'
    · rwa [if_pos hfeed] at h ⊢
    rw [if_neg hfeed] at h ⊢
    split_ifs at h with hreturn hbreak
    cases h
    rw [if_pos hreturn, head?_take_of_pos (by omega), if_pos hbreak]

/-- **A string is the same when it is cut off at its end.** -/
theorem stringSize_take {bytesOnly : Bool} {read : Nat}
    (h : stringSize bytesOnly read cs = .ok n) :
    stringSize bytesOnly read (cs.take (n - read)) = .ok n := by
  fun_induction stringSize bytesOnly read cs with
  | case1 => cases h
  | case2 read cs =>
    cases h
    rw [Nat.add_sub_cancel_left, List.take_succ_cons, stringSize, if_pos rfl]
  | case3 read cs k hescape hquote ih =>
    obtain ⟨body, rest, -, hn⟩ := stringSize_eq_ok h
    obtain ⟨m, hm⟩ : ∃ m, n - read = m + 1 := ⟨n - read - 1, by omega⟩
    have hrest : (cs.drop k).take (n - (read + 1 + k)) = (cs.take m).drop k := by
      rw [List.drop_take]
      congr 1
      omega
    rw [hm, List.take_succ_cons, stringSize, if_neg hquote, if_pos rfl,
      escapeSize?_take hescape (by omega)]
    simp only [← hrest]
    exact ih h
  | case4 => cases h
  | case5 => cases h
  | case6 => cases h
  | case7 read c cs hquote hslash hreturn hascii ih =>
    obtain ⟨body, rest, -, hn⟩ := stringSize_eq_ok h
    obtain ⟨m, hm⟩ : ∃ m, n - read = m + 1 := ⟨n - read - 1, by omega⟩
    have hrest : n - (read + 1) = m := by omega
    -- a quote is still to come, so the next character stays
    have hhead : (cs.take m).head? = cs.head? := head?_take_of_pos (by omega)
    rw [hm, List.take_succ_cons, stringSize, if_neg hquote, if_neg hslash, hhead, if_neg hreturn,
      if_neg hascii, ← hrest]
    exact ih h

/-- A character literal is the same when it is cut off at its end. -/
theorem charSize?_take {bytesOnly : Bool} (h : charSize? bytesOnly cs = .ok (some n)) :
    charSize? bytesOnly (cs.take n) = .ok (some n) := by
  cases cs with
  | nil => cases h
  | cons first cs =>
    by_cases hfirst : first = '\''
    · rw [charSize?, if_pos hfirst] at h
      cases h
    simp only [charSize?, if_neg hfirst] at h
    split at h
    · cases h
    · next k hescape =>
      split_ifs at h with hquote hcontrol hascii
      · cases h
      cases h
      have hcut : (if first = '\\' then escapeSize? bytesOnly false (cs.take (k + 1)) else some 0) =
          some k := by
        split_ifs at hescape ⊢
        · exact escapeSize?_take hescape (Nat.le_succ k)
        · exact hescape
      have hhead : ((cs.take (k + 1)).drop k).head? = (cs.drop k).head? := by
        rw [List.drop_take]
        exact head?_take_of_pos (by omega)
      simp only [List.take_succ_cons, charSize?, if_neg hfirst, hcut, hhead, if_neg hquote,
        if_neg hcontrol, if_neg hascii]

theorem byteSize_take (h : byteSize cs = .ok n) : byteSize (cs.take n) = .ok n := by
  unfold byteSize at h ⊢
  cases hchar : charSize? true cs with
  | error f => rw [hchar] at h; cases h
  | ok size =>
    rw [hchar] at h
    cases size with
    | none => cases h
    | some k =>
      cases h
      rw [charSize?_take hchar]
      rfl

/-- A check in one pass that each range of the second table lies in one of the first, which are in
increasing order. -/
def covers : List CharRange → List CharRange → Bool
  | _, [] => true
  | wide, r :: narrow =>
    match wide.dropWhile fun r' => r'.2 < r.2 with
    | [] => false
    | r' :: rest => r'.1 ≤ r.1 && covers (r' :: rest) narrow

theorem exists_of_covers {wide narrow : List CharRange} (h : covers wide narrow = true)
    {r : CharRange} (hr : r ∈ narrow) : ∃ r' ∈ wide, r'.1 ≤ r.1 ∧ r.2 ≤ r'.2 := by
  induction narrow generalizing wide with
  | nil => cases hr
  | cons first narrow ih =>
    rw [covers] at h
    cases hdrop : wide.dropWhile fun r' => r'.2 < first.2 with
    | nil => rw [hdrop] at h; cases h
    | cons r' rest =>
      rw [hdrop] at h
      obtain ⟨hfrom, hrest⟩ := Bool.and_eq_true_iff.mp h
      have hsub : r' :: rest ⊆ wide := hdrop ▸ (List.dropWhile_sublist _).subset
      rcases List.mem_cons.mp hr with rfl | hr
      · have hto : ¬ r'.2 < r.2 := by
          have hhead := List.head?_dropWhile_not (fun r' : CharRange => r'.2 < r.2) wide
          rw [hdrop] at hhead
          simpa using hhead
        exact ⟨r', hsub List.mem_cons_self, of_decide_eq_true hfrom, Nat.le_of_not_lt hto⟩
      · obtain ⟨found, hfound, hle⟩ := ih hrest hr
        exact ⟨found, hsub hfound, hle⟩

/-- What starts an identifier continues one. -/
theorem isIdContinue_of_isIdStart (h : isIdStart c = true) : isIdContinue c = true := by
  have hranges : covers idContinueRanges idStartRanges = true := by decide +kernel
  unfold isIdStart at h
  unfold isIdContinue
  split_ifs at h ⊢
  · simp [Char.isAlphanum, h]
  · obtain ⟨r, hr, hin⟩ := List.any_eq_true.mp h
    obtain ⟨r', hr', hle⟩ := exists_of_covers hranges hr
    refine List.any_eq_true.mpr ⟨r', hr', ?_⟩
    simp only [Bool.and_eq_true, decide_eq_true_eq] at hin hle ⊢
    omega

/-- A lifetime or a character literal is the same when it is cut off at its end. -/
theorem quoteSize_take {kind : Kind} (h : quoteSize cs = .ok (kind, n)) :
    quoteSize (cs.take n) = .ok (kind, n) := by
  unfold quoteSize at h ⊢
  cases hchar : charSize? false cs with
  | error f => rw [hchar] at h; cases h
  | ok size =>
    rw [hchar] at h
    cases size with
    | some k =>
      cases h
      rw [charSize?_take hchar]
      rfl
    | none =>
      simp only [bind, Except.bind] at h
      split at h
      · next c cs =>
        split_ifs at h with hname
        cases h
        have hne : c ≠ '\'' ∧ c ≠ '\\' := by
          constructor <;> rintro rfl <;> cases hname
        have hcontinue : isIdContinue c = true := by
          rcases Bool.or_eq_true_iff.mp hname with hunder | hstart
          · rw [of_decide_eq_true hunder]
            decide
          · exact isIdContinue_of_isIdStart hstart
        have hpos : 0 < idRun (c :: cs) := run_pos hcontinue
        obtain ⟨m, hm⟩ : ∃ m, idRun (c :: cs) = m + 1 := ⟨idRun (c :: cs) - 1, by omega⟩
        have hquote : cs.head? ≠ some '\'' := by
          intro hquote
          simp [charSize?, hne, hquote] at hchar
          split_ifs at hchar
          cases hchar
        have hrun := endsAtCut_idRun (c :: cs) _ (Nat.le_refl _)
        rw [hm, List.take_succ_cons] at hrun ⊢
        have hnone : charSize? false (c :: cs.take m) = .ok none := by
          simp [charSize?, hne, head?_take_ne hquote m]
        rw [hnone]
        simp only [bind, Except.bind, if_pos hname, hrun]
        rfl
      · cases h

/-- A raw string is the same when it is cut off at its end. -/
theorem rawStringSize_take {bytesOnly : Bool} {hashes : Nat}
    (h : rawStringSize bytesOnly hashes cs = .ok n) :
    rawStringSize bytesOnly hashes (cs.take n) = .ok n := by
  unfold rawStringSize at h
  split at h
  · cases h
  · next body rest hsplit =>
    split_ifs at h with hascii hreturn
    cases h
    have hsize : body.length + 1 + hashes = (body ++ '"' :: List.replicate hashes '#').length := by
      simp
      omega
    have hcut : cs.take (body.length + 1 + hashes) = body ++ '"' :: List.replicate hashes '#' := by
      rw [hsize, eq_of_splitAtFirst? hsplit, List.take_left]
    rw [hcut, rawStringSize, splitAtFirst?_cut hsplit]
    simp only [if_neg hascii, if_neg hreturn]

/-! ## Readings -/

/-- A literal is taken where its body is. -/
theorem Reading.literal_eq_ok {opening : Nat} {body : Except LexFault (Kind × Nat)} {kind : Kind}
    (h : (Reading.literal opening body).result = .ok kind) :
    ∃ n, body = .ok (kind, n) ∧ Reading.literal opening body = .ok kind (opening + n) := by
  cases body with
  | error f => cases h
  | ok parsed =>
    obtain ⟨kind', n⟩ := parsed
    cases h
    exact ⟨n, rfl, rfl⟩

/-- Number signs open a raw string if a quote is behind them. -/
theorem scanRawString?_eq_none {kind : Kind} {bytesOnly : Bool} {opening : Nat} :
    scanRawString? kind bytesOnly opening cs = none ↔
      (cs.dropWhile (· = '#')).head? ≠ some '"' := by
  simp only [scanRawString?, drop_length_takeWhile]
  split
  · next body hbody => simp [hbody]
  · next hnone =>
    refine iff_of_true rfl fun hquote => ?_
    obtain ⟨body, hbody⟩ := List.head?_eq_some_iff.mp hquote
    exact hnone body hbody

theorem scanRawString?_take_none {kind : Kind} {bytesOnly : Bool} {opening : Nat}
    (h : scanRawString? kind bytesOnly opening cs = none) (n : Nat) :
    scanRawString? kind bytesOnly opening (cs.take n) = none := by
  rw [scanRawString?_eq_none] at h ⊢
  rw [dropWhile_take]
  exact head?_take_ne h _

/-- A raw string with its number signs is the same when it is cut off at its end. -/
theorem scanRawString?_take {kind kind' : Kind} {bytesOnly : Bool} {opening : Nat} {r : Reading}
    (h : scanRawString? kind bytesOnly opening cs = some r) (hr : r.result = .ok kind') :
    ∃ n, r.more = opening + n ∧ scanRawString? kind bytesOnly opening (cs.take n) = some r := by
  simp only [scanRawString?, drop_length_takeWhile] at h
  generalize hsigns : (cs.takeWhile (· = '#')).length = signs at h
  split at h
  · next body hbody =>
    cases h
    obtain ⟨n, hsize, hreading⟩ := Reading.literal_eq_ok hr
    have hraw := of_map_kind hsize
    refine ⟨signs + (n + 1), ?_, ?_⟩
    · rw [hreading]
      exact show opening + signs + 1 + n = _ by omega
    · have hcut : ((cs.take (signs + (n + 1))).takeWhile (· = '#')).length = signs := by
        rw [← List.take_takeWhile, List.length_take, hsigns]
        omega
      have hbehind : (cs.take (signs + (n + 1))).dropWhile (· = '#') = '"' :: body.take n := by
        rw [dropWhile_take, hsigns, Nat.add_sub_cancel_left, hbody, List.take_succ_cons]
      have hdrop : (cs.take (signs + (n + 1))).drop signs = '"' :: body.take n := by
        rw [← hbehind, ← drop_length_takeWhile, hcut]
      simp only [scanRawString?, hcut, hdrop, rawStringSize_take hraw, hraw]
  · cases h

/-- A word is the same when it is cut off at its end. -/
theorem scanWord_take (c : Char) (cs : List Char) :
    scanWord c (cs.take (idRun cs)) = scanWord c cs := by
  simp only [scanWord, endsAtCut_idRun cs _ (Nat.le_refl _), List.take_take, Nat.min_self]

/-- What a run takes is made of its characters. -/
theorem isIdContinue_of_mem_take {d : Char} (h : d ∈ cs.take (idRun cs)) :
    isIdContinue d = true := by
  rw [idRun, ← List.prefix_iff_eq_take.mp (List.takeWhile_prefix _)] at h
  exact List.all_eq_true.mp List.all_takeWhile d h

/-- Without number signs and quotes, no raw string is opened. -/
theorem scanRawString?_word {kind : Kind} {bytesOnly : Bool} {opening : Nat} {word : List Char}
    (h : ∀ d ∈ word, isIdContinue d = true) :
    scanRawString? kind bytesOnly opening word = none := by
  rw [scanRawString?_eq_none]
  intro hquote
  have hmem := (List.dropWhile_suffix _).subset (List.mem_of_head? hquote)
  have hcontinue := h _ hmem
  cases hcontinue

theorem scanR_word {word : List Char} (h : ∀ d ∈ word, isIdContinue d = true) :
    scanR word = scanWord 'r' word := by
  unfold scanR
  rw [scanRawString?_word h]
  cases word with
  | nil => rfl
  | cons d word =>
    have hsign : d ≠ '#' := by
      rintro rfl
      have hcontinue := h '#' List.mem_cons_self
      cases hcontinue
    simp [hsign]

theorem scanB_word {word : List Char} (h : ∀ d ∈ word, isIdContinue d = true) :
    scanB word = scanWord 'b' word := by
  unfold scanB
  split
  · have hcontinue := h '"' List.mem_cons_self
    cases hcontinue
  · have hcontinue := h '\'' List.mem_cons_self
    cases hcontinue
  · next rest =>
    rw [scanRawString?_word fun d hd => h d (List.mem_cons_of_mem _ hd)]
    have hsign : rest.head? ≠ some '#' := by
      intro hsign
      have hcontinue := h '#' (List.mem_cons_of_mem _ (List.mem_of_head? hsign))
      cases hcontinue
    simp only [if_neg hsign]
  · rfl

/-- The letters and digits that are told without tables are ASCII. -/
theorem isAscii_of_isAlphanum (h : c.isAlphanum = true) : isAscii c = true := by
  simp only [Char.isAlphanum, Char.isAlpha, Char.isUpper, Char.isLower, Char.isDigit,
    Bool.or_eq_true, Bool.and_eq_true, decide_eq_true_eq, UInt32.le_iff_toNat_le] at h
  simp only [isAscii, decide_eq_true_eq, Char.toNat]
  have hZ : 'Z'.val.toNat = 90 := rfl
  have hz : 'z'.val.toNat = 122 := rfl
  have hnine : '9'.val.toNat = 57 := rfl
  omega

/-- ASCII letters and digits continue an identifier. -/
theorem isIdContinue_of_isAlphanum (h : (c.isAlphanum || c == '_') = true) :
    isIdContinue c = true := by
  have hascii : isAscii c = true := by
    rcases Bool.or_eq_true_iff.mp h with halpha | hunder
    · exact isAscii_of_isAlphanum halpha
    · rw [beq_iff_eq.mp hunder]
      decide
  rw [isIdContinue, if_pos hascii]
  exact h

theorem isIdContinue_of_isAsciiIdStart (h : isAsciiIdStart c = true) : isIdContinue c = true := by
  refine isIdContinue_of_isAlphanum ?_
  rcases Bool.or_eq_true_iff.mp h with halpha | hunder
  · simp [Char.isAlphanum, halpha]
  · simp [hunder]

theorem scanR_of_some {r : Reading} (h : scanRawString? .rawString false 0 cs = some r) :
    scanR cs = r := by
  unfold scanR
  rw [h]

/-- A raw identifier is the same when it is cut off at its end. -/
theorem scanRawWord_take {kind : Kind} {rest : List Char} (hc : isAsciiIdStart c = true)
    (h : (scanRawWord ('#' :: c :: rest)).result = .ok kind) :
    ∃ m, (scanRawWord ('#' :: c :: rest)).more = m + 2 ∧
      scanRawWord ('#' :: c :: rest.take m) = scanRawWord ('#' :: c :: rest) := by
  have hpos : 0 < idRun (c :: rest) := run_pos (isIdContinue_of_isAsciiIdStart hc)
  obtain ⟨m, hm⟩ : ∃ m, idRun (c :: rest) = m + 1 := ⟨idRun (c :: rest) - 1, by omega⟩
  have hrun := endsAtCut_idRun (c :: rest) _ (Nat.le_refl _)
  rw [hm, List.take_succ_cons] at hrun
  refine ⟨m, ?_⟩
  simp only [scanRawWord, List.tail_cons, hm, hrun, List.take_succ_cons, List.take_take,
    Nat.min_self] at h ⊢
  split_ifs at h ⊢
  · cases h
  · exact ⟨rfl, trivial⟩

theorem scanR_alone {kind : Kind} (h : (scanR cs).result = .ok kind) :
    scanR (cs.take (scanR cs).more) = scanR cs := by
  cases hraw : scanRawString? .rawString false 0 cs with
  | some r =>
    rw [scanR_of_some hraw] at h ⊢
    obtain ⟨n, hn, hcut⟩ := scanRawString?_take hraw h
    rw [Nat.zero_add] at hn
    rw [hn, scanR_of_some hcut]
  | none =>
    generalize hscan : scanR cs = r at h ⊢
    have hcut := scanRawString?_take_none hraw r.more
    unfold scanR at hscan
    rw [hraw] at hscan
    simp only at hscan
    split at hscan
    · next c rest =>
      by_cases hc : isAsciiIdStart c = true
      · rw [if_pos hc] at hscan
        subst hscan
        obtain ⟨m, hm, htake⟩ := scanRawWord_take hc h
        rw [hm, List.take_succ_cons, List.take_succ_cons] at hcut ⊢
        unfold scanR
        rw [hcut]
        simp only [if_pos hc, htake]
      · rw [if_neg hc] at hscan
        split_ifs at hscan
        · subst hscan
          cases h
        · subst hscan
          rfl
    · subst hscan
      exact (scanR_word fun d hd => isIdContinue_of_mem_take hd).trans (scanWord_take 'r' cs)

/-- Behind the letters and their mark, a literal goes as far as its body. -/
theorem scanB_alone {kind : Kind} (h : (scanB cs).result = .ok kind) :
    scanB (cs.take (scanB cs).more) = scanB cs := by
  generalize hscan : scanB cs = r at h ⊢
  unfold scanB at hscan
  split at hscan
  · next body =>
    subst hscan
    obtain ⟨n, hsize, hreading⟩ := Reading.literal_eq_ok h
    have hstring := of_map_kind hsize
    have hcut := stringSize_take hstring
    rw [hreading, show (Reading.ok kind (1 + n)).more = n + 1 from Nat.add_comm 1 n,
      List.take_succ_cons, ← hreading]
    simp only [scanB]
    rw [hstring]
    rw [Nat.sub_zero] at hcut
    rw [hcut]
  · next body =>
    subst hscan
    obtain ⟨n, hsize, hreading⟩ := Reading.literal_eq_ok h
    have hbyte := of_map_kind hsize
    rw [hreading, show (Reading.ok kind (1 + n)).more = n + 1 from Nat.add_comm 1 n,
      List.take_succ_cons, ← hreading]
    simp only [scanB]
    rw [hbyte, byteSize_take hbyte]
  · next rest =>
    cases hraw : scanRawString? .rawByteString true 1 rest with
    | some r' =>
      rw [hraw] at hscan
      simp only at hscan
      subst hscan
      obtain ⟨n, hn, hcut⟩ := scanRawString?_take hraw h
      rw [hn, Nat.add_comm, List.take_succ_cons]
      unfold scanB
      simp only [hcut]
    | none =>
      rw [hraw] at hscan
      simp only at hscan
      split_ifs at hscan
      · subst hscan
        cases h
      · subst hscan
        exact (scanB_word fun d hd => isIdContinue_of_mem_take hd).trans (scanWord_take 'b' _)
  · subst hscan
    exact (scanB_word fun d hd => isIdContinue_of_mem_take hd).trans (scanWord_take 'b' cs)

/-- The longest punctuator is the same when the text is cut off behind it. -/
theorem punctuatorAt?_take {kind : Kind} (h : punctuatorAt? cs = some (kind, n)) :
    punctuatorAt? (cs.take n) = some (kind, n) := by
  rw [punctuatorAt?_eq_find?] at h
  obtain ⟨entry, hfind, heq⟩ := Option.map_eq_some_iff.mp h
  cases heq
  obtain ⟨hfound, before, behind, htable, hlonger⟩ := List.find?_eq_some_iff_append.mp hfind
  have hcut : (Kind.punctuators.find? fun p => p.1.toList.isPrefixOf (cs.take entry.1.length)) =
      some entry := by
    refine List.find?_eq_some_iff_append.mpr ⟨?_, before, behind, htable, fun p hp => ?_⟩
    · rw [List.isPrefixOf_iff_prefix] at hfound ⊢
      exact List.prefix_take_iff.mpr ⟨hfound, Nat.le_of_eq String.length_toList⟩
    · have hlong := hlonger p hp
      rw [Bool.not_eq_true', ← Bool.not_eq_true, List.isPrefixOf_iff_prefix] at hlong ⊢
      exact fun hprefix => hlong (List.prefix_take_iff.mp hprefix).1
  rw [punctuatorAt?_eq_find?, hcut]
  rfl

theorem punctuator_alone {kind : Kind} (h : punctuatorAt? (c :: cs) = some (kind, n)) :
    punctuatorAt? (c :: cs.take (n - 1)) = some (kind, n) := by
  have hcut := punctuatorAt?_take h
  cases n with
  | zero => exact absurd (punctuators_proper _ (mem_punctuators_of_punctuatorAt? h)).1 (by simp)
  | succ n => rwa [List.take_succ_cons] at hcut

/-- A literal is the same alone if its body is. -/
theorem Reading.literal_alone {body : Except LexFault (Kind × Nat)} {kind : Kind}
    (alone : List Char → Except LexFault (Kind × Nat))
    (h : (Reading.literal 0 body).result = .ok kind)
    (hbody : ∀ n, body = .ok (kind, n) → alone (cs.take n) = .ok (kind, n)) :
    Reading.literal 0 (alone (cs.take (Reading.literal 0 body).more)) = Reading.literal 0 body := by
  obtain ⟨n, hsize, hreading⟩ := Reading.literal_eq_ok h
  rw [hreading, show (Reading.ok kind (0 + n)).more = n from Nat.zero_add n, hbody n hsize]
  rfl

/-- Trivia are no tokens. -/
theorem ofKind?_kind (kind : TriviaKind) : TriviaKind.ofKind? kind.kind ≠ none := by
  cases kind <;> rintro ⟨⟩

/-- **A token is read again when it is alone**: what a recogniser takes does not depend on what
is around it. -/
theorem scan_alone {before : List Char} {kind : Kind} (h : (scan before c cs).result = .ok kind)
    (hkind : TriviaKind.ofKind? kind = none) :
    scan [] c (cs.take (scan before c cs).more) = scan before c cs := by
  generalize hscan : scan before c cs = r at h ⊢
  unfold scan at hscan ⊢
  by_cases hspace : isSpace c = true
  · rw [if_pos hspace] at hscan
    subst hscan
    cases h
    cases hkind
  rw [if_neg hspace] at hscan ⊢
  by_cases hline : c = '/' ∧ cs.head? = some '/'
  · rw [if_pos hline] at hscan
    subst hscan
    cases h
    exact absurd hkind (ofKind?_kind _)
  rw [if_neg hline] at hscan
  rw [if_neg fun hcut => head?_take_ne (fun hhead => hline ⟨hcut.1, hhead⟩) _ hcut.2]
  by_cases hblock : c = '/' ∧ cs.head? = some '*'
  · rw [if_pos hblock] at hscan
    subst hscan
    unfold scanBlockComment at h
    split at h
    · cases h
      exact absurd hkind (ofKind?_kind _)
    · cases h
  rw [if_neg hblock] at hscan
  rw [if_neg fun hcut => head?_take_ne (fun hhead => hblock ⟨hcut.1, hhead⟩) _ hcut.2]
  by_cases hstring : c = '"'
  · rw [if_pos hstring] at hscan ⊢
    subst hscan
    refine Reading.literal_alone (fun cs => (stringSize false 0 cs).map fun n => (.string, n)) h
      fun n hsize => ?_
    have hcut := stringSize_take (of_map_kind hsize)
    rw [Nat.sub_zero] at hcut
    rw [hcut, ← hsize, of_map_kind hsize]
  rw [if_neg hstring] at hscan ⊢
  by_cases hquote : c = '\''
  · rw [if_pos hquote] at hscan ⊢
    subst hscan
    exact Reading.literal_alone quoteSize h fun n => quoteSize_take
  rw [if_neg hquote] at hscan ⊢
  by_cases hr : c = 'r'
  · rw [if_pos hr] at hscan ⊢
    subst hscan
    exact scanR_alone h
  rw [if_neg hr] at hscan ⊢
  by_cases hb : c = 'b'
  · rw [if_pos hb] at hscan ⊢
    subst hscan
    exact scanB_alone h
  rw [if_neg hb] at hscan ⊢
  by_cases hdigit : c.isDigit = true
  · rw [if_pos hdigit] at hscan ⊢
    subst hscan
    exact Reading.literal_alone (numberSize [] c) h fun n => numberSize_alone hdigit
  rw [if_neg hdigit] at hscan ⊢
  by_cases hword : c.isAlpha ∨ c = '_' ∧ cs.head?.any (fun d => d.isAlphanum || d == '_')
  · rw [if_pos hword] at hscan
    subst hscan
    have hcut : c.isAlpha ∨ c = '_' ∧
        (cs.take (idRun cs)).head?.any (fun d => d.isAlphanum || d == '_') := by
      refine hword.imp_right fun hunder => ⟨hunder.1, ?_⟩
      obtain ⟨d, hd, hname⟩ := (Option.any_eq_true ..).mp hunder.2
      have hpos : 0 < idRun cs := run_pos (by rw [hd]; exact isIdContinue_of_isAlphanum hname)
      rw [head?_take_of_pos hpos]
      exact hunder.2
    exact (if_pos hcut).trans (scanWord_take c cs)
  rw [if_neg hword] at hscan
  have hcut : ¬ (c.isAlpha ∨ c = '_' ∧
      (cs.take r.more).head?.any (fun d => d.isAlphanum || d == '_')) := by
    rintro (halpha | ⟨hunder, hbehind⟩)
    · exact hword (.inl halpha)
    · have hnone := any_head?_take (Bool.eq_false_iff.mpr fun hany => hword (.inr ⟨hunder, hany⟩))
        r.more
      rw [hnone] at hbehind
      cases hbehind
  rw [if_neg hcut]
  by_cases hascii : (!isAscii c) = true
  · rw [if_pos hascii] at hscan ⊢
    split_ifs at hscan ⊢
    · subst hscan
      exact scanWord_take c cs
    · subst hscan
      cases h
  rw [if_neg hascii] at hscan ⊢
  by_cases hslash : c = '\\'
  · rw [if_pos hslash] at hscan
    split at hscan
    all_goals
      subst hscan
      cases h
    · cases hkind
    · cases hkind
  rw [if_neg hslash] at hscan ⊢
  split at hscan
  · next kind' n hpunct =>
    subst hscan
    rw [show (Reading.ok kind' (n - 1)).more = n - 1 from rfl, punctuator_alone hpunct]
  · subst hscan
    cases h

end Lexeme
end Packrat
