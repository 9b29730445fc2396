/-
# What an escape may be

The text behind a backslash is told by a grammar (`Lexeme.IsEscape`):

| escape | condition |
| --- | --- |
| `n`, `r`, `t`, `\`, `0`, `'`, `"` | |
| `x` and a number of two places | at most `7F`, or in a byte literal |
| `u` and a number in braces, `_` not counted, at most six places | a scalar value, not in a byte literal |
| a line feed, a return and a line feed | in a string |

The size that the recogniser gives is that of the one escape the text begins with
(`Lexeme.escapeSize?_eq_some_iff`).  Its numbers are read by a routine for numbers of any use, which
takes a plus sign in front.  So `\x+1` passes for an escape of two places, with one digit
(`Lexeme.signed_escape`): the grammar is the one of plain hexadecimal numbers where no plus sign
stands (`IsEscape.plain_iff`), and the number of a plus sign and the digits behind it elsewhere.
-/

import Mathlib.Data.List.Forall2
import Mathlib.Data.Nat.Digits.Defs
import Mathlib.Tactic.IntervalCases
import Mathlib.Tactic.SplitIfs
import Packrat.Lexeme.Quote
import Packrat.Proofs.Text.Measure

namespace Packrat
namespace Lexeme

open Text

/-! ## Numbers -/

/-- A hexadecimal digit, of either case, with its value. -/
def IsHexDigit (c : Char) (d : Nat) : Prop :=
  d < 16 ∧ (c = d.digitChar ∨ c = d.digitChar.toUpper)

/-- The digits, at least one, denote the number. -/
def Denotes (digits : List Char) (v : Nat) : Prop :=
  digits ≠ [] ∧ ∃ ds, List.Forall₂ IsHexDigit digits ds ∧ v = Nat.ofDigits 16 ds.reverse

/-- The same where a plus sign may stand in front of the digits. -/
def DenotesSigned (places : List Char) (v : Nat) : Prop :=
  Denotes places v ∨ ∃ digits, places = '+' :: digits ∧ Denotes digits v

/-- What stands behind a backslash, with a way to write numbers. -/
inductive IsEscape (number : List Char → Nat → Prop) (bytesOnly inString : Bool) :
    List Char → Prop where
  | plain {c : Char} : c ∈ ['n', 'r', 't', '\\', '0', '\'', '"'] →
    IsEscape number bytesOnly inString [c]
  | byte {places : List Char} {v : Nat} : places.length = 2 → number places v →
    (v ≤ 0x7F ∨ bytesOnly = true) → IsEscape number bytesOnly inString ('x' :: places)
  | scalar {body : List Char} {v : Nat} : bytesOnly = false →
    (body.filter (· ≠ '_')).length ≤ 6 → number (body.filter (· ≠ '_')) v → v.isValidChar →
    IsEscape number bytesOnly inString ('u' :: '\x7b' :: body ++ ['\x7d'])
  | feed : inString = true → IsEscape number bytesOnly inString ['\n']
  | returnFeed : inString = true → IsEscape number bytesOnly inString ['\r', '\n']

theorem hexDigit?_eq_some_iff {c : Char} {d : Nat} : hexDigit? c = some d ↔ IsHexDigit c d := by
  constructor
  · intro h
    have hall : ∀ n < 128, ∀ d ∈ hexDigit? (Char.ofNat n),
        d < 16 ∧ (Char.ofNat n = d.digitChar ∨ Char.ofNat n = d.digitChar.toUpper) := by
      decide
    have hlt : c.toNat < 128 := by
      unfold hexDigit? at h
      split_ifs at h with hdigit hlower hupper
      · exact Nat.lt_of_le_of_lt (UInt32.le_iff_toNat_le.mp hdigit.2) (by decide)
      · exact Nat.lt_of_le_of_lt (UInt32.le_iff_toNat_le.mp hlower.2) (by decide)
      · exact Nat.lt_of_le_of_lt (UInt32.le_iff_toNat_le.mp hupper.2) (by decide)
    have hc := hall c.toNat hlt d
    rw [Char.ofNat_toNat] at hc
    exact hc h
  · have hall : ∀ d < 16, hexDigit? d.digitChar = some d ∧
        hexDigit? d.digitChar.toUpper = some d := by decide
    rintro ⟨hd, rfl | rfl⟩
    · exact (hall d hd).1
    · exact (hall d hd).2

/-- Digits read behind others. -/
theorem hexDigits?_eq_some_iff {digits : List Char} : ∀ {v w : Nat},
    hexDigits? v digits = some w ↔ ∃ ds, List.Forall₂ IsHexDigit digits ds ∧
      w = v * 16 ^ ds.length + Nat.ofDigits 16 ds.reverse := by
  induction digits with
  | nil => simp [hexDigits?, eq_comm]
  | cons c digits ih =>
    intro v w
    have hvalue : ∀ (d : Nat) (ds : List Nat), (v * 16 + d) * 16 ^ ds.length +
        Nat.ofDigits 16 ds.reverse =
          v * 16 ^ (d :: ds).length + Nat.ofDigits 16 (d :: ds).reverse := by
      intro d ds
      rw [List.reverse_cons, Nat.ofDigits_append, Nat.ofDigits_singleton, List.length_reverse,
        List.length_cons, Nat.pow_succ]
      ring
    rw [hexDigits?, Option.bind_eq_some_iff]
    constructor
    · rintro ⟨d, hd, hrest⟩
      obtain ⟨ds, hds, rfl⟩ := ih.mp hrest
      exact ⟨d :: ds, .cons (hexDigit?_eq_some_iff.mp hd) hds, hvalue d ds⟩
    · rintro ⟨ds, hds, rfl⟩
      cases hds with
      | @cons _ d _ ds hd hds =>
        exact ⟨d, hexDigit?_eq_some_iff.mpr hd, ih.mpr ⟨ds, hds, (hvalue d ds).symm⟩⟩

/-- A number is made of digits. -/
theorem Denotes.isHexDigit_of_mem {digits : List Char} {v : Nat} (h : Denotes digits v) :
    ∀ c ∈ digits, ∃ d, IsHexDigit c d := by
  obtain ⟨-, ds, hds, -⟩ := h
  exact ((List.forall₂_and_left ..).mp (hds.imp fun c d hc => ⟨⟨d, hc⟩, hc⟩)).1

/-- A plus sign is none of them. -/
theorem Denotes.plus_notMem {digits : List Char} {v : Nat} (h : Denotes digits v) :
    '+' ∉ digits := by
  intro hmem
  obtain ⟨d, hd⟩ := h.isHexDigit_of_mem '+' hmem
  cases hexDigit?_eq_some_iff.mpr hd

/-- **The routine for numbers reads digits, and digits behind a plus sign.** -/
theorem hexNumber?_eq_some_iff {places : List Char} {v : Nat} :
    hexNumber? places = some v ↔ DenotesSigned places v := by
  have hdigits : ∀ digits : List Char,
      (if digits.isEmpty then none else hexDigits? 0 digits) = some v ↔ Denotes digits v := by
    intro digits
    cases digits with
    | nil => simp [Denotes]
    | cons c digits => simp [Denotes, hexDigits?_eq_some_iff]
  by_cases hsign : places.head? = some '+'
  · obtain ⟨digits, rfl⟩ := List.head?_eq_some_iff.mp hsign
    have hnot : ¬ Denotes ('+' :: digits) v := fun h => h.plus_notMem List.mem_cons_self
    have htail : hexNumber? ('+' :: digits) =
        if digits.isEmpty then none else hexDigits? 0 digits := rfl
    rw [htail, hdigits]
    simp [DenotesSigned, hnot]
  · have hnot : ∀ digits, places ≠ '+' :: digits := by
      rintro digits rfl
      exact hsign rfl
    simp only [hexNumber?, if_neg hsign, hdigits]
    simp [DenotesSigned, hnot]

/-- A plus sign in a number stands in front. -/
theorem DenotesSigned.of_plus_notMem {places : List Char} {v : Nat} (h : DenotesSigned places v)
    (hplus : '+' ∉ places) : Denotes places v := by
  rcases h with h | ⟨digits, rfl, -⟩
  · exact h
  · exact absurd List.mem_cons_self hplus

/-- What a number is written with takes one byte each, and is no brace. -/
theorem DenotesSigned.of_mem {places : List Char} {v : Nat} (h : DenotesSigned places v) :
    ∀ c ∈ places, c.utf8Size = 1 ∧ c ≠ '\x7d' := by
  have hdigit : ∀ d < 16, (d.digitChar.utf8Size = 1 ∧ d.digitChar ≠ '\x7d') ∧
      d.digitChar.toUpper.utf8Size = 1 ∧ d.digitChar.toUpper ≠ '\x7d' := by decide
  have hdigits : ∀ {digits : List Char}, Denotes digits v →
      ∀ c ∈ digits, c.utf8Size = 1 ∧ c ≠ '\x7d' := by
    intro digits h c hc
    obtain ⟨d, hd, rfl | rfl⟩ := h.isHexDigit_of_mem c hc
    · exact (hdigit d hd).1
    · exact (hdigit d hd).2
  rcases h with h | ⟨digits, rfl, h⟩
  · exact hdigits h
  · rintro c (_ | ⟨_, hc⟩)
    · decide
    · exact hdigits h c hc

/-- What stands in the braces is a number and underscores. -/
theorem of_mem_of_denotesSigned {body : List Char} {v : Nat}
    (h : DenotesSigned (body.filter (· ≠ '_')) v) :
    ∀ c ∈ body, c.utf8Size = 1 ∧ c ≠ '\x7d' := by
  intro c hc
  by_cases hunder : c = '_'
  · subst hunder
    decide
  · exact h.of_mem c (List.mem_filter.mpr ⟨hc, by simpa using hunder⟩)

/-! ## Escapes -/

/-- **An escape in braces** goes to the first closing brace. -/
theorem bracedSize?_eq_some_iff {cs : List Char} {k : Nat} : bracedSize? cs = some k ↔
    ∃ body rest v, cs = body ++ '\x7d' :: rest ∧ k = body.length + 3 ∧
      (body.filter (· ≠ '_')).length ≤ 6 ∧ DenotesSigned (body.filter (· ≠ '_')) v ∧
      v.isValidChar := by
  constructor
  · intro h
    simp only [bracedSize?] at h
    split_ifs at h with hclosed hlong
    obtain ⟨v, hv, hsize⟩ := Option.bind_eq_some_iff.mp h
    split_ifs at hsize with hvalid
    cases hsize
    refine ⟨cs.takeWhile (· ≠ '\x7d'), (cs.dropWhile (· ≠ '\x7d')).tail, v, ?_, rfl,
      Nat.le_of_not_lt hlong, hexNumber?_eq_some_iff.mp hv, hvalid⟩
    have hparts : cs.takeWhile (· ≠ '\x7d') ++ cs.dropWhile (· ≠ '\x7d') = cs :=
      List.takeWhile_append_dropWhile
    cases hbrace : cs.dropWhile (· ≠ '\x7d') with
    | nil =>
      rw [hbrace, List.append_nil] at hparts
      exact absurd (congrArg List.length hparts) hclosed
    | cons c rest =>
      have hhead := List.head?_dropWhile_not (· ≠ '\x7d') cs
      rw [hbrace] at hhead
      obtain rfl : c = '\x7d' := by simpa using hhead
      rw [List.tail_cons, ← hbrace, hparts]
  · rintro ⟨body, rest, v, rfl, rfl, hlong, hv, hvalid⟩
    have hinner : (body ++ '\x7d' :: rest).takeWhile (· ≠ '\x7d') = body := by
      rw [List.takeWhile_append_of_pos fun c hc => by
        simpa using (of_mem_of_denotesSigned hv c hc).2]
      simp
    have hclosed : body.length ≠ (body ++ '\x7d' :: rest).length := by
      rw [List.length_append, List.length_cons]
      omega
    simp only [bracedSize?, hinner, if_neg hclosed, if_neg (Nat.not_lt.mpr hlong),
      hexNumber?_eq_some_iff.mpr hv, Option.bind_some, if_pos hvalid]

variable {bytesOnly inString : Bool}

/-- **The escape a text begins with is one of the grammar**, with signed numbers. -/
theorem escapeSize?_eq_some_iff {cs : List Char} {k : Nat} :
    escapeSize? bytesOnly inString cs = some k ↔ ∃ body rest, cs = body ++ rest ∧
      body.length = k ∧ IsEscape DenotesSigned bytesOnly inString body := by
  constructor
  · intro h
    cases cs with
    | nil => cases h
    | cons c cs =>
      simp only [escapeSize?] at h
      by_cases hplain : c = 'n' ∨ c = 'r' ∨ c = 't' ∨ c = '\\' ∨ c = '0' ∨ c = '\'' ∨ c = '"'
      · rw [if_pos hplain] at h
        cases h
        exact ⟨[c], cs, rfl, rfl, .plain (by simpa using hplain)⟩
      rw [if_neg hplain] at h
      by_cases hx : c = 'x'
      · subst hx
        rw [if_pos rfl] at h
        split at h
        · next a b rest =>
          obtain ⟨v, hv, hsize⟩ := Option.bind_eq_some_iff.mp h
          split_ifs at hsize with hvalue
          cases hsize
          exact ⟨['x', a, b], rest, rfl, rfl, .byte rfl (hexNumber?_eq_some_iff.mp hv)
            (by simpa using hvalue)⟩
        · cases h
      rw [if_neg hx] at h
      by_cases hu : c = 'u'
      · subst hu
        rw [if_pos rfl] at h
        split at h
        · split_ifs at h with hbytes
          obtain ⟨body, rest, v, rfl, rfl, hlong, hv, hvalid⟩ := bracedSize?_eq_some_iff.mp h
          exact ⟨'u' :: '\x7b' :: body ++ ['\x7d'], rest, by simp, by simp,
            .scalar (by simpa using hbytes) hlong hv hvalid⟩
        · cases h
      rw [if_neg hu] at h
      by_cases hfeed : c = '\n'
      · subst hfeed
        rw [if_pos rfl] at h
        split_ifs at h with hstring
        cases h
        exact ⟨['\n'], cs, rfl, rfl, .feed hstring⟩
      rw [if_neg hfeed] at h
      split_ifs at h with hreturn hbreak
      cases h
      simp only [Bool.and_eq_true, beq_iff_eq] at hbreak
      obtain ⟨rest, rfl⟩ := List.head?_eq_some_iff.mp hbreak.2
      subst hreturn
      exact ⟨['\r', '\n'], rest, rfl, rfl, .returnFeed hbreak.1⟩
  · rintro ⟨body, rest, rfl, rfl, h⟩
    cases h with
    | plain hc => exact if_pos (by simpa using hc)
    | @byte places v hlength hv hvalue =>
      obtain ⟨a, b, rfl⟩ := List.length_eq_two.mp hlength
      simp [escapeSize?, hexNumber?_eq_some_iff.mpr hv, hvalue]
    | @scalar body v hbytes hlong hv hvalid =>
      have hsize := bracedSize?_eq_some_iff.mpr ⟨body, rest, v, rfl, rfl, hlong, hv, hvalid⟩
      simp [escapeSize?, hbytes, hsize]
    | feed hstring => simp [escapeSize?, hstring]
    | returnFeed hstring => simp [escapeSize?, hstring]

/-- An escape has as many bytes as characters. -/
theorem IsEscape.byteSize_eq {body : List Char}
    (h : IsEscape DenotesSigned bytesOnly inString body) : Text.byteSize body = body.length := by
  have hsum : ∀ cs : List Char, (∀ c ∈ cs, c.utf8Size = 1) → Text.byteSize cs = cs.length := by
    intro cs hcs
    induction cs with
    | nil => rfl
    | cons c cs ih =>
      rw [Text.byteSize, hcs c List.mem_cons_self, ih fun d hd => hcs d (List.mem_cons_of_mem _ hd),
        List.length_cons, Nat.add_comm]
  refine hsum body fun c hc => ?_
  cases h with
  | @plain d hd =>
    obtain rfl := List.mem_singleton.mp hc
    have hall : ['n', 'r', 't', '\\', '0', '\'', '"'].all (·.utf8Size = 1) = true := by decide
    exact of_decide_eq_true (List.all_eq_true.mp hall c hd)
  | byte _ hv _ =>
    rcases List.mem_cons.mp hc with rfl | hc
    · rfl
    · exact (hv.of_mem c hc).1
  | scalar _ _ hv _ =>
    rcases List.mem_append.mp hc with hc | hc
    · rcases List.mem_cons.mp hc with rfl | hc
      · rfl
      rcases List.mem_cons.mp hc with rfl | hc
      · rfl
      · exact (of_mem_of_denotesSigned hv c hc).1
    · obtain rfl := List.mem_singleton.mp hc
      rfl
  | feed _ =>
    obtain rfl := List.mem_singleton.mp hc
    rfl
  | returnFeed _ =>
    have hall : ['\r', '\n'].all (·.utf8Size = 1) = true := by decide
    exact of_decide_eq_true (List.all_eq_true.mp hall c hc)

/-- **The plain grammar is the one without plus signs.** -/
theorem IsEscape.plain_iff {body : List Char} : IsEscape Denotes bytesOnly inString body ↔
    IsEscape DenotesSigned bytesOnly inString body ∧ '+' ∉ body := by
  constructor
  · intro h
    cases h with
    | plain hc => exact ⟨.plain hc, by revert hc; simp; grind⟩
    | byte hlength hv hvalue =>
      exact ⟨.byte hlength (.inl hv) hvalue, by simpa using hv.plus_notMem⟩
    | scalar hbytes hlong hv hvalid =>
      refine ⟨.scalar hbytes hlong (.inl hv) hvalid, ?_⟩
      have hplus := hv.plus_notMem
      simpa [List.mem_filter] using hplus
    | feed hstring => exact ⟨.feed hstring, by decide⟩
    | returnFeed hstring => exact ⟨.returnFeed hstring, by decide⟩
  · rintro ⟨h, hplus⟩
    cases h with
    | plain hc => exact .plain hc
    | byte hlength hv hvalue =>
      exact .byte hlength (hv.of_plus_notMem fun hmem => hplus (List.mem_cons_of_mem _ hmem)) hvalue
    | scalar hbytes hlong hv hvalid =>
      refine .scalar hbytes hlong (hv.of_plus_notMem fun hmem => hplus ?_) hvalid
      simp [List.mem_of_mem_filter hmem]
    | feed hstring => exact .feed hstring
    | returnFeed hstring => exact .returnFeed hstring

/-- **What an escape may be.**  The recogniser gives the size, in characters and in bytes alike, of
the one escape of the grammar that the text begins with.  Its numbers may be signed, and without a
plus sign the grammar is that of plain hexadecimal numbers.  A text that begins with no escape is a
fault of the literal: an invalid escape. -/
theorem escapes_follow_grammar (bytesOnly inString : Bool) (cs : List Char) :
    (∀ k, escapeSize? bytesOnly inString cs = some k ↔ ∃ body rest, cs = body ++ rest ∧
      body.length = k ∧ Text.byteSize body = k ∧
      IsEscape DenotesSigned bytesOnly inString body) ∧
    (∀ body, IsEscape Denotes bytesOnly inString body ↔
      IsEscape DenotesSigned bytesOnly inString body ∧ '+' ∉ body) ∧
    (∀ read, (¬ ∃ body rest, cs = body ++ rest ∧ IsEscape DenotesSigned bytesOnly true body) →
      stringSize bytesOnly read ('\\' :: cs) = .error .invalidEscape) ∧
    ((¬ ∃ body rest, cs = body ++ rest ∧ IsEscape DenotesSigned bytesOnly false body) →
      charSize? bytesOnly ('\\' :: cs) = .error .invalidEscape) := by
  have hnone : ∀ inString,
      (¬ ∃ body rest, cs = body ++ rest ∧ IsEscape DenotesSigned bytesOnly inString body) →
        escapeSize? bytesOnly inString cs = none := by
    intro inString hnot
    refine Option.eq_none_iff_forall_ne_some.mpr fun k hk => ?_
    obtain ⟨body, rest, hcs, -, h⟩ := escapeSize?_eq_some_iff.mp hk
    exact hnot ⟨body, rest, hcs, h⟩
  refine ⟨fun k => ?_, fun body => IsEscape.plain_iff, fun read hnot => ?_, fun hnot => ?_⟩
  · rw [escapeSize?_eq_some_iff]
    constructor
    · rintro ⟨body, rest, hcs, hk, h⟩
      exact ⟨body, rest, hcs, hk, h.byteSize_eq.trans hk, h⟩
    · rintro ⟨body, rest, hcs, hk, -, h⟩
      exact ⟨body, rest, hcs, hk, h⟩
  · simp [stringSize, hnone true hnot]
  · simp [charSize?, hnone false hnot]

/-- A plus sign and one digit pass for an escape of two digits. -/
theorem signed_escape : escapeSize? false true "x+1\"".toList = some 3 ∧
    ¬ ∃ body rest, "x+1\"".toList = body ++ rest ∧ body.length = 3 ∧
      IsEscape Denotes false true body := by
  refine ⟨by decide, ?_⟩
  rintro ⟨body, rest, hcs, hlength, h⟩
  have htake : (body ++ rest).take body.length = body := List.take_left
  have hbody : body = ['x', '+', '1'] := by
    rw [← htake, ← hcs, hlength]
    rfl
  refine (IsEscape.plain_iff.mp h).2 ?_
  rw [hbody]
  decide

end Lexeme
end Packrat
