/-
# Where a raw string ends

A raw string is opened by its letters, number signs and a quote, and closed by a quote with as many
number signs behind it.  What is between the two is not looked at for anything but the closing mark,
so the first one ends it, and then what stands before is judged:

| text behind the opening mark | item |
| --- | --- |
| no closing mark | unterminated |
| a byte string with a character beyond ASCII before the first one | not ASCII |
| else a return without a line feed before the first one | a bare control character |
| else | a lexeme up to the first one |

A quote with too few number signs, a number sign too many and a quote in a closing mark that is
none are all one case: they are not the first occurrence of the mark (`Lexeme.IsFirst`).
-/

import Packrat.Proofs.Lexeme.Reached

namespace Packrat
namespace Lexeme

open Text

/-- What opens a raw string: its letters, some number signs and a quote. -/
def rawOpener (bytesOnly : Bool) (n : Nat) : List Char :=
  (if bytesOnly then ['b', 'r'] else ['r']) ++ List.replicate n '#' ++ ['"']

/-- What closes a raw string: a quote and as many number signs. -/
def rawCloser (n : Nat) : List Char := '"' :: List.replicate n '#'

/-- The kind of a raw string. -/
def rawKind (bytesOnly : Bool) : Kind := if bytesOnly then .rawByteString else .rawString

/-- `body` is what stands before the first closing mark. -/
def IsFirst (n : Nat) (body cs : List Char) : Prop :=
  body ++ rawCloser n <+: cs ∧ ∀ body', body' ++ rawCloser n <+: cs → body.length ≤ body'.length

/-- There is a return that no line feed follows. -/
def HoldsBareReturn (body : List Char) : Prop :=
  ∃ pre post, body = pre ++ '\r' :: post ∧ post.head? ≠ some '\n'

theorem hasBareReturn_iff {body : List Char} : hasBareReturn body = true ↔ HoldsBareReturn body := by
  induction body with
  | nil => simp [hasBareReturn, HoldsBareReturn]
  | cons c cs ih =>
    rw [hasBareReturn, Bool.or_eq_true, ih]
    simp only [Bool.and_eq_true, decide_eq_true_eq, bne_iff_ne]
    constructor
    · rintro (⟨rfl, hfeed⟩ | ⟨pre, post, rfl, hfeed⟩)
      · exact ⟨[], cs, rfl, hfeed⟩
      · exact ⟨c :: pre, post, rfl, hfeed⟩
    · rintro ⟨pre, post, hcs, hfeed⟩
      cases pre with
      | nil =>
        obtain ⟨rfl, rfl⟩ := List.cons_eq_cons.mp hcs
        exact .inl ⟨rfl, hfeed⟩
      | cons d pre =>
        obtain ⟨rfl, rfl⟩ := List.cons_eq_cons.mp hcs
        exact .inr ⟨pre, post, rfl, hfeed⟩

variable {n : Nat} {body body' cs : List Char}

/-- There is one body before the first closing mark. -/
theorem IsFirst.unique (h : IsFirst n body cs) (h' : IsFirst n body' cs) : body = body' := by
  have hlength := Nat.le_antisymm (h.2 _ h'.1) (h'.2 _ h.1)
  have hbody : body <+: cs := (List.prefix_append ..).trans h.1
  have hbody' : body' <+: cs := (List.prefix_append ..).trans h'.1
  exact (List.prefix_of_prefix_length_le hbody hbody' (Nat.le_of_eq hlength)).eq_of_length hlength

/-- The first occurrence that a search finds. -/
theorem IsFirst.of_splitAtFirst? {after : List Char}
    (h : splitAtFirst? (rawCloser n) cs = some (body, after)) : IsFirst n body cs := by
  rcases splitAtFirst?_cases (rawCloser n) cs with ⟨hnone, -⟩ | ⟨_, _, hsome, hcs, hfirst⟩
  · cases hnone.symm.trans h
  · cases hsome.symm.trans h
    exact ⟨⟨after, hcs.symm⟩, hfirst⟩

/-- The closing mark does not stand in the body. -/
theorem IsFirst.not_infix (h : IsFirst n body cs) : ¬ rawCloser n <:+: body := by
  rintro ⟨pre, post, hbody⟩
  have hpre : pre ++ rawCloser n <+: cs := by
    refine .trans ⟨post ++ rawCloser n, ?_⟩ h.1
    rw [← List.append_assoc, hbody]
  have hle := h.2 pre hpre
  rw [← hbody, List.length_append, List.length_append, rawCloser, List.length_cons] at hle
  omega

/-- **The four ways a raw string goes.** -/
inductive RawEnds (bytesOnly : Bool) (n : Nat) (cs : List Char) : Except LexFault Nat → Prop where
  | unterminated : ¬ rawCloser n <:+: cs → RawEnds bytesOnly n cs (.error .unterminatedRawString)
  | nonAscii {body : List Char} : IsFirst n body cs → bytesOnly = true →
    (∃ c ∈ body, isAscii c = false) → RawEnds bytesOnly n cs (.error .nonAscii)
  | bareReturn {body : List Char} : IsFirst n body cs →
    (bytesOnly = true → ∀ c ∈ body, isAscii c = true) → HoldsBareReturn body →
    RawEnds bytesOnly n cs (.error .controlCharacter)
  | closed {body : List Char} : IsFirst n body cs →
    (bytesOnly = true → ∀ c ∈ body, isAscii c = true) → ¬ HoldsBareReturn body →
    RawEnds bytesOnly n cs (.ok (body ++ rawCloser n).length)

theorem IsFirst.infix (h : IsFirst n body cs) : rawCloser n <:+: cs :=
  (List.suffix_append ..).isInfix.trans h.1.isInfix

/-- They exclude each other. -/
theorem RawEnds.unique {bytesOnly : Bool} {r r' : Except LexFault Nat}
    (h : RawEnds bytesOnly n cs r) (h' : RawEnds bytesOnly n cs r') : r = r' := by
  -- the first closing mark is one, so the two are about the same body
  have hwide : ∀ {body body' : List Char}, IsFirst n body cs → IsFirst n body' cs →
      bytesOnly = true → (∃ c ∈ body, isAscii c = false) →
        ¬ (bytesOnly = true → ∀ c ∈ body', isAscii c = true) := by
    rintro body body' hbody hbody' hbytes ⟨c, hc, hascii⟩ hplain
    rw [hbody.unique hbody'] at hc
    rw [hplain hbytes c hc] at hascii
    cases hascii
  cases h with
  | unterminated hnot =>
    cases h' with
    | unterminated _ => rfl
    | nonAscii hbody _ _ => exact absurd hbody.infix hnot
    | bareReturn hbody _ _ => exact absurd hbody.infix hnot
    | closed hbody _ _ => exact absurd hbody.infix hnot
  | nonAscii hbody hbytes hascii =>
    cases h' with
    | unterminated hnot => exact absurd hbody.infix hnot
    | nonAscii _ _ _ => rfl
    | bareReturn hbody' hplain _ => exact absurd hplain (hwide hbody hbody' hbytes hascii)
    | closed hbody' hplain _ => exact absurd hplain (hwide hbody hbody' hbytes hascii)
  | bareReturn hbody hplain hreturn =>
    cases h' with
    | unterminated hnot => exact absurd hbody.infix hnot
    | nonAscii hbody' hbytes hascii => exact absurd hplain (hwide hbody' hbody hbytes hascii)
    | bareReturn _ _ _ => rfl
    | closed hbody' _ hnot => exact absurd (hbody.unique hbody' ▸ hreturn) hnot
  | closed hbody hplain hnot =>
    cases h' with
    | unterminated hnone => exact absurd hbody.infix hnone
    | nonAscii hbody' hbytes hascii => exact absurd hplain (hwide hbody' hbody hbytes hascii)
    | bareReturn hbody' _ hreturn => exact absurd (hbody'.unique hbody ▸ hreturn) hnot
    | closed hbody' _ _ => rw [hbody.unique hbody']

/-- A raw string goes one of the four ways. -/
theorem rawEnds_rawStringSize (bytesOnly : Bool) (n : Nat) (cs : List Char) :
    RawEnds bytesOnly n cs (rawStringSize bytesOnly n cs) := by
  rw [rawStringSize]
  rcases splitAtFirst?_cases (rawCloser n) cs with
    ⟨hnone, hnot⟩ | ⟨body, after, hsome, -, -⟩
  · rw [show splitAtFirst? ('"' :: List.replicate n '#') cs = none from hnone]
    exact .unterminated hnot
  · rw [show splitAtFirst? ('"' :: List.replicate n '#') cs = some (body, after) from hsome]
    have hbody : IsFirst n body cs := .of_splitAtFirst? hsome
    dsimp only
    by_cases hwide : bytesOnly = true ∧ ∃ c ∈ body, isAscii c = false
    · rw [if_pos (by simpa using hwide)]
      exact .nonAscii hbody hwide.1 hwide.2
    · have hplain : bytesOnly = true → ∀ c ∈ body, isAscii c = true := by
        intro hbytes c hc
        exact eq_true_of_ne_false fun hascii => hwide ⟨hbytes, c, hc, hascii⟩
      rw [if_neg (by simpa using hwide)]
      split
      · next hreturn => exact .bareReturn hbody hplain (hasBareReturn_iff.mp hreturn)
      · next hreturn =>
        have hlength : body.length + 1 + n = (body ++ rawCloser n).length := by
          rw [List.length_append, rawCloser, List.length_cons, List.length_replicate]
          omega
        rw [hlength]
        exact .closed hbody hplain (mt hasBareReturn_iff.mpr hreturn)

/-- The size of a raw string, or its fault, is the one of the way it goes. -/
theorem rawStringSize_eq_iff {bytesOnly : Bool} {r : Except LexFault Nat} :
    rawStringSize bytesOnly n cs = r ↔ RawEnds bytesOnly n cs r := by
  constructor
  · rintro rfl
    exact rawEnds_rawStringSize bytesOnly n cs
  · exact (rawEnds_rawStringSize bytesOnly n cs).unique

/-! ## The lexeme -/

/-- Behind an opening mark, the body of a raw string is read. -/
theorem scanRawString?_opener (kind : Kind) (bytesOnly : Bool) (opening n : Nat) (cs : List Char) :
    scanRawString? kind bytesOnly opening (List.replicate n '#' ++ '"' :: cs) =
      some (.literal (opening + n + 1)
        ((rawStringSize bytesOnly n cs).map fun k => (kind, k))) := by
  have hsigns : ((List.replicate n '#' ++ '"' :: cs).takeWhile (· = '#')).length = n := by
    rw [List.takeWhile_append_of_pos fun c hc => by simp [List.eq_of_mem_replicate hc]]
    simp
  have hquote : (List.replicate n '#' ++ '"' :: cs).drop n = '"' :: cs := by
    rw [List.drop_append_of_le_length (by simp), List.drop_eq_nil_of_le (by simp),
      List.nil_append]
  simp only [scanRawString?, hsigns, hquote]

theorem exists_scan_opener (before : List Char) (bytesOnly : Bool) (n : Nat) (cs : List Char) :
    ∃ c rest, rawOpener bytesOnly n ++ cs = c :: rest ∧ scan before c rest =
      .literal ((rawOpener bytesOnly n).length - 1)
        ((rawStringSize bytesOnly n cs).map fun k => (rawKind bytesOnly, k)) := by
  cases bytesOnly with
  | false =>
    refine ⟨'r', List.replicate n '#' ++ '"' :: cs, by simp [rawOpener], ?_⟩
    have hscan : scan before 'r' (List.replicate n '#' ++ '"' :: cs) =
        scanR (List.replicate n '#' ++ '"' :: cs) := by simp [scan, isSpace]
    rw [hscan]
    unfold scanR
    rw [scanRawString?_opener]
    simp [rawOpener, rawKind]
  | true =>
    refine ⟨'b', 'r' :: (List.replicate n '#' ++ '"' :: cs), by simp [rawOpener], ?_⟩
    have hscan : scan before 'b' ('r' :: (List.replicate n '#' ++ '"' :: cs)) =
        scanB ('r' :: (List.replicate n '#' ++ '"' :: cs)) := by simp [scan, isSpace]
    rw [hscan]
    simp only [scanB, scanRawString?_opener]
    simp [rawOpener, rawKind, Nat.add_comm]

/-- The item of a raw string with a size or a fault. -/
def rawItem (bytesOnly : Bool) (n start : Nat) (tail : List Char) : Except LexFault Nat → Item
  | .ok k => .ok ⟨rawKind bytesOnly, rawOpener bytesOnly n ++ tail.take k, start⟩
  | .error f => .error (f, start)

/-- Where an opening mark stands, the item is that of a raw string. -/
theorem Reaches.exists_rawItem {text pre tail : List Char} {bytesOnly : Bool}
    (h : Reaches text pre (rawOpener bytesOnly n ++ tail)) : ∃ done more, items text = done ++
      rawItem bytesOnly n (Text.byteSize pre) tail (rawStringSize bytesOnly n tail) :: more := by
  obtain ⟨c, rest, htext, hscan⟩ :=
    exists_scan_opener (seenBehind text pre) bytesOnly n tail
  rw [htext] at h
  obtain ⟨done, more, hitems⟩ := h.exists_items
  refine ⟨done, more, ?_⟩
  rw [hitems, itemAt, hscan]
  cases hsize : rawStringSize bytesOnly n tail with
  | error f => rfl
  | ok k =>
    have hpos : 0 < (rawOpener bytesOnly n).length := List.length_pos_iff.mpr (by simp [rawOpener])
    have htake : c :: rest.take ((rawOpener bytesOnly n).length - 1 + k) =
        rawOpener bytesOnly n ++ tail.take k := by
      rw [← List.take_succ_cons, ← htext, Nat.add_right_comm, Nat.sub_add_cancel hpos,
        List.take_length_add_append]
    simp only [Except.map, Reading.literal, Reading.ok, rawItem, htake]

/-- **A raw string ends at its first closing mark.**  Where the reading of a text comes to letters,
number signs and a quote, the item is a lexeme just when a closing mark is behind them, no return
without a line feed is before the first one and, in a byte string, no character beyond ASCII; then
it ends with the first one, which its body does not hold.  It is the fault that says what is wrong
just when that is wrong. -/
theorem raw_strings_end {text pre tail : List Char} {bytesOnly : Bool}
    (h : Reaches text pre (rawOpener bytesOnly n ++ tail)) :
    ∃ done item more, items text = done ++ item :: more ∧
      (∀ l, item = .ok l ↔ ∃ body, IsFirst n body tail ∧
        (bytesOnly = true → ∀ c ∈ body, isAscii c = true) ∧ ¬ HoldsBareReturn body ∧
        l = ⟨rawKind bytesOnly, rawOpener bytesOnly n ++ body ++ rawCloser n,
          Text.byteSize pre⟩) ∧
      (∀ body, IsFirst n body tail → ¬ rawCloser n <:+: body) ∧
      (item = .error (.unterminatedRawString, Text.byteSize pre) ↔ ¬ rawCloser n <:+: tail) ∧
      (item = .error (.nonAscii, Text.byteSize pre) ↔ ∃ body, IsFirst n body tail ∧
        bytesOnly = true ∧ ∃ c ∈ body, isAscii c = false) ∧
      (item = .error (.controlCharacter, Text.byteSize pre) ↔ ∃ body, IsFirst n body tail ∧
        (bytesOnly = true → ∀ c ∈ body, isAscii c = true) ∧ HoldsBareReturn body) := by
  obtain ⟨done, more, hitems⟩ := h.exists_rawItem
  have hfault : ∀ f, rawItem bytesOnly n (Text.byteSize pre) tail (rawStringSize bytesOnly n tail) =
      .error (f, Text.byteSize pre) ↔ RawEnds bytesOnly n tail (.error f) := by
    intro f
    rw [← rawStringSize_eq_iff]
    cases rawStringSize bytesOnly n tail <;> simp [rawItem]
  refine ⟨done, _, more, hitems, fun l => ⟨?_, ?_⟩, fun body hbody => hbody.not_infix, ?_, ?_, ?_⟩
  · intro hl
    have hends := rawEnds_rawStringSize bytesOnly n tail
    generalize rawStringSize bytesOnly n tail = size at hl hends
    cases hends with
    | @closed body hbody hplain hreturn =>
      have htake := List.prefix_iff_eq_take.mp hbody.1
      refine ⟨body, hbody, hplain, hreturn, ?_⟩
      rw [List.append_assoc, htake]
      exact (Except.ok.inj hl).symm
    | unterminated _ => cases hl
    | nonAscii _ _ _ => cases hl
    | bareReturn _ _ _ => cases hl
  · rintro ⟨body, hbody, hplain, hreturn, rfl⟩
    rw [rawStringSize_eq_iff.mpr (.closed hbody hplain hreturn), rawItem,
      ← List.prefix_iff_eq_take.mp hbody.1, List.append_assoc]
  · rw [hfault]
    refine ⟨fun hends => ?_, .unterminated⟩
    cases hends with
    | unterminated hnot => exact hnot
  · rw [hfault]
    refine ⟨fun hends => ?_, ?_⟩
    · cases hends with
      | nonAscii hbody hbytes hascii => exact ⟨_, hbody, hbytes, hascii⟩
    · rintro ⟨body, hbody, hbytes, hascii⟩
      exact .nonAscii hbody hbytes hascii
  · rw [hfault]
    refine ⟨fun hends => ?_, ?_⟩
    · cases hends with
      | bareReturn hbody hplain hreturn => exact ⟨_, hbody, hplain, hreturn⟩
    · rintro ⟨body, hbody, hplain, hreturn⟩
      exact .bareReturn hbody hplain hreturn

/-- A name, and behind a space a raw string that holds a quote and one number sign too few. -/
def crowdedRawText : List Char := "x br##\"\"#\"##;".toList

/-- The condition can be met, not only at the start of a text. -/
theorem raw_strings_end_crowded :
    Reaches crowdedRawText ['x', ' '] (rawOpener true 2 ++ "\"#\"##;".toList) ∧
    ∃ done more, items crowdedRawText =
      done ++ .ok ⟨.rawByteString, "br##\"\"#\"##".toList, 2⟩ :: more := by
  have hstart : Reaches crowdedRawText [] ('x' :: ' ' :: "br##\"\"#\"##;".toList) := .start
  have hplace : Reaches crowdedRawText ['x', ' '] (rawOpener true 2 ++ "\"#\"##;".toList) :=
    hstart.step.step
  refine ⟨hplace, ?_⟩
  obtain ⟨done, item, more, hitems, hok, -⟩ := raw_strings_end hplace
  have hsplit : splitAtFirst? (rawCloser 2) "\"#\"##;".toList = some (['"', '#'], [';']) := rfl
  have hfirst : IsFirst 2 ['"', '#'] "\"#\"##;".toList := .of_splitAtFirst? hsplit
  have hitem := (hok ⟨.rawByteString, "br##\"\"#\"##".toList, 2⟩).mpr
    ⟨['"', '#'], hfirst, fun _ => List.all_eq_true.mp rfl, mt hasBareReturn_iff.mpr (by decide), rfl⟩
  exact ⟨done, more, hitem ▸ hitems⟩

end Lexeme
end Packrat
