/-
# Decoding inverts encoding

`Encoding.decode` turns bytes into text.  Against what it is measured here does not decode: a
text is laid out as UTF-8 by `List.utf8Encode`, and bytes are well-formed when some text lies
there (`ByteArray.IsValidUTF8`).

* A UTF-8 buffer is read as a text exactly if the bytes behind its mark are that text, and an
  error stands where the longest well-formed beginning of the buffer ends.
* A Latin-1 buffer is read byte by byte, on the fast path for ASCII as well.

Both are one theorem (`Encoding.decoding_inverts_encoding`).  The UTF-8 half follows the scan
`utf8From`: what it has passed is the text that it has collected, and where it gives up, no
character lies at all, however far one looks.
-/

import Mathlib
import Packrat.Text.Encoding

namespace Packrat
namespace Encoding

variable {bytes rest : ByteArray} {text read : List Char} {i k : Nat}

/-- `bytes` without one leading byte order mark are `rest`. -/
inductive Unmarks : ByteArray → ByteArray → Prop
  | marked (rest : ByteArray) : Unmarks (mark.toByteArray ++ rest) rest
  | bare {bytes : ByteArray} (h : ∀ rest, bytes ≠ mark.toByteArray ++ rest) : Unmarks bytes bytes

/-- Behind one leading byte order mark, if there is one, lies a text in UTF-8. -/
def IsWellFormed (bytes : ByteArray) : Prop := ∃ rest, Unmarks bytes rest ∧ rest.IsValidUTF8

/-- Different texts are laid out differently. -/
theorem utf8Encode_injective : Function.Injective List.utf8Encode := by
  intro text text' h
  have hread := congrArg ByteArray.utf8Decode? h
  simpa [List.utf8Decode?_utf8Encode] using hread

theorem toList_loop (i : Nat) (r : List UInt8) :
    ByteArray.toList.loop bytes i r = r.reverse ++ bytes.data.toList.drop i := by
  fun_induction ByteArray.toList.loop bytes i r with
  | case1 i r hlt ih =>
    have hlen : i < bytes.data.toList.length := by simpa using hlt
    rw [ih, List.drop_eq_getElem_cons hlen]
    simp [ByteArray.get!, hlt]
  | case2 i r hle =>
    rw [List.drop_eq_nil_of_le (by simpa using Nat.le_of_not_lt hle), List.append_nil]

theorem toList_eq (bytes : ByteArray) : bytes.toList = bytes.data.toList := by
  simp [ByteArray.toList, toList_loop]

theorem toList_toByteArray (list : List UInt8) : list.toByteArray.toList = list := by
  rw [toList_eq, List.data_toByteArray]

theorem toByteArray_toList (bytes : ByteArray) : bytes.toList.toByteArray = bytes := by
  rw [toList_eq]
  exact ByteArray.ext List.data_toByteArray

/-! ### The scan -/

/-- A character that is read at a place lies there. -/
theorem extract_eq_utf8Encode {c : Char} (h : bytes.utf8DecodeChar? i = some c) :
    bytes.extract i (i + c.utf8Size) = [c].utf8Encode := by
  have hsome : (bytes.utf8DecodeChar? i).isSome := h ▸ rfl
  have hget : bytes.utf8DecodeChar i hsome = c := Option.get_of_eq_some hsome h
  have hlies : (String.utf8EncodeChar (bytes.utf8DecodeChar i hsome)).toByteArray = _ :=
    ByteArray.utf8EncodeChar_utf8DecodeChar
  rw [hget] at hlies
  rw [← hlies, List.utf8Encode_singleton]

/-- **What the scan reads**: it ends with the characters that lie between its place and the end
of the buffer, or at the first place where no character begins. -/
theorem utf8From_reads (bytes : ByteArray) (i : Nat) (read : List Char) (hle : i ≤ bytes.size) :
    (∃ cs : List Char, utf8From bytes i read = .ok (read.reverse ++ cs) ∧
      bytes.extract i bytes.size = cs.utf8Encode) ∨
    ∃ (k : Nat) (cs : List Char), utf8From bytes i read = .error k ∧ i ≤ k ∧ k < bytes.size ∧
      bytes.extract i k = cs.utf8Encode ∧ bytes.utf8DecodeChar? k = none := by
  fun_induction utf8From bytes i read with
  | case1 i read hlt c hc ih =>
    have hend := ByteArray.le_size_of_utf8DecodeChar?_eq_some hc
    have hfront : ∀ {k : Nat} {cs : List Char}, i + c.utf8Size ≤ k →
        bytes.extract (i + c.utf8Size) k = cs.utf8Encode →
        bytes.extract i k = (c :: cs).utf8Encode := by
      intro k cs hk hcs
      rw [ByteArray.extract_eq_extract_append_extract _ (Nat.le_add_right i c.utf8Size) hk, hcs,
        extract_eq_utf8Encode hc, ← List.utf8Encode_append]
      rfl
    obtain ⟨cs, hok, hcs⟩ | ⟨k, cs, herror, hik, hk, hcs, hnone⟩ := ih hend
    · exact .inl ⟨c :: cs, by simpa using hok, hfront hend hcs⟩
    · exact .inr ⟨k, c :: cs, herror, by omega, hk, hfront hik hcs, hnone⟩
  | case2 i read hlt hnone =>
    exact .inr ⟨i, [], rfl, Nat.le_refl i, hlt, by simp, hnone⟩
  | case3 i read hnot =>
    obtain rfl : i = bytes.size := by omega
    exact .inl ⟨[], by simp, by simp⟩

/-- Where no character begins, no text reaches further, whatever lies in front. -/
theorem not_isValidUTF8_extract {j : Nat} (hfront : bytes.extract i k = text.utf8Encode)
    (hnone : bytes.utf8DecodeChar? k = none) (hik : i ≤ k) (hkj : k < j) (hj : j ≤ bytes.size) :
    ¬ (bytes.extract i j).IsValidUTF8 := by
  rintro ⟨longer, hlonger⟩
  have hsplit : text.utf8Encode ++ bytes.extract k j = longer.utf8Encode := by
    rw [← hfront, ← hlonger, ← ByteArray.extract_eq_extract_append_extract k hik (Nat.le_of_lt hkj)]
  obtain ⟨behind, rfl⟩ := List.isPrefix_of_utf8Encode_append_eq_utf8Encode _ hsplit
  rw [List.utf8Encode_append, ByteArray.append_right_inj] at hsplit
  cases behind with
  | nil =>
    have hsize := congrArg ByteArray.size hsplit
    simp at hsize
    omega
  | cons c cs =>
    -- the character that the longer text has next lies at `k`
    have hread : (bytes.extract k j).utf8DecodeChar? 0 = some c := by
      rw [hsplit, List.utf8DecodeChar?_utf8Encode_cons]
    have hfound := ByteArray.utf8DecodeChar?_append_eq_some hread (bytes.extract j bytes.size)
    rw [← ByteArray.extract_eq_extract_append_extract j (Nat.le_of_lt hkj) hj,
      ← ByteArray.utf8DecodeChar?_eq_utf8DecodeChar?_extract, hnone] at hfound
    cases hfound

/-- A text that lies there is read. -/
theorem utf8From_of_utf8Encode (hle : i ≤ bytes.size)
    (h : bytes.extract i bytes.size = text.utf8Encode) :
    utf8From bytes i read = .ok (read.reverse ++ text) := by
  obtain ⟨cs, hok, hcs⟩ | ⟨k, cs, -, hik, hk, hcs, hnone⟩ := utf8From_reads bytes i read hle
  · rw [hok, utf8Encode_injective (hcs.symm.trans h)]
  · exact absurd ⟨text, h⟩ (not_isValidUTF8_extract hcs hnone hik hk (Nat.le_refl _))

/-! ### The mark -/

theorem size_mark : mark.toByteArray.size = 3 := rfl

/-- The mark is counted exactly if it is at the front. -/
theorem extract_markSize (bytes : ByteArray) :
    (markSize bytes = 3 ∧ 3 ≤ bytes.size ∧ bytes.extract 0 3 = mark.toByteArray) ∨
      (markSize bytes = 0 ∧ bytes.extract 0 3 ≠ mark.toByteArray) := by
  by_cases hmark : (bytes.extract 0 3).toList = mark
  · have heq : bytes.extract 0 3 = mark.toByteArray := by rw [← hmark, toByteArray_toList]
    have hsize := congrArg ByteArray.size heq
    rw [ByteArray.size_extract, size_mark] at hsize
    exact .inl ⟨if_pos hmark, by omega, heq⟩
  · refine .inr ⟨if_neg hmark, fun heq => hmark ?_⟩
    rw [heq, toList_toByteArray]

theorem markSize_le (bytes : ByteArray) : markSize bytes ≤ bytes.size := by
  rcases extract_markSize bytes with ⟨hsize, hle, -⟩ | ⟨hsize, -⟩ <;> omega

/-- The mark of a buffer is the mark of each of its beginnings that reaches behind it. -/
theorem unmarks_extract (hle : markSize bytes ≤ k) :
    Unmarks (bytes.extract 0 k) (bytes.extract (markSize bytes) k) := by
  rcases extract_markSize bytes with ⟨hsize, -, hmark⟩ | ⟨hsize, hmark⟩
  · rw [hsize] at hle ⊢
    rw [ByteArray.extract_eq_extract_append_extract 3 (Nat.zero_le 3) hle, hmark]
    exact .marked _
  · rw [hsize]
    refine .bare fun rest hrest => hmark ?_
    have hsize := congrArg ByteArray.size hrest
    have hfront := congrArg (ByteArray.extract · 0 3) hrest
    simp only [ByteArray.size_extract, ByteArray.size_append, size_mark] at hsize
    simpa [ByteArray.extract_extract, ByteArray.extract_append_eq_left size_mark.symm,
      show min 3 k = 3 by omega] using hfront

theorem Unmarks.unique {rest' : ByteArray} (h : Unmarks bytes rest) (h' : Unmarks bytes rest') :
    rest = rest' := by
  cases h with
  | marked =>
    generalize heq : mark.toByteArray ++ rest = whole at h'
    cases h' with
    | marked => exact (ByteArray.append_right_inj _).mp heq
    | bare hbare => exact absurd heq.symm (hbare rest)
  | bare hbare =>
    cases h' with
    | marked => exact absurd rfl (hbare rest')
    | bare => rfl
/-- **What decoding UTF-8 gives**: the text behind the mark, or the end of the longest text that
lies there. -/
theorem decode_utf8 (bytes : ByteArray) :
    (∃ text : List Char, decode .utf8 bytes = .ok text ∧
      bytes.extract (markSize bytes) bytes.size = text.utf8Encode) ∨
    ∃ (k : Nat) (cs : List Char), decode .utf8 bytes = .error ⟨.utf8, k⟩ ∧ markSize bytes ≤ k ∧
      k < bytes.size ∧ bytes.extract (markSize bytes) k = cs.utf8Encode ∧
      bytes.utf8DecodeChar? k = none := by
  obtain ⟨text, hok, htext⟩ | ⟨k, cs, herror, hread⟩ :=
    utf8From_reads bytes (markSize bytes) [] (markSize_le bytes)
  · exact .inl ⟨text, by rw [decode, hok]; rfl, htext⟩
  · exact .inr ⟨k, cs, by rw [decode, herror]; rfl, hread⟩

/-! ### Latin-1 -/

theorem toNat_latin1Char (byte : UInt8) : (latin1Char byte).toNat = byte.toNat := by
  have hvalid : byte.toNat.isValidChar := .inl (by have := byte.toNat_lt; omega)
  rw [latin1Char, Char.ofNat, dif_pos hvalid]
  rfl

/-- An ASCII character is laid out as the byte of its value. -/
theorem utf8EncodeChar_latin1Char {byte : UInt8} (h : byte < 128) :
    String.utf8EncodeChar (latin1Char byte) = [byte] := by
  have hval : (latin1Char byte).val.toNat = byte.toNat := toNat_latin1Char byte
  have hlt : byte.toNat < 128 := h
  rw [String.utf8EncodeChar.eq_1, if_pos (by omega), hval, UInt8.ofNat_toNat]

/-- An ASCII buffer is the text of its bytes. -/
theorem utf8Encode_latin1 (h : isAscii bytes) :
    (bytes.toList.map latin1Char).utf8Encode = bytes := by
  have hall : ∀ list : List UInt8, (∀ byte ∈ list, byte < 128) →
      (list.map latin1Char).flatMap String.utf8EncodeChar = list := by
    intro list
    induction list with
    | nil => exact fun _ => rfl
    | cons byte list ih =>
      intro hlist
      obtain ⟨hbyte, hlist⟩ := List.forall_mem_cons.mp hlist
      rw [List.map_cons, List.flatMap_cons, utf8EncodeChar_latin1Char hbyte, ih hlist]
      rfl
  rw [List.utf8Encode, hall _ (by simpa [isAscii] using h), toByteArray_toList]

/-- **Latin-1 is read byte by byte**, on the fast path for ASCII as well. -/
theorem decode_latin1 (bytes : ByteArray) :
    decode .latin1 bytes = .ok (bytes.toList.map latin1Char) := by
  rw [decode]
  split
  case isTrue hascii =>
    have hbytes : bytes.extract 0 bytes.size = (bytes.toList.map latin1Char).utf8Encode := by
      rw [utf8Encode_latin1 hascii, ByteArray.extract_zero_size]
    rw [utf8From_of_utf8Encode (Nat.zero_le _) hbytes]
    rfl
  case isFalse => rfl

/-- **Decoding inverts encoding and locates the first bad byte.**  A UTF-8 buffer is read as a
text exactly if that text lies behind its mark, so it is read at all exactly if it is well-formed.
Otherwise the reported offset lies in the buffer, what comes before it is well-formed and no
longer beginning of the buffer is.  Latin-1 gives one character for each byte, of the same
value. -/
theorem decoding_inverts_encoding (bytes : ByteArray) :
    (∀ text, decode .utf8 bytes = .ok text ↔ Unmarks bytes text.utf8Encode) ∧
    ((∃ text, decode .utf8 bytes = .ok text) ↔ IsWellFormed bytes) ∧
    (∀ e, decode .utf8 bytes = .error e → e.encoding = .utf8 ∧ e.offset < bytes.size ∧
      IsWellFormed (bytes.extract 0 e.offset) ∧
      ∀ k, e.offset < k → k ≤ bytes.size → ¬ IsWellFormed (bytes.extract 0 k)) ∧
    ∃ text, decode .latin1 bytes = .ok text ∧
      text.map Char.toNat = bytes.toList.map UInt8.toNat := by
  have hunmarks : Unmarks bytes (bytes.extract (markSize bytes) bytes.size) := by
    simpa using unmarks_extract (markSize_le bytes)
  have hiff : ∀ text, decode .utf8 bytes = .ok text ↔ Unmarks bytes text.utf8Encode := by
    intro text
    constructor
    · intro hok
      obtain ⟨text', hok', htext⟩ | ⟨k, cs, herror, -⟩ := decode_utf8 bytes
      · cases hok.symm.trans hok'
        rwa [htext] at hunmarks
      · cases hok.symm.trans herror
    · intro htext
      rw [decode, utf8From_of_utf8Encode (markSize_le bytes) (hunmarks.unique htext)]
      rfl
  refine ⟨hiff, ?_, ?_, bytes.toList.map latin1Char, decode_latin1 bytes, ?_⟩
  · constructor
    · rintro ⟨text, hok⟩
      exact ⟨_, (hiff text).mp hok, text, rfl⟩
    · rintro ⟨_, hrest, text, rfl⟩
      exact ⟨text, (hiff text).mpr hrest⟩
  · intro e he
    obtain ⟨text, hok, -⟩ | ⟨k, cs, herror, hmark, hk, hcs, hnone⟩ := decode_utf8 bytes
    · cases he.symm.trans hok
    · cases he.symm.trans herror
      refine ⟨rfl, hk, ⟨_, unmarks_extract hmark, cs, hcs⟩, ?_⟩
      rintro j hkj hj ⟨rest, hrest, hvalid⟩
      -- the longer beginning has the mark of the whole buffer
      have hmarkj := unmarks_extract (Nat.le_trans hmark (Nat.le_of_lt hkj))
      rw [hrest.unique hmarkj] at hvalid
      exact not_isValidUTF8_extract hcs hnone hmark hkj hj hvalid
  · rw [List.map_map]
    exact List.map_congr_left fun byte _ => toNat_latin1Char byte

/-- In `EF BB BF 61 62 FF` the last byte is the bad one. -/
theorem decoding_locates_bad_byte :
    decode .utf8 (ByteArray.mk #[0xEF, 0xBB, 0xBF, 0x61, 0x62, 0xFF]) = .error ⟨.utf8, 5⟩ ∧
      IsWellFormed (ByteArray.mk #[0xEF, 0xBB, 0xBF, 0x61, 0x62]) ∧
      ¬ IsWellFormed (ByteArray.mk #[0xEF, 0xBB, 0xBF, 0x61, 0x62, 0xFF]) := by
  have herror :
      decode .utf8 (ByteArray.mk #[0xEF, 0xBB, 0xBF, 0x61, 0x62, 0xFF]) = .error ⟨.utf8, 5⟩ := by
    cbv
  obtain ⟨-, -, hbad, -⟩ :=
    decoding_inverts_encoding (ByteArray.mk #[0xEF, 0xBB, 0xBF, 0x61, 0x62, 0xFF])
  obtain ⟨-, -, hfront, hno⟩ := hbad _ herror
  exact ⟨herror, hfront, hno 6 (by decide) (by decide)⟩

end Encoding
end Packrat
