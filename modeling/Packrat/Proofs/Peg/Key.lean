/-
# Keys as words

The word of a key holds the fields of the key side by side (`MemoKey.word`).  As a number it is the
sum of the fields, each times its weight (`MemoKey.toNat_word`):

| field | rule | token | offset | flags |
| --- | --- | --- | --- | --- |
| is less than | 2¹⁶ | 2³² | 2⁸ | 2⁸ |
| weighs | 2⁴⁸ | 2¹⁶ | 2⁸ | 1 |

A field weighs as much as the bounds of all fields behind it make together.  So every field is read
back from the word (`MemoKey.fields_word`), and no two keys have the same word
(`MemoKey.words_never_collide`).

Tables keep keys whole, and spread them by their words.  They might as well keep the words alone: as
long as the keys fit into their words, such a table tells the same of each key and is as large
(`Memo.IsKeptAs`), whatever is noted in it (`Memo.IsKeptAs.insertAll`).  The rules of an accepted
grammar fit, and so do the tokens of a text that has fewer than 2³² of them, so for these words are
enough (`Memo.isKeptAs_of_accepted`).
-/

import Packrat.Proofs.Peg.Link
import Packrat.Proofs.Peg.Lookup
import Packrat.Proofs.Peg.Tables

namespace Packrat
namespace Peg

/-- Bits tell the flags. -/
theorem Flags.bits_inj {flags flags' : Flags} (h : flags.bits = flags'.bits) : flags = flags' := by
  obtain ⟨noStruct, letAllowed⟩ := flags
  obtain ⟨noStruct', letAllowed'⟩ := flags'
  revert h noStruct letAllowed noStruct' letAllowed'
  decide

namespace MemoKey

/-! ## Words -/

/-- What fits below a field is added to it. -/
theorem mul_two_pow_or (field : Nat) {below width : Nat} (hbelow : below < 2 ^ width) :
    field * 2 ^ width ||| below = field * 2 ^ width + below := by
  rw [Nat.mul_comm, Nat.two_pow_add_eq_or_of_lt hbelow]

/-- Nothing is lost of a field that is shifted within the word. -/
theorem toNat_shiftLeft_of_lt {field shift : UInt64} (hshift : shift.toNat < 64)
    (hfield : field.toNat * 2 ^ shift.toNat < 2 ^ 64) :
    (field <<< shift).toNat = field.toNat * 2 ^ shift.toNat := by
  rw [UInt64.toNat_shiftLeft, Nat.mod_eq_of_lt hshift, Nat.shiftLeft_eq, Nat.mod_eq_of_lt hfield]

/-- **A word is the sum of its fields**, each times its weight. -/
theorem toNat_word (rule : UInt16) (index : UInt32) (offset flags : UInt8) :
    (word rule index offset flags).toNat =
      rule.toNat * 2 ^ 48 + (index.toNat * 2 ^ 16 + (offset.toNat * 2 ^ 8 + flags.toNat)) := by
  have hrule := rule.toNat_lt
  have hindex := index.toNat_lt
  have hoffset := offset.toNat_lt
  have hflags := flags.toNat_lt
  have hrule' : (rule.toUInt64 <<< 48).toNat = rule.toNat * 2 ^ 48 :=
    toNat_shiftLeft_of_lt (by decide) (by change rule.toNat * 2 ^ 48 < _; omega)
  have hindex' : (index.toUInt64 <<< 16).toNat = index.toNat * 2 ^ 16 :=
    toNat_shiftLeft_of_lt (by decide) (by change index.toNat * 2 ^ 16 < _; omega)
  have hoffset' : (offset.toUInt64 <<< 8).toNat = offset.toNat * 2 ^ 8 :=
    toNat_shiftLeft_of_lt (by decide) (by change offset.toNat * 2 ^ 8 < _; omega)
  -- from the last field on, so that each stands above the sum of those behind it
  calc (word rule index offset flags).toNat
      = rule.toNat * 2 ^ 48 |||
          (index.toNat * 2 ^ 16 ||| (offset.toNat * 2 ^ 8 ||| flags.toNat)) := by
        rw [word, UInt64.toNat_or, UInt64.toNat_or, UInt64.toNat_or, hrule', hindex', hoffset',
          UInt8.toNat_toUInt64, Nat.or_assoc, Nat.or_assoc]
    _ = rule.toNat * 2 ^ 48 |||
          (index.toNat * 2 ^ 16 ||| (offset.toNat * 2 ^ 8 + flags.toNat)) := by
        rw [mul_two_pow_or offset.toNat hflags]
    _ = rule.toNat * 2 ^ 48 |||
          (index.toNat * 2 ^ 16 + (offset.toNat * 2 ^ 8 + flags.toNat)) := by
        rw [mul_two_pow_or index.toNat (by omega)]
    _ = rule.toNat * 2 ^ 48 +
          (index.toNat * 2 ^ 16 + (offset.toNat * 2 ^ 8 + flags.toNat)) :=
        mul_two_pow_or rule.toNat (by omega)

/-- Behind the last key of a rule comes the first key of the next. -/
example : word 0 4294967295 255 255 + 1 = word 1 0 0 0 := by decide

/-- The fields that a word is made of. -/
def fields (w : UInt64) : UInt16 × UInt32 × UInt8 × UInt8 :=
  ((w >>> 48).toUInt16, (w >>> 16).toUInt32, (w >>> 8).toUInt8, w.toUInt8)

/-- **Every field is read back from the word.** -/
theorem fields_word (rule : UInt16) (index : UInt32) (offset flags : UInt8) :
    fields (word rule index offset flags) = (rule, index, offset, flags) := by
  have hword := toNat_word rule index offset flags
  have hrule := rule.toNat_lt
  have hindex := index.toNat_lt
  have hoffset := offset.toNat_lt
  have hflags := flags.toNat_lt
  -- shifting takes off what is below the field, and the field's own width what is above it
  simp only [fields, Prod.mk.injEq]
  refine ⟨UInt16.toNat_inj.mp ?_, UInt32.toNat_inj.mp ?_, UInt8.toNat_inj.mp ?_,
    UInt8.toNat_inj.mp ?_⟩
  · rw [UInt64.toNat_toUInt16, UInt64.toNat_shiftRight, Nat.shiftRight_eq_div_pow, hword]
    change _ / 2 ^ 48 % _ = _
    omega
  · rw [UInt64.toNat_toUInt32, UInt64.toNat_shiftRight, Nat.shiftRight_eq_div_pow, hword]
    change _ / 2 ^ 16 % _ = _
    omega
  · rw [UInt64.toNat_toUInt8, UInt64.toNat_shiftRight, Nat.shiftRight_eq_div_pow, hword]
    change _ / 2 ^ 8 % _ = _
    omega
  · rw [UInt64.toNat_toUInt8, hword]
    omega

/-- **No two keys have the same word**, whatever their rules, places and flags. -/
theorem words_never_collide (rule rule' : UInt16) (index index' : UInt32)
    (offset offset' flags flags' : UInt8) :
    word rule index offset flags = word rule' index' offset' flags' ↔
      rule = rule' ∧ index = index' ∧ offset = offset' ∧ flags = flags' := by
  constructor
  · intro h
    have hfields := congrArg fields h
    rw [fields_word, fields_word] at hfields
    simpa only [Prod.mk.injEq] using hfields
  · rintro ⟨rfl, rfl, rfl, rfl⟩
    rfl

/-! ## Keys that fit -/

/-- The rule and the token of a key fit into their fields. -/
structure Fits (k : MemoKey) : Prop where
  rule : k.rule < 2 ^ 16
  index : k.pos.index < 2 ^ 32

/-- The rules of an accepted grammar fit, and so do the tokens of a text with fewer than 2³². -/
theorem fits_of_accepted {rules : List Rule} {g : Grammar} (hg : Grammar.ofRules rules = .ok g)
    {k : MemoKey} (hrule : k.rule < g.rules.size) (hindex : k.pos.index < 2 ^ 32) : k.Fits := by
  obtain ⟨-, hfew, hlink, -⟩ := Grammar.ofRules_eq_ok hg
  obtain ⟨-, hlinked⟩ := (Grammar.linkRules_gives _ rules _).mp hlink
  have hsize : g.rules.size = rules.length := by
    rw [← Array.length_toList, hlinked, List.length_map]
  refine ⟨?_, hindex⟩
  calc k.rule < g.rules.size := hrule
    _ = rules.length := hsize
    _ ≤ Grammar.maxRules := hfew
    _ < 2 ^ 16 := by decide

/-- **Keys that fit are spread without a collision.** -/
theorem hash_inj {k k' : MemoKey} (h : k.Fits) (h' : k'.Fits) (heq : hash k = hash k') :
    k = k' := by
  obtain ⟨rule, ⟨index, offset⟩, flags⟩ := k
  obtain ⟨rule', ⟨index', offset'⟩, flags'⟩ := k'
  have hword : word (.ofNat rule) (.ofNat index) offset flags.bits =
      word (.ofNat rule') (.ofNat index') offset' flags'.bits := heq
  have hfields := congrArg fields hword
  rw [fields_word, fields_word] at hfields
  simp only [Prod.mk.injEq] at hfields
  obtain ⟨hrule, hindex, rfl, hflags⟩ := hfields
  obtain rfl : rule = rule' := by
    have hnat := congrArg UInt16.toNat hrule
    rwa [UInt16.toNat_ofNat_of_lt' h.rule, UInt16.toNat_ofNat_of_lt' h'.rule] at hnat
  obtain rfl : index = index' := by
    have hnat := congrArg UInt32.toNat hindex
    rwa [UInt32.toNat_ofNat_of_lt' h.index, UInt32.toNat_ofNat_of_lt' h'.index] at hnat
  obtain rfl : flags = flags' := Flags.bits_inj hflags
  rfl

end MemoKey

/-! ## Tables of words -/

namespace Memo

/-- What a table tells of keys that fit, another tells of their words, and it is as large. -/
structure IsKeptAs (memo : Memo) (words : Std.HashMap UInt64 MemoEntry) : Prop where
  get? : ∀ k : MemoKey, k.Fits → words[hash k]? = memo.get? k
  size : words.size = memo.size

theorem isKeptAs_reset (memo : Memo) : memo.reset.IsKeptAs {} where
  get? k _ := by
    rw [Std.HashMap.getElem?_empty]
    exact (get?_empty k).symm
  size := rfl

/-- Noting something of a key is noting it of the key's word. -/
theorem IsKeptAs.insert {memo : Memo} {words : Std.HashMap UInt64 MemoEntry}
    (h : memo.IsKeptAs words) {k : MemoKey} (hk : k.Fits) (e : MemoEntry) :
    (memo.insert k e).IsKeptAs (words.insert (hash k) e) where
  get? k' hk' := by
    have hsame : hash k = hash k' ↔ k = k' := ⟨MemoKey.hash_inj hk hk', congrArg hash⟩
    rw [get?_insert, Std.HashMap.getElem?_insert, h.get? k' hk']
    simp only [beq_iff_eq, hsame]
  size := by
    have hknown : hash k ∈ words ↔ (memo.get? k).isSome = true := by
      rw [Std.HashMap.mem_iff_isSome_getElem?, h.get? k hk]
    rw [size_insert, Std.HashMap.size_insert, h.size]
    simp only [hknown]

/-- Whatever is noted of keys that fit, one after the other, the table of their words goes on to tell
the same. -/
theorem IsKeptAs.insertAll (notes : List (MemoKey × MemoEntry)) :
    ∀ {memo : Memo} {words : Std.HashMap UInt64 MemoEntry}, memo.IsKeptAs words →
      (∀ note ∈ notes, note.1.Fits) →
      (notes.foldl (fun memo note => memo.insert note.1 note.2) memo).IsKeptAs
        (notes.foldl (fun words note => words.insert (hash note.1) note.2) words) := by
  induction notes with
  | nil => exact fun h _ => h
  | cons note notes ih =>
    intro memo words h hfits
    exact ih (h.insert (hfits note (by simp)) note.2) fun note' hmem => hfits note' (by simp [hmem])

/-- **A table may keep words in the place of keys.**  When it has been emptied, and whatever is noted
from there on of the rules of an accepted grammar at any of the first 2³² tokens, the table of the
words tells the same of every key that fits, and is as large. -/
theorem isKeptAs_of_accepted {rules : List Rule} {g : Grammar} (hg : Grammar.ofRules rules = .ok g)
    (memo : Memo) {notes : List (MemoKey × MemoEntry)}
    (hnotes : ∀ note ∈ notes, note.1.rule < g.rules.size ∧ note.1.pos.index < 2 ^ 32) :
    (notes.foldl (fun memo note => memo.insert note.1 note.2) memo.reset).IsKeptAs
      (notes.foldl (fun words note => words.insert (hash note.1) note.2) {}) := by
  refine (isKeptAs_reset memo).insertAll notes fun note hmem => ?_
  obtain ⟨hrule, hindex⟩ := hnotes note hmem
  exact MemoKey.fits_of_accepted hg hrule hindex

end Memo
end Peg
end Packrat
