/-
# Places go forward

A terminal that matches leaves a later place, or the same one if it is nullable.  That needs
a look at the offsets inside a token, which count in 8 bits: a token that is cut must not
have more than 255 bytes, or the place behind a piece might be an earlier one.

| place | is one that a run can be at when |
| --- | --- |
| between tokens | always; if the run is bounded, no more than all tokens are before it |
| inside a token | the token has so many bytes, and 255 at most |

A run is *bounded* when no term of its grammar reads the end of the text as a token: then
it stays within the tokens (`Machine.IsPlace`).
-/

import Packrat.Proofs.Peg.Plainly
import Packrat.Proofs.Peg.Terminal
import Packrat.Proofs.Text.Measure

namespace Packrat

/-- No kind is spelled with nothing. -/
theorem Kind.spelling_ne_empty {kind : Kind} {spelling : String}
    (h : kind.spelling? = some spelling) : spelling ≠ "" := by
  obtain ⟨entry, hfind, rfl⟩ := Option.map_eq_some_iff.mp h
  have hmem := List.mem_of_find?_eq_some hfind
  have hall : ∀ entry ∈ strictKeywords ++ reservedKeywords ++ punctuators, entry.1 ≠ "" := by
    decide
  exact hall entry hmem

namespace Peg
namespace Pos

/-- Places in a row: 256 to a token. -/
def ordinal (p : Pos) : Nat := 256 * p.index + p.offset.toNat

variable {p q r : Pos}

theorem lt_iff_ordinal : p < q ↔ p.ordinal < q.ordinal := by
  have hp := p.offset.toNat_lt
  have hq := q.offset.toNat_lt
  change p.index < q.index ∨ p.index = q.index ∧ p.offset < q.offset ↔ _
  rw [UInt8.lt_iff_toNat_lt, ordinal, ordinal]
  omega

theorem lt_irrefl (p : Pos) : ¬ p < p := by
  rw [lt_iff_ordinal]
  exact Nat.lt_irrefl _

theorem lt_trans (h : p < q) (h' : q < r) : p < r := by
  rw [lt_iff_ordinal] at *
  exact Nat.lt_trans h h'

/-- Nothing lies before the beginning. -/
theorem not_lt_start {p : Pos} : ¬ p < {} := by
  rintro (h | ⟨-, h⟩)
  · exact Nat.not_lt_zero _ h
  · exact UInt8.not_lt_zero h

/-- Of two places one is before the other. -/
theorem lt_of_not_lt (h : ¬ q < p) (hne : q ≠ p) : p < q := by
  rw [lt_iff_ordinal] at *
  have hordinal : q.ordinal ≠ p.ordinal := by
    intro heq
    have hp := p.offset.toNat_lt
    have hq := q.offset.toNat_lt
    simp only [ordinal] at heq
    have hindex : q.index = p.index := by omega
    have hoffset : q.offset = p.offset := UInt8.toNat_inj.mp (by omega)
    exact hne (by cases p; cases q; simp_all)
  omega

/-- From one place to another: forward, or nowhere if it may stay. -/
def Advances (p q : Pos) (mayStay : Bool) : Prop := p < q ∨ q = p ∧ mayStay = true

theorem Advances.trans {a b : Bool} (h : p.Advances q a) (h' : q.Advances r b) :
    p.Advances r (a && b) := by
  rcases h with hlt | ⟨rfl, rfl⟩ <;> rcases h' with hlt' | ⟨rfl, rfl⟩
  · exact .inl (lt_trans hlt hlt')
  · exact .inl hlt
  · exact .inl hlt'
  · exact .inr ⟨rfl, rfl⟩

theorem Advances.imp {a b : Bool} (h : p.Advances q a) (hab : a = true → b = true) :
    p.Advances q b :=
  h.imp_right fun ⟨heq, ha⟩ => ⟨heq, hab ha⟩

end Pos

/-- A part of a term with which runs stay within the tokens and end: it does not read the
end of the text as a token, each round of a fold without a limit reads something, and the
rules that are referred to are there. -/
def Grammar.isSteady (g : Grammar) : Term → Bool
  | .token kind | .split kind => kind ≠ .eof
  | .ref r => (g.resolve? r).all (· < g.rules.size)
  | .fold _ tails none => tails.all fun tail => !tail.2.nullable g.isNullable
  | _ => true

namespace Machine

variable (m : Machine)

/-- Tokens that begin with the spelling of a kind are short enough to count their bytes. -/
def CutsShort (kind : Kind) : Prop :=
  ∀ spelling, kind.spelling? = some spelling → ∀ (i : Nat) (t : Symbol), m.tokens[i]? = some t →
    spelling.toList <+: t.text.toList → t.text.utf8ByteSize ≤ 255

/-- What is asked of a part of a term: it cuts short tokens only, and if runs are to be
bounded, it is steady. -/
structure Allows (bounded : Prop) (t : Term) : Prop where
  short : ∀ kind, t = .split kind → m.CutsShort kind
  steady : bounded → m.grammar.isSteady t = true

/-- A run can be at the place. -/
structure IsPlace (bounded : Prop) (pos : Pos) : Prop where
  inside : pos.isSplit = true → ∃ t, m.tokens[pos.index]? = some t ∧
    pos.offset.toNat < t.text.utf8ByteSize ∧ t.text.utf8ByteSize ≤ 255
  within : bounded → pos.index ≤ m.tokens.size

variable {m} {bounded : Prop} {pos stop : Pos} {kind : Kind} {spelling : String}
  {ns : List Match}

theorem isPlace_start : m.IsPlace bounded {} :=
  ⟨fun h => by simp [Pos.isSplit] at h, fun _ => Nat.zero_le _⟩

/-- A place of a run is not lost. -/
theorem IsPlace.not_isLost (h : m.IsPlace bounded pos) : ¬ m.IsLost pos := by
  rintro ⟨hsplit, hnone⟩
  obtain ⟨t, ht, -⟩ := h.inside hsplit
  rw [ht] at hnone
  cases hnone

/-- The places of a bounded run are before the end of the last token. -/
theorem IsPlace.ordinal_le (h : m.IsPlace bounded pos) (hb : bounded) :
    pos.ordinal ≤ 256 * m.tokens.size := by
  have hle := h.within hb
  have hoffset := pos.offset.toNat_lt
  rw [Pos.ordinal]
  by_cases hsplit : pos.isSplit = true
  · obtain ⟨t, ht, -⟩ := h.inside hsplit
    have hlt := (Array.getElem?_eq_some_iff.mp ht).1
    omega
  · have hzero : pos.offset = 0 := by simpa [Pos.isSplit] using hsplit
    simp only [hzero, UInt8.toNat_zero]
    omega

/-- Behind the last token there is only the end of the text. -/
theorem index_lt_of_kindAt_ne (h : m.kindAt pos ≠ .eof) : pos.index < m.tokens.size := by
  refine Nat.lt_of_not_le fun hout => h ?_
  simp [kindAt, Array.getElem?_eq_none hout]

/-- A leaf is read up to the next token. -/
theorem leafAt_advances (hlive : bounded → m.kindAt pos ≠ .eof)
    (h : some (m.leafAt pos kind) = some (ns, stop)) (mayStay : Bool) :
    pos.Advances stop mayStay ∧ m.IsPlace bounded stop := by
  cases h
  refine ⟨.inl (.inl (Nat.lt_succ_self _)), ⟨fun h => by simp [Pos.isSplit] at h, fun hb => ?_⟩⟩
  exact index_lt_of_kindAt_ne (hlive hb)

/-- What is at a place is the token, or what follows the first bytes of it. -/
theorem textAt_eq {t : Symbol} (ht : m.tokens[pos.index]? = some t)
    (hne : (m.textAt pos).utf8ByteSize ≠ 0) :
    ∃ pre, t.text.toList = pre ++ (m.textAt pos).toList ∧
      Text.byteSize pre = pos.offset.toNat := by
  simp only [textAt, ht] at hne ⊢
  split at hne
  · next hsplit =>
    rw [if_pos hsplit]
    cases hdrop : Text.dropBytes? pos.offset.toNat t.text.toList with
    | none => simp [hdrop] at hne
    | some rest =>
      obtain ⟨pre, hpre, hsize⟩ := Text.dropBytes?_eq_some_iff.mp hdrop
      exact ⟨pre, by simpa using hpre, hsize⟩
  · next hsplit =>
    have hzero : pos.offset = 0 := by simpa [Pos.isSplit] using hsplit
    exact ⟨[], by simp [hsplit], by simp [hzero, Text.byteSize]⟩

/-- A spelling stands only at a place that has a token. -/
theorem BeginsWith.exists_token (h : m.BeginsWith pos spelling) :
    ∃ t, m.tokens[pos.index]? = some t := by
  cases ht : m.tokens[pos.index]? with
  | none =>
    have hlt := h.1
    simp [textAt, ht] at hlt
  | some t => exact ⟨t, rfl⟩

/-- A piece that is cut off a token of at most 255 bytes leaves a later place in it. -/
theorem lt_pieceAt {t : Symbol} (ht : m.tokens[pos.index]? = some t)
    (hbytes : t.text.utf8ByteSize ≤ 255) (hspell : kind.spelling? = some spelling)
    (hbegins : m.BeginsWith pos spelling) :
    pos < (pieceAt pos kind spelling).2 ∧
      (pieceAt pos kind spelling).2.offset.toNat < t.text.utf8ByteSize := by
  obtain ⟨hlt, -⟩ := hbegins
  have hpos : 0 < spelling.utf8ByteSize :=
    Nat.pos_of_ne_zero fun hzero =>
      Kind.spelling_ne_empty hspell (String.utf8ByteSize_eq_zero_iff.mp hzero)
  obtain ⟨pre, htext, hpre⟩ := textAt_eq ht (by omega)
  have hsize : t.text.utf8ByteSize = pos.offset.toNat + (m.textAt pos).utf8ByteSize := by
    rw [← Text.byteSize_toList, htext, Text.byteSize_append, hpre, Text.byteSize_toList]
  have hstop : (pos.offset + UInt8.ofNat spelling.utf8ByteSize).toNat =
      pos.offset.toNat + spelling.utf8ByteSize := by
    rw [UInt8.toNat_add, UInt8.toNat_ofNat', Nat.add_mod_mod, Nat.mod_eq_of_lt (by omega)]
  refine ⟨.inr ⟨rfl, ?_⟩, ?_⟩
  · rw [UInt8.lt_iff_toNat_lt, pieceAt, hstop]
    omega
  · rw [pieceAt, hstop]
    omega

/-- A piece that is cut off leaves a later place in the same token. -/
theorem pieceAt_advances (hplace : m.IsPlace bounded pos) (hshort : m.CutsShort kind)
    (hspell : kind.spelling? = some spelling) (hbegins : m.BeginsWith pos spelling)
    (h : some (pieceAt pos kind spelling) = some (ns, stop)) (mayStay : Bool) :
    pos.Advances stop mayStay ∧ m.IsPlace bounded stop := by
  obtain ⟨t, ht⟩ := hbegins.exists_token
  -- the token is known to be short because it was cut before, or because it may be cut now
  have hbytes : t.text.utf8ByteSize ≤ 255 := by
    by_cases hsplit : pos.isSplit = true
    · obtain ⟨t', ht', -, hle⟩ := hplace.inside hsplit
      rw [ht] at ht'
      cases ht'
      exact hle
    · refine hshort spelling hspell _ t ht ?_
      have hwhole : m.textAt pos = t.text := by simp [textAt, ht, hsplit]
      rw [← hwhole]
      exact List.isPrefixOf_iff_prefix.mp hbegins.2
  obtain ⟨hlater, hinside⟩ := lt_pieceAt ht hbytes hspell hbegins
  obtain rfl : (pieceAt pos kind spelling).2 = stop := congrArg Prod.snd (Option.some.inj h)
  exact ⟨.inl hlater, ⟨fun _ => ⟨t, ht, hinside, hbytes⟩, hplace.within⟩⟩

/-- **A terminal goes forward.**  Only the term for the end of the text, which is nullable,
leaves the place where it began. -/
theorem read?_advances {t : Term} (hplace : m.IsPlace bounded pos) (hallows : m.Allows bounded t)
    (h : m.read? pos t = some (ns, stop)) (null : RuleRef → Bool) :
    pos.Advances stop (t.nullable null) ∧ m.IsPlace bounded stop := by
  cases t with
  | token kind =>
    simp only [read?] at h
    split_ifs at h with hkind
    refine leafAt_advances (fun hb => ?_) h _
    simpa [Grammar.isSteady, hkind] using hallows.steady hb
  | split kind =>
    simp only [read?] at h
    split_ifs at h with hkind
    · refine leafAt_advances (fun hb => ?_) h _
      simpa [Grammar.isSteady, hkind] using hallows.steady hb
    · obtain ⟨spelling, hspell, hcut⟩ := Option.bind_eq_some_iff.mp h
      split_ifs at hcut with hbegins
      exact pieceAt_advances hplace (hallows.short kind rfl) hspell hbegins hcut _
  | word text =>
    simp only [read?] at h
    split_ifs at h with hword
    exact leafAt_advances (fun _ => by simp [hword.1]) h _
  | any =>
    simp only [read?] at h
    split_ifs at h with hkind
    exact leafAt_advances (fun _ => by simp_all) h _
  | ended =>
    simp only [read?] at h
    split_ifs at h
    cases h
    exact ⟨.inr ⟨rfl, rfl⟩, hplace⟩
  | _ => cases h

end Machine
end Peg
end Packrat
