/-
# Where a string ends

A string is read part by part: a part is one plain character, or a backslash and the escape behind
it (`Lexeme.Parts`).  At most one row of parts comes from a text before something that begins no
part (`Parts.unique`), so it does not matter how the reading goes about it, and what stands there
decides (`Lexeme.stringSize_closes`):

| behind the parts stands | the string |
| --- | --- |
| a quote | ends there |
| nothing | is not terminated |
| a backslash and no escape | has an invalid escape |
| a return and no line feed | has a bare control character |
| a character beyond ASCII, in a byte string | is not ASCII |

A quote in an escape, a line feed behind a return and a character of several bytes are no reason to
stop, or to stop later.
-/

import Packrat.Proofs.Lexeme.Escape

namespace Packrat
namespace Lexeme

open Text

/-- A character that stands for itself in a string, before `cs`. -/
structure IsPlain (bytesOnly : Bool) (c : Char) (cs : List Char) : Prop where
  ne_quote : c ≠ '"'
  ne_slash : c ≠ '\\'
  feed : c = '\r' → cs.head? = some '\n'
  ascii : bytesOnly = true → isAscii c = true

/-- The text begins with these parts, plain characters and escapes, and `rest` is behind them. -/
inductive Parts (bytesOnly : Bool) : List (List Char) → List Char → List Char → Prop where
  | nil {rest : List Char} : Parts bytesOnly [] rest rest
  | plain {c : Char} {parts : List (List Char)} {cs rest : List Char} :
    IsPlain bytesOnly c cs → Parts bytesOnly parts cs rest →
    Parts bytesOnly ([c] :: parts) (c :: cs) rest
  | escape {body : List Char} {parts : List (List Char)} {cs rest : List Char} :
    escapeSize? bytesOnly true (body ++ cs) = some body.length → Parts bytesOnly parts cs rest →
    Parts bytesOnly (('\\' :: body) :: parts) ('\\' :: (body ++ cs)) rest

/-- What a string cannot go on with, and the fault it is. -/
inductive Offends (bytesOnly : Bool) : List Char → LexFault → Prop where
  | ended : Offends bytesOnly [] .unterminatedString
  | escape {cs : List Char} : escapeSize? bytesOnly true cs = none →
    Offends bytesOnly ('\\' :: cs) .invalidEscape
  | bareReturn {cs : List Char} : cs.head? ≠ some '\n' →
    Offends bytesOnly ('\r' :: cs) .controlCharacter
  | wide {c : Char} {cs : List Char} : bytesOnly = true → isAscii c = false →
    Offends bytesOnly (c :: cs) .nonAscii

/-- What a string comes to behind its parts of `size` characters. -/
inductive Closes (bytesOnly : Bool) (size : Nat) : List Char → Except LexFault Nat → Prop where
  | quote {rest : List Char} : Closes bytesOnly size ('"' :: rest) (.ok (size + 1))
  | fault {rest : List Char} {f : LexFault} : Offends bytesOnly rest f →
    Closes bytesOnly size rest (.error f)

variable {bytesOnly : Bool} {parts parts' : List (List Char)} {cs rest rest' : List Char}

/-- The parts and what is behind them are the text. -/
theorem Parts.flatten_append (h : Parts bytesOnly parts cs rest) :
    parts.flatten ++ rest = cs := by
  induction h with
  | nil => rfl
  | plain _ _ ih => rw [List.flatten_cons, List.append_assoc, ih, List.singleton_append]
  | escape _ _ ih => rw [List.flatten_cons, List.append_assoc, ih, List.cons_append]

/-- No part begins with a quote or with what a string cannot go on with. -/
theorem Closes.eq_nil {size : Nat} {result : Except LexFault Nat}
    (hrest : Closes bytesOnly size rest result) (h : Parts bytesOnly parts rest rest') :
    parts = [] := by
  cases h with
  | nil => rfl
  | plain hplain _ =>
    exfalso
    cases hrest with
    | quote => exact hplain.ne_quote rfl
    | fault hfault =>
      cases hfault with
      | escape _ => exact hplain.ne_slash rfl
      | bareReturn hfeed => exact hfeed (hplain.feed rfl)
      | wide hbytes hwide =>
        rw [hplain.ascii hbytes] at hwide
        cases hwide
  | @escape body _ cs _ hescape _ =>
    exfalso
    generalize hbehind : body ++ cs = behind at hrest hescape
    cases hrest with
    | fault hfault =>
      cases hfault with
      | escape hnone =>
        rw [hnone] at hescape
        cases hescape
      | wide _ hwide => cases hwide

/-- **A text comes apart in one way**, up to where no part begins. -/
theorem Parts.unique (h : Parts bytesOnly parts cs rest) : ∀ {parts' rest' size size' result result'},
    Closes bytesOnly size rest result → Closes bytesOnly size' rest' result' →
      Parts bytesOnly parts' cs rest' → parts = parts' ∧ rest = rest' := by
  induction h with
  | nil =>
    intro parts' rest' _ _ _ _ hrest _ h'
    obtain rfl := hrest.eq_nil h'
    cases h'
    exact ⟨rfl, rfl⟩
  | plain hplain h ih =>
    intro parts' rest' _ _ _ _ hrest hrest' h'
    cases h' with
    | nil => cases hrest'.eq_nil (.plain hplain h)
    | plain _ h' =>
      obtain ⟨rfl, rfl⟩ := ih hrest hrest' h'
      exact ⟨rfl, rfl⟩
    | escape _ _ => exact absurd rfl hplain.ne_slash
  | @escape body _ cs _ hescape h ih =>
    intro parts' rest' _ _ _ _ hrest hrest' h'
    generalize htext : '\\' :: (body ++ cs) = text at h'
    cases h' with
    | nil =>
      rw [← htext] at hrest'
      cases hrest'.eq_nil (.escape hescape h)
    | plain hplain _ => exact absurd (List.cons_eq_cons.mp htext).1.symm hplain.ne_slash
    | escape hescape' h' =>
      -- the escape is as long as the recogniser says, so both are the same
      have hbehind := (List.cons_eq_cons.mp htext).2
      rw [← hbehind, hescape] at hescape'
      obtain ⟨rfl, rfl⟩ := List.append_inj hbehind (Option.some.inj hescape')
      obtain ⟨rfl, rfl⟩ := ih hrest hrest' h'
      exact ⟨rfl, rfl⟩

/-- **A string is read part by part.** -/
theorem stringSize_closes (bytesOnly : Bool) (read : Nat) (cs : List Char) :
    ∃ parts rest, Parts bytesOnly parts cs rest ∧
      Closes bytesOnly (read + parts.flatten.length) rest (stringSize bytesOnly read cs) := by
  fun_induction stringSize bytesOnly read cs with
  | case1 read => exact ⟨[], [], .nil, .fault .ended⟩
  | case2 read cs => exact ⟨[], _, .nil, .quote⟩
  | case3 read cs k hescape _ ih =>
    obtain ⟨body, behind, rfl, rfl, -⟩ := escapeSize?_eq_some_iff.mp hescape
    rw [List.drop_left] at ih ⊢
    obtain ⟨parts, rest, hparts, hcloses⟩ := ih
    refine ⟨('\\' :: body) :: parts, rest, .escape hescape hparts, ?_⟩
    rw [List.flatten_cons, List.length_append, List.length_cons]
    rwa [show read + 1 + body.length + parts.flatten.length =
      read + (body.length + 1 + parts.flatten.length) by omega] at hcloses
  | case4 read cs hnone _ => exact ⟨[], _, .nil, .fault (.escape hnone)⟩
  | case5 read c cs _ _ hreturn =>
    obtain ⟨rfl, hfeed⟩ := hreturn
    exact ⟨[], _, .nil, .fault (.bareReturn hfeed)⟩
  | case6 read c cs _ _ _ hwide =>
    simp only [Bool.and_eq_true, Bool.not_eq_true'] at hwide
    exact ⟨[], _, .nil, .fault (.wide hwide.1 hwide.2)⟩
  | case7 read c cs hquote hslash hreturn hwide ih =>
    obtain ⟨parts, rest, hparts, hcloses⟩ := ih
    have hplain : IsPlain bytesOnly c cs := by
      refine ⟨hquote, hslash, fun hc => ?_, fun hbytes => ?_⟩
      · exact not_not.mp fun hfeed => hreturn ⟨hc, hfeed⟩
      · simpa [hbytes] using hwide
    refine ⟨[c] :: parts, rest, .plain hplain hparts, ?_⟩
    rw [List.flatten_cons, List.length_append, List.length_singleton]
    rwa [Nat.add_assoc] at hcloses

/-- There is one fault that a string cannot go on with. -/
theorem Offends.unique {f f' : LexFault} (h : Offends bytesOnly rest f)
    (h' : Offends bytesOnly rest f') : f = f' := by
  cases h with
  | ended =>
    cases h'
    rfl
  | escape _ =>
    cases h' with
    | escape _ => rfl
    | wide _ hwide => cases hwide
  | bareReturn _ =>
    cases h' with
    | bareReturn _ => rfl
    | wide _ hwide => cases hwide
  | wide _ hwide =>
    cases h' with
    | escape _ => cases hwide
    | bareReturn _ => cases hwide
    | wide _ _ => rfl

theorem Closes.unique {size : Nat} {result result' : Except LexFault Nat}
    (h : Closes bytesOnly size rest result) (h' : Closes bytesOnly size rest result') :
    result = result' := by
  cases h with
  | quote =>
    cases h' with
    | quote => rfl
    | fault hfault => cases hfault with | wide _ hwide => cases hwide
  | fault hfault =>
    cases h' with
    | quote => cases hfault with | wide _ hwide => cases hwide
    | fault hfault' => rw [hfault.unique hfault']

/-- Parts of a text and what is behind them tell how the string goes on. -/
theorem Parts.stringSize_eq_iff (result : Except LexFault Nat) :
    stringSize bytesOnly 0 cs = result ↔ ∃! parts, ∃ rest, Parts bytesOnly parts cs rest ∧
      Closes bytesOnly parts.flatten.length rest result := by
  obtain ⟨parts, rest, hparts, hcloses⟩ := stringSize_closes bytesOnly 0 cs
  rw [Nat.zero_add] at hcloses
  constructor
  · rintro rfl
    refine ⟨parts, ⟨rest, hparts, hcloses⟩, ?_⟩
    rintro parts' ⟨rest', hparts', hcloses'⟩
    exact (hparts'.unique hcloses' hcloses hparts).1
  · rintro ⟨parts', ⟨rest', hparts', hcloses'⟩, -⟩
    obtain ⟨rfl, rfl⟩ := hparts'.unique hcloses' hcloses hparts
    exact hcloses.unique hcloses'

/-- **A string ends at its first quote outside an escape.**  It has a size just when its text up to
a quote comes apart, in one way, into plain characters and escapes, and then that is its size with
the quote.  It is a fault just when the text comes apart in one way up to what a string cannot go
on with, and then it is the fault of that. -/
theorem strings_end_at_quotes (bytesOnly : Bool) (cs : List Char) :
    (∀ k, stringSize bytesOnly 0 cs = .ok k ↔ ∃! parts, ∃ rest,
      Parts bytesOnly parts cs ('"' :: rest) ∧ cs = parts.flatten ++ '"' :: rest ∧
        k = (parts.flatten ++ ['"']).length) ∧
    (∀ f, stringSize bytesOnly 0 cs = .error f ↔ ∃! parts, ∃ rest,
      Parts bytesOnly parts cs rest ∧ cs = parts.flatten ++ rest ∧ Offends bytesOnly rest f) := by
  constructor
  · intro k
    rw [Parts.stringSize_eq_iff]
    refine existsUnique_congr fun parts => ⟨?_, ?_⟩
    · rintro ⟨rest, hparts, hcloses⟩
      cases hcloses with
      | quote => exact ⟨_, hparts, hparts.flatten_append.symm, by simp⟩
    · rintro ⟨rest, hparts, -, rfl⟩
      rw [List.length_append, List.length_singleton]
      exact ⟨_, hparts, .quote⟩
  · intro f
    rw [Parts.stringSize_eq_iff]
    refine existsUnique_congr fun parts => ⟨?_, ?_⟩
    · rintro ⟨rest, hparts, hcloses⟩
      cases hcloses with
      | fault hfault => exact ⟨rest, hparts, hparts.flatten_append.symm, hfault⟩
    · rintro ⟨rest, hparts, -, hfault⟩
      exact ⟨rest, hparts, .fault hfault⟩

end Lexeme
end Packrat
