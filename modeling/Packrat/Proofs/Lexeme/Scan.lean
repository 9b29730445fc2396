/-
# What lexemes are made of

Reading a text cuts it up: the texts of the items, put together, are the text again, also
when some of them are faults (`Lexeme.IsCut`).  What comes first among the items is what the
recogniser of the first character says (`Lexeme.itemsFrom_eq_ok`, `Lexeme.itemsFrom_eq_error`), and
the others are the items of the rest of the text.  A lexeme got its kind from the recogniser of
the place where it begins (`Lexeme.IsScanned`), and that says what its kind can be:

* no lexeme is the end of the text (`IsScanned.kind_ne_eof`);
* one that begins with a bracket `<` or `>` or an ampersand is a punctuator of the table
  (`IsScanned.mem_punctuators`).
-/

import Mathlib.Tactic.SplitIfs
import Packrat.Lexeme.Scan

namespace Packrat
namespace Lexeme

/-- The recogniser of some place gives a text of a kind. -/
def IsScanned (kind : Kind) (text : List Char) : Prop :=
  ∃ before c cs, (scan before c cs).result = .ok kind ∧
    text = c :: cs.take (scan before c cs).more

/-! ## Cutting a text -/

/-- Items that have been read stand in front of those of the rest. -/
theorem itemsFrom_eq_append (before : List Char) (start : Nat) (read : List Item)
    (cs : List Char) :
    itemsFrom before start read cs = read.reverse ++ itemsFrom before start [] cs := by
  suffices h : ∀ read, itemsFrom before start read cs =
      read.reverse ++ itemsFrom before start [] cs from h read
  induction before, start, read, cs using itemsFrom.induct with
  | case1 before start => simp [itemsFrom]
  | case2 before start _ c cs reading text item ih =>
    intro read
    rw [itemsFrom, itemsFrom, ih, ih [_]]
    simp

/-- A lexeme stands in front of the items of the rest. -/
theorem itemsFrom_of_ok {before cs : List Char} {c : Char} {kind : Kind}
    (h : (scan before c cs).result = .ok kind) (start : Nat) :
    itemsFrom before start [] (c :: cs) = .ok ⟨kind, c :: cs.take (scan before c cs).more, start⟩ ::
      itemsFrom ((c :: cs.take (scan before c cs).more).reverse ++ before)
        (start + Text.byteSize (c :: cs.take (scan before c cs).more)) []
        (cs.drop (scan before c cs).more) := by
  rw [itemsFrom, itemsFrom_eq_append]
  simp only [h, List.reverse_singleton, List.singleton_append]

/-- A fault stands in front of the items of the rest. -/
theorem itemsFrom_of_error {before cs : List Char} {c : Char} {f : LexFault}
    (h : (scan before c cs).result = .error f) (start : Nat) :
    itemsFrom before start [] (c :: cs) = .error (f, start) ::
      itemsFrom ((c :: cs.take (scan before c cs).more).reverse ++ before)
        (start + Text.byteSize (c :: cs.take (scan before c cs).more)) []
        (cs.drop (scan before c cs).more) := by
  rw [itemsFrom, itemsFrom_eq_append]
  simp only [h, List.reverse_singleton, List.singleton_append]

/-- Where a lexeme comes first, the recogniser of the place has found it. -/
theorem itemsFrom_eq_ok {before cs : List Char} {start : Nat} {l : Lexeme} {items : List Item}
    (h : itemsFrom before start [] cs = .ok l :: items) : ∃ c rest kind, cs = c :: rest ∧
      (scan before c rest).result = .ok kind ∧
      l = ⟨kind, c :: rest.take (scan before c rest).more, start⟩ ∧
      items = itemsFrom (l.text.reverse ++ before) (start + Text.byteSize l.text) []
        (rest.drop (scan before c rest).more) := by
  cases cs with
  | nil =>
    rw [itemsFrom] at h
    cases h
  | cons c rest =>
    cases hresult : (scan before c rest).result with
    | error f =>
      rw [itemsFrom_of_error hresult] at h
      cases (List.cons_eq_cons.mp h).1
    | ok kind =>
      rw [itemsFrom_of_ok hresult] at h
      obtain ⟨hhead, hitems⟩ := List.cons_eq_cons.mp h
      cases hhead
      exact ⟨c, rest, kind, rfl, hresult, rfl, hitems.symm⟩

/-- The items are lexemes and faults of the parts of a text, one after the other. -/
inductive IsCut : List Char → List Item → Prop where
  | nil : IsCut [] []
  | lexeme {l : Lexeme} {rest : List Char} {items : List Item} :
    IsScanned l.kind l.text → IsCut rest items → IsCut (l.text ++ rest) (.ok l :: items)
  | fault {f : LexFault × Nat} {part rest : List Char} {items : List Item} :
    IsCut rest items → IsCut (part ++ rest) (.error f :: items)

/-- **Reading a text cuts it up.** -/
theorem isCut_itemsFrom (before : List Char) (start : Nat) (read : List Item) (cs : List Char) :
    ∃ items, itemsFrom before start read cs = read.reverse ++ items ∧ IsCut cs items := by
  induction before, start, read, cs using itemsFrom.induct with
  | case1 before start read => exact ⟨[], by rw [itemsFrom, List.append_nil], .nil⟩
  | case2 before start read c cs reading text item ih =>
    obtain ⟨items, hitems, hcut⟩ := ih
    refine ⟨item :: items, ?_, ?_⟩
    · rw [itemsFrom]
      exact hitems.trans (by simp)
    · have htext : c :: cs = text ++ cs.drop reading.more := by
        rw [List.cons_append, List.take_append_drop]
      rw [htext]
      cases hresult : reading.result with
      | ok kind =>
        have hitem : item = .ok ⟨kind, text, start⟩ := by simp only [item, hresult]
        rw [hitem]
        exact .lexeme (l := ⟨kind, text, start⟩) ⟨before, c, cs, hresult, rfl⟩ hcut
      | error f =>
        have hitem : item = .error (f, start) := by simp only [item, hresult]
        rw [hitem]
        exact .fault hcut

/-- Text of some lexemes. -/
def textOf (ls : List Lexeme) : List Char := ls.flatMap (·.text)

@[simp] theorem textOf_nil : textOf [] = [] := rfl

@[simp] theorem textOf_cons (l : Lexeme) (ls : List Lexeme) :
    textOf (l :: ls) = l.text ++ textOf ls := List.flatMap_cons

@[simp] theorem textOf_append (ls ls' : List Lexeme) :
    textOf (ls ++ ls') = textOf ls ++ textOf ls' := List.flatMap_append

/-- Without a fault, the texts of the lexemes are the text. -/
theorem IsCut.textOf_eq {cs : List Char} {items : List Item} (h : IsCut cs items) :
    ∀ ls : List Lexeme, items = ls.map .ok →
      textOf ls = cs ∧ ∀ l ∈ ls, IsScanned l.kind l.text := by
  induction h with
  | nil =>
    intro ls hls
    obtain rfl := List.map_eq_nil_iff.mp hls.symm
    exact ⟨rfl, by simp⟩
  | lexeme hscan _ ih =>
    intro ls hls
    cases ls with
    | nil => cases hls
    | cons l ls =>
      obtain ⟨hhead, hrest⟩ := List.cons_eq_cons.mp hls
      cases hhead
      obtain ⟨htext, hall⟩ := ih ls hrest
      refine ⟨by rw [textOf_cons, htext], ?_⟩
      rintro l' (_ | ⟨_, hl'⟩)
      · exact hscan
      · exact hall l' hl'
  | fault _ _ =>
    intro ls hls
    cases ls with
    | nil => cases hls
    | cons l ls => cases (List.cons_eq_cons.mp hls).1

/-- Without a fault, the text has been cut into the lexemes that recognisers have found. -/
theorem textOf_of_itemsFrom {before cs : List Char} {start : Nat} {ls : List Lexeme}
    (h : itemsFrom before start [] cs = ls.map .ok) :
    textOf ls = cs ∧ ∀ l ∈ ls, IsScanned l.kind l.text := by
  obtain ⟨items, hitems, hcut⟩ := isCut_itemsFrom before start [] cs
  exact hcut.textOf_eq ls (hitems.symm.trans h)

variable {text : List Char}

theorem items_of_none (h : shebangSize? text = none) : items text = itemsFrom [] 0 [] text := by
  rw [items, h]

/-- The interpreter line stands in front of the items of the other lines. -/
theorem items_of_some {n : Nat} (h : shebangSize? text = some n) :
    items text = .ok ⟨.shebang, text.take n, 0⟩ ::
      itemsFrom [] (Text.byteSize (text.take n)) [] (text.drop n) := by
  rw [items, h]
  exact itemsFrom_eq_append ..

/-- The first line is a lexeme of its own when it begins with the mark of an interpreter. -/
theorem textOf_items {ls : List Lexeme} (h : items text = ls.map .ok) :
    textOf ls = text ∧ ∀ l ∈ ls, l.kind = .shebang ∨ IsScanned l.kind l.text := by
  cases hsize : shebangSize? text with
  | none =>
    rw [items_of_none hsize] at h
    obtain ⟨htext, hall⟩ := textOf_of_itemsFrom h
    exact ⟨htext, fun l hl => .inr (hall l hl)⟩
  | some n =>
    rw [items_of_some hsize] at h
    cases ls with
    | nil => cases h
    | cons l ls =>
      obtain ⟨hhead, hrest⟩ := List.cons_eq_cons.mp h
      cases hhead
      obtain ⟨htext, hall⟩ := textOf_of_itemsFrom hrest
      refine ⟨?_, ?_⟩
      · rw [textOf_cons, htext, List.take_append_drop]
      · rintro l' (_ | ⟨_, hl'⟩)
        · exact .inl rfl
        · exact .inr (hall l' hl')

/-! ## Kinds -/

/-- The reading does not find the end of the text. -/
def Reading.IsProper (r : Reading) : Prop := r.result ≠ .ok .eof

theorem Reading.IsProper.ok {kind : Kind} {n : Nat} (h : kind ≠ .eof) :
    (Reading.ok kind n).IsProper := fun heq => h (Except.ok.inj heq)

theorem Reading.IsProper.fault {f : LexFault} {n : Nat} : (Reading.fault f n).IsProper := by
  rintro ⟨⟩

theorem Reading.IsProper.ite {p : Prop} [Decidable p] {r r' : Reading} (h : r.IsProper)
    (h' : r'.IsProper) : (if p then r else r').IsProper := by
  split
  · exact h
  · exact h'

theorem Reading.IsProper.literal {n : Nat} {body : Except LexFault (Kind × Nat)}
    (h : ∀ size, body ≠ .ok (.eof, size)) : (Reading.literal n body).IsProper := by
  intro heq
  cases body with
  | error f => cases heq
  | ok parsed =>
    obtain ⟨kind, size⟩ := parsed
    cases heq
    exact h size rfl

/-- A literal of one kind. -/
theorem map_kind_ne_eof {kind : Kind} (h : kind ≠ .eof) (body : Except LexFault Nat) (size : Nat) :
    (body.map fun n => (kind, n)) ≠ .ok (.eof, size) := by
  intro heq
  cases body with
  | error f => cases heq
  | ok n => exact h (Prod.mk.inj (Except.ok.inj heq)).1

theorem keyword_ne_eof (word : String) : (Kind.keyword? word).getD .ident ≠ .eof := by
  unfold Kind.keyword? Kind.lookUp
  cases hfind : (Kind.strictKeywords ++ Kind.reservedKeywords).find? (·.1 = word) with
  | none => decide
  | some entry =>
    have hall : ∀ entry ∈ Kind.strictKeywords ++ Kind.reservedKeywords, entry.2 ≠ .eof := by
      decide
    exact hall entry (List.mem_of_find?_eq_some hfind)

theorem scanWord_isProper (c : Char) (cs : List Char) : (scanWord c cs).IsProper :=
  .ok (keyword_ne_eof _)

theorem scanRawString?_isProper {kind : Kind} {bytesOnly : Bool} {opening : Nat} {cs : List Char}
    {r : Reading} (h : scanRawString? kind bytesOnly opening cs = some r)
    (hkind : kind ≠ .eof) : r.IsProper := by
  simp only [scanRawString?] at h
  split at h
  · cases h
    exact .literal (map_kind_ne_eof hkind _)
  · cases h

theorem scanRawWord_isProper (cs : List Char) : (scanRawWord cs).IsProper := by
  simp only [scanRawWord]
  split
  · exact .fault
  · exact .ok (by decide)

theorem scanR_isProper (cs : List Char) : (scanR cs).IsProper := by
  unfold scanR
  split
  · next hraw => exact scanRawString?_isProper hraw (by decide)
  · split
    · split_ifs
      · exact scanRawWord_isProper _
      · exact .fault
      · exact .ok (by decide)
    · exact scanWord_isProper 'r' cs

theorem scanB_isProper (cs : List Char) : (scanB cs).IsProper := by
  unfold scanB
  split
  · exact .literal (map_kind_ne_eof (by decide) _)
  · exact .literal (map_kind_ne_eof (by decide) _)
  · split
    · next hraw => exact scanRawString?_isProper hraw (by decide)
    · split_ifs
      · exact .fault
      · exact scanWord_isProper 'b' _
  · exact scanWord_isProper 'b' cs

theorem trivia_ne_eof (kind : TriviaKind) : kind.kind ≠ .eof := by
  cases kind <;> decide

theorem scanBlockComment_isProper (cs : List Char) : (scanBlockComment cs).IsProper := by
  unfold scanBlockComment
  split
  · exact .ok (trivia_ne_eof _)
  · exact .fault

theorem quoteSize_ne_eof (cs : List Char) (n : Nat) : quoteSize cs ≠ .ok (.eof, n) := by
  intro h
  unfold quoteSize at h
  cases hchar : charSize? false cs with
  | error f => rw [hchar] at h; cases h
  | ok size =>
    rw [hchar] at h
    cases size with
    | some n => cases h
    | none =>
      simp only [bind, Except.bind] at h
      split at h
      · split_ifs at h
        cases h
      · cases h

theorem decimalSize_ne_eof (cs : List Char) : (decimalSize cs).1 ≠ .eof := by
  simp only [decimalSize]
  split_ifs <;> decide

theorem numberSize_ne_eof (before : List Char) (c : Char) (cs : List Char) (n : Nat) :
    numberSize before c cs ≠ .ok (.eof, n) := by
  unfold numberSize
  split
  · intro h
    next base _ =>
      cases hsize : basedSize base cs.tail <;> rw [hsize] at h <;> cases h
  · split_ifs
    · rintro ⟨⟩
    · exact fun h => decimalSize_ne_eof cs (congrArg Prod.fst (Except.ok.inj h))

/-- The longest mark is one that the text begins with, and no other of these is longer; where there
is none, the text begins with no mark. -/
theorem longestMark?_cases (cs : List Char) (table : List (String × Kind)) :
    (longestMark? cs table = none ∧ ∀ entry ∈ table, ¬ entry.1.toList <+: cs) ∨
    ∃ word kind, longestMark? cs table = some (kind, word.length) ∧ (word, kind) ∈ table ∧
      word.toList <+: cs ∧ ∀ entry ∈ table, entry.1.toList <+: cs → entry.1.length ≤ word.length := by
  induction table with
  | nil => exact .inl ⟨rfl, by simp⟩
  | cons entry table ih =>
    obtain ⟨first, kind⟩ := entry
    rw [longestMark?]
    by_cases hfirst : first.toList <+: cs
    · rw [List.isPrefixOf_iff_prefix.mpr hfirst, Bool.true_and]
      rcases ih with ⟨hnone, hnot⟩ | ⟨word, kind', hsome, hmem, hprefix, hlong⟩
      · refine .inr ⟨first, kind, by simp [hnone], List.mem_cons_self, hfirst, ?_⟩
        rintro entry (_ | ⟨_, hentry⟩) hbegin
        · exact Nat.le_refl _
        · exact absurd hbegin (hnot entry hentry)
      · by_cases hlt : word.length < first.length
        · refine .inr ⟨first, kind, by simp [hsome, hlt], List.mem_cons_self, hfirst, ?_⟩
          rintro entry (_ | ⟨_, hentry⟩) hbegin
          · exact Nat.le_refl _
          · exact Nat.le_trans (hlong entry hentry hbegin) (Nat.le_of_lt hlt)
        · refine .inr ⟨word, kind', by simp [hsome, hlt], List.mem_cons_of_mem _ hmem, hprefix, ?_⟩
          rintro entry (_ | ⟨_, hentry⟩) hbegin
          · exact Nat.le_of_not_lt hlt
          · exact hlong entry hentry hbegin
    · have hskip : first.toList.isPrefixOf cs = false := by
        rw [← Bool.not_eq_true, List.isPrefixOf_iff_prefix]
        exact hfirst
      rw [hskip, Bool.false_and, if_neg Bool.false_ne_true]
      rcases ih with ⟨hnone, hnot⟩ | ⟨word, kind', hsome, hmem, hprefix, hlong⟩
      · refine .inl ⟨hnone, ?_⟩
        rintro entry (_ | ⟨_, hentry⟩)
        · exact hfirst
        · exact hnot entry hentry
      · refine .inr ⟨word, kind', hsome, List.mem_cons_of_mem _ hmem, hprefix, ?_⟩
        rintro entry (_ | ⟨_, hentry⟩) hbegin
        · exact absurd hbegin hfirst
        · exact hlong entry hentry hbegin

/-- **The marks of the recogniser are the punctuators of the table.** -/
theorem mem_marks_iff {entry : String × Kind} : entry ∈ marks ↔ entry ∈ Kind.punctuators := by
  have hsub : (∀ entry ∈ marks, entry ∈ Kind.punctuators) ∧
      ∀ entry ∈ Kind.punctuators, entry ∈ marks := by decide
  exact ⟨hsub.1 entry, hsub.2 entry⟩

/-- A mark that is found is as long as any punctuator of the table that the text begins with. -/
theorem longest_of_punctuatorAt? {cs : List Char} {kind : Kind} {n : Nat}
    (h : punctuatorAt? cs = some (kind, n)) :
    (String.ofList (cs.take n), kind) ∈ Kind.punctuators ∧
      ∀ entry ∈ Kind.punctuators, entry.1.toList <+: cs → entry.1.length ≤ (cs.take n).length := by
  rcases longestMark?_cases cs marks with ⟨hnone, -⟩ | ⟨word, kind', hsome, hmem, hprefix, hlong⟩
  · cases hnone.symm.trans h
  · cases hsome.symm.trans h
    have htake : cs.take word.length = word.toList := by
      rw [← String.length_toList]
      exact (List.prefix_iff_eq_take.mp hprefix).symm
    rw [htake, String.ofList_toList, String.length_toList]
    exact ⟨mem_marks_iff.mp hmem, fun entry hentry => hlong entry (mem_marks_iff.mpr hentry)⟩

/-- The longest punctuator at the start of a text is an entry of the table. -/
theorem mem_punctuators_of_punctuatorAt? {cs : List Char} {kind : Kind} {n : Nat}
    (h : punctuatorAt? cs = some (kind, n)) :
    (String.ofList (cs.take n), kind) ∈ Kind.punctuators := (longest_of_punctuatorAt? h).1

/-- **The first punctuator of the table that a text begins with is the longest one**: the longer
ones stand first. -/
theorem punctuatorAt?_eq_find? (cs : List Char) : punctuatorAt? cs =
    (Kind.punctuators.find? fun p => p.1.toList.isPrefixOf cs).map fun p => (p.2, p.1.length) := by
  have hsorted : Kind.punctuators.Pairwise fun p q => q.1.length ≤ p.1.length := by
    decide
  have hspelling : ∀ p ∈ Kind.punctuators, ∀ q ∈ Kind.punctuators, p.1 = q.1 → p = q := by
    decide
  cases hfind : Kind.punctuators.find? fun p => p.1.toList.isPrefixOf cs with
  | none =>
    rcases longestMark?_cases cs marks with ⟨hnone, -⟩ | ⟨word, kind, -, hmem, hprefix, -⟩
    · exact hnone
    · have hnot := List.find?_eq_none.mp hfind _ (mem_marks_iff.mp hmem)
      exact absurd (List.isPrefixOf_iff_prefix.mpr hprefix) hnot
  | some first =>
    obtain ⟨hfirst, before, behind, htable, hlonger⟩ := List.find?_eq_some_iff_append.mp hfind
    replace hfirst := List.isPrefixOf_iff_prefix.mp hfirst
    have hmem : first ∈ Kind.punctuators := List.mem_of_find?_eq_some hfind
    rcases longestMark?_cases cs marks with ⟨-, hnot⟩ | ⟨word, kind, hsome, hword, hprefix, hlong⟩
    · exact absurd hfirst (hnot first (mem_marks_iff.mpr hmem))
    · have hle := hlong first (mem_marks_iff.mpr hmem) hfirst
      -- the mark does not stand before the first entry, so it is not longer either
      have hge : word.length ≤ first.1.length := by
        have hentry := mem_marks_iff.mp hword
        rw [htable] at hentry hsorted
        rcases List.mem_append.mp hentry with hbefore | hentry
        · have hno := hlonger _ hbefore
          rw [List.isPrefixOf_iff_prefix.mpr hprefix] at hno
          cases hno
        · rcases List.mem_cons.mp hentry with rfl | hbehind
          · exact Nat.le_refl _
          · exact (List.pairwise_cons.mp (List.pairwise_append.mp hsorted).2.1).1 _ hbehind
      have hsame : word = first.1 := by
        refine String.toList_inj.mp (List.IsPrefix.eq_of_length ?_ ?_)
        · refine List.prefix_of_prefix_length_le hprefix hfirst ?_
          rwa [String.length_toList, String.length_toList]
        · rw [String.length_toList, String.length_toList]
          exact Nat.le_antisymm hge hle
      obtain rfl := hspelling _ (mem_marks_iff.mp hword) _ hmem hsame
      exact hsome

/-- No punctuator is empty, and none is the end of the text. -/
theorem punctuators_proper :
    ∀ entry ∈ Kind.punctuators, 0 < entry.1.length ∧ entry.2 ≠ .eof := by
  decide

/-- **No recogniser finds the end of the text.** -/
theorem scan_isProper (before : List Char) (c : Char) (cs : List Char) :
    (scan before c cs).IsProper := by
  unfold scan
  refine .ite (.ok (by decide)) ?_
  refine .ite (.ok (trivia_ne_eof _)) ?_
  refine .ite (scanBlockComment_isProper cs) ?_
  refine .ite (.literal (map_kind_ne_eof (by decide) _)) ?_
  refine .ite (.literal (quoteSize_ne_eof cs)) ?_
  refine .ite (scanR_isProper cs) ?_
  refine .ite (scanB_isProper cs) ?_
  refine .ite (.literal (numberSize_ne_eof before c cs)) ?_
  refine .ite (scanWord_isProper c cs) ?_
  refine .ite (.ite (scanWord_isProper c cs) .fault) ?_
  refine .ite ?_ ?_
  · split
    · exact .ok (by decide)
    · exact .ok (by decide)
    · exact .fault
  · split
    · next hpunct =>
      exact .ok (punctuators_proper _ (mem_punctuators_of_punctuatorAt? hpunct)).2
    · exact .fault

theorem IsScanned.kind_ne_eof {kind : Kind} {text : List Char} (h : IsScanned kind text) :
    kind ≠ .eof := by
  obtain ⟨before, c, cs, hresult, -⟩ := h
  rintro rfl
  exact scan_isProper before c cs hresult

/-- The characters with which tokens begin that rules may cut. -/
def isBracketOrAmp (c : Char) : Bool := c == '<' || c == '>' || c == '&'

/-- Only the table of punctuators is asked about such a character. -/
theorem scan_of_isBracketOrAmp {c : Char} (hc : isBracketOrAmp c = true) (before cs : List Char) :
    scan before c cs = ((punctuatorAt? (c :: cs)).map fun found =>
      Reading.ok found.1 (found.2 - 1)).getD (.fault .unexpectedChar 0) := by
  simp only [isBracketOrAmp, Bool.or_eq_true, beq_iff_eq] at hc
  rcases hc with (rfl | rfl) | rfl
  · cases hpunct : punctuatorAt? ('<' :: cs) <;> simp [scan, isSpace, Text.isAscii, hpunct]
  · cases hpunct : punctuatorAt? ('>' :: cs) <;> simp [scan, isSpace, Text.isAscii, hpunct]
  · cases hpunct : punctuatorAt? ('&' :: cs) <;> simp [scan, isSpace, Text.isAscii, hpunct]

/-- **A lexeme that begins with a bracket or an ampersand is a punctuator of the table.** -/
theorem IsScanned.mem_punctuators {kind : Kind} {c : Char} {cs : List Char}
    (h : IsScanned kind (c :: cs)) (hc : isBracketOrAmp c = true) :
    (String.ofList (c :: cs), kind) ∈ Kind.punctuators := by
  obtain ⟨before, c', rest, hresult, htext⟩ := h
  obtain ⟨rfl, hcs⟩ := List.cons_eq_cons.mp htext
  rw [scan_of_isBracketOrAmp hc] at hresult hcs
  cases hpunct : punctuatorAt? (c :: rest) with
  | none => rw [hpunct] at hresult; cases hresult
  | some found =>
    obtain ⟨kind', n⟩ := found
    rw [hpunct] at hresult hcs
    cases hresult
    have hmem := mem_punctuators_of_punctuatorAt? hpunct
    cases n with
    | zero => exact absurd (punctuators_proper _ hmem).1 (by simp)
    | succ n =>
      rw [List.take_succ_cons] at hmem
      rwa [hcs]

/-- **A lexeme that begins with a line feed is trivia.** -/
theorem IsScanned.head_ne_feed {kind : Kind} {text : List Char} (h : IsScanned kind text)
    (hkind : TriviaKind.ofKind? kind = none) : text.head? ≠ some '\n' := by
  obtain ⟨before, c, cs, hresult, rfl⟩ := h
  rintro ⟨⟩
  have hspace : kind = .whitespace := by
    simpa [scan, isSpace, Reading.ok, eq_comm] using hresult
  rw [hspace] at hkind
  cases hkind

end Lexeme
end Packrat
