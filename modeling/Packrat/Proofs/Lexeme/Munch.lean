/-
# What recognisers take is as long as it can be

What a recogniser takes as a lexeme is one of eight things (`Lexeme.scan_takes`), and each has its
own end:

| lexeme | ends |
| --- | --- |
| trivia, quoted literal | at a mark of its own |
| word, raw identifier, lifetime | behind a run of characters that continue identifiers |
| the letter `r` | before a number sign |
| number | behind a run of digits, or behind a suffix |
| punctuator | behind the longest mark that the text begins with |

So no name goes on in the text behind it, and no longer punctuator of the table begins where one
was taken (`Lexeme.IsMunched`).  Numbers are the exception twice.  Behind a point only digits are
taken, as `t.0` is followed by anything.  And a suffix has to begin like an identifier, so a
character may stand behind a number that continues identifiers and begins none; but such a character
begins no lexeme either (`scan_of_loose`).
-/

import Packrat.Proofs.Lexeme.Alone

namespace Packrat

/-- The kinds of quoted literals. -/
def Kind.quoted : List Kind := [.string, .rawString, .byteString, .rawByteString, .char, .byte]

namespace Lexeme

open Text

variable {before cs : List Char} {c : Char} {kind : Kind} {n : Nat}

/-! ## What is taken -/

/-- What a recogniser may take as a lexeme: its kind, and how many characters behind the first. -/
inductive Takes (before : List Char) (c : Char) (cs : List Char) : Kind → Nat → Prop where
  | trivia (kind : TriviaKind) {n : Nat} : Takes before c cs kind.kind n
  | word : Takes before c cs
    ((Kind.keyword? (String.ofList (c :: cs.take (idRun cs)))).getD .ident) (idRun cs)
  | letter : c = 'r' → cs.head? = some '#' → Takes before c cs .ident 0
  | rawWord : cs.head? = some '#' → Takes before c cs .rawIdent (idRun cs.tail + 1)
  | lifetime : Takes before c cs .lifetime (idRun cs)
  | quoted {kind : Kind} {n : Nat} : kind ∈ Kind.quoted → Takes before c cs kind n
  | number {kind : Kind} {n : Nat} : numberSize before c cs = .ok (kind, n) →
    Takes before c cs kind n
  | mark {kind : Kind} {n : Nat} : punctuatorAt? (c :: cs) = some (kind, n + 1) →
    Takes before c cs kind n

/-- What a reading takes, if anything. -/
def Reading.Takes (r : Reading) (before : List Char) (c : Char) (cs : List Char) : Prop :=
  ∀ kind, r.result = .ok kind → Lexeme.Takes before c cs kind r.more

namespace Reading.Takes

variable {r r' : Reading}

theorem ok (h : Lexeme.Takes before c cs kind n) : (Reading.ok kind n).Takes before c cs := by
  rintro _ ⟨⟩
  exact h

theorem fault {f : LexFault} : (Reading.fault f n).Takes before c cs := by
  rintro kind ⟨⟩

theorem ite {p : Prop} [Decidable p] (h : p → r.Takes before c cs)
    (h' : ¬ p → r'.Takes before c cs) : (if p then r else r').Takes before c cs := by
  split
  · next hp => exact h hp
  · next hp => exact h' hp

theorem literal {opening : Nat} {body : Except LexFault (Kind × Nat)}
    (h : ∀ kind n, body = .ok (kind, n) → Lexeme.Takes before c cs kind (opening + n)) :
    (Reading.literal opening body).Takes before c cs := by
  cases body with
  | error f => exact fault
  | ok parsed => exact ok (h parsed.1 parsed.2 rfl)

/-- A literal between quotes. -/
theorem quoted {opening : Nat} {kind : Kind} (hkind : kind ∈ Kind.quoted)
    (size : Except LexFault Nat) :
    (Reading.literal opening (size.map fun n => (kind, n))).Takes before c cs := by
  refine literal fun kind' n hsize => .quoted ?_
  cases size with
  | error f => cases hsize
  | ok k =>
    cases hsize
    exact hkind

end Reading.Takes

theorem scanWord_takes : (scanWord c cs).Takes before c cs := .ok .word

theorem scanRawString?_takes {bytesOnly : Bool} {opening : Nat} {rest : List Char} {r : Reading}
    (h : scanRawString? kind bytesOnly opening rest = some r) (hkind : kind ∈ Kind.quoted) :
    r.Takes before c cs := by
  simp only [scanRawString?] at h
  split at h
  · cases h
    exact .quoted hkind _
  · cases h

theorem scanRawWord_takes (h : cs.head? = some '#') : (scanRawWord cs).Takes before c cs := by
  simp only [scanRawWord]
  exact .ite (fun _ => .fault) fun _ => .ok (.rawWord h)

theorem scanR_takes : (scanR cs).Takes before 'r' cs := by
  unfold scanR
  split
  · next hraw => exact scanRawString?_takes hraw (by decide)
  · split
    · exact .ite (fun _ => scanRawWord_takes rfl) fun _ =>
        .ite (fun _ => .fault) fun _ => .ok (.letter rfl rfl)
    · exact scanWord_takes

theorem scanB_takes : (scanB cs).Takes before 'b' cs := by
  unfold scanB
  split
  · exact .quoted (by decide) _
  · exact .quoted (by decide) _
  · split
    · next hraw => exact scanRawString?_takes hraw (by decide)
    · exact .ite (fun _ => .fault) fun _ => scanWord_takes
  · exact scanWord_takes

theorem scanBlockComment_takes : (scanBlockComment cs).Takes before c cs := by
  unfold scanBlockComment
  split
  · exact .ok (.trivia _)
  · exact .fault

/-- A quote opens a character literal or a lifetime. -/
theorem quoteSize_takes (h : quoteSize cs = .ok (kind, n)) : Takes before c cs kind n := by
  unfold quoteSize at h
  cases hchar : charSize? false cs with
  | error f => rw [hchar] at h; cases h
  | ok size =>
    rw [hchar] at h
    cases size with
    | some k =>
      cases h
      exact .quoted (by decide)
    | none =>
      simp only [bind, Except.bind] at h
      split at h
      · split_ifs at h
        cases h
        exact .lifetime
      · cases h

/-- **What a recogniser takes is one of these.** -/
theorem scan_takes (before : List Char) (c : Char) (cs : List Char) :
    (scan before c cs).Takes before c cs := by
  unfold scan
  refine .ite (fun _ => .ok (.trivia .whitespace)) fun _ => ?_
  refine .ite (fun _ => .ok (.trivia _)) fun _ => ?_
  refine .ite (fun _ => scanBlockComment_takes) fun _ => ?_
  refine .ite (fun _ => .quoted (by decide) _) fun _ => ?_
  refine .ite (fun _ => .literal fun kind n hn => ?_) fun _ => ?_
  · rw [Nat.zero_add]
    exact quoteSize_takes hn
  refine .ite (fun hc => hc ▸ scanR_takes) fun _ => ?_
  refine .ite (fun hc => hc ▸ scanB_takes) fun _ => ?_
  refine .ite (fun _ => .literal fun kind n hn => ?_) fun _ => ?_
  · rw [Nat.zero_add]
    exact .number hn
  refine .ite (fun _ => scanWord_takes) fun _ => ?_
  refine .ite (fun _ => .ite (fun _ => scanWord_takes) fun _ => .fault) fun _ => ?_
  refine .ite (fun _ => ?_) fun _ => ?_
  · split
    · exact .ok (.trivia .whitespace)
    · exact .ok (.trivia .whitespace)
    · exact .fault
  · split
    · next kind n hpunct =>
      obtain ⟨k, rfl⟩ : ∃ k, n = k + 1 := by
        refine ⟨n - 1, (Nat.sub_add_cancel ?_).symm⟩
        refine Nat.pos_of_ne_zero fun hzero => ?_
        have hproper := punctuators_proper _ (mem_punctuators_of_punctuatorAt? hpunct)
        rw [hzero] at hproper
        exact absurd hproper.1 (by simp)
      exact .ok (.mark hpunct)
    · exact .fault

/-! ## Where numbers end -/

/-- A run ends before a character that is none of it. -/
theorem any_head?_drop_run (p : Char → Bool) (cs : List Char) :
    (cs.drop (cs.takeWhile p).length).head?.any p = false := by
  rw [drop_length_takeWhile]
  have hnot := List.head?_dropWhile_not p cs
  cases hhead : (cs.dropWhile p).head? with
  | none => rfl
  | some d =>
    rw [hhead] at hnot
    simpa using hnot

/-- What is behind a run of characters that continue identifiers does not continue it. -/
theorem not_isIdContinue_drop_idRun (cs : List Char) :
    ∀ d ∈ (cs.drop (idRun cs)).head?, isIdContinue d = false := by
  intro d hd
  have hnot := any_head?_drop_run isIdContinue cs
  rwa [show (cs.drop (cs.takeWhile isIdContinue).length).head? = some d from hd] at hnot

/-- No digit comes first. -/
def NoDigit (cs : List Char) : Prop := ∀ d ∈ cs.head?, d.isDigit = false

theorem noDigit_drop_digitRun (cs : List Char) : NoDigit (cs.drop (digitRun cs)) := by
  intro d hd
  have hnot := any_head?_drop_run isDigitOrUnderscore cs
  rw [show (cs.drop (cs.takeWhile isDigitOrUnderscore).length).head? = some d from hd] at hnot
  simp only [Option.any_some, isDigitOrUnderscore, Bool.or_eq_false_iff] at hnot
  exact hnot.1

theorem NoDigit.drop_fractionSize (h : NoDigit cs) : NoDigit (cs.drop (fractionSize cs)) := by
  unfold fractionSize
  split
  · next rest =>
    split
    · next c more =>
      split_ifs with hname hdigit
      · exact h
      · rw [Nat.add_comm, List.drop_succ_cons]
        exact noDigit_drop_digitRun _
      · intro d hd
        obtain rfl : c = d := Option.some.inj hd
        exact Bool.eq_false_iff.mpr hdigit
    · rintro d ⟨⟩
  · exact h

theorem NoDigit.drop_exponentSize (h : NoDigit cs) : NoDigit (cs.drop (exponentSize cs)) := by
  cases cs with
  | nil => exact h
  | cons c cs =>
    rw [exponentSize_cons]
    split_ifs
    · rw [Nat.add_assoc, Nat.add_comm 1, List.drop_succ_cons, ← List.drop_drop]
      exact noDigit_drop_digitRun _
    · exact h
    · exact h

/-- Nothing comes first that continues identifiers, or it is beyond ASCII and begins none. -/
def EndsNumber (cs : List Char) : Prop :=
  ∀ d ∈ cs.head?, isIdContinue d = true → isAscii d = false ∧ isIdStart d = false

/-- Where no digit is left, a suffix takes what there is of a name. -/
theorem NoDigit.drop_suffixSize (h : NoDigit cs) : EndsNumber (cs.drop (suffixSize cs)) := by
  intro d hd hname
  cases cs with
  | nil => cases hd
  | cons c cs =>
    by_cases hsuffix : (c = '_' || isIdStart c) = true
    · -- the suffix is a run, and what is behind a run does not continue it
      simp only [suffixSize, hsuffix, if_true] at hd
      rw [not_isIdContinue_drop_idRun _ d hd] at hname
      cases hname
    · simp only [suffixSize, if_neg hsuffix, List.drop_zero] at hd
      obtain rfl : c = d := Option.some.inj hd
      simp only [Bool.or_eq_true, decide_eq_true_eq, not_or, Bool.not_eq_true] at hsuffix
      refine ⟨?_, hsuffix.2⟩
      by_contra hascii
      rw [Bool.not_eq_false] at hascii
      have hdigit := h c rfl
      simp only [isIdStart, hascii, if_true] at hsuffix
      simp [isIdContinue, hascii, Char.isAlphanum, hdigit, hsuffix] at hname

theorem endsNumber_decimalSize (cs : List Char) : EndsNumber (cs.drop (decimalSize cs).2) := by
  have hwhole := noDigit_drop_digitRun cs
  have hfraction := hwhole.drop_fractionSize
  rw [List.drop_drop] at hfraction
  have hexponent := hfraction.drop_exponentSize
  rw [List.drop_drop] at hexponent
  have hsuffix := hexponent.drop_suffixSize
  rwa [List.drop_drop] at hsuffix

theorem endsNumber_basedSize {base : Nat} (h : basedSize base cs = .ok n) :
    EndsNumber (cs.drop n) := by
  simp only [basedSize] at h
  split at h
  · cases h
  · next hdigits =>
    cases h
    rw [← List.drop_drop]
    refine NoDigit.drop_suffixSize fun d hd => ?_
    simp only [Bool.or_eq_true, not_or, Bool.not_eq_true] at hdigits
    rw [show _ = some d from hd] at hdigits
    exact hdigits.1

/-- **A number that is not behind a point goes on as long as there is something to take.** -/
theorem endsNumber_numberSize (h : numberSize before c cs = .ok (kind, n))
    (hbefore : isAfterPoint before = false) : EndsNumber (cs.drop n) := by
  unfold numberSize at h
  split at h
  · next base hbase =>
    cases hsize : basedSize base cs.tail with
    | error f => rw [hsize] at h; cases h
    | ok k =>
      rw [hsize] at h
      cases h
      cases cs with
      | nil => cases hbase
      | cons d cs =>
        rw [List.drop_succ_cons]
        exact endsNumber_basedSize hsize
  · rw [hbefore] at h
    have hn : (decimalSize cs).2 = n := congrArg Prod.snd (Except.ok.inj h)
    rw [← hn]
    exact endsNumber_decimalSize cs

/-- **What continues identifiers and begins none begins nothing**, beyond ASCII. -/
theorem scan_of_loose (hname : isIdContinue c = true) (hascii : isAscii c = false)
    (hstart : isIdStart c = false) (before cs : List Char) :
    scan before c cs = .fault .unexpectedChar 0 := by
  have hne : ∀ d : Char, isAscii d = true ∨ isIdContinue d = false → c ≠ d := by
    rintro d (hd | hd) rfl
    · rw [hascii] at hd
      cases hd
    · rw [hname] at hd
      cases hd
  have hplain : c.isAlphanum = false := by
    by_contra halnum
    rw [Bool.not_eq_false] at halnum
    rw [isAscii_of_isAlphanum halnum] at hascii
    cases hascii
  have hcontrol : ¬ c ≤ '\r' := by
    intro hle
    have hlow : c.toNat ≤ 13 := hle
    simp only [isAscii, decide_eq_false_iff_not] at hascii
    omega
  have hspace : isSpace c = false := by
    simp [isSpace, hcontrol, hne ' ' (by decide), hne '\x85' (by decide +kernel),
      hne '\u200E' (by decide +kernel), hne '\u200F' (by decide +kernel),
      hne '\u2028' (by decide +kernel), hne '\u2029' (by decide +kernel)]
  simp only [Char.isAlphanum, Bool.or_eq_false_iff] at hplain
  simp [scan, hspace, hne '/' (by decide), hne '"' (by decide), hne '\'' (by decide),
    hne 'r' (by decide), hne 'b' (by decide), hplain, hne '_' (by decide), hascii, hstart]

/-! ## Lexemes as long as can be -/

/-- A word has the kind that the table of keywords gives it, or it is an identifier. -/
theorem keyword?_cases (word : String) : Kind.keyword? word = none ∨
    ∃ kind, Kind.keyword? word = some kind ∧ kind.isKeyword = true ∧ kind.isPunctuator = false := by
  have htable : ∀ entry ∈ Kind.strictKeywords ++ Kind.reservedKeywords,
      entry.2.isKeyword = true ∧ entry.2.isPunctuator = false := by decide
  unfold Kind.keyword? Kind.lookUp
  cases hfind : (Kind.strictKeywords ++ Kind.reservedKeywords).find? (·.1 = word) with
  | none => exact .inl rfl
  | some entry => exact .inr ⟨_, rfl, htable entry (List.mem_of_find?_eq_some hfind)⟩

/-- The lexeme is as long as it can be and has its kind from the tables, with these characters
before it, last character first, and behind it. -/
structure IsMunched (before : List Char) (kind : Kind) (text behind : List Char) : Prop where
  mark : kind.isPunctuator = true → (String.ofList text, kind) ∈ Kind.punctuators ∧
    ∀ entry ∈ Kind.punctuators, entry.1.toList <+: text ++ behind →
      entry.1.length ≤ text.length
  keyword : kind.isKeyword = true → Kind.keyword? (String.ofList text) = some kind
  ident : kind = .ident → Kind.keyword? (String.ofList text) = none
  word : kind.isKeyword = true ∨ kind = .ident ∨ kind = .rawIdent ∨ kind = .lifetime →
    ∀ d ∈ behind.head?, isIdContinue d = false
  number : kind = .intNumber ∨ kind = .floatNumber → isAfterPoint before = false →
    EndsNumber behind

/-- The kinds of trivia and of quoted literals, of which nothing is said. -/
def isApart (kind : Kind) : Bool := !kind.isPunctuator && !kind.isKeyword &&
  !([.ident, .rawIdent, .lifetime, .intNumber, .floatNumber] : List Kind).contains kind

/-- Of some kinds nothing is said. -/
theorem IsMunched.of_isApart {text behind : List Char} (h : isApart kind = true) :
    IsMunched before kind text behind := by
  simp only [isApart, Bool.and_eq_true, Bool.not_eq_true', List.contains_eq_mem,
    decide_eq_false_iff_not, List.mem_cons, not_or] at h
  obtain ⟨⟨hmark, hkeyword⟩, hident, hraw, hlifetime, hint, hfloat, -⟩ := h
  exact {
    mark := by simp [hmark]
    keyword := by simp [hkeyword]
    ident := by simp [hident]
    word := by simp [hkeyword, hident, hraw, hlifetime]
    number := by simp [hint, hfloat] }

/-- A raw identifier or a lifetime is in no table. -/
theorem IsMunched.of_name {text behind : List Char} (hkind : kind = .rawIdent ∨ kind = .lifetime)
    (hword : ∀ d ∈ behind.head?, isIdContinue d = false) : IsMunched before kind text behind := by
  rcases hkind with rfl | rfl
  all_goals
    exact {
      mark := by rintro ⟨⟩
      keyword := by rintro ⟨⟩
      ident := by rintro ⟨⟩
      word := fun _ => hword
      number := by rintro (⟨⟨⟩⟩ | ⟨⟨⟩⟩) }

/-- A word goes to the end of its run, and the tables say whether it is a keyword. -/
theorem isMunched_word : IsMunched before
    ((Kind.keyword? (String.ofList (c :: cs.take (idRun cs)))).getD .ident)
    (c :: cs.take (idRun cs)) (cs.drop (idRun cs)) := by
  rcases keyword?_cases (String.ofList (c :: cs.take (idRun cs))) with
    hnone | ⟨kind, hsome, hkeyword, hmark⟩
  · rw [hnone]
    exact {
      mark := by rintro ⟨⟩
      keyword := by rintro ⟨⟩
      ident := fun _ => hnone
      word := fun _ => not_isIdContinue_drop_idRun cs
      number := by rintro (⟨⟨⟩⟩ | ⟨⟨⟩⟩) }
  · rw [hsome]
    exact {
      mark := by simp [hmark]
      keyword := fun _ => hsome
      ident := by
        rintro rfl
        cases hkeyword
      word := fun _ => not_isIdContinue_drop_idRun cs
      number := by rintro (rfl | rfl) <;> cases hkeyword }

/-- A mark is of no kind but its own in the table. -/
theorem isMunched_mark (h : punctuatorAt? (c :: cs) = some (kind, n + 1)) :
    IsMunched before kind (c :: cs.take n) (cs.drop n) := by
  have htable : ∀ entry ∈ Kind.punctuators, entry.2.isKeyword = false ∧
      ¬ entry.2 ∈ ([.ident, .rawIdent, .lifetime, .intNumber, .floatNumber] : List Kind) := by
    decide
  obtain ⟨hmem, hlong⟩ := longest_of_punctuatorAt? h
  rw [List.take_succ_cons] at hmem hlong
  obtain ⟨hkeyword, hother⟩ := htable _ hmem
  simp only [List.mem_cons, not_or] at hother
  obtain ⟨hident, hraw, hlifetime, hint, hfloat, -⟩ := hother
  exact {
    mark := by
      intro _
      rw [List.cons_append, List.take_append_drop]
      exact ⟨hmem, hlong⟩
    keyword := by simp [hkeyword]
    ident := by simp [hident]
    word := by simp [hkeyword, hident, hraw, hlifetime]
    number := by simp [hint, hfloat] }

/-- **Everything that is taken is as long as it can be.** -/
theorem Takes.isMunched (h : Takes before c cs kind n) :
    IsMunched before kind (c :: cs.take n) (cs.drop n) := by
  cases h with
  | trivia kind => exact .of_isApart (by cases kind <;> rfl)
  | word => exact isMunched_word
  | letter hc hsign =>
    subst hc
    exact {
      mark := by rintro ⟨⟩
      keyword := by rintro ⟨⟩
      ident := by
        intro _
        show Kind.keyword? (String.ofList ['r']) = none
        decide
      word := by
        intro _ d hd
        rw [List.drop_zero, hsign] at hd
        cases hd
        decide
      number := by rintro (⟨⟨⟩⟩ | ⟨⟨⟩⟩) }
  | rawWord hsign =>
    cases cs with
    | nil => cases hsign
    | cons d cs => exact .of_name (.inl rfl) (not_isIdContinue_drop_idRun cs)
  | lifetime => exact .of_name (.inr rfl) (not_isIdContinue_drop_idRun cs)
  | quoted hkind =>
    have hall : ∀ kind ∈ Kind.quoted, isApart kind = true := by decide
    exact .of_isApart (hall kind hkind)
  | number hsize =>
    have hends := endsNumber_numberSize hsize
    rcases numberSize_kind hsize with rfl | rfl
    all_goals
      exact {
        mark := by rintro ⟨⟩
        keyword := by rintro ⟨⟩
        ident := by rintro ⟨⟩
        word := by rintro (⟨⟨⟩⟩ | ⟨⟨⟩⟩ | ⟨⟨⟩⟩ | ⟨⟨⟩⟩)
        number := fun _ => hends }
  | mark hpunct => exact isMunched_mark hpunct

end Lexeme
end Packrat
