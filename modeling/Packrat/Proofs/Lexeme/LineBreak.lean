/-
# No lexeme ends inside a line break

A return and a line feed behind it are one line break.  No recogniser cuts it in two
(`scan_not_splits`): whitespace takes all that is whitespace, a comment to the end of the line stops
before the return, and every other lexeme ends with a character that is no return
(`Reading.StopsPlain`).  But for whitespace, it is no line feed either
(`IsScanned.keepsLine_getLast`):

| lexeme | ends with |
| --- | --- |
| word, lifetime, number | a character of a run, a point or a sign |
| string, character | a quote |
| raw string | a quote or a number sign |
| block comment | `*/` |
| continued line | a line feed |
| punctuator | an entry of the table |

The sizes of lexemes are sums of sizes of their parts, and so is the proof (`StopsPlain.add`).
-/

import Packrat.Lexeme.Scan
import Packrat.Proofs.Lexeme.Scan
import Packrat.Proofs.Text.Lines

namespace Packrat
namespace Lexeme

open Text

/-- The first `n` characters of a text do not end with a return or a line feed. -/
def StopsPlain (n : Nat) (cs : List Char) : Prop := ∀ d ∈ (cs.take n).getLast?, KeepsLine d

namespace StopsPlain

variable {n k : Nat} {c : Char} {cs : List Char} {p : Char → Bool}

theorem zero (cs : List Char) : StopsPlain 0 cs := by simp [StopsPlain]

/-- One part behind another. -/
theorem add (h : StopsPlain n cs) (h' : StopsPlain k (cs.drop n)) : StopsPlain (n + k) cs := by
  unfold StopsPlain at h h' ⊢
  rw [List.take_add, List.getLast?_append]
  cases hlast : ((cs.drop n).take k).getLast? with
  | none => exact h
  | some d =>
    rw [hlast] at h'
    exact h'

/-- A part behind characters none of which breaks a line. -/
theorem append_left (pre : List Char) (hpre : ∀ d ∈ pre, KeepsLine d) (h : StopsPlain n cs) :
    StopsPlain (pre.length + n) (pre ++ cs) := by
  have hfirst : StopsPlain pre.length (pre ++ cs) := by
    unfold StopsPlain
    rw [List.take_left]
    exact fun d hlast => hpre d (List.mem_of_getLast? hlast)
  refine hfirst.add ?_
  rwa [List.drop_left]

theorem cons (h : StopsPlain n cs) (hc : KeepsLine c) : StopsPlain (n + 1) (c :: cs) := by
  rw [Nat.add_comm]
  exact .append_left [c] (by simpa using hc) h

/-- A text up to a part that breaks no line. -/
theorem of_append (pre mid rest : List Char) (hmid : ∀ d ∈ mid, KeepsLine d) (hne : mid ≠ []) :
    StopsPlain (pre.length + mid.length) (pre ++ mid ++ rest) := by
  unfold StopsPlain
  rw [← List.length_append, List.take_left, List.getLast?_append,
    List.getLast?_eq_some_getLast hne, Option.some_or]
  rintro d ⟨⟩
  exact hmid _ (List.getLast_mem hne)

/-- A run of characters none of which breaks a line. -/
theorem run (hfeed : p '\n' = false) (hreturn : p '\r' = false) (cs : List Char) :
    StopsPlain (cs.takeWhile p).length cs := by
  unfold StopsPlain
  rw [← List.prefix_iff_eq_take.mp (List.takeWhile_prefix p)]
  intro d hlast
  have hd := List.all_eq_true.mp List.all_takeWhile d (List.mem_of_getLast? hlast)
  constructor
  · rintro rfl
    rw [hfeed] at hd
    cases hd
  · rintro rfl
    rw [hreturn] at hd
    cases hd

/-! ## Words and numbers -/

theorem idRun (cs : List Char) : StopsPlain (Text.idRun cs) cs :=
  run (by decide) (by decide) cs

theorem digitRun (cs : List Char) : StopsPlain (Lexeme.digitRun cs) cs :=
  run (by decide) (by decide) cs

theorem suffixSize (cs : List Char) : StopsPlain (Lexeme.suffixSize cs) cs := by
  unfold Lexeme.suffixSize
  split
  · split
    · exact idRun _
    · exact zero _
  · exact zero _

theorem fractionSize (cs : List Char) : StopsPlain (Lexeme.fractionSize cs) cs := by
  have hpoint : ∀ rest, StopsPlain 1 ('.' :: rest) := fun rest => (zero rest).cons (by decide)
  unfold Lexeme.fractionSize
  split
  · split
    · split_ifs
      · exact zero _
      · exact (hpoint _).add (digitRun _)
      · exact hpoint _
    · exact hpoint _
  · exact zero _

theorem exponentSize (cs : List Char) : StopsPlain (Lexeme.exponentSize cs) cs := by
  unfold Lexeme.exponentSize
  split
  · next c rest =>
    split
    · next hletter =>
      have hc : KeepsLine c := by rcases hletter with rfl | rfl <;> decide
      generalize hsize : (if rest.head? = some '+' ∨ rest.head? = some '-' then 1 else 0) = sign
      have hsign : StopsPlain sign rest := by
        rw [← hsize]
        split
        · next hhead =>
          cases rest with
          | nil => simp at hhead
          | cons d rest =>
            refine (zero rest).cons ?_
            rcases hhead with hhead | hhead
            all_goals
              rw [Option.some.inj hhead]
              decide
        · exact zero _
      dsimp only
      split
      · rw [Nat.add_assoc, Nat.add_comm]
        exact (hsign.add (digitRun _)).cons hc
      · exact zero _
    · exact zero _
  · exact zero _

theorem decimalSize (cs : List Char) : StopsPlain (Lexeme.decimalSize cs).2 cs := by
  have hwhole := (digitRun cs).add (fractionSize _)
  exact (hwhole.add (exponentSize _)).add (suffixSize _)

theorem basedSize {base n : Nat} {cs : List Char} (h : Lexeme.basedSize base cs = .ok n) :
    StopsPlain n cs := by
  have hplace : ∀ d ∈ ['\n', '\r'], (d == '_' || isDigitIn base d) = false := by
    intro d hd
    have hd : d = '\n' ∨ d = '\r' := by simpa using hd
    unfold isDigitIn
    split
    · rcases hd with rfl | rfl <;> decide
    · have hlow : d ≠ '_' ∧ ¬ '0' ≤ d := by rcases hd with rfl | rfl <;> decide
      simp [hlow]
  simp only [Lexeme.basedSize] at h
  split at h
  · cases h
  · cases h
    exact (run (hplace '\n' (by simp)) (hplace '\r' (by simp)) cs).add (suffixSize _)

theorem numberSize {before : List Char} {kind : Kind}
    (h : Lexeme.numberSize before c cs = .ok (kind, n)) : StopsPlain n cs := by
  unfold Lexeme.numberSize at h
  split at h
  · next base hbase =>
    cases hsize : Lexeme.basedSize base cs.tail with
    | error f => rw [hsize] at h; cases h
    | ok k =>
      rw [hsize] at h
      cases h
      cases cs with
      | nil => cases hbase
      | cons d cs =>
        refine (basedSize hsize).cons ⟨?_, ?_⟩
        · rintro rfl
          cases hbase
        · rintro rfl
          cases hbase
  · split at h
    · cases h
      exact digitRun cs
    · have hn : (Lexeme.decimalSize cs).2 = n := congrArg Prod.snd (Except.ok.inj h)
      rw [← hn]
      exact decimalSize cs

end StopsPlain

/-! ## Quoted literals -/

/-- A string goes to its closing quote. -/
theorem stringSize_eq_ok {bytesOnly : Bool} {read n : Nat} {cs : List Char}
    (h : stringSize bytesOnly read cs = .ok n) :
    ∃ body rest, cs = body ++ '"' :: rest ∧ n = read + body.length + 1 := by
  fun_induction stringSize bytesOnly read cs with
  | case1 => cases h
  | case2 read cs =>
    cases h
    exact ⟨[], cs, rfl, rfl⟩
  | case3 read cs k _ _ ih =>
    obtain ⟨body, rest, hrest, rfl⟩ := ih h
    -- the text goes on behind the escape, so the escape is whole
    have hle : k ≤ cs.length := by
      have hlength := congrArg List.length hrest
      simp only [List.length_drop, List.length_append, List.length_cons] at hlength
      omega
    refine ⟨'\\' :: (cs.take k ++ body), rest, ?_, ?_⟩
    · rw [List.cons_append, List.append_assoc, ← hrest, List.take_append_drop]
    · rw [List.length_cons, List.length_append, List.length_take_of_le hle]
      omega
  | case4 => cases h
  | case5 => cases h
  | case6 => cases h
  | case7 read c cs _ _ _ _ ih =>
    obtain ⟨body, rest, rfl, rfl⟩ := ih h
    refine ⟨c :: body, rest, rfl, ?_⟩
    rw [List.length_cons]
    omega

theorem StopsPlain.stringSize {bytesOnly : Bool} {n : Nat} {cs : List Char}
    (h : Lexeme.stringSize bytesOnly 0 cs = .ok n) : StopsPlain n cs := by
  obtain ⟨body, rest, rfl, rfl⟩ := stringSize_eq_ok h
  rw [Nat.zero_add, ← List.singleton_append, ← List.append_assoc]
  exact of_append body ['"'] rest (keepsLine_of_all (by decide)) (by simp)

/-- A raw string goes to a quote with number signs behind it. -/
theorem StopsPlain.rawStringSize {bytesOnly : Bool} {hashes n : Nat} {cs : List Char}
    (h : Lexeme.rawStringSize bytesOnly hashes cs = .ok n) : StopsPlain n cs := by
  unfold Lexeme.rawStringSize at h
  split at h
  · cases h
  · next body rest hsplit =>
    split_ifs at h
    cases h
    rw [eq_of_splitAtFirst? hsplit, Nat.add_assoc, Nat.add_comm 1]
    have hlength : ('"' :: List.replicate hashes '#').length = hashes + 1 := by simp
    rw [← hlength]
    refine of_append _ _ _ ?_ (List.cons_ne_nil _ _)
    rintro d (_ | ⟨_, hd⟩)
    · decide
    · rw [List.eq_of_mem_replicate hd]
      decide

/-- A character literal goes to its closing quote. -/
theorem StopsPlain.charSize {bytesOnly : Bool} {n : Nat} {cs : List Char}
    (h : charSize? bytesOnly cs = .ok (some n)) : StopsPlain n cs := by
  cases cs with
  | nil => cases h
  | cons first cs =>
    simp only [charSize?] at h
    split at h
    · cases h
    · split at h
      · cases h
      · next k _ =>
        obtain ⟨hquote, rfl⟩ : (cs.drop k).head? = some '\'' ∧ k + 2 = n := by
          split_ifs at h with hquote
          · cases h
          · exact ⟨not_not.mp hquote, Option.some.inj (Except.ok.inj h)⟩
        obtain ⟨rest, hrest⟩ := List.head?_eq_some_iff.mp hquote
        have hle : k ≤ cs.length := by
          have hlength := congrArg List.length hrest
          simp only [List.length_drop, List.length_cons] at hlength
          omega
        have hcs : first :: cs = (first :: cs.take k) ++ ['\''] ++ rest := by
          rw [List.append_assoc, List.singleton_append, ← hrest, List.cons_append,
            List.take_append_drop]
        have hsize : k + 2 = (first :: cs.take k).length + ['\''].length := by
          simp [List.length_take_of_le hle]
        rw [hcs, hsize]
        exact of_append _ _ _ (keepsLine_of_all (by decide)) (by simp)

theorem StopsPlain.byteSize {n : Nat} {cs : List Char} (h : Lexeme.byteSize cs = .ok n) :
    StopsPlain n cs := by
  unfold Lexeme.byteSize at h
  cases hchar : charSize? true cs with
  | error f => rw [hchar] at h; cases h
  | ok size =>
    rw [hchar] at h
    cases size with
    | none => cases h
    | some k =>
      cases h
      exact charSize hchar

theorem StopsPlain.quoteSize {kind : Kind} {n : Nat} {cs : List Char}
    (h : Lexeme.quoteSize cs = .ok (kind, n)) : StopsPlain n cs := by
  unfold Lexeme.quoteSize at h
  cases hchar : charSize? false cs with
  | error f => rw [hchar] at h; cases h
  | ok size =>
    rw [hchar] at h
    cases size with
    | some k =>
      cases h
      exact charSize hchar
    | none =>
      simp only [bind, Except.bind] at h
      split at h
      · split_ifs at h
        cases h
        exact idRun _
      · cases h

/-! ## Readings -/

/-- What is read in front of `cs` does not end with a return of `cs`, nor with a line feed of it if
it is no whitespace. -/
def Reading.StopsPlain (r : Reading) (cs : List Char) : Prop := ∀ kind, r.result = .ok kind →
  ∀ d ∈ (cs.take r.more).getLast?, d ≠ '\r' ∧ (kind ≠ .whitespace → d ≠ '\n')

namespace Reading.StopsPlain

variable {cs : List Char} {r r' : Reading}

theorem ok {kind : Kind} {n : Nat} (h : Lexeme.StopsPlain n cs) :
    (Reading.ok kind n).StopsPlain cs := fun _ _ d hd => ⟨(h d hd).2, fun _ => (h d hd).1⟩

/-- Whitespace may end with a line feed. -/
theorem space {n : Nat} (h : (cs.take n).getLast? = some '\n') :
    (Reading.ok .whitespace n).StopsPlain cs := by
  rintro kind ⟨⟩ d hd
  obtain rfl := Option.some.inj (h.symm.trans hd)
  exact ⟨by decide, fun hkind => absurd rfl hkind⟩

theorem fault {f : LexFault} {n : Nat} : (Reading.fault f n).StopsPlain cs := by
  rintro kind ⟨⟩

theorem ite {p : Prop} [Decidable p] (h : p → r.StopsPlain cs) (h' : ¬ p → r'.StopsPlain cs) :
    (if p then r else r').StopsPlain cs := by
  split
  · next hp => exact h hp
  · next hp => exact h' hp

theorem literal {opening : Nat} {body : Except LexFault (Kind × Nat)}
    (h : ∀ kind n, body = .ok (kind, n) → Lexeme.StopsPlain (opening + n) cs) :
    (Reading.literal opening body).StopsPlain cs := by
  cases body with
  | error f => exact fault
  | ok parsed => exact ok (h parsed.1 parsed.2 rfl)

end Reading.StopsPlain

/-- A literal of one kind with a size. -/
theorem of_map_kind {kind kind' : Kind} {body : Except LexFault Nat} {n : Nat}
    (h : (body.map fun n => (kind, n)) = .ok (kind', n)) : body = .ok n := by
  cases body with
  | error f => cases h
  | ok k =>
    cases h
    rfl

variable {cs : List Char}

theorem scanWord_stopsPlain (c : Char) : (scanWord c cs).StopsPlain cs := .ok (.idRun cs)

/-- A raw string begins with number signs and a quote. -/
theorem scanRawString?_stopsPlain {kind : Kind} {bytesOnly : Bool} {opening : Nat}
    (letters : List Char) {r : Reading} (hopening : letters.length = opening)
    (hletters : ∀ d ∈ letters, KeepsLine d)
    (h : scanRawString? kind bytesOnly opening cs = some r) :
    r.StopsPlain (letters ++ cs) := by
  simp only [scanRawString?] at h
  split at h
  · next body hbody =>
    cases h
    refine .literal fun kind' n hn => ?_
    have hsigns : Lexeme.StopsPlain (cs.takeWhile (· = '#')).length cs :=
      .run (by decide) (by decide) cs
    have hquoted : Lexeme.StopsPlain (n + 1) (cs.drop (cs.takeWhile (· = '#')).length) := by
      rw [hbody]
      exact (StopsPlain.rawStringSize (of_map_kind hn)).cons (by decide)
    have hsum := StopsPlain.append_left letters hletters (hsigns.add hquoted)
    rw [hopening] at hsum
    rwa [show opening + (cs.takeWhile (· = '#')).length + 1 + n =
      opening + ((cs.takeWhile (· = '#')).length + (n + 1)) by omega]
  · cases h

theorem scanRawWord_stopsPlain (h : cs.head? = some '#') : (scanRawWord cs).StopsPlain cs := by
  cases cs with
  | nil => cases h
  | cons c cs =>
    obtain rfl : c = '#' := Option.some.inj h
    simp only [scanRawWord]
    exact .ite (fun _ => .fault) fun _ => .ok ((StopsPlain.idRun cs).cons (by decide))

theorem scanR_stopsPlain : (scanR cs).StopsPlain cs := by
  unfold scanR
  split
  · next hraw => exact scanRawString?_stopsPlain [] rfl (by simp) hraw
  · split
    · exact .ite (fun _ => scanRawWord_stopsPlain rfl) fun _ =>
        .ite (fun _ => .fault) fun _ => .ok (.zero _)
    · exact scanWord_stopsPlain 'r'

theorem scanB_stopsPlain : (scanB cs).StopsPlain cs := by
  unfold scanB
  split
  · refine .literal fun kind n hn => ?_
    rw [Nat.add_comm]
    exact (StopsPlain.stringSize (of_map_kind hn)).cons (by decide)
  · refine .literal fun kind n hn => ?_
    rw [Nat.add_comm]
    exact (StopsPlain.byteSize (of_map_kind hn)).cons (by decide)
  · split
    · next hraw => exact scanRawString?_stopsPlain ['r'] rfl (keepsLine_of_all (by decide)) hraw
    · exact .ite (fun _ => .fault) fun _ => scanWord_stopsPlain 'b'
  · exact scanWord_stopsPlain 'b'

theorem scanBlockComment_stopsPlain (h : cs.head? = some '*') :
    (scanBlockComment cs).StopsPlain cs := by
  cases cs with
  | nil => cases h
  | cons c cs =>
    obtain rfl : c = '*' := Option.some.inj h
    unfold scanBlockComment
    split
    · next body rest hsplit =>
      refine .ok ?_
      rw [List.tail_cons] at hsplit
      rw [eq_of_splitAtFirst? hsplit, List.length_append]
      exact .of_append ('*' :: body) ['*', '/'] rest (keepsLine_of_all (by decide)) (by simp)
    · exact .fault

theorem scanLineComment_stopsPlain : (scanLineComment cs).StopsPlain cs :=
  .ok (.run (by decide) (by decide) cs)

/-- No entry of the table of punctuators ends with a return or a line feed. -/
theorem punctuators_stop_plain : ∀ entry ∈ Kind.punctuators,
    entry.1.toList.getLast?.all (fun d => decide (KeepsLine d)) = true := by decide

theorem punctuator_stopsPlain {c : Char} {kind : Kind} {n : Nat}
    (h : punctuatorAt? (c :: cs) = some (kind, n)) : StopsPlain (n - 1) cs := by
  have hplain := punctuators_stop_plain _ (mem_punctuators_of_punctuatorAt? h)
  rw [String.toList_ofList] at hplain
  cases n with
  | zero => exact .zero cs
  | succ n =>
    rw [Nat.add_sub_cancel]
    intro d hlast
    rw [List.take_succ_cons, List.getLast?_cons, hlast] at hplain
    exact of_decide_eq_true hplain

/-- **What is read at a character that is no whitespace does not end with a return**, nor with a
line feed unless it is whitespace. -/
theorem scan_stopsPlain (before : List Char) {c : Char} (hc : isSpace c = false)
    (cs : List Char) : (scan before c cs).StopsPlain cs := by
  unfold scan
  refine .ite (fun hspace => absurd hspace (by simp [hc])) fun _ => ?_
  refine .ite (fun _ => scanLineComment_stopsPlain) fun _ => ?_
  refine .ite (fun h => scanBlockComment_stopsPlain h.2) fun _ => ?_
  refine .ite (fun _ => .literal fun kind n hn => ?_) fun _ => ?_
  · rw [Nat.zero_add]
    exact .stringSize (of_map_kind hn)
  refine .ite (fun _ => .literal fun kind n hn => ?_) fun _ => ?_
  · rw [Nat.zero_add]
    exact .quoteSize hn
  refine .ite (fun _ => scanR_stopsPlain) fun _ => ?_
  refine .ite (fun _ => scanB_stopsPlain) fun _ => ?_
  refine .ite (fun _ => .literal fun kind n hn => ?_) fun _ => ?_
  · rw [Nat.zero_add]
    exact .numberSize hn
  refine .ite (fun _ => scanWord_stopsPlain c) fun _ => ?_
  refine .ite (fun _ => .ite (fun _ => scanWord_stopsPlain c) fun _ => .fault) fun _ => ?_
  refine .ite (fun _ => ?_) fun _ => ?_
  · split
    · exact .space rfl
    · exact .space rfl
    · exact .fault
  · split
    · next hpunct => exact .ok (punctuator_stopsPlain hpunct)
    · exact .fault

/-- **No lexeme ends inside a line break.** -/
theorem scan_not_splits {before : List Char} {c : Char} {kind : Kind}
    (h : (scan before c cs).result = .ok kind) :
    ¬ SplitsBreak (c :: cs.take (scan before c cs).more) (cs.drop (scan before c cs).more) := by
  rintro ⟨hlast, hhead⟩
  cases hspace : isSpace c with
  | true =>
    -- all whitespace has been taken, a line feed among it
    have hscan : scan before c cs = .ok .whitespace (cs.takeWhile isSpace).length := by
      unfold scan
      exact if_pos hspace
    rw [hscan] at hhead
    replace hhead : (cs.dropWhile isSpace).head? = some '\n' :=
      drop_length_takeWhile isSpace cs ▸ hhead
    have hnot := List.head?_dropWhile_not isSpace cs
    rw [hhead] at hnot
    cases hnot
  | false =>
    rw [List.getLast?_cons] at hlast
    have hplain := scan_stopsPlain before hspace cs kind h
    cases htake : (cs.take (scan before c cs).more).getLast? with
    | none =>
      rw [htake, Option.getD_none] at hlast
      rw [Option.some.inj hlast] at hspace
      cases hspace
    | some d =>
      rw [htake, Option.getD_some] at hlast
      exact (hplain '\r' (htake.trans hlast)).1 rfl

/-- Only whitespace begins with a line feed. -/
theorem IsScanned.eq_whitespace {kind : Kind} {text : List Char} (h : IsScanned kind text)
    (hfeed : text.head? = some '\n') : kind = .whitespace := by
  obtain ⟨before, c, cs, hresult, rfl⟩ := h
  obtain rfl : c = '\n' := Option.some.inj hfeed
  simpa [scan, isSpace, Reading.ok, eq_comm] using hresult

/-- **A lexeme that is no whitespace ends with a character that breaks no line.** -/
theorem IsScanned.keepsLine_getLast {kind : Kind} {text : List Char} (h : IsScanned kind text)
    (hkind : kind ≠ .whitespace) : ∀ d ∈ text.getLast?, KeepsLine d := by
  obtain ⟨before, c, cs, hresult, rfl⟩ := h
  have hspace : isSpace c = false := by
    by_contra hspace
    rw [Bool.not_eq_false] at hspace
    unfold scan at hresult
    rw [if_pos hspace] at hresult
    exact hkind (Except.ok.inj hresult).symm
  have hfirst : KeepsLine c := by
    constructor
    · rintro rfl
      cases hspace
    · rintro rfl
      cases hspace
  intro d hd
  rw [List.getLast?_cons] at hd
  cases htake : (cs.take (scan before c cs).more).getLast? with
  | none =>
    rw [htake] at hd
    cases hd
    exact hfirst
  | some last =>
    rw [htake] at hd
    cases hd
    obtain ⟨hreturn, hfeed⟩ := scan_stopsPlain before hspace cs kind hresult last htake
    exact ⟨hfeed hkind, hreturn⟩

end Lexeme
end Packrat
