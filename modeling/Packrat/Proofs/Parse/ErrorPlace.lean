/-
# Where a syntax error is

A syntax error is told from the place of the furthest failure: a token, and the number of bytes
that have been cut off it.  It points into the text (`SyntaxError.PointsInto`):

| what it says | is |
| --- | --- |
| the offset and the size | those of a part of the text: what is left of a token |
| the position | that of the offset, as an index of the lines tells it |
| what was found | the part, in quotes, or the end of the file |
| what was expected | never nothing |

The position is counted from that of the token, by one column for each byte cut off.  This is right
because only punctuators are cut, whose characters have one byte each and break no line, and
because no token begins inside a line break, where an index would count in another way.  That
something was expected is plain wherever something has been read.  At the beginning it is not:
rules that fail without asking for a token leave no trace.  But a file that does not match goes on
where its end was asked for.
-/

import Packrat.Proofs.Diagnostic.Expected
import Packrat.Proofs.Parse.Computed
import Packrat.Proofs.Parse.Covering
import Packrat.Proofs.Peg.Reached
import Packrat.Proofs.Peg.Reported
import Packrat.Proofs.Token.Position

namespace Packrat

open Peg

/-! ## Places of a run over the tokens of a text -/

namespace Peg.Machine

variable {text : List Char} {s : TokenStream} {m : Machine}

/-- No terminal of the grammar leaves the places between tokens, and inside tokens that can be
cut. -/
theorem stays_isCutPlace (htokens : m.tokens = s.symbols) (hs : TokenStream.ofText text = .ok s)
    {t : Term} (ht : Language.isPlain m.grammar t = true) : m.Stays (IsCutPlace s) t := by
  intro pos ns stop hplace hread
  have hleaf : ∀ kind, some (m.leafAt pos kind) = some (ns, stop) → IsCutPlace s stop := by
    intro kind h
    cases h
    exact isCutPlace_index _
  cases t with
  | token kind =>
    simp only [read?] at hread
    split at hread
    · exact hleaf kind hread
    · cases hread
  | split kind =>
    simp only [read?] at hread
    split at hread
    · exact hleaf kind hread
    · obtain ⟨spelling, hspell, hcut⟩ := Option.bind_eq_some_iff.mp hread
      split at hcut
      · next hbegins =>
        cases hcut
        obtain ⟨t, ht'⟩ := exists_token_of_begins htokens hbegins
        have hcuttable := (mem_cuttable_of_begins htokens hs hplace ht'
          (Language.mem_cutKinds_of_isPlain ht) hspell hbegins).2
        exact (rendered_pieceAt htokens hspell ht' hcuttable hbegins).1
      · cases hcut
  | word word =>
    simp only [read?] at hread
    split at hread
    · exact hleaf .ident hread
    · cases hread
  | any =>
    simp only [read?] at hread
    split at hread
    · cases hread
    · exact hleaf _ hread
  | ended =>
    simp only [read?] at hread
    split at hread
    · cases hread
      exact hplace
    · cases hread
  | _ => cases hread

end Peg.Machine

namespace Language

/-- A file is told by a rule without a label, which reads to the end of the text. -/
def hasFileRule (g : Grammar) : Bool :=
  (g.id? fileRule.name).any fun id => (g.rules[id]?).any fun rule => rule.label.isNone &&
    match rule.body with
    | .seq items => Machine.readsToEnd items
    | _ => false

theorem exists_fileRule {g : Grammar} (hg : grammar = .ok g) :
    ∃ id rule items, g.id? fileRule.name = some id ∧ g.rules[id]? = some rule ∧
      rule.label = none ∧ rule.body = .seq items ∧ Machine.readsToEnd items = true := by
  have hfile : hasFileRule g = true := of_coded (by decide +kernel) hg
  obtain ⟨id, hid, hfile⟩ := (Option.any_eq_true ..).mp hfile
  obtain ⟨rule, hrule, hfile⟩ := (Option.any_eq_true ..).mp hfile
  obtain ⟨hlabel, hbody⟩ := Bool.and_eq_true_iff.mp hfile
  split at hbody
  · next items heq => exact ⟨id, rule, items, hid, hrule, by simpa using hlabel, heq, hbody⟩
  · cases hbody

end Language

namespace Peg.Machine

variable {text : List Char} {s : TokenStream} {m : Machine} {fuel : Nat} {root : Term}
  {table : Memo} {r : Run} {F : Failure}

/-- **A failed run over the tokens of a text** is told from a place between tokens, or inside one
that can be cut.  If it has read a file, it says what was expected. -/
theorem failure_of_runWith (hg : Language.grammar = .ok m.grammar) (htokens : m.tokens = s.symbols)
    (hs : TokenStream.ofText text = .ok s)
    (hroot : ∀ t ∈ root.parts, Language.isPlain m.grammar t = true)
    (htable : ∀ key, table.get? key = none)
    (hrun : m.runWith fuel root { memo := table } = .ok r)
    (hresult : r.result = .error (.failure F)) :
    IsCutPlace s F.pos ∧ (root = .rule Language.fileRule.name → F.expected ≠ []) := by
  have hstays : ∀ t : Term, (∀ u ∈ t.parts, Language.isPlain m.grammar u = true) →
      t.Every (m.Stays (IsCutPlace s)) := fun t h u hu => stays_isCutPlace htokens hs (h u hu)
  have hrules : ∀ (id : Nat) (rule : Rule), m.grammar.rules[id]? = some rule →
      rule.body.Every (m.Stays (IsCutPlace s)) :=
    fun id rule hrule => hstays _ (Language.isPlain_of_rule hg hrule)
  have hstart : State.StaysIn (IsCutPlace s) { memo := table } :=
    ⟨fun key stop ns hget => by simp [htable] at hget, isCutPlace_index 0, .inl rfl⟩
  obtain ⟨s', hfailed, hlive, rfl⟩ := failed_of_runWith hrun hresult
  have hfailed : m.eval fuel root {} { memo := table } = .failed s' := hfailed
  have hstay := eval_staysIn hrules fuel root {} _ (hstays root hroot) (isCutPlace_index 0) hstart
  rw [hfailed] at hstay
  refine ⟨hstay.2.1, ?_⟩
  rintro rfl
  obtain ⟨id, rule, items, hid, hrule, hlabel, hbody, hreads⟩ := Language.exists_fileRule hg
  cases fuel with
  | zero => cases hfailed
  | succ fuel =>
    have hresolve : m.grammar.resolve? (.named Language.fileRule.name) = some id := hid
    have hstep : m.eval (fuel + 1) (.rule Language.fileRule.name) {} { memo := table } =
        m.applyRule (m.eval fuel) id rule {} { memo := table } :=
      step_ref m (m.eval fuel) fuel {} { memo := table } hresolve hrule
    obtain ⟨mid, hmid, rfl⟩ :=
      failed_of_applyRule rfl (htable _) (hstep.symm.trans hfailed) hlive
    have hsame : (leavingFailed {} (stepped { memo := table }) rule ⟨id, {}, {}⟩ mid).failure =
        mid.failure := by
      rw [leavingFailed, hlabel]
      rfl
    rw [hbody] at hmid
    cases fuel with
    | zero => cases hmid
    | succ fuel =>
      have hitems := hrules id rule hrule
      rw [hbody] at hitems
      have hentering : State.StaysIn (IsCutPlace s)
          (entering {} (stepped { memo := table }) rule ⟨id, {}, {}⟩) :=
        State.StaysIn.insert (s := { memo := table }) hstart _ (by simp)
      change (leavingFailed {} (stepped { memo := table }) rule
        ⟨id, {}, {}⟩ mid).failure.expected ≠ []
      rw [hsame]
      exact expected_of_seqFrom hrules hreads {} _ (fun t ht => hitems.child ht)
        (isCutPlace_index 0) hentering rfl hmid

end Peg.Machine

/-! ## From a place to a part of the text -/

namespace TokenStream

variable {s : TokenStream} {t : Token}

/-- What can be cut has characters of one byte, and no line break. -/
theorem mem_of_cuttable (hcut : (t.text, t.kind) ∈ Token.cuttable) :
    t.kind ≠ .eof ∧ ∀ c ∈ t.text.toList, (c ≠ '\n' ∧ c ≠ '\r') ∧ c.utf8Size = 1 := by
  have hall : (Token.cuttable.all fun entry => decide (entry.2 ≠ .eof) &&
      entry.1.toList.all fun c => decide ((c ≠ '\n' ∧ c ≠ '\r') ∧ c.utf8Size = 1)) = true := by
    decide
  obtain ⟨hkind, hchars⟩ := Bool.and_eq_true_iff.mp (List.all_eq_true.mp hall _ hcut)
  exact ⟨of_decide_eq_true hkind, fun c hc =>
    of_decide_eq_true (List.all_eq_true.mp hchars c hc)⟩

/-- What has been cut off a token at a place: so many characters as bytes, none of which breaks a
line; and something is left. -/
theorem exists_cut {pos : Pos} (hplace : Machine.IsCutPlace s pos)
    (ht : s.tokens[min pos.index (s.size - 1)]? = some t) :
    ∃ cut rest, t.text.toList = cut ++ rest ∧ Text.byteSize cut = pos.offset.toNat ∧
      cut.length = pos.offset.toNat ∧ (∀ c ∈ cut, c ≠ '\n' ∧ c ≠ '\r') ∧
      (cut ≠ [] → t.kind ≠ .eof ∧ rest ≠ [] ∧ rest.head? ≠ some '\n') := by
  by_cases hsplit : pos.isSplit = true
  · obtain ⟨t', ht', hcut, hlt⟩ := hplace hsplit
    have hindex : min pos.index (s.size - 1) = pos.index := by
      have hle := (Array.getElem?_eq_some_iff.mp ht').1
      rw [size]
      omega
    rw [hindex, ht'] at ht
    cases ht
    have hne : pos.offset.toNat ≠ 0 := by
      intro hzero
      have hoffset : pos.offset = 0 := UInt8.toNat_inj.mp hzero
      simp [Pos.isSplit, hoffset] at hsplit
    obtain ⟨hkind, hall⟩ := mem_of_cuttable hcut
    have hsize := (Token.punctuator?_drop hcut hne hlt).1
    simp only at hsize
    have hdrop := List.take_append_drop pos.offset.toNat t.text.toList
    have hbytes : ∀ cs : List Char, (∀ c ∈ cs, c.utf8Size = 1) → Text.byteSize cs = cs.length := by
      intro cs
      induction cs with
      | nil => exact fun _ => rfl
      | cons c cs ih =>
        intro h
        rw [Text.byteSize, ih fun d hd => h d (by simp [hd]), h c (by simp), List.length_cons,
          Nat.add_comm]
    refine ⟨t.text.toList.take pos.offset.toNat, t.text.toList.drop pos.offset.toNat, hdrop.symm,
      hsize, ?_, fun c hc => (hall c (List.mem_of_mem_take hc)).1, fun _ => ⟨hkind, ?_, ?_⟩⟩
    · rw [← hbytes _ fun c hc => (hall c (List.mem_of_mem_take hc)).2, hsize]
    · intro hnil
      have htext := congrArg Text.byteSize hdrop
      rw [Text.byteSize_append, hsize, hnil, Text.byteSize_toList, Text.byteSize] at htext
      omega
    · intro hhead
      exact (hall _ (List.mem_of_mem_drop (List.mem_of_mem_head? hhead))).1.1 rfl
  · have hzero : pos.offset = 0 := by simpa [Pos.isSplit] using hsplit
    refine ⟨[], t.text.toList, rfl, ?_, ?_, by simp, fun h => absurd rfl h⟩
    · rw [hzero]; rfl
    · rw [hzero]; rfl

end TokenStream

/-- A syntax error tells a part of the text, its position, what stands there, and something that
was expected. -/
structure SyntaxError.PointsInto (text : List Char) (e : SyntaxError) : Prop where
  /-- The range is inside the text. -/
  inside : e.offset + e.size ≤ Text.byteSize text
  /-- The position is that of the offset. -/
  position : e.position = (LineIndex.ofText text).position e.offset
  /-- Both ends of the range lie between characters; what was found is the part, in quotes, unless
  the text has ended. -/
  found : ∃ part, Text.slice? e.offset (e.offset + e.size) text = some part ∧
    e.found = if e.offset = Text.byteSize text then "end of file"
      else "'" ++ String.ofList part ++ "'"
  /-- The end of the file is found, in a range of no bytes, where the text has ended, and only
  there. -/
  atEnd : e.found = "end of file" ∧ e.size = 0 ↔ e.offset = Text.byteSize text
  /-- Something was expected. -/
  expected : e.expected ≠ []

namespace Parse

variable {text : List Char} {s : TokenStream} {F : Failure}

/-- Something has a name when something was expected. -/
theorem names_ne_nil {expected : List Expected} (h : expected ≠ []) :
    Expected.names expected ≠ [] := by
  obtain ⟨what, hwhat⟩ := List.exists_mem_of_ne_nil _ h
  exact List.ne_nil_of_mem (Expected.mem_names.mpr ⟨what, hwhat, rfl⟩)

/-- **The error of a failure points into the text** if the failure has a place between tokens, or
inside one that can be cut. -/
theorem syntaxError_pointsInto (hs : TokenStream.ofText text = .ok s)
    (hplace : Machine.IsCutPlace s F.pos) (hexpected : F.expected ≠ []) :
    (syntaxError s F).PointsInto text := by
  obtain ⟨ts, eof, htokens, -⟩ := TokenStream.ofText_tokens hs
  have hlt : min F.pos.index (s.size - 1) < s.tokens.size := by
    rw [TokenStream.size, ← Array.length_toList, htokens, List.length_append,
      List.length_singleton]
    omega
  have ht := Array.getElem?_eq_getElem hlt
  generalize s.tokens[min F.pos.index (s.size - 1)] = t at ht
  obtain ⟨pre, post, htext, hbehind, hfeed, hkind⟩ :=
    TokenStream.exists_around hs (Array.mem_of_getElem? ht)
  obtain ⟨cut, rest, hrest, hsize, hlength, hplain, hleft⟩ := TokenStream.exists_cut hplace ht
  have hbytes : t.text.utf8ByteSize = Text.byteSize cut + Text.byteSize rest := by
    rw [← Text.byteSize_toList, hrest, Text.byteSize_append]
  have hskip : min F.pos.offset.toNat t.text.utf8ByteSize = Text.byteSize cut := by omega
  have hdrop : Text.dropBytes? (Text.byteSize cut) t.text.toList = some rest :=
    Text.dropBytes?_eq_some_iff.mpr ⟨cut, hrest, rfl⟩
  have herror : syntaxError s F = .of ⟨t.position.line, t.position.column + Text.byteSize cut⟩
      (t.range.start + Text.byteSize cut) (Text.byteSize rest)
      (if t.kind = .eof then none else some (String.ofList rest)) F.expected F.context := by
    simp only [syntaxError, ht, hskip, hdrop, Option.map_some, Option.getD_some,
      Text.utf8ByteSize_ofList]
  have hstart : t.range.start + Text.byteSize cut = Text.byteSize (pre ++ cut) := by
    rw [Text.byteSize_append, ← hbehind.start]
    rfl
  have hall : text = pre ++ cut ++ rest ++ post := by rw [htext, hrest]; simp
  have hbreak : ¬ Text.SplitsBreak (pre ++ cut) (rest ++ post) := by
    rintro ⟨hlast, hhead⟩
    by_cases hnil : cut = []
    · rw [hrest, hnil, List.nil_append] at hfeed
      exact hfeed hhead
    · obtain ⟨-, hne, hnot⟩ := hleft hnil
      rw [List.head?_append_of_ne_nil _ hne] at hhead
      exact hnot hhead
  have hposition : t.position = (Cursor.advance {} pre).position := hbehind.position
  -- nothing is left of the token at the end of the text, and only there
  have hnil : rest = [] ↔ t.kind = .eof := by
    constructor
    · intro hnil
      refine (Classical.em (t.kind = .eof)).resolve_right fun heof => ?_
      obtain ⟨-, hfull⟩ := hkind.resolve_left fun h => heof h.1
      by_cases hcut : cut = []
      · exact hfull (by rw [hrest, hcut, hnil]; rfl)
      · exact (hleft hcut).2.1 hnil
    · intro heof
      obtain ⟨-, hnone, -⟩ := hkind.resolve_right fun h => h.1 heof
      rw [hrest] at hnone
      exact (List.append_eq_nil_iff.mp hnone).2
  have hend : t.kind = .eof ↔ Text.byteSize (pre ++ cut) = Text.byteSize text := by
    have hsum : Text.byteSize text =
        Text.byteSize (pre ++ cut) + (Text.byteSize rest + Text.byteSize post) := by
      rw [hall]
      simp only [Text.byteSize_append, Nat.add_assoc]
    constructor
    · intro heof
      obtain ⟨-, -, hpost⟩ := hkind.resolve_right fun h => h.1 heof
      rw [hsum, hnil.mpr heof, hpost]
      rfl
    · intro heq
      exact hnil.mp (Text.byteSize_eq_zero_iff.mp (by omega))
  rw [herror, hstart]
  refine ⟨?_, ?_, ⟨rest, ?_, ?_⟩, ?_, names_ne_nil hexpected⟩
  · simp only [SyntaxError.of, hall, Text.byteSize_append]
    omega
  · change _ = (LineIndex.ofText text).position (Text.byteSize (pre ++ cut))
    rw [hall, List.append_assoc (pre ++ cut), LineIndex.position_ofText hbreak,
      Cursor.advance_append, Cursor.position_advance hplain, ← hposition, hlength, ← hsize]
    rfl
  · exact Text.slice?_eq_some_iff.mpr ⟨pre ++ cut, post, hall, rfl, rfl⟩
  · by_cases heof : t.kind = .eof
    · simp [SyntaxError.of, heof, hend.mp heof]
    · have hne : Text.byteSize (pre ++ cut) ≠ Text.byteSize text := fun h => heof (hend.mpr h)
      simp only [SyntaxError.of, heof, hne, if_false]
  · refine Iff.trans ?_ hend
    constructor
    · rintro ⟨-, hnone⟩
      exact hnil.mp (Text.byteSize_eq_zero_iff.mp hnone)
    · intro heof
      simp [SyntaxError.of, heof, hnil.mpr heof, Text.byteSize]

/-- **Syntax errors point at the right text.**  If a text is no file, whatever the options, its
error tells a part of the text, the position where it begins, what is found there, which is the
end of the file just where the text has ended, and something that was expected. -/
theorem syntax_errors_point {options : ParseOptions} {e : SyntaxError}
    (h : ofText text options = .error (.parse (.syntaxError e))) : e.PointsInto text := by
  cases hs : TokenStream.ofText text with
  | error f =>
    rw [ofText, hs] at h
    cases h
  | ok s =>
    have hroot : ∀ g, ∀ t ∈ (Term.rule Language.fileRule.name).parts, Language.isPlain g t = true :=
      fun g => Language.isPlain_rule Language.fileRule.name
    rw [ofText, bind_stream hs] at h
    obtain ⟨g, table, r, hg, htable, hrun, hanswer⟩ := exists_run hs hroot options {}
    rw [ofStream, hanswer] at h
    unfold answer at h
    split at h
    · cases h
    · cases h
    · cases h
    · next F hresult =>
      cases h
      obtain ⟨hplace, hexpected⟩ := Machine.failure_of_runWith (m := machine g s options) hg rfl hs
        (hroot g) htable hrun hresult
      exact syntaxError_pointsInto hs hplace (hexpected rfl)

/-- A bracket too many, which is half of a token, on the second line. -/
def crowdedText : List Char := "fn\r\né(x: V<u8>>) {}".toList

/-- The condition can be met. -/
theorem syntax_errors_point_crowded : ∃ e,
    ofText crowdedText unlimited = .error (.parse (.syntaxError e)) ∧ e.PointsInto crowdedText := by
  obtain ⟨e, he⟩ := ofText_of_failsWithin crowdedText 200 (by decide +kernel)
  exact ⟨e, he, syntax_errors_point he⟩

end Parse
end Packrat
