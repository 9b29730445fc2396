/-
# Pieces spell what was read

Each leaf stands for a text: that of its token, or some bytes of it (`Machine.leafText?`).  What
the leaves of a match stand for, put together, is the text from the place where it began up to the
place where it stopped (`Machine.Spells`): whole tokens, and the first bytes of one that has been
cut.

Places and parts count bytes in 8 bits.  So this needs tokens of at most 255 bytes, but only of
those of which a leaf is a part (`Machine.leaves_spell`); a longer token whose rest is read is
remembered with a wrong end (`Machine.rest_is_cut_short`).
-/

import Packrat.Proofs.Peg.Limits
import Packrat.Proofs.Peg.Tiling

namespace Packrat
namespace Peg
namespace Machine

variable (m : Machine)

/-- The text of a token; behind the last one there is none. -/
def tokenText (index : Nat) : List Char := (m.tokens[index]?.map (·.text.toList)).getD []

/-- The text of a leaf: that of its token, or the bytes of its part if these are the bytes of
characters. -/
def leafText? : Match → Option (List Char)
  | .token index _ none => some (m.tokenText index)
  | .token index _ (some (start, stop)) => Text.slice? start.toNat stop.toNat (m.tokenText index)
  | .node .. => none

/-- The texts of all tokens before a place, and the bytes before it of the token that it is in. -/
def textUpTo? (pos : Pos) : Option (List Char) :=
  (Text.takeBytes? pos.offset.toNat (m.tokenText pos.index)).map
    (((List.range pos.index).flatMap m.tokenText) ++ ·)

/-- A token of which the leaf is a part has at most 255 bytes. -/
def IsShort : Match → Prop
  | .token index _ (some _) => Text.byteSize (m.tokenText index) ≤ 255
  | _ => True

/-- If tokens with parts are short, the leaves stand for texts, and these lead from the text up to
one place to the text up to another. -/
def Spells (pos : Pos) (ls : List Match) (stop : Pos) : Prop :=
  (∀ l ∈ ls, m.IsShort l) → ∀ before, m.textUpTo? pos = some before →
    ∃ pieces, ls.mapM m.leafText? = some pieces ∧ m.textUpTo? stop = some (before ++ pieces.flatten)

variable {m} {pos stop : Pos} {kind : Kind} {spelling : String} {ns : List Match}

theorem spells_isSpan : IsSpan m.Spells where
  nil pos _ before hbefore := ⟨[], rfl, by simpa using hbefore⟩
  append h h' hshort before hbefore := by
    obtain ⟨pieces, htexts, hmid⟩ := h (fun l hl => hshort l (by simp [hl])) before hbefore
    obtain ⟨pieces', htexts', hstop⟩ := h' (fun l hl => hshort l (by simp [hl])) _ hmid
    exact ⟨pieces ++ pieces', by simp [List.mapM_append, htexts, htexts'], by simpa using hstop⟩

/-- The text up to a token. -/
theorem textUpTo?_whole (index : Nat) :
    m.textUpTo? ⟨index, 0⟩ = some ((List.range index).flatMap m.tokenText) := by
  simp [textUpTo?, Text.takeBytes?]

theorem textUpTo?_start : m.textUpTo? {} = some [] := textUpTo?_whole 0

/-- Where there is a text up to a place, the token is in two parts there. -/
theorem exists_parts {before : List Char} (h : m.textUpTo? pos = some before) :
    ∃ pre rest, m.tokenText pos.index = pre ++ rest ∧ Text.byteSize pre = pos.offset.toNat ∧
      before = (List.range pos.index).flatMap m.tokenText ++ pre := by
  obtain ⟨pre, htake, rfl⟩ := Option.map_eq_some_iff.mp h
  obtain ⟨rest, htext, hsize⟩ := Text.takeBytes?_eq_some_iff.mp htake
  exact ⟨pre, rest, htext, hsize, rfl⟩

theorem mapM_singleton (l : Match) : [l].mapM m.leafText? = (m.leafText? l).map ([·]) := by
  cases h : m.leafText? l <;> simp [h]

/-- A leaf spells what is left of its token. -/
theorem leafAt_spells (pos : Pos) (kind : Kind) :
    m.Spells pos (Match.leavesAll (m.leafAt pos kind).1) (m.leafAt pos kind).2 := by
  intro hshort before hbefore
  obtain ⟨pre, rest, htext, hsize, rfl⟩ := exists_parts hbefore
  have hstop : m.textUpTo? ⟨pos.index + 1, 0⟩ =
      some ((List.range pos.index).flatMap m.tokenText ++ pre ++ [rest].flatten) := by
    rw [textUpTo?_whole, List.range_succ, List.flatMap_append]
    simp [htext]
  refine ⟨[rest], ?_, hstop⟩
  cases hsplit : pos.isSplit with
  | false =>
    have hzero : pos.offset = 0 := by simpa [Pos.isSplit] using hsplit
    have hnil : pre = [] := Text.byteSize_eq_zero_iff.mp (by simp [hsize, hzero])
    simp [leafAt, hsplit, leafText?, htext, hnil]
  | true =>
    have hne : pos.offset ≠ 0 := by simpa [Pos.isSplit] using hsplit
    cases ht : m.tokens[pos.index]? with
    | none =>
      -- a place inside a token that is not there has no text up to it
      have hnone : pre ++ rest = [] := by rw [← htext, tokenText, ht]; rfl
      obtain ⟨rfl, -⟩ := List.append_eq_nil_iff.mp hnone
      exact absurd (UInt8.toNat_inj.mp hsize.symm) hne
    | some t =>
      have hleaf : Match.leavesAll (m.leafAt pos kind).1 =
          [.token pos.index kind (some (pos.offset, UInt8.ofNat t.text.utf8ByteSize))] := by
        simp [leafAt, hsplit, ht]
      have hwhole : Text.byteSize (m.tokenText pos.index) = t.text.utf8ByteSize := by
        simp [tokenText, ht, Text.byteSize_toList]
      rw [hleaf] at hshort ⊢
      have hle : Text.byteSize (m.tokenText pos.index) ≤ 255 :=
        hshort (.token pos.index kind (some _)) (List.mem_singleton_self _)
      have hend : (UInt8.ofNat t.text.utf8ByteSize).toNat = Text.byteSize (pre ++ rest) := by
        rw [← htext, hwhole, UInt8.toNat_ofNat', Nat.mod_eq_of_lt (by omega)]
      have hslice : Text.slice? pos.offset.toNat (UInt8.ofNat t.text.utf8ByteSize).toNat
          (m.tokenText pos.index) = some rest :=
        Text.slice?_eq_some_iff.mpr ⟨pre, [], by simpa using htext, hsize,
          by rw [hend, Text.byteSize_append]⟩
      rw [mapM_singleton, leafText?, hslice]
      rfl

/-- A piece spells what was cut off. -/
theorem pieceAt_spells (hbegins : m.BeginsWith pos spelling) :
    m.Spells pos (Match.leavesAll (pieceAt pos kind spelling).1) (pieceAt pos kind spelling).2 := by
  intro hshort before hbefore
  obtain ⟨pre, rest, htext, hsize, rfl⟩ := exists_parts hbefore
  obtain ⟨hlt, hstart⟩ := hbegins
  cases ht : m.tokens[pos.index]? with
  | none => simp [textAt, ht] at hlt
  | some t =>
    have htoken : m.tokenText pos.index = t.text.toList := by simp [tokenText, ht]
    -- what is left of the token is the piece and more
    obtain ⟨pre', htext', hsize'⟩ := textAt_eq ht (by omega)
    have hrest : rest = (m.textAt pos).toList :=
      Option.some.inj ((Text.dropBytes?_eq_some_iff.mpr ⟨pre, htext, hsize⟩).symm.trans
        (Text.dropBytes?_eq_some_iff.mpr ⟨pre', htoken ▸ htext', hsize'⟩))
    obtain ⟨behind, hbehind⟩ := List.isPrefixOf_iff_prefix.mp hstart
    rw [hrest, ← hbehind] at htext
    have hle : Text.byteSize (m.tokenText pos.index) ≤ 255 :=
      hshort (.token pos.index kind (some _)) (List.mem_singleton_self _)
    rw [htext, Text.byteSize_append, Text.byteSize_append, Text.byteSize_toList, hsize] at hle
    have hstop : (pos.offset + UInt8.ofNat spelling.utf8ByteSize).toNat =
        Text.byteSize (pre ++ spelling.toList) := by
      rw [Text.byteSize_append, Text.byteSize_toList, hsize, UInt8.toNat_add, UInt8.toNat_ofNat',
        Nat.add_mod_mod, Nat.mod_eq_of_lt (by omega)]
    refine ⟨[spelling.toList], ?_, ?_⟩
    · have hslice : Text.slice? pos.offset.toNat
          (pos.offset + UInt8.ofNat spelling.utf8ByteSize).toNat (m.tokenText pos.index) =
            some spelling.toList :=
        Text.slice?_eq_some_iff.mpr ⟨pre, behind, by simpa using htext, hsize,
          by rw [hstop, Text.byteSize_append]⟩
      rw [pieceAt, Match.leavesAll_token, mapM_singleton, leafText?, hslice]
      rfl
    · have htake : Text.takeBytes? (pos.offset + UInt8.ofNat spelling.utf8ByteSize).toNat
          (m.tokenText pos.index) = some (pre ++ spelling.toList) :=
        Text.takeBytes?_eq_some_iff.mpr ⟨behind, by simpa using htext, hstop.symm⟩
      simp only [textUpTo?, pieceAt, htake]
      simp

/-- A terminal spells what it reads. -/
theorem read?_spells {t : Term} (h : m.read? pos t = some (ns, stop)) :
    m.Spells pos (Match.leavesAll ns) stop := by
  cases t with
  | token kind =>
    simp only [read?] at h
    split_ifs at h
    cases h
    exact leafAt_spells pos kind
  | split kind =>
    simp only [read?] at h
    split_ifs at h
    · cases h
      exact leafAt_spells pos kind
    · obtain ⟨spelling, -, hcut⟩ := Option.bind_eq_some_iff.mp h
      split_ifs at hcut with hbegins
      cases hcut
      exact pieceAt_spells hbegins
  | word text =>
    simp only [read?] at h
    split_ifs at h
    cases h
    exact leafAt_spells pos .ident
  | any =>
    simp only [read?] at h
    split_ifs at h
    cases h
    exact leafAt_spells pos _
  | ended =>
    simp only [read?] at h
    split_ifs at h
    cases h
    exact spells_isSpan.nil pos
  | _ => cases h

/-- **What is matched spells what was read.**  The leaves of what a run matches stand for texts, and
these, put together, are all tokens before the place where the run stopped and the bytes before it
of the token that it is in; provided that tokens of which a leaf is a part have at most 255
bytes. -/
theorem leaves_spell {fuel : Nat} {root : Term} {r : Run} (hrun : m.runWith fuel root {} = .ok r)
    (hresult : r.result = .ok (ns, stop)) (hshort : ∀ l ∈ Match.leavesAll ns, m.IsShort l) :
    ∃ pieces, (Match.leavesAll ns).mapM m.leafText? = some pieces ∧
      m.textUpTo? stop = some pieces.flatten := by
  have hparses : Parses m {} (.term root) {} (some (ns, stop)) :=
    (runWith_answers m.memoTrue_empty hrun).1 _ (by rw [Run.answer?, hresult])
  have hspells := hparses.spans spells_isSpan (P := fun _ => True)
    (fun t pos ns stop _ => read?_spells) (fun id rule _ => fun _ _ _ => trivial)
    (fun _ _ _ => trivial) ns stop rfl
  simpa using hspells hshort [] textUpTo?_start

/-- A name, and three punctuators that are one token. -/
def glued : Machine where
  grammar := ⟨#[]⟩
  tokens := #[⟨.ident, "é"⟩, ⟨.shrEq, ">>="⟩, ⟨.eof, ""⟩]

/-- The conditions can be met: a name is read, and one of the brackets behind it.  The run stops
inside the second token. -/
theorem leaves_spell_glued :
    let leaves : List Match := [.token 0 .ident none, .token 1 .gt (some (0, 1))]
    (∃ r, glued.runWith 4 (.seq [.token .ident, .split .gt]) {} = .ok r ∧
      r.result = .ok (leaves, ⟨1, 1⟩)) ∧ (∀ l ∈ leaves, glued.IsShort l) ∧
      ∃ pieces, leaves.mapM glued.leafText? = some pieces ∧
        glued.textUpTo? ⟨1, 1⟩ = some pieces.flatten := by
  intro leaves
  have hresult : (glued.runWith 4 (.seq [.token .ident, .split .gt]) {}).toOption.map (·.result) =
      some (.ok (leaves, ⟨1, 1⟩)) := rfl
  obtain ⟨r, hrun, hresult⟩ := exists_run_of_toOption hresult
  have hshort : ∀ l ∈ leaves, glued.IsShort l := by
    intro l hl
    simp only [leaves, List.mem_cons, List.not_mem_nil, or_false] at hl
    rcases hl with rfl | rfl
    · trivial
    · show Text.byteSize (glued.tokenText 1) ≤ 255
      decide
  exact ⟨⟨r, hrun, hresult⟩, hshort, leaves_spell hrun hresult hshort⟩

/-! ## A rest that is cut short -/

/-- A text of more than 255 bytes is no punctuator. -/
theorem punctuator?_of_long {text : String} (h : 255 < text.utf8ByteSize) :
    Kind.punctuator? text = none := by
  have hall : ∀ entry ∈ Kind.punctuators, entry.1.utf8ByteSize ≤ 255 := by decide
  rw [Kind.punctuator?, Kind.lookUp, Option.map_eq_none_iff, List.find?_eq_none]
  intro entry hentry heq
  have hle := hall entry hentry
  rw [of_decide_eq_true heq] at hle
  omega

/-- A machine over a name that begins with an underscore. -/
def overName (name : List Char) : Machine where
  grammar := ⟨#[]⟩
  tokens := #[⟨.ident, String.ofList ('_' :: name)⟩, ⟨.eof, ""⟩]

theorem tokenText_overName (name : List Char) : (overName name).tokenText 0 = '_' :: name :=
  String.toList_ofList

/-- The underscore as a token of its own, and what is left of the name. -/
def underscoreAndRest : Term := .seq [.split .underscore, .any]

/-- The rest of a long name has the end of the name counted in 8 bits. -/
theorem runWith_overName {name : List Char} (hlong : 255 < Text.byteSize name) :
    ∃ r, (overName name).runWith 4 underscoreAndRest {} = .ok r ∧
      r.result = .ok ([.token 0 .underscore (some (0, 1)),
        .token 0 .error (some (1, UInt8.ofNat (Text.byteSize ('_' :: name))))], ⟨1, 0⟩) := by
  have hspell : Kind.underscore.spelling? = some "_" := by decide
  have hone : "_".utf8ByteSize = 1 := rfl
  have htext : (overName name).textAt {} = String.ofList ('_' :: name) := rfl
  have hbegins : "_".utf8ByteSize < ((overName name).textAt {}).utf8ByteSize ∧
      "_".toList.isPrefixOf ((overName name).textAt {}).toList = true := by
    rw [htext, hone, Text.utf8ByteSize_ofList, Text.byteSize, String.toList_ofList]
    refine ⟨?_, by simp⟩
    have hunderscore : '_'.utf8Size = 1 := rfl
    omega
  have hrest : (overName name).textAt ⟨0, 1⟩ = String.ofList name := by
    have hdrop : Text.dropBytes? 1 ('_' :: name) = some name :=
      Text.dropBytes?_eq_some_iff.mpr ⟨['_'], rfl, rfl⟩
    simp [textAt, overName, Pos.isSplit, hdrop]
  have hkind : (overName name).kindAt ⟨0, 1⟩ = .error := by
    have hlong' : Kind.punctuator? (String.ofList name) = none :=
      punctuator?_of_long (by rwa [Text.utf8ByteSize_ofList])
    have hnone : (overName name).kindAt ⟨0, 1⟩ =
        (Kind.punctuator? ((overName name).textAt ⟨0, 1⟩)).getD .error := rfl
    rw [hnone, hrest, hlong']
    rfl
  have hfirst : (overName name).readSplit .underscore {} {} = .matched ⟨0, 1⟩
      (State.push {} (.token 0 .underscore (some (0, 1)))) := by
    have hne : (overName name).kindAt {} ≠ .underscore := by
      show Kind.ident ≠ .underscore
      decide
    simp only [readSplit, if_neg hne, hspell, if_pos hbegins]
    rfl
  have hsecond : ∀ s, (overName name).readAny ⟨0, 1⟩ s = .matched ⟨1, 0⟩ (s.push
      (.token 0 .error (some (1, UInt8.ofNat (Text.byteSize ('_' :: name)))))) := by
    intro s
    rw [← Text.utf8ByteSize_ofList]
    simp only [readAny, hkind]
    rfl
  have heval : (overName name).eval 4 underscoreAndRest {} {} = .matched ⟨1, 0⟩
      ((State.push {} (.token 0 .underscore (some (0, 1)))).push
        (.token 0 .error (some (1, UInt8.ofNat (Text.byteSize ('_' :: name)))))) := by
    show seqFrom ((overName name).eval 3) 0 [.split .underscore, .any] {} {} = _
    rw [seqFrom_cons]
    show ((overName name).readSplit .underscore {} {}).resume _ _ = _
    rw [hfirst]
    show seqFrom ((overName name).eval 3) 0 [.any] ⟨0, 1⟩ _ = _
    rw [seqFrom_cons]
    show ((overName name).readAny ⟨0, 1⟩ _).resume _ _ = _
    rw [hsecond]
    rfl
  rw [runWith_eq]
  show ∃ r, (overName name).closeRun ((overName name).eval 4 underscoreAndRest {} {}) = .ok r ∧ _
  rw [heval]
  exact ⟨_, rfl, rfl⟩

/-- An underscore and 300 letters behind it. -/
def name301 : Machine := overName (longName 150)

/-- **The rest of a long token is cut short.**  Of a name of 301 bytes the first is read, and then
the rest; the leaves stand for texts, but for no more than 45 of the 301 bytes that were read. -/
theorem rest_is_cut_short : ∃ r ns pieces, name301.runWith 4 underscoreAndRest {} = .ok r ∧
    r.result = .ok (ns, ⟨1, 0⟩) ∧ (Match.leavesAll ns).mapM name301.leafText? = some pieces ∧
      Text.byteSize pieces.flatten = 45 ∧
      (name301.textUpTo? ⟨1, 0⟩).map Text.byteSize = some 301 := by
  have hsize : Text.byteSize ('_' :: longName 150) = 301 := by
    rw [Text.byteSize, byteSize_longName]
    rfl
  obtain ⟨r, hrun, hresult⟩ := @runWith_overName (longName 150) (by rw [byteSize_longName]; omega)
  have hend : UInt8.ofNat 301 = 45 := rfl
  rw [hsize, hend] at hresult
  have htoken : name301.tokenText 0 = '_' :: longName 150 := tokenText_overName _
  have hfirst : Text.slice? 0 1 ('_' :: longName 150) = some ['_'] :=
    Text.slice?_eq_some_iff.mpr ⟨[], longName 150, rfl, rfl, rfl⟩
  have hrest : Text.slice? 1 45 ('_' :: longName 150) = some (longName 22) :=
    Text.slice?_eq_some_iff.mpr ⟨['_'], longName 128, by rw [longName_add 22 128]; rfl, rfl,
      by rw [byteSize_longName]; rfl⟩
  refine ⟨r, _, [['_'], longName 22], hrun, hresult, ?_, ?_, ?_⟩
  · have htexts : [Match.token 0 .underscore (some (0, 1)), .token 0 .error (some (1, 45))].mapM
        name301.leafText? = some [['_'], longName 22] := by
      have hpiece : name301.leafText? (.token 0 .underscore (some (0, 1))) = some ['_'] := by
        rw [leafText?, htoken]
        exact hfirst
      have hleft : name301.leafText? (.token 0 .error (some (1, 45))) = some (longName 22) := by
        rw [leafText?, htoken]
        exact hrest
      rw [List.mapM_cons, hpiece, List.mapM_cons, hleft]
      rfl
    exact htexts
  · show Text.byteSize (['_'] ++ (longName 22 ++ [])) = 45
    rw [List.append_nil, Text.byteSize_append, byteSize_longName]
    rfl
  · rw [textUpTo?_whole, Option.map_some]
    simp [htoken, hsize]

end Machine
end Peg
end Packrat
