/-
# Cutting a text in two

What `dropBytes?` leaves and what `takeBytes?` takes are the two parts of a text at a
boundary (`dropBytes?_eq_some_iff`, `takeBytes?_eq_some_iff`), so a text is put together
again from its slices.
-/

import Packrat.Text.Measure

namespace Packrat
namespace Text

@[simp] theorem byteSize_append (cs ds : List Char) :
    byteSize (cs ++ ds) = byteSize cs + byteSize ds := by
  induction cs with
  | nil => simp [byteSize]
  | cons c cs ih => simp [byteSize, ih, Nat.add_assoc]

/-- Behind a run is what is left without it. -/
theorem drop_length_takeWhile (p : Char → Bool) (cs : List Char) :
    cs.drop (cs.takeWhile p).length = cs.dropWhile p :=
  calc cs.drop (cs.takeWhile p).length
    _ = (cs.takeWhile p ++ cs.dropWhile p).drop (cs.takeWhile p).length := by
      rw [List.takeWhile_append_dropWhile]
    _ = cs.dropWhile p := List.drop_left

/-- A text has as many bytes as its characters. -/
theorem utf8ByteSize_ofList (cs : List Char) :
    (String.ofList cs).utf8ByteSize = byteSize cs := by
  induction cs with
  | nil => rfl
  | cons c cs ih =>
    rw [String.ofList_cons, String.utf8ByteSize_append, String.utf8ByteSize_singleton, ih]
    rfl

theorem byteSize_toList (s : String) : byteSize s.toList = s.utf8ByteSize := by
  rw [← utf8ByteSize_ofList, String.ofList_toList]

/-- Only the empty text has no byte. -/
theorem byteSize_eq_zero_iff {cs : List Char} : byteSize cs = 0 ↔ cs = [] := by
  cases cs with
  | nil => simp [byteSize]
  | cons c cs =>
    have hpos := c.utf8Size_pos
    simp only [byteSize, reduceCtorEq, iff_false]
    omega

/-- **What is left behind the first `n` bytes is what stands behind a part of `n` bytes.** -/
theorem dropBytes?_eq_some_iff {n : Nat} {cs rest : List Char} :
    dropBytes? n cs = some rest ↔ ∃ pre, cs = pre ++ rest ∧ byteSize pre = n := by
  induction n, cs using dropBytes?.induct with
  | case1 cs =>
    rw [dropBytes?]
    constructor
    · rintro ⟨⟩
      exact ⟨[], rfl, rfl⟩
    · rintro ⟨pre, rfl, hpre⟩
      rw [byteSize_eq_zero_iff.mp hpre, List.nil_append]
  | case2 n =>
    rw [dropBytes?]
    constructor
    · rintro ⟨⟩
    · rintro ⟨pre, hnil, hpre⟩
      obtain ⟨rfl, -⟩ := List.nil_eq_append_iff.mp hnil
      cases hpre
  | case3 n c cs hle ih =>
    rw [dropBytes?, if_pos hle, ih]
    constructor
    · rintro ⟨pre, rfl, hpre⟩
      refine ⟨c :: pre, rfl, ?_⟩
      rw [byteSize, hpre, Nat.add_sub_of_le hle]
    · rintro ⟨pre, hcs, hpre⟩
      cases pre with
      | nil => cases hpre
      | cons c' pre =>
        obtain ⟨rfl, rfl⟩ := List.cons_eq_cons.mp hcs
        rw [byteSize] at hpre
        exact ⟨pre, rfl, by omega⟩
  | case4 n c cs hlt =>
    rw [dropBytes?, if_neg hlt]
    constructor
    · rintro ⟨⟩
    · rintro ⟨pre, hcs, hpre⟩
      cases pre with
      | nil => cases hpre
      | cons c' pre =>
        obtain ⟨rfl, -⟩ := List.cons_eq_cons.mp hcs
        rw [byteSize] at hpre
        omega

/-- A text is cut in two in one way at each offset. -/
theorem append_inj_of_byteSize {before before' after after' : List Char}
    (h : before ++ after = before' ++ after') (hsize : byteSize before = byteSize before') :
    before = before' ∧ after = after' := by
  have hdrop : dropBytes? (byteSize before) (before ++ after) = some after :=
    dropBytes?_eq_some_iff.mpr ⟨before, rfl, rfl⟩
  have hdrop' : dropBytes? (byteSize before) (before ++ after) = some after' :=
    dropBytes?_eq_some_iff.mpr ⟨before', h, hsize.symm⟩
  obtain rfl := Option.some.inj (hdrop.symm.trans hdrop')
  exact ⟨List.append_cancel_right h, rfl⟩

/-- **The first `n` bytes are a part of `n` bytes that the text begins with.** -/
theorem takeBytes?_eq_some_iff {n : Nat} {cs pre : List Char} :
    takeBytes? n cs = some pre ↔ ∃ rest, cs = pre ++ rest ∧ byteSize pre = n := by
  induction n, cs using takeBytes?.induct generalizing pre with
  | case1 cs =>
    rw [takeBytes?]
    constructor
    · rintro ⟨⟩
      exact ⟨cs, rfl, rfl⟩
    · rintro ⟨rest, -, hpre⟩
      rw [byteSize_eq_zero_iff.mp hpre]
  | case2 n =>
    rw [takeBytes?]
    constructor
    · rintro ⟨⟩
    · rintro ⟨rest, hnil, hpre⟩
      obtain ⟨rfl, -⟩ := List.nil_eq_append_iff.mp hnil
      cases hpre
  | case3 n c cs hle ih =>
    rw [takeBytes?, if_pos hle, Option.map_eq_some_iff]
    constructor
    · rintro ⟨pre, hpre, rfl⟩
      obtain ⟨rest, rfl, hsize⟩ := ih.mp hpre
      refine ⟨rest, rfl, ?_⟩
      rw [byteSize, hsize, Nat.add_sub_of_le hle]
    · rintro ⟨rest, hcs, hpre⟩
      cases pre with
      | nil => cases hpre
      | cons c' pre =>
        obtain ⟨rfl, rfl⟩ := List.cons_eq_cons.mp hcs
        rw [byteSize] at hpre
        exact ⟨pre, ih.mpr ⟨rest, rfl, by omega⟩, rfl⟩
  | case4 n c cs hlt =>
    rw [takeBytes?, if_neg hlt]
    constructor
    · rintro ⟨⟩
    · rintro ⟨rest, hcs, hpre⟩
      cases pre with
      | nil => cases hpre
      | cons c' pre =>
        obtain ⟨rfl, -⟩ := List.cons_eq_cons.mp hcs
        rw [byteSize] at hpre
        omega

/-- A slice is a part of the text that begins and ends where it should. -/
theorem slice?_eq_some_iff {start stop : Nat} {cs mid : List Char} :
    slice? start stop cs = some mid ↔
      ∃ pre rest, cs = pre ++ mid ++ rest ∧ byteSize pre = start ∧
        byteSize pre + byteSize mid = stop := by
  simp only [slice?]
  constructor
  · intro h
    split at h
    · next hle =>
      obtain ⟨tail, htail, hmid⟩ := Option.bind_eq_some_iff.mp h
      obtain ⟨pre, rfl, hpre⟩ := dropBytes?_eq_some_iff.mp htail
      obtain ⟨rest, rfl, hsize⟩ := takeBytes?_eq_some_iff.mp hmid
      exact ⟨pre, rest, by simp, hpre, by omega⟩
    · cases h
  · rintro ⟨pre, rest, rfl, rfl, rfl⟩
    rw [if_pos (Nat.le_add_right ..)]
    refine Option.bind_eq_some_iff.mpr ⟨mid ++ rest, ?_, ?_⟩
    · exact dropBytes?_eq_some_iff.mpr ⟨pre, by simp, rfl⟩
    · exact takeBytes?_eq_some_iff.mpr ⟨rest, rfl, by omega⟩

/-! ### Boundaries -/

/-- A text can be cut in two at an offset. -/
def IsBoundary (text : List Char) (offset : Nat) : Prop :=
  ∃ before after, text = before ++ after ∧ byteSize before = offset

/-- Of two beginnings of a text, the one with more bytes goes on from the other. -/
theorem exists_append_of_byteSize_le {head rest upTo after : List Char}
    (h : head ++ rest = upTo ++ after) (hle : byteSize head ≤ byteSize upTo) :
    ∃ tail, upTo = head ++ tail := by
  rcases List.append_eq_append_iff.mp h with ⟨tail, htail, -⟩ | ⟨tail, htail, -⟩
  · exact ⟨tail, htail⟩
  · have hsize := congrArg byteSize htail
    rw [byteSize_append] at hsize
    have hnil : tail = [] := byteSize_eq_zero_iff.mp (by omega)
    exact ⟨[], by rw [htail, hnil, List.append_nil, List.append_nil]⟩

/-- Characters are counted up to a boundary. -/
theorem charsBefore?_append (before after : List Char) :
    charsBefore? (byteSize before) (before ++ after) = some before.length := by
  rw [charsBefore?, dropBytes?_eq_some_iff.mpr ⟨before, rfl, rfl⟩]
  simp

/-- Nothing is counted up to where no boundary is. -/
theorem charsBefore?_eq_none {cs : List Char} {stop : Nat} (h : ¬ IsBoundary cs stop) :
    charsBefore? stop cs = none := by
  rw [charsBefore?, Option.map_eq_none_iff, Option.eq_none_iff_forall_ne_some]
  intro rest hrest
  obtain ⟨pre, hcs, hpre⟩ := dropBytes?_eq_some_iff.mp hrest
  exact h ⟨pre, rest, hcs, hpre⟩

/-- A slice has the characters that are counted up to its end and not up to its start. -/
theorem length_slice? {head rest : List Char} {stop : Nat} (hle : byteSize head ≤ stop) :
    (slice? (byteSize head) stop (head ++ rest)).map List.length =
      (charsBefore? stop (head ++ rest)).map (· - head.length) := by
  by_cases hstop : IsBoundary (head ++ rest) stop
  · obtain ⟨upTo, after, htext, rfl⟩ := hstop
    obtain ⟨tail, rfl⟩ := exists_append_of_byteSize_le htext hle
    have hslice : slice? (byteSize head) (byteSize (head ++ tail)) (head ++ rest) = some tail :=
      slice?_eq_some_iff.mpr ⟨head, after, htext, rfl, (byteSize_append ..).symm⟩
    rw [hslice, htext, charsBefore?_append]
    simp
  · rw [charsBefore?_eq_none hstop, Option.map_none, Option.map_eq_none_iff,
      Option.eq_none_iff_forall_ne_some]
    intro mid hmid
    obtain ⟨pre, rest', htext, -, hsize⟩ := slice?_eq_some_iff.mp hmid
    exact hstop ⟨pre ++ mid, rest', htext, by rw [byteSize_append, hsize]⟩

/-! ### Searching -/

/-- What follows `pre` in a text stands behind `pre`. -/
theorem afterPrefix?_eq_some_iff {pre cs rest : List Char} :
    afterPrefix? pre cs = some rest ↔ cs = pre ++ rest := by
  induction pre, cs using afterPrefix?.induct with
  | case1 cs => simp [afterPrefix?]
  | case2 p ps => simp [afterPrefix?]
  | case3 ps c cs ih => simp [afterPrefix?, ih]
  | case4 p ps c cs hne =>
    rw [afterPrefix?, if_neg hne]
    simp [Ne.symm hne]

/-- Nothing follows `pat` where the text does not begin with it. -/
theorem afterPrefix?_eq_none_iff {pat cs : List Char} :
    afterPrefix? pat cs = none ↔ ¬ pat <+: cs := by
  rw [Option.eq_none_iff_forall_ne_some]
  constructor
  · rintro h ⟨rest, rfl⟩
    exact h rest (afterPrefix?_eq_some_iff.mpr rfl)
  · intro h rest hrest
    exact h ⟨rest, (afterPrefix?_eq_some_iff.mp hrest).symm⟩

/-- A text is what comes before an occurrence, the occurrence, and what comes after it. -/
theorem eq_of_splitAtFirst? {pat cs before after : List Char}
    (h : splitAtFirst? pat cs = some (before, after)) : cs = before ++ pat ++ after := by
  induction cs generalizing before with
  | nil =>
    obtain ⟨rest, hrest, heq⟩ := Option.map_eq_some_iff.mp h
    cases heq
    exact afterPrefix?_eq_some_iff.mp hrest
  | cons c cs ih =>
    rw [splitAtFirst?] at h
    cases hafter : afterPrefix? pat (c :: cs) with
    | some rest =>
      rw [hafter] at h
      cases h
      exact afterPrefix?_eq_some_iff.mp hafter
    | none =>
      rw [hafter] at h
      obtain ⟨⟨before', after'⟩, hsplit, heq⟩ := Option.map_eq_some_iff.mp h
      cases heq
      rw [ih hsplit]
      rfl

/-- **The first occurrence**: none is found where there is none, and what is found begins before
any other. -/
theorem splitAtFirst?_cases (pat cs : List Char) :
    (splitAtFirst? pat cs = none ∧ ¬ pat <:+: cs) ∨ ∃ before after,
      splitAtFirst? pat cs = some (before, after) ∧ cs = before ++ pat ++ after ∧
        ∀ before', before' ++ pat <+: cs → before.length ≤ before'.length := by
  induction cs with
  | nil =>
    cases hafter : afterPrefix? pat [] with
    | none =>
      refine .inl ⟨by rw [splitAtFirst?, hafter, Option.map_none], ?_⟩
      rw [List.infix_nil, ← List.prefix_nil]
      exact afterPrefix?_eq_none_iff.mp hafter
    | some rest =>
      have hsplit : splitAtFirst? pat [] = some ([], rest) := by
        rw [splitAtFirst?, hafter, Option.map_some]
      exact .inr ⟨[], rest, hsplit, eq_of_splitAtFirst? hsplit, fun _ _ => Nat.zero_le _⟩
  | cons c cs ih =>
    cases hafter : afterPrefix? pat (c :: cs) with
    | some rest =>
      have hsplit : splitAtFirst? pat (c :: cs) = some ([], rest) := by rw [splitAtFirst?, hafter]
      exact .inr ⟨[], rest, hsplit, eq_of_splitAtFirst? hsplit, fun _ _ => Nat.zero_le _⟩
    | none =>
      have hfront := afterPrefix?_eq_none_iff.mp hafter
      rcases ih with ⟨hnone, hnot⟩ | ⟨before, after, hsplit, heq, hfirst⟩
      · refine .inl ⟨by simp only [splitAtFirst?, hafter, hnone, Option.map_none], ?_⟩
        rw [List.infix_cons_iff]
        exact not_or.mpr ⟨hfront, hnot⟩
      · refine .inr ⟨c :: before, after, ?_, by rw [heq]; rfl, ?_⟩
        · simp only [splitAtFirst?, hafter, hsplit, Option.map_some]
        · rintro (_ | ⟨d, before'⟩) hprefix
          · exact absurd hprefix hfront
          · exact Nat.succ_le_succ (hfirst before' (List.cons_prefix_cons.mp hprefix).2)

/-- The first occurrence is found also where the text ends behind it. -/
theorem splitAtFirst?_cut {pat cs before after : List Char}
    (h : splitAtFirst? pat cs = some (before, after)) :
    splitAtFirst? pat (before ++ pat) = some (before, []) := by
  have hself : afterPrefix? pat pat = some [] :=
    afterPrefix?_eq_some_iff.mpr (List.append_nil pat).symm
  induction cs generalizing before with
  | nil =>
    obtain ⟨rest, hrest, heq⟩ := Option.map_eq_some_iff.mp h
    cases heq
    obtain ⟨rfl, -⟩ := List.nil_eq_append_iff.mp (afterPrefix?_eq_some_iff.mp hrest)
    rfl
  | cons c cs ih =>
    rw [splitAtFirst?] at h
    cases hafter : afterPrefix? pat (c :: cs) with
    | some rest =>
      rw [hafter] at h
      cases h
      cases pat with
      | nil => rfl
      | cons p ps => rw [List.nil_append, splitAtFirst?, hself]
    | none =>
      rw [hafter] at h
      obtain ⟨⟨before', after'⟩, hsplit, heq⟩ := Option.map_eq_some_iff.mp h
      cases heq
      -- an occurrence at the front of the cut text would be one of the whole text
      have hnone : afterPrefix? pat (c :: (before' ++ pat)) = none := by
        cases hcut : afterPrefix? pat (c :: (before' ++ pat)) with
        | none => rfl
        | some rest =>
          have hwhole : c :: cs = pat ++ (rest ++ after) := by
            rw [eq_of_splitAtFirst? hsplit, ← List.cons_append,
              afterPrefix?_eq_some_iff.mp hcut, List.append_assoc]
          rw [afterPrefix?_eq_some_iff.mpr hwhole] at hafter
          cases hafter
      rw [List.cons_append, splitAtFirst?, hnone]
      simp only [ih hsplit, Option.map_some]

end Text
end Packrat
