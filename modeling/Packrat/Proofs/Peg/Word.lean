/-
# What all words of a row have

Three things can be read off a row without looking at its words one by one:

| function | of each word |
| --- | --- |
| `Row.least` | that so many of its children are in a set, at least |
| `Row.lies` | that all of its children are in a set |
| `Row.leads` | that behind a leaf of some kind comes a child in a set |

Each errs on the safe side: what it says is so of every word, but it may say less than is so.
-/

import Packrat.Proofs.Peg.Row

namespace Packrat
namespace Peg
namespace Row

open scoped Computability

/-- How many children of each word are in a set, at least. -/
def least (set : ChildSet) : Row → Nat
  | one s => if s.isSubset set then 1 else 0
  | seq r s => r.least set + s.least set
  | alt r s => min (r.least set) (s.least set)
  | nil | star _ | any => 0

/-- All children of each word are in a set. -/
def lies (set : ChildSet) : Row → Bool
  | nil => true
  | one s => s.isSubset set
  | seq r s | alt r s => r.lies set && s.lies set
  | star r => r.lies set
  | any => false

/-- In each word a child in a set comes behind a leaf of a kind. -/
def leads (kind : Kind) (set : ChildSet) : Row → Bool
  | seq r s => r.leads kind set || s.leads kind set ||
      0 < r.least { leaves := {kind} } && 0 < s.least set
  | alt r s => r.leads kind set && s.leads kind set
  | nil | one _ | star _ | any => false

variable {set : ChildSet} {r : Row} {w : List Child} {kind : Kind}

/-- There are as many children in a set as the row has at least. -/
theorem least_le_countP {p : Child → Bool} (hp : ∀ c ∈ set, p c = true) (hw : w ∈ r.words) :
    r.least set ≤ w.countP p := by
  induction r generalizing w with
  | nil => exact Nat.zero_le _
  | one s =>
    obtain ⟨c, hc, rfl⟩ := hw
    rw [least]
    split
    · next hsub =>
      have hmem := ChildSet.subset_of_isSubset hsub c hc
      rw [List.countP_cons_of_pos (hp c hmem)]
      exact Nat.le_add_left ..
    · exact Nat.zero_le _
  | seq r s ihr ihs =>
    obtain ⟨v, hv, u, hu, rfl⟩ := Language.mem_mul.mp hw
    have hr := ihr hv
    have hs := ihs hu
    rw [least, List.countP_append]
    omega
  | alt r s ihr ihs =>
    rcases hw with hw | hw
    · exact (Nat.min_le_left ..).trans (ihr hw)
    · exact (Nat.min_le_right ..).trans (ihs hw)
  | star r _ => exact Nat.zero_le _
  | any => exact Nat.zero_le _

/-- A row that has one at least has one in each word. -/
theorem exists_mem_of_least (h : 0 < r.least set) (hw : w ∈ r.words) : ∃ c ∈ w, c ∈ set := by
  classical
  have hle : r.least set ≤ w.countP fun c => decide (c ∈ set) := least_le_countP (by simp) hw
  obtain ⟨c, hc, hmem⟩ := List.countP_pos_iff.mp (Nat.lt_of_lt_of_le h hle)
  exact ⟨c, hc, of_decide_eq_true hmem⟩

/-- All children are in a set. -/
theorem mem_of_lies (h : r.lies set = true) (hw : w ∈ r.words) : ∀ c ∈ w, c ∈ set := by
  induction r generalizing w with
  | nil =>
    obtain rfl := (Language.mem_one w).mp hw
    simp
  | one s =>
    obtain ⟨c, hc, rfl⟩ := hw
    exact fun c' hc' => List.mem_singleton.mp hc' ▸ ChildSet.subset_of_isSubset h c hc
  | seq r s ihr ihs =>
    obtain ⟨hr, hs⟩ := Bool.and_eq_true_iff.mp h
    obtain ⟨v, hv, u, hu, rfl⟩ := Language.mem_mul.mp hw
    exact fun c hc => (List.mem_append.mp hc).elim (ihr hr hv c) (ihs hs hu c)
  | alt r s ihr ihs =>
    obtain ⟨hr, hs⟩ := Bool.and_eq_true_iff.mp h
    exact hw.elim (ihr hr) (ihs hs)
  | star r ih =>
    obtain ⟨ws, rfl, hws⟩ := Language.mem_kstar.mp hw
    intro c hc
    obtain ⟨v, hv, hc⟩ := List.mem_flatten.mp hc
    exact ih h (hws v hv) c hc
  | any => cases h

/-- Behind a leaf of the kind comes a child in the set. -/
theorem exists_of_leads (h : r.leads kind set = true) (hw : w ∈ r.words) :
    ∃ front behind, w = front ++ .leaf kind :: behind ∧ ∃ c ∈ behind, c ∈ set := by
  induction r generalizing w with
  | seq r s ihr ihs =>
    obtain ⟨v, hv, u, hu, rfl⟩ := Language.mem_mul.mp hw
    rw [leads, Bool.or_eq_true, Bool.or_eq_true] at h
    rcases h with (hr | hs) | hboth
    · obtain ⟨front, behind, rfl, c, hc, hset⟩ := ihr hr hv
      exact ⟨front, behind ++ u, by simp, c, List.mem_append_left _ hc, hset⟩
    · obtain ⟨front, behind, rfl, c, hc, hset⟩ := ihs hs hu
      exact ⟨v ++ front, behind, by simp, c, hc, hset⟩
    · obtain ⟨hr, hs⟩ := Bool.and_eq_true_iff.mp hboth
      obtain ⟨l, hl, hleaf⟩ := exists_mem_of_least (of_decide_eq_true hr) hv
      obtain ⟨c, hc, hset⟩ := exists_mem_of_least (of_decide_eq_true hs) hu
      have hkind : l = .leaf kind := by
        cases l with
        | leaf k => rw [KindSet.mem_singleton.mp hleaf]
        | node k => exact absurd hleaf KindSet.not_mem_empty
      subst hkind
      obtain ⟨front, behind, rfl⟩ := List.append_of_mem hl
      exact ⟨front, behind ++ u, by simp, c, List.mem_append_right _ hc, hset⟩
  | alt r s ihr ihs =>
    obtain ⟨hr, hs⟩ := Bool.and_eq_true_iff.mp h
    exact hw.elim (ihr hr) (ihs hs)
  | nil | one _ | star _ _ | any => cases h

end Row
end Peg
end Packrat
