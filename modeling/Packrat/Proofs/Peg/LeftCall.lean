/-
# Left calls go down

The search for a cycle follows left calls depth first and puts a rule into a list when all
its left calls are in it.  So when it ends without a cycle, every rule stands in the list
before the rules that it left-calls (`IsSettled`), and counting from the end gives each rule
a rank above the ranks of these (`Grammar.exists_ranks`).

That the search looks at every left call is seen from its depth: the rules of a path are
different, so a path is no longer than there are rules.
-/

import Mathlib.Data.Finset.Card
import Mathlib.Data.List.Nodup
import Mathlib.Tactic.SplitIfs
import Packrat.Proofs.Peg.Plainly

namespace Packrat
namespace Peg

/-- The left calls of one of some tails are left calls of these. -/
theorem Term.mem_leftCallsOfTails {null : RuleRef → Bool} {tail : Kind × Term}
    {tails : List (Kind × Term)} (htail : tail ∈ tails) {r : RuleRef}
    (hr : r ∈ tail.2.leftCalls null) : r ∈ leftCallsOfTails null tails := by
  induction tails with
  | nil => cases htail
  | cons other tails ih =>
    rcases List.mem_cons.mp htail with rfl | hmem
    · exact List.mem_append_left _ hr
    · exact List.mem_append_right _ (ih hmem)

namespace Grammar

variable {graph : Array (List Nat)}

/-- Every rule stands in the list before the rules that it left-calls. -/
def IsSettled (graph : Array (List Nat)) : List Nat → Prop
  | [] => True
  | id :: done => (∀ callee ∈ graph.getD id [], callee ∈ done) ∧ IsSettled graph done

/-- Work on the list of settled rules keeps it settled, loses no rule of it, and puts `id`
into it. -/
def Settles (graph : Array (List Nat)) (id : Nat) (done done' : List Nat) : Prop :=
  IsSettled graph done → IsSettled graph done' ∧ done ⊆ done' ∧ id ∈ done'

/-- A list of settled rules is closed under left calls. -/
theorem IsSettled.callee_mem {id callee : Nat} {done : List Nat} (hdone : IsSettled graph done)
    (hid : id ∈ done) (hcall : callee ∈ graph.getD id []) : callee ∈ done := by
  induction done with
  | nil => cases hid
  | cons id' done ih =>
    obtain ⟨hcalls, hdone⟩ := hdone
    rcases List.mem_cons.mp hid with rfl | hmem
    · exact List.mem_cons_of_mem _ (hcalls callee hcall)
    · exact List.mem_cons_of_mem _ (ih hdone hmem)

/-- Settling some rules one after the other. -/
theorem settles_foldlM {visit : List Nat → Nat → Except (List Nat) (List Nat)} {ids : List Nat}
    (hvisit : ∀ id ∈ ids, ∀ done done', visit done id = .ok done' →
      Settles graph id done done') :
    ∀ done done', ids.foldlM visit done = .ok done' → IsSettled graph done →
      IsSettled graph done' ∧ done ⊆ done' ∧ ∀ id ∈ ids, id ∈ done' := by
  induction ids with
  | nil =>
    intro done done' h hdone
    cases h
    exact ⟨hdone, fun _ => id, by simp⟩
  | cons id ids ih =>
    intro done done' h hdone
    rw [List.foldlM_cons] at h
    cases hfirst : visit done id with
    | error cycle => rw [hfirst] at h; cases h
    | ok mid =>
      rw [hfirst] at h
      obtain ⟨hmid, hsub, hmem⟩ := hvisit id (by simp) done mid hfirst hdone
      obtain ⟨hdone', hsub', hrest⟩ :=
        ih (fun id' h' => hvisit id' (by simp [h'])) mid done' h hmid
      refine ⟨hdone', fun x hx => hsub' (hsub hx), ?_⟩
      rintro id' (_ | ⟨_, hid'⟩)
      · exact hsub' hmem
      · exact hrest id' hid'

/-- A path of different rules is no longer than there are rules. -/
theorem length_le_of_nodup {path : List Nat} {n : Nat} (hnodup : path.Nodup)
    (hrange : ∀ id ∈ path, id < n) : path.length ≤ n := by
  have hsub : path ⊆ List.range n := fun id hid => List.mem_range.mpr (hrange id hid)
  have hle := (List.subperm_of_subset hnodup hsub).length_le
  rwa [List.length_range] at hle

/-- **The search settles what it visits**, if it may go as deep as there are rules that are
not on the path, and one. -/
theorem search_settles (depth : Nat) : ∀ path : List Nat, path.Nodup →
    (∀ id ∈ path, id < graph.size) → depth + path.length = graph.size + 1 →
    ∀ id done done', search graph depth path id done = .ok done' →
      Settles graph id done done' := by
  induction depth with
  | zero =>
    intro path hnodup hrange hdepth
    have hle := length_le_of_nodup hnodup hrange
    omega
  | succ depth ih =>
    intro path hnodup hrange hdepth id done done' h hdone
    simp only [search] at h
    split_ifs at h with hpath hsettled
    · cases h
      exact ⟨hdone, fun _ hx => hx, by simpa using hsettled⟩
    · -- only a rule of the graph has left calls, and it makes the path longer
      have hvisit : ∀ callee ∈ graph.getD id [], ∀ mid mid',
          search graph depth (id :: path) callee mid = .ok mid' →
            Settles graph callee mid mid' := by
        intro callee hcallee
        have hid : id < graph.size := by
          by_contra hout
          simp [Array.getD_eq_getD_getElem?, Array.getElem?_eq_none (Nat.le_of_not_lt hout)]
            at hcallee
        have hnew : id ∉ path := by simpa using hpath
        have hrange' : ∀ id' ∈ id :: path, id' < graph.size := by
          rintro id' (_ | ⟨_, hid'⟩)
          · exact hid
          · exact hrange id' hid'
        have hdepth' : depth + (id :: path).length = graph.size + 1 := by
          rw [List.length_cons]
          omega
        exact ih (id :: path) (List.nodup_cons.mpr ⟨hnew, hnodup⟩) hrange' hdepth' callee
      cases hfold : (graph.getD id []).foldlM
          (fun mid callee => search graph depth (id :: path) callee mid) done with
      | error cycle => rw [hfold] at h; cases h
      | ok mid =>
        rw [hfold] at h
        cases h
        obtain ⟨hmid, hsub, hcalls⟩ := settles_foldlM hvisit done mid hfold hdone
        exact ⟨⟨hcalls, hmid⟩, fun x hx => List.mem_cons_of_mem id (hsub hx), by simp⟩

/-! ## Ranks -/

/-- The number of rules in a list of settled rules from the last place of a rule on. -/
def heightIn (id : Nat) : List Nat → Nat
  | [] => 0
  | id' :: done => if id ∈ done then heightIn id done else if id = id' then done.length + 1 else 0

theorem heightIn_le (id : Nat) (done : List Nat) : heightIn id done ≤ done.length := by
  induction done with
  | nil => exact Nat.le_refl 0
  | cons id' done ih =>
    simp only [heightIn]
    split_ifs <;> simp only [List.length_cons] <;> omega

/-- A rule is higher than each of its left calls. -/
theorem heightIn_lt {id callee : Nat} (hcall : callee ∈ graph.getD id []) {done : List Nat}
    (hdone : IsSettled graph done) (hid : id ∈ done) :
    heightIn callee done < heightIn id done := by
  induction done with
  | nil => cases hid
  | cons id' done ih =>
    obtain ⟨hcalls, hdone⟩ := hdone
    by_cases hmem : id ∈ done
    · have hlt := ih hdone hmem
      have hcallee := hdone.callee_mem hmem hcall
      simpa only [heightIn, if_pos hmem, if_pos hcallee] using hlt
    · have heq : id = id' := by
        rcases List.mem_cons.mp hid with heq | hmem'
        · exact heq
        · exact absurd hmem' hmem
      subst heq
      have hcallee := hcalls callee hcall
      have hle := heightIn_le callee done
      simp only [heightIn, if_neg hmem, if_pos hcallee, if_true]
      omega

/-- A rank for each rule of a grammar, less than their number, that goes down along left
calls. -/
structure IsRanking (g : Grammar) (rank : Nat → Nat) : Prop where
  lt : ∀ id < g.rules.size, rank id < g.rules.size
  call : ∀ id rule, g.rules[id]? = some rule → ∀ r ∈ rule.body.leftCalls g.isNullable,
    ∀ callee, g.resolve? r = some callee → callee < g.rules.size → rank callee < rank id

/-- The rules below a rule, when rules are ordered by height. -/
def below (g : Grammar) (height : Nat → Nat) (id : Nat) : Finset Nat :=
  (Finset.range g.rules.size).filter fun id' => height id' < height id

/-- Heights that go down along left calls give ranks: the number of rules below a rule. -/
theorem isRanking_card_below {g : Grammar} {height : Nat → Nat}
    (hcall : ∀ id rule, g.rules[id]? = some rule → ∀ r ∈ rule.body.leftCalls g.isNullable,
      ∀ callee, g.resolve? r = some callee → height callee < height id) :
    g.IsRanking fun id => (g.below height id).card where
  lt id hid := by
    have hsub : g.below height id ⊂ Finset.range g.rules.size := by
      refine ⟨Finset.filter_subset .., fun hback => ?_⟩
      have hself := hback (Finset.mem_range.mpr hid)
      simp [below] at hself
    simpa using Finset.card_lt_card hsub
  call id rule hrule r hr callee hresolve hcallee := by
    have hlt := hcall id rule hrule r hr callee hresolve
    refine Finset.card_lt_card ⟨fun id' hid' => ?_, fun hback => ?_⟩
    · simp only [below, Finset.mem_filter] at hid' ⊢
      exact ⟨hid'.1, hid'.2.trans hlt⟩
    · have hself : callee ∈ g.below height callee :=
        hback (Finset.mem_filter.mpr ⟨Finset.mem_range.mpr hcallee, hlt⟩)
      simp [below] at hself

/-- What the graph of left calls says of a rule. -/
theorem getD_leftCallGraph {g : Grammar} {id : Nat} {rule : Rule}
    (hrule : g.rules[id]? = some rule) :
    g.leftCallGraph.getD id [] = (rule.body.leftCalls g.isNullable).filterMap g.resolve? := by
  rw [Array.getD_eq_getD_getElem?, leftCallGraph, Array.getElem?_map, hrule]
  rfl

/-- Rule `i` left-calls rule `j`: its body may apply it before anything has been read. -/
def LeftCalls (g : Grammar) (i j : Nat) : Prop :=
  ∃ rule, g.rules[i]? = some rule ∧
    ∃ r ∈ rule.body.leftCalls g.isNullable, g.resolve? r = some j

/-- The graph of left calls has an edge for each. -/
theorem mem_leftCallGraph {g : Grammar} {i j : Nat} :
    j ∈ g.leftCallGraph.getD i [] ↔ g.LeftCalls i j := by
  cases hrule : g.rules[i]? with
  | none => simp [leftCallGraph, LeftCalls, Array.getD_eq_getD_getElem?, hrule]
  | some rule =>
    rw [getD_leftCallGraph hrule, List.mem_filterMap]
    constructor
    · exact fun h => ⟨rule, hrule, h⟩
    · rintro ⟨rule', hrule', h⟩
      cases hrule.symm.trans hrule'
      exact h

/-- When the search ends without a cycle, every rule is settled. -/
theorem exists_settled {g : Grammar} (hcycle : g.leftCycle? = none) : ∃ done,
    (List.range g.rules.size).foldlM
      (fun done id => search g.leftCallGraph (g.rules.size + 1) [] id done) [] = .ok done ∧
    IsSettled g.leftCallGraph done ∧ ∀ id < g.rules.size, id ∈ done := by
  simp only [leftCycle?] at hcycle
  split at hcycle
  · next done hdone =>
    have hsize : g.leftCallGraph.size = g.rules.size := by simp [leftCallGraph]
    have hvisit : ∀ id ∈ List.range g.rules.size, ∀ mid mid',
        search g.leftCallGraph (g.rules.size + 1) [] id mid = .ok mid' →
          Settles g.leftCallGraph id mid mid' := fun id _ =>
      search_settles (g.rules.size + 1) [] List.nodup_nil (by simp) (by simp [hsize]) id
    obtain ⟨hsettled, -, hall⟩ := settles_foldlM hvisit [] done hdone trivial
    exact ⟨done, hdone, hsettled, fun id hid => hall id (List.mem_range.mpr hid)⟩
  · cases hcycle

/-- **Without a cycle of left calls, the rules can be ranked.** -/
theorem exists_ranks {g : Grammar} (hcycle : g.leftCycle? = none) : ∃ rank, g.IsRanking rank := by
  obtain ⟨done, -, hsettled, hall⟩ := exists_settled hcycle
  let height := fun id => heightIn id done
  refine ⟨fun id => (g.below height id).card, isRanking_card_below ?_⟩
  intro id rule hrule r hr callee hresolve
  have hcallee := mem_leftCallGraph.mpr ⟨rule, hrule, r, hr, hresolve⟩
  exact heightIn_lt hcallee hsettled (hall id (Array.getElem?_eq_some_iff.mp hrule).1)

end Grammar
end Peg
end Packrat
