/-
# Finding the parts of a node

The views of a node are the nodes right below it that a position accepts, in order
(`Located.map_node_views`).  One of them is found by its number, or behind a token: what is right
below a node stands side by side (`Located.pairwise_children`), so whatever stands behind some token
of a kind also stands behind the first one (`Located.isSome_viewAfter?`).
-/

import Packrat.Proofs.Tree.Located
import Packrat.Typed.View

namespace Packrat
namespace Located

variable {n c t : Located} {accepts : Kind → Bool}

/-! ## Views by number -/

theorem as?_eq_some (h : accepts c.kind = true) : c.as? = some (⟨c, h⟩ : View accepts) := dif_pos h

theorem filterMap_as?_cons (h : accepts c.kind = true) (cs : List Located) :
    (c :: cs).filterMap as? = (⟨c, h⟩ : View accepts) :: cs.filterMap as? :=
  List.filterMap_cons_some (as?_eq_some h)

/-- A view for each node of an accepted kind. -/
theorem map_node_views (accepts : Kind → Bool) (n : Located) :
    (n.views : List (View accepts)).map (·.node) = n.nodes.filter fun c => accepts c.kind := by
  rw [views]
  induction n.nodes with
  | nil => rfl
  | cons c cs ih =>
    rw [List.filterMap_cons, List.filter_cons, as?]
    by_cases hc : accepts c.kind = true
    · rw [dif_pos hc, if_pos hc, List.map_cons, ih]
    · rw [dif_neg hc, if_neg hc, ih]

theorem length_views (accepts : Kind → Bool) (n : Located) :
    (n.views : List (View accepts)).length = (n.nodes.filter fun c => accepts c.kind).length := by
  rw [← map_node_views, List.length_map]

/-- The first view is the first of all views. -/
theorem view?_eq_head? (n : Located) : (n.view? : Option (View accepts)) = n.views.head? :=
  List.head?_filterMap.symm

/-- The first view is on the first node of an accepted kind. -/
theorem map_node_view? (accepts : Kind → Bool) (n : Located) :
    (n.view? : Option (View accepts)).map (·.node) =
      (n.nodes.filter fun c => accepts c.kind).head? := by
  rw [view?_eq_head?, ← List.head?_map, map_node_views]

/-- The first view is on the first node of them. -/
theorem exists_view? {cs : List Located}
    (h : (n.views : List (View accepts)).map (·.node) = c :: cs) :
    ∃ v : View accepts, n.view? = some v ∧ v.node = c := by
  obtain ⟨v, vs, hviews, hnode, -⟩ := List.map_eq_cons_iff.mp h
  exact ⟨v, by rw [view?_eq_head?, hviews]; rfl, hnode⟩

/-- A view that is the only one is the first. -/
theorem toList_view? (h : (n.views : List (View accepts)).length ≤ 1) :
    (n.view? : Option (View accepts)).toList = n.views := by
  rw [view?_eq_head?]
  generalize (n.views : List (View accepts)) = vs at h
  rcases vs with _ | ⟨v, _ | ⟨w, vs⟩⟩
  · rfl
  · rfl
  · simp at h

/-- A node right below another stands below the root. -/
theorem mem_tail_of_mem_nodes (hd : d ∈ n.descendants) (hc : c ∈ d.nodes) :
    c ∈ n.descendants.tail :=
  n.tail_descendants_perm.mem_iff.mpr (List.mem_flatMap.mpr ⟨d, hd, hc⟩)

theorem node_of_as? {v : View accepts} (h : c.as? = some v) : v.node = c := by
  rw [as?] at h
  split at h
  · cases h
    rfl
  · cases h

/-- The node of a view stands under the node that the view was found under. -/
theorem node_mem_descendants {v : View accepts} (h : v ∈ n.viewsWithin) :
    v.node ∈ n.descendants := by
  obtain ⟨d, hd, has⟩ := List.mem_filterMap.mp h
  rwa [node_of_as? has]

/-- The node of a view right below another node is a node right below it. -/
theorem node_mem_nodes {v : View accepts} (h : v ∈ n.views) : v.node ∈ n.nodes := by
  obtain ⟨d, hd, has⟩ := List.mem_filterMap.mp h
  rwa [node_of_as? has]

/-! ## Side by side -/

theorem start_le_stop (n : Located) : n.start ≤ n.stop := Nat.le_add_right ..

/-- Trees that stand side by side come one behind the other. -/
theorem Run.pairwise {start stop : Nat} {ns : List Located} (h : Run start ns stop) :
    ns.Pairwise fun a b => a.stop ≤ b.start := by
  induction h with
  | nil => exact .nil
  | cons _ hrest ih => exact .cons (fun b hb => (hrest.le_of_mem hb).1) ih

/-- What is right below a node stands side by side. -/
theorem run_of_locate (parent : Kind) (ts : List Tree) : ∀ (start : Nat) (before : List Tree),
    Run start (locate parent start before ts) (start + Tree.sizeAll ts) := by
  induction ts with
  | nil => exact fun start _ => .nil
  | cons t ts ih =>
    intro start before
    refine .cons rfl ?_
    rw [Tree.sizeAll, ← Nat.add_assoc]
    exact ih (start + t.size) (t :: before)

theorem pairwise_children (n : Located) : n.children.Pairwise fun a b => a.stop ≤ b.start :=
  (run_of_locate n.kind n.tree.children n.start []).pairwise

/-! ## Views behind a token -/

/-- A view behind some token of a kind is a view behind the first one. -/
theorem isSome_viewAfter? {k : Kind} (ht : t ∈ n.tokens) (hkind : t.kind = k) (hc : c ∈ n.nodes)
    (haccepts : accepts c.kind = true) (hle : t.stop ≤ c.start) :
    (n.viewAfter? k : Option (View accepts)).isSome = true := by
  have hsome : (n.token? k).isSome = true :=
    List.find?_isSome.mpr ⟨t, ht, by simp [hkind]⟩
  obtain ⟨first, hfirst⟩ := Option.isSome_iff_exists.mp hsome
  obtain ⟨-, before, behind, htokens, hnone⟩ := List.find?_eq_some_iff_append.mp hfirst
  -- the first token of the kind is the one at hand, or stands before it
  have hpair : n.tokens.Pairwise fun a b => a.stop ≤ b.start :=
    n.pairwise_children.sublist List.filter_sublist
  have hfirst_le : first.stop ≤ t.stop := by
    rw [htokens] at ht hpair
    rcases List.mem_append.mp ht with ht | ht
    · have hother := hnone t ht
      simp [hkind] at hother
    · rcases List.mem_cons.mp ht with rfl | ht
      · exact Nat.le_refl _
      · have hlt := List.rel_of_pairwise_cons (List.pairwise_append.mp hpair).2.1 ht
        exact hlt.trans t.start_le_stop
  have hmem : c ∈ n.nodesFrom first.stop :=
    List.mem_filter.mpr ⟨hc, decide_eq_true (hfirst_le.trans hle)⟩
  rw [viewAfter?, hfirst, Option.bind_some, List.isSome_findSome?]
  exact List.any_eq_true.mpr ⟨c, hmem, by simp [as?, haccepts]⟩

/-- There is no view behind a token that is not there. -/
theorem viewAfter?_eq_none {k : Kind} (h : n.has k = false) :
    (n.viewAfter? k : Option (View accepts)) = none := by
  have hnone : n.token? k = none := by
    rw [token?, List.find?_eq_none]
    exact fun t ht => by simpa using List.any_eq_false.mp h t ht
  rw [viewAfter?, hnone, Option.bind_none]

end Located
end Packrat
