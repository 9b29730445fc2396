/-
# Which rules make a grammar

Rules make a grammar when no name is used twice, every name in them is the name of a rule, and no
rule can come back to itself along left calls; for no other reason are they refused, as long as
they have no more names than there are numbers (`Grammar.ofRules_decides`).  A number that stands
in a rule from the start has to be that of a rule where it is a left call; nothing else is asked of
it.

That a search without an error has seen every cycle follows from the ranks that it leaves
(`Grammar.exists_ranks`).  That an error shows a cycle is seen from the path: going along it from
its first rule, each rule left-calls the next, and the rule that the search has come back to stands
on it, so that what is behind it on the path, closed by the rule once more, is a closed walk
(`Grammar.search_error`).
-/

import Mathlib.Data.List.Chain
import Mathlib.Data.List.Dedup
import Packrat.Proofs.Peg.Link
import Packrat.Proofs.Peg.Lookup

namespace Packrat
namespace Peg

/-! ## Closed walks -/

/-- At least two stops, each related to the next, of which the last is the first. -/
structure IsClosedWalk {α : Type} (R : α → α → Prop) (walk : List α) : Prop where
  two_le : 2 ≤ walk.length
  closed : walk.head? = walk.getLast?
  chain : walk.IsChain R

namespace IsClosedWalk

variable {α β : Type} {R : α → α → Prop} {walk : List α}

/-- A closed walk leads from its first stop back to it. -/
theorem exists_transGen (h : IsClosedWalk R walk) : ∃ a, Relation.TransGen R a a := by
  obtain ⟨hlength, hclosed, hchain⟩ := h
  obtain ⟨a, b, rest, rfl⟩ : ∃ a b rest, walk = a :: b :: rest := by
    rcases walk with _ | ⟨a, _ | ⟨b, rest⟩⟩ <;> simp_all
  have hlast : (b :: rest).getLast (by simp) = a := by
    rw [List.head?_cons, List.getLast?_cons_cons, List.getLast?_eq_some_getLast (by simp)]
      at hclosed
    exact (Option.some.inj hclosed).symm
  obtain ⟨hfirst, hrest⟩ := List.isChain_cons_cons.mp hchain
  exact ⟨a, .head' hfirst (List.relationReflTransGen_of_exists_isChain_cons rest hrest hlast)⟩

/-- From each stop of a closed walk there is a way on. -/
theorem exists_next (h : IsClosedWalk R walk) {a : α} (ha : a ∈ walk) : ∃ b, R a b := by
  have htwo := h.two_le
  obtain ⟨k, hk, rfl⟩ := List.getElem_of_mem ha
  have hchain := List.isChain_iff_getElem.mp h.chain
  by_cases hlast : k + 1 < walk.length
  · exact ⟨_, hchain k hlast⟩
  · have hhead : walk[0]? = walk[k]? := by
      rw [← List.head?_eq_getElem?, h.closed, List.getLast?_eq_getElem?,
        show walk.length - 1 = k by omega]
    rw [List.getElem?_eq_getElem (by omega), List.getElem?_eq_getElem hk] at hhead
    exact ⟨_, Option.some.inj hhead ▸ hchain 0 (by omega)⟩

/-- The images of the stops of a closed walk. -/
theorem map (h : IsClosedWalk R walk) {S : β → β → Prop} {f : α → β}
    (hf : ∀ a ∈ walk, ∀ b ∈ walk, R a b → S (f a) (f b)) : IsClosedWalk S (walk.map f) where
  two_le := by simpa using h.two_le
  closed := by rw [List.head?_map, List.getLast?_map, h.closed]
  chain := by
    refine List.isChain_iff_getElem.mpr fun k hk => ?_
    rw [List.length_map] at hk
    simpa using hf _ (List.getElem_mem _) _ (List.getElem_mem _)
      (List.isChain_iff_getElem.mp h.chain k hk)

end IsClosedWalk

namespace Grammar

variable {g : Grammar}

/-! ## What an error of the search shows -/

section

variable {graph : Array (List Nat)}

/-- What stands before a member of a list, and the member. -/
theorem takeWhile_ne_concat {path : List Nat} {id : Nat} (hid : id ∈ path) :
    path.takeWhile (· ≠ id) ++ [id] <+: path := by
  induction path with
  | nil => cases hid
  | cons first path ih =>
    by_cases hfirst : first = id
    · simp [hfirst]
    · have hmem : id ∈ path := (List.mem_cons.mp hid).resolve_left (Ne.symm hfirst)
      simpa [hfirst] using ih hmem

/-- The search has come back to a rule on its path: the walk from there along the path, and back
again. -/
theorem isClosedWalk_of_mem {path : List Nat} {id : Nat}
    (hpath : (id :: path).IsChain fun callee id => callee ∈ graph.getD id []) (hid : id ∈ path) :
    IsClosedWalk (fun id callee => callee ∈ graph.getD id [])
      (id :: (path.takeWhile (· ≠ id)).reverse ++ [id]) where
  two_le := by simp
  closed := by rw [List.getLast?_concat]; rfl
  chain := by
    have hprefix := (List.prefix_cons_inj id).mpr (takeWhile_ne_concat hid)
    have hchain := List.IsChain.prefix hpath hprefix
    simpa using List.isChain_reverse.mpr hchain

/-- The first error of some visits is the error of one of them. -/
theorem exists_of_foldlM_error {visit : List Nat → Nat → Except (List Nat) (List Nat)}
    {walk : List Nat} {ids : List Nat} :
    ∀ {done}, ids.foldlM visit done = .error walk →
      ∃ id ∈ ids, ∃ done', visit done' id = .error walk := by
  induction ids with
  | nil =>
    intro done h
    cases h
  | cons id ids ih =>
    intro done h
    rw [List.foldlM_cons] at h
    cases hfirst : visit done id with
    | error walk' =>
      rw [hfirst] at h
      cases h
      exact ⟨id, by simp, done, hfirst⟩
    | ok mid =>
      rw [hfirst] at h
      obtain ⟨id', hid', hvisit⟩ := ih h
      exact ⟨id', by simp [hid'], hvisit⟩

/-- **The search errs only at a cycle**: if each rule of the path left-calls the one before it in
the list, and its first one leads to `id`, an error is a closed walk. -/
theorem search_error (depth : Nat) : ∀ {path : List Nat} {id : Nat} {done walk : List Nat},
    (id :: path).IsChain (fun callee id => callee ∈ graph.getD id []) →
    search graph depth path id done = .error walk →
      IsClosedWalk (fun id callee => callee ∈ graph.getD id []) walk := by
  induction depth with
  | zero =>
    intro path id done walk _ h
    cases h
  | succ depth ih =>
    intro path id done walk hpath h
    simp only [search] at h
    split_ifs at h with hback hdone
    · cases h
      exact isClosedWalk_of_mem hpath (by simpa using hback)
    · cases hfold : (graph.getD id []).foldlM
          (fun mid callee => search graph depth (id :: path) callee mid) done with
      | ok mid =>
        rw [hfold] at h
        cases h
      | error walk' =>
        rw [hfold] at h
        cases h
        obtain ⟨callee, hcallee, done', hvisit⟩ := exists_of_foldlM_error hfold
        exact ih (List.isChain_cons_cons.mpr ⟨hcallee, hpath⟩) hvisit

end

/-! ## Cycles of left calls -/

/-- Linking leaves all left calls as they are. -/
theorem leftCalls_linked {i j : Nat} : g.linked.LeftCalls i j ↔ g.LeftCalls i j := by
  rw [← mem_leftCallGraph, leftCallGraph_linked, mem_leftCallGraph]

/-- A cycle that is found is one. -/
theorem isClosedWalk_of_leftCycle? {walk : List Nat} (h : g.leftCycle? = some walk) :
    IsClosedWalk g.LeftCalls walk := by
  simp only [leftCycle?] at h
  split at h
  · cases h
  · next walk' herror =>
    cases h
    obtain ⟨id, -, done, hsearch⟩ := exists_of_foldlM_error herror
    have hwalk := search_error _ (List.isChain_singleton id) hsearch
    exact ⟨hwalk.two_le, hwalk.closed, hwalk.chain.imp fun _ _ => mem_leftCallGraph.mp⟩

/-- Ranks go down along ways of left calls. -/
theorem IsRanking.lt_of_transGen {rank : Nat → Nat} (hrank : g.IsRanking rank) {i j : Nat}
    (h : Relation.TransGen g.LeftCalls i j) (hj : j < g.rules.size) : rank j < rank i := by
  induction h with
  | single hcall =>
    obtain ⟨rule, hrule, r, hr, hresolve⟩ := hcall
    exact hrank.call _ rule hrule r hr _ hresolve hj
  | tail _ hcall ih =>
    obtain ⟨rule, hrule, r, hr, hresolve⟩ := hcall
    have hlast := hrank.call _ rule hrule r hr _ hresolve hj
    exact hlast.trans (ih (Array.getElem?_eq_some_iff.mp hrule).1)

/-- **No cycle is found exactly when there is none.** -/
theorem leftCycle?_eq_none_iff :
    g.leftCycle? = none ↔ ∀ id, ¬ Relation.TransGen g.LeftCalls id id := by
  constructor
  · intro h id hcycle
    obtain ⟨rank, hrank⟩ := exists_ranks h
    obtain ⟨next, hcall, -⟩ := Relation.TransGen.head'_iff.mp hcycle
    obtain ⟨rule, hrule, -⟩ := hcall
    have hlt := hrank.lt_of_transGen hcycle (Array.getElem?_eq_some_iff.mp hrule).1
    omega
  · intro h
    cases hcycle : g.leftCycle? with
    | none => rfl
    | some walk =>
      obtain ⟨id, hid⟩ := (isClosedWalk_of_leftCycle? hcycle).exists_transGen
      exact absurd hid (h id)

/-- A rule left-calls another, told by their names. -/
def NameCalls (g : Grammar) (name callee : String) : Prop :=
  ∃ i j, g.LeftCalls i j ∧ g.names[i]? = some name ∧ g.names[j]? = some callee

theorem getElem?_names (id : Nat) : g.names[id]? = g.rules[id]?.map (·.name) := by
  simp [names]

theorem names_linked : g.linked.names = g.names := by
  simp [names, linked]

/-- A cycle that is found, as it is shown: by the names of its rules. -/
theorem isClosedWalk_names {walk : List Nat} (h : g.leftCycle? = some walk) :
    IsClosedWalk g.NameCalls (walk.filterMap fun id => g.names[id]?) := by
  have hwalk := isClosedWalk_of_leftCycle? h
  have hname : ∀ id ∈ walk, g.names[id]? = some (g.names.getD id "") := by
    intro id hid
    obtain ⟨callee, rule, hrule, -⟩ := hwalk.exists_next hid
    simp [List.getD_eq_getElem?_getD, getElem?_names, hrule]
  have hnames : (walk.filterMap fun id => g.names[id]?)
      = walk.map fun id => g.names.getD id "" := by
    rw [← List.filterMap_eq_map]
    exact List.filterMap_congr hname
  rw [hnames]
  exact hwalk.map fun i hi j hj hcall => ⟨i, j, hcall, hname i hi, hname j hj⟩

/-! ## Names -/

/-- No name is used twice, if none is found. -/
theorem lastDuplicate?_eq_none_iff {rules : List Rule} : ∀ {seen : List String},
    lastDuplicate? seen rules = none ↔
      (rules.map (·.name)).Nodup ∧ ∀ rule ∈ rules, rule.name ∉ seen := by
  induction rules with
  | nil => simp [lastDuplicate?]
  | cons rule rules ih =>
    intro seen
    rw [List.map_cons, List.nodup_cons, List.forall_mem_cons]
    have hrest := @ih (rule.name :: seen)
    cases hdup : lastDuplicate? (rule.name :: seen) rules with
    | some name =>
      rw [hdup] at hrest
      simp only [lastDuplicate?, hdup, reduceCtorEq, false_iff] at hrest ⊢
      rintro ⟨⟨hnew, hnodup⟩, -, hseen⟩
      refine hrest ⟨hnodup, fun other hother hmem => ?_⟩
      rcases List.mem_cons.mp hmem with heq | hmem
      · exact hnew (List.mem_map.mpr ⟨other, hother, heq⟩)
      · exact hseen other hother hmem
    | none =>
      obtain ⟨hnodup, hnew⟩ := hrest.mp hdup
      have hfresh : rule.name ∉ rules.map (·.name) := by
        rintro hmem
        obtain ⟨other, hother, heq⟩ := List.mem_map.mp hmem
        exact hnew other hother (by simp [heq])
      have hseen : ∀ other ∈ rules, other.name ∉ seen :=
        fun other hother hmem => hnew other hother (List.mem_cons_of_mem _ hmem)
      by_cases hmem : rule.name ∈ seen
      · simp [lastDuplicate?, hdup, hmem]
      · simp only [lastDuplicate?, hdup, List.contains_iff_mem, if_neg hmem, true_iff]
        exact ⟨⟨hfresh, hnodup⟩, hmem, hseen⟩

/-- A name has a number when a rule bears it. -/
theorem isSome_id? {name : String} : (g.id? name).isSome = true ↔ name ∈ g.names := by
  simp [id?, names, Array.mem_iff_getElem]

/-- The number of a name leads to a rule that bears it. -/
theorem exists_of_id? {name : String} {id : Nat} (h : g.id? name = some id) :
    ∃ rule, g.rules[id]? = some rule ∧ rule.name = name := by
  obtain ⟨hid, hname, -⟩ := Array.findIdx?_eq_some_iff_getElem.mp h
  exact ⟨g.rules[id], Array.getElem?_eq_getElem hid, by simpa using hname⟩

/-- Every name that stands anywhere in a rule is the name of a rule. -/
def KnowsNames (g : Grammar) : Prop :=
  ∀ rule ∈ g.rules, ∀ name, .ref (.named name) ∈ rule.body.parts → name ∈ g.names

/-- Some rules as they are before linking. -/
def unlinked (rules : List Rule) : Grammar := ⟨rules.toArray⟩

theorem knowsNames_unlinked {rules : List Rule} : (unlinked rules).KnowsNames ↔
    ∀ rule ∈ rules, rule.body.HasNumbers (unlinked rules).id? := by
  simp only [KnowsNames, Term.HasNumbers, Term.Every, isSome_id?]
  have hmem : ∀ rule, rule ∈ (unlinked rules).rules ↔ rule ∈ rules := by simp [unlinked]
  refine forall_congr' fun rule => imp_congr (hmem rule) ?_
  constructor
  · rintro h u hu name rfl
    exact h name hu
  · exact fun h name hname => h _ hname name rfl

/-! ## The grammar of rules -/

/-- A grammar `g'` is that of the rules of `g`: these rules with numbers in the place of their
names, none of which is left, and each number leads to the rule of the name in its place. -/
structure IsLinkOf (g' g : Grammar) : Prop where
  eq_linked : g' = g.linked
  unnamed : ∀ rule ∈ g'.rules, ∀ name, .ref (.named name) ∉ rule.body.parts
  leads : ∀ (id : Nat) (rule : Rule), g.rules[id]? = some rule →
    ∃ rule' : Rule, g'.rules[id]? = some rule' ∧
    ∀ (place : Nat) (name : String), rule.body.parts[place]? = some (.ref (.named name)) →
      ∃ (target : Nat) (rule'' : Rule), rule'.body.parts[place]? = some (.ref (.linked target)) ∧
        g'.rules[target]? = some rule'' ∧ rule''.name = name

/-- If all names are known, linking leaves none. -/
theorem isLinkOf_linked (h : g.KnowsNames) : g.linked.IsLinkOf g where
  eq_linked := rfl
  unnamed := by
    intro rule' hrule' name hmem
    obtain ⟨rule, hrule, rfl⟩ := Array.mem_map.mp hrule'
    obtain ⟨r, hr, heq⟩ := Term.mem_parts_withRefs hmem
    cases r with
    | linked id => cases heq
    | named name' =>
      obtain ⟨id, hid⟩ := Option.isSome_iff_exists.mp (isSome_id?.mpr (h rule hrule name' hr))
      simp [RuleRef.numbered, hid] at heq
  leads := by
    intro id rule hrule
    refine ⟨_, by rw [getElem?_linked, hrule]; rfl, fun place name hplace => ?_⟩
    have hknown := h rule (Array.mem_of_getElem? hrule) name (List.mem_of_getElem? hplace)
    obtain ⟨target, htarget⟩ := Option.isSome_iff_exists.mp (isSome_id?.mpr hknown)
    obtain ⟨rule'', hrule'', hname⟩ := exists_of_id? htarget
    refine ⟨target, { rule'' with body := rule''.body.withRefs (.numbered g.id?) }, ?_,
      by rw [getElem?_linked, hrule'']; rfl, hname⟩
    simp [Term.parts_withRefs, hplace, Term.withRefs, RuleRef.numbered, htarget]

/-- Linking rules fails at a rule, and at a name. -/
theorem linkRules_error {id? : String → Option Nat} {rules : List Rule} {e : GrammarError}
    (h : linkRules id? rules = .error e) : ∃ rule target, e = .unknownRule rule target := by
  induction rules with
  | nil => cases h
  | cons rule rules ih =>
    rw [linkRules, List.mapM_cons] at h
    cases hbody : rule.body.link id? with
    | error target =>
      rw [hbody] at h
      cases h
      exact ⟨_, _, rfl⟩
    | ok body =>
      rw [hbody] at h
      cases hrest : linkRules id? rules with
      | error e' =>
        rw [linkRules] at hrest
        rw [hrest] at h
        cases h
        exact ih hrest
      | ok rest =>
        rw [linkRules] at hrest
        rw [hrest] at h
        cases h

/-- What is left to check when no name is used twice, there are not too many rules, and they have
been linked. -/
theorem ofRules_eq_map {rules linked : List Rule} (hdup : lastDuplicate? [] rules = none)
    (hfew : rules.length ≤ maxRules) (hlink : linkRules (unlinked rules).id? rules = .ok linked) :
    ofRules rules = (unlinked linked).checkLeftCalls.map fun _ => unlinked linked := by
  unfold unlinked at hlink
  unfold ofRules unlinked
  rw [hdup]
  simp only [if_neg (Nat.not_lt.mpr hfew), hlink]
  rfl

/-- How the checks may come out, when the rules do not run out of numbers. -/
theorem ofRules_cases {rules : List Rule} {g : Grammar} (hg : unlinked rules = g)
    (hmany : g.names.Nodup → rules.length ≤ maxRules) :
    (¬ g.names.Nodup ∧ ∃ name, ofRules rules = .error (.duplicateRule name)) ∨
    (g.names.Nodup ∧ ¬ g.KnowsNames ∧
      ∃ rule target, ofRules rules = .error (.unknownRule rule target)) ∨
    (g.names.Nodup ∧ g.KnowsNames ∧ ofRules rules = g.linked.checkLeftCalls.map fun _ =>
      g.linked) := by
  subst hg
  have hdup : lastDuplicate? [] rules = none ↔ (unlinked rules).names.Nodup := by
    simp [lastDuplicate?_eq_none_iff, unlinked, names]
  have hlink := linkRules_gives (unlinked rules).id? rules
  rw [← knowsNames_unlinked] at hlink
  cases hname : lastDuplicate? [] rules with
  | some name =>
    rw [hname] at hdup
    refine .inl ⟨by simpa using hdup, name, ?_⟩
    unfold ofRules
    rw [hname]
    rfl
  | none =>
    have hnodup := hdup.mp hname
    refine .inr ?_
    cases hlinked : linkRules (unlinked rules).id? rules with
    | error e =>
      rw [hlinked] at hlink
      obtain ⟨rule, target, rfl⟩ := linkRules_error hlinked
      refine .inl ⟨hnodup, hlink.not_of_error, rule, target, ?_⟩
      unfold ofRules
      rw [hname]
      unfold unlinked at hlinked
      simp only [if_neg (Nat.not_lt.mpr (hmany hnodup)), hlinked]
      rfl
    | ok linked =>
      obtain ⟨hknown, rfl⟩ := (hlink linked).mp hlinked
      have hgrammar : unlinked (rules.map fun rule =>
          { rule with body := rule.body.withRefs (.numbered (unlinked rules).id?) })
          = (unlinked rules).linked := by
        simp [unlinked, Grammar.linked]
      exact .inr ⟨hnodup, hknown, hgrammar ▸ ofRules_eq_map hname (hmany hnodup) hlinked⟩

/-- How the check of left calls may come out once names have been linked. -/
theorem checkLeftCalls_linked_cases (g : Grammar) :
    (∃ walk, g.leftCycle? = some walk ∧
      g.linked.checkLeftCalls = .error (.leftRecursion (walk.filterMap fun id => g.names[id]?))) ∨
    (∃ id i, g.linked.checkLeftCalls = .error (.noRule id g.rules.size) ∧ g.rules.size ≤ id ∧
      g.LeftCalls i id) ∨
    (g.leftCycle? = none ∧ (∀ i j, g.LeftCalls i j → j < g.rules.size) ∧
      g.linked.checkLeftCalls = .ok ()) := by
  rcases g.linked.checkLeftCalls_attempts with hplain | ⟨e, hstop, id, i, rfl, hout, hcall⟩
  · cases hcycle : g.leftCycle? with
    | some walk =>
      refine .inl ⟨walk, rfl, ?_⟩
      simp [hplain, plainCheck, leftCycle?_linked, hcycle, cycleError, namesOn,
        ← getElem?_names, names_linked]
    | none =>
      rw [plainCheck, leftCycle?_linked, hcycle] at hplain
      have hlt := (of_checkLeftCalls hplain).2
      simp only [leftCalls_linked, size_linked] at hlt
      exact .inr (.inr ⟨rfl, hlt, hplain⟩)
  · rw [size_linked] at hstop hout
    exact .inr (.inl ⟨id, i, hstop, hout, leftCalls_linked.mp hcall⟩)

/-- Every reference that stands anywhere in a rule, by name or by number, leads to a rule. -/
def KnowsRules (g : Grammar) : Prop :=
  ∀ rule ∈ g.rules, ∀ r, .ref r ∈ rule.body.parts → ∃ id < g.rules.size, g.resolve? r = some id

/-- A reference is by name or by number. -/
theorem knowsRules_iff : g.KnowsRules ↔ g.KnowsNames ∧ g.KnowsNumbers := by
  constructor
  · intro h
    refine ⟨fun rule hrule name hname => ?_, fun rule hrule id hid => ?_⟩
    · obtain ⟨id, -, hid⟩ := h rule hrule _ hname
      exact isSome_id?.mp (Option.isSome_iff_exists.mpr ⟨id, hid⟩)
    · obtain ⟨id', hlt, heq⟩ := h rule hrule _ hid
      exact Option.some.inj heq ▸ hlt
  · rintro ⟨hnames, hnumbers⟩ rule hrule r hr
    cases r with
    | linked id => exact ⟨id, hnumbers rule hrule id hr, rfl⟩
    | named name =>
      obtain ⟨id, hid⟩ := Option.isSome_iff_exists.mp (isSome_id?.mpr (hnames rule hrule name hr))
      exact ⟨id, (Array.findIdx?_eq_some_iff_getElem.mp hid).1, hid⟩

/-- **Which rules make a grammar.**  With no more names than numbers, rules make one exactly when
no name is used twice, every name in them is the name of a rule, left calls are to rules, and no
rule comes back to itself along them; the grammar is then that of these rules.  If the numbers that
stand in the rules from the start are of rules, this says of every reference that it leads to a
rule.  A cycle in an error is one, and a number in an error is that of no rule, and left-called. -/
theorem ofRules_decides {rules : List Rule} (hmany : (unlinked rules).names.dedup.length ≤ 65535) :
    ((∃ g, ofRules rules = .ok g) ↔ (unlinked rules).names.Nodup ∧ (unlinked rules).KnowsNames ∧
      (∀ id callee, (unlinked rules).LeftCalls id callee → callee < rules.length) ∧
      ∀ id, ¬ Relation.TransGen (unlinked rules).LeftCalls id id) ∧
    ((unlinked rules).KnowsNumbers → ((∃ g, ofRules rules = .ok g) ↔
      (unlinked rules).names.Nodup ∧ (unlinked rules).KnowsRules ∧
      ∀ id, ¬ Relation.TransGen (unlinked rules).LeftCalls id id)) ∧
    (∀ g, ofRules rules = .ok g → g.IsLinkOf (unlinked rules)) ∧
    (∀ cycle, ofRules rules = .error (.leftRecursion cycle) →
      IsClosedWalk (unlinked rules).NameCalls cycle) ∧
    (∀ id size, ofRules rules = .error (.noRule id size) →
      size = rules.length ∧ size ≤ id ∧ ∃ caller, (unlinked rules).LeftCalls caller id) := by
  have hfew : (unlinked rules).names.Nodup → rules.length ≤ maxRules := by
    intro hnodup
    rw [hnodup.dedup] at hmany
    simpa [unlinked, names, maxRules] using hmany
  have hsize : (unlinked rules).rules.size = rules.length := by simp [unlinked]
  rw [knowsRules_iff]
  obtain ⟨hdup, name, h⟩ | ⟨hnodup, hunknown, rule, target, h⟩ | ⟨hnodup, hknown, h⟩ :=
    ofRules_cases rfl hfew
  · simp [h, hdup]
  · simp [h, hunknown]
  rw [← hsize]
  obtain ⟨walk, hwalk, hcheck⟩ | ⟨id, i, hcheck, hout, hcall⟩ | ⟨hnone, hlt, hcheck⟩ :=
    (unlinked rules).checkLeftCalls_linked_cases <;> rw [hcheck] at h
  · have hcycle : ¬ ∀ id, ¬ Relation.TransGen (unlinked rules).LeftCalls id id := by
      rw [← leftCycle?_eq_none_iff, hwalk]
      simp
    refine ⟨by simp [h, Except.map, hcycle], by simp [h, Except.map, hcycle],
      by simp [h, Except.map], fun cycle hcycle => ?_, by simp [h, Except.map]⟩
    cases h.symm.trans hcycle
    exact isClosedWalk_names hwalk
  · have hstray : ¬ ∀ i j, (unlinked rules).LeftCalls i j → j < (unlinked rules).rules.size :=
      fun hlt => Nat.not_lt.mpr hout (hlt i id hcall)
    have hnumbers : ¬ (unlinked rules).KnowsNumbers := fun hnumbers =>
      hstray fun _ _ => hnumbers.lt
    refine ⟨by simp [h, Except.map, hstray], by simp [hnumbers], by simp [h, Except.map],
      by simp [h, Except.map], fun id' size' herror => ?_⟩
    cases h.symm.trans herror
    exact ⟨rfl, hout, i, hcall⟩
  · have hacyclic := leftCycle?_eq_none_iff.mp hnone
    refine ⟨⟨fun _ => ⟨hnodup, hknown, hlt, hacyclic⟩, fun _ => ⟨_, h⟩⟩, fun hnumbers =>
      ⟨fun _ => ⟨hnodup, ⟨hknown, hnumbers⟩, hacyclic⟩, fun _ => ⟨_, h⟩⟩, fun g hg => ?_,
      by simp [h, Except.map], by simp [h, Except.map]⟩
    cases h.symm.trans hg
    exact isLinkOf_linked hknown

/-- Two rules of which each may begin with the other, once what stands before it matches
nothing. -/
def mutualRules : List Rule :=
  [{ name := "a", body := .seq [.opt (.token .minus), .ref (.named "b")] },
   { name := "b", body := .seq [.star (.token .bang), .ref (.named "a"), .token .intNumber] }]

/-- They make no grammar, and the error shows their cycle. -/
theorem mutualRules_refused :
    (unlinked mutualRules).names.dedup.length ≤ 65535 ∧
      ofRules mutualRules = .error (.leftRecursion ["a", "b", "a"]) ∧
      IsClosedWalk (unlinked mutualRules).NameCalls ["a", "b", "a"] ∧
      ¬ ∀ id, ¬ Relation.TransGen (unlinked mutualRules).LeftCalls id id := by
  have hmany : (unlinked mutualRules).names.dedup.length ≤ 65535 := by decide
  have herror : ofRules mutualRules = .error (.leftRecursion ["a", "b", "a"]) := by cbv
  obtain ⟨-, hiff, -, hcycle, -⟩ := ofRules_decides hmany
  refine ⟨hmany, herror, hcycle _ herror, fun hacyclic => ?_⟩
  have hnodup : (unlinked mutualRules).names.Nodup := by decide
  have hknown : (unlinked mutualRules).KnowsNames := knowsNames_unlinked.mpr (by
    simp [mutualRules, Term.HasNumbers, Term.Every, Term.parts, Term.partsOfAll, isSome_id?,
      unlinked, names])
  have hnumbers : (unlinked mutualRules).KnowsNumbers := by
    simp [KnowsNumbers, unlinked, mutualRules, Term.parts, Term.partsOfAll]
  obtain ⟨g, hg⟩ := (hiff hnumbers).mpr ⟨hnodup, knowsRules_iff.mpr ⟨hknown, hnumbers⟩, hacyclic⟩
  cases herror.symm.trans hg

/-- A rule that left-calls a number of no rule makes no grammar either, but where the number stands
behind a token it goes unnoticed. -/
example : ofRules [{ name := "a", body := .ref (.linked 7) }] = .error (.noRule 7 1) ∧
    (ofRules [{ name := "a", body := .seq [.any, .ref (.linked 7)] }]).isOk = true := by
  constructor <;> cbv

end Grammar
end Peg
end Packrat
