/-
# Which nodes stand right under which

A term gives nodes of few kinds without another node around them (`Term.tops`), and these are known
from the rules alone, once it is known which ones each rule gives.  A table of them is right if it
is closed: what the body of a rule gives is in the table, or the rule has a node of its own.  Under
a node stand what the term inside it gives, so whether only kinds that are `allowed` stand under the
nodes of a grammar's matches can be seen by looking at each node of each rule (`Grammar.Obeys`,
`Yields.fits`).

A round of a fold stands over what was gathered before it, that is the operand or another round.
Therefore all tails of a fold are allowed under each of them.

Sets of kinds are numbers, and so is a whole table of them, so that looking at a grammar is
arithmetic.
-/

import Packrat.Proofs.Peg.Part
import Packrat.Proofs.Peg.Yield

namespace Packrat

/-! ## Sets of kinds -/

/-- A set of kinds: those whose index is the place of a bit that is set. -/
structure KindSet where
  bits : Nat

theorem Kind.index_inj {k l : Kind} (h : k.index = l.index) : k = l := by
  have hback := congrArg Kind.ofNat h
  simpa only [index, Kind.ofNat_ctorIdx] using hback

namespace KindSet

instance : Membership Kind KindSet := ⟨fun s k => s.bits.testBit k.index = true⟩

instance : EmptyCollection KindSet := ⟨⟨0⟩⟩

instance : Singleton Kind KindSet := ⟨fun k => ⟨1 <<< k.index⟩⟩

instance : Union KindSet := ⟨fun s t => ⟨s.bits ||| t.bits⟩⟩

instance : HasSubset KindSet := ⟨fun s t => ∀ k ∈ s, k ∈ t⟩

/-- The kinds of a list. -/
def ofList (ks : List Kind) : KindSet := ks.foldr (fun k s => {k} ∪ s) ∅

/-- Each kind of the first set is in the second. -/
def isSubset (s t : KindSet) : Bool := s.bits ||| t.bits == t.bits

variable {s t u : KindSet} {k l : Kind} {ks : List Kind}

theorem not_mem_empty : k ∉ (∅ : KindSet) := by
  intro h
  have hbit : Nat.testBit 0 k.index = true := h
  simp at hbit

@[simp] theorem mem_singleton : k ∈ ({l} : KindSet) ↔ k = l := by
  show Nat.testBit (1 <<< l.index) k.index = true ↔ k = l
  rw [Nat.one_shiftLeft, Nat.testBit_two_pow, decide_eq_true_iff]
  exact ⟨fun h => (Kind.index_inj h).symm, fun h => congrArg Kind.index h.symm⟩

@[simp] theorem mem_union : k ∈ s ∪ t ↔ k ∈ s ∨ k ∈ t := by
  show Nat.testBit (s.bits ||| t.bits) k.index = true ↔ _
  rw [Nat.testBit_or, Bool.or_eq_true]
  exact Iff.rfl

@[simp] theorem mem_ofList : k ∈ ofList ks ↔ k ∈ ks := by
  induction ks with
  | nil => exact iff_of_false not_mem_empty List.not_mem_nil
  | cons l ks ih =>
    rw [List.mem_cons, ← ih, ← mem_singleton]
    exact mem_union

theorem subset_of_isSubset (h : s.isSubset t = true) : s ⊆ t := by
  intro k hk
  have hunion : s.bits ||| t.bits = t.bits := by simpa [isSubset] using h
  have hmem : k ∈ s ∪ t := mem_union.mpr (.inl hk)
  show Nat.testBit t.bits k.index = true
  rw [← hunion]
  exact hmem

theorem subset_union_left : s ⊆ s ∪ t := fun _ hk => mem_union.mpr (.inl hk)

theorem subset_union_right : t ⊆ s ∪ t := fun _ hk => mem_union.mpr (.inr hk)

theorem subset_trans (h : s ⊆ t) (h' : t ⊆ u) : s ⊆ u := fun k hk => h' k (h k hk)

end KindSet

namespace Peg

/-! ## Trees with allowed kinds -/

namespace Match

/-- Under a node stand only nodes of the kinds that are allowed there. -/
inductive Obeys (allowed : Kind → KindSet) : Match → Prop where
  | token {index kind part} : Obeys allowed (.token index kind part)
  | node {kind children} : (∀ k ms, .node k ms ∈ children → k ∈ allowed kind) →
    (∀ c ∈ children, Obeys allowed c) → Obeys allowed (.node kind children)

/-- Trees with allowed kinds in them, whose own kinds are in a set. -/
structure Fits (allowed : Kind → KindSet) (set : KindSet) (ns : List Match) : Prop where
  obeys : ∀ n ∈ ns, n.Obeys allowed
  tops : ∀ k ms, .node k ms ∈ ns → k ∈ set

variable {allowed : Kind → KindSet} {s t : KindSet} {ns ms : List Match} {kind : Kind}

theorem Fits.nil : Fits allowed s [] := ⟨by simp, by simp⟩

theorem Fits.leaf {index : Nat} {part : Option (UInt8 × UInt8)} :
    Fits allowed s [.token index kind part] :=
  ⟨fun _ hn => List.mem_singleton.mp hn ▸ .token, by simp⟩

theorem Fits.mono (h : Fits allowed s ns) (hst : s ⊆ t) : Fits allowed t ns :=
  ⟨h.obeys, fun k ms hk => hst k (h.tops k ms hk)⟩

theorem Fits.append (h : Fits allowed s ns) (h' : Fits allowed s ms) : Fits allowed s (ns ++ ms) :=
  ⟨fun n hn => (List.mem_append.mp hn).elim (h.obeys n) (h'.obeys n),
    fun k cs hk => (List.mem_append.mp hk).elim (h.tops k cs) (h'.tops k cs)⟩

/-- A node around trees that are allowed under it. -/
theorem Fits.node (h : Fits allowed (allowed kind) ns) (hs : kind ∈ s) :
    Fits allowed s [.node kind ns] := by
  refine ⟨fun n hn => ?_, fun k ms hk => ?_⟩
  · obtain rfl := List.mem_singleton.mp hn
    exact .node h.tops h.obeys
  · cases List.mem_singleton.mp hk
    exact hs

end Match

/-! ## Kinds without a node around them -/

namespace Term

mutual

/-- The kinds of nodes that a term gives without another node around them, by those that references
give. -/
def tops (of : RuleRef → KindSet) : Term → KindSet
  | .token _ | .split _ | .word _ | .any | .ended | .ahead _ | .notAhead _ => ∅
  | .seq items | .choice items => topsOfAll of items
  | .opt body | .star body | .plus body | .scoped _ _ body | .gate _ _ body => body.tops of
  | .ref rule => of rule
  | .node kind _ => {kind}
  | .fold operand tails _ => operand.tops of ∪ KindSet.ofList (tails.map (·.1))

/-- The kinds of nodes that some terms give without another node around them. -/
def topsOfAll (of : RuleRef → KindSet) : List Term → KindSet
  | [] => ∅
  | t :: ts => t.tops of ∪ topsOfAll of ts

end

theorem tops_subset_topsOfAll {of : RuleRef → KindSet} {t : Term} {ts : List Term} (h : t ∈ ts) :
    t.tops of ⊆ topsOfAll of ts := by
  induction ts with
  | nil => cases h
  | cons t' ts ih =>
    rcases List.mem_cons.mp h with rfl | h
    · exact KindSet.subset_union_left
    · exact KindSet.subset_trans (ih h) KindSet.subset_union_right

end Term

/-! ## A table for the rules -/

/-- Sets of kinds in a row. -/
structure KindTable where
  bits : Nat

namespace KindTable

/-- The number of bits of a set. -/
def width : Nat := 256

/-- The set at a place. -/
def get (table : KindTable) (id : Nat) : KindSet := ⟨(table.bits >>> (id * width)) % (1 <<< width)⟩

/-- The table of some sets. -/
def ofSets : List KindSet → KindTable
  | [] => ⟨0⟩
  | s :: sets => ⟨s.bits + (ofSets sets).bits <<< width⟩

end KindTable

namespace Grammar

variable (g : Grammar) (table : KindTable) (allowed : Kind → KindSet)

/-- The kinds that a table has for a reference. -/
def topsOf (r : RuleRef) : KindSet := ((g.resolve? r).map table.get).getD ∅

/-- The kinds that a rule gives, by a table. -/
def ruleTops (rule : Rule) : KindSet :=
  match rule.kind with
  | some kind => {kind}
  | none => rule.body.tops (g.topsOf table)

/-- Rounds of looking at all rules until nothing changes, at most `n`. -/
def tableRounds : Nat → KindTable → KindTable
  | 0, table => table
  | n + 1, table =>
    let next := KindTable.ofSets (g.rules.toList.map (g.ruleTops table))
    if next.bits = table.bits then table else tableRounds n next

/-- What the rules give, if there are enough rounds. -/
def topsTable (rounds : Nat) : KindTable := g.tableRounds rounds ⟨0⟩

/-- What stands right in a node of a term is allowed there, by a table. -/
def keeps : Term → Bool
  | .node kind body => (body.tops (g.topsOf table)).isSubset (allowed kind)
  | .fold operand tails max => tails.all fun (kind, tail) =>
    ((Term.fold operand tails max).tops (g.topsOf table) ∪
      tail.tops (g.topsOf table)).isSubset (allowed kind)
  | _ => true

/-- All nodes in a term keep what is allowed. -/
abbrev Keeps (t : Term) : Prop := t.Every (g.keeps table allowed · = true)

/-- A table is closed, and no rule puts a node where it is not allowed. -/
structure Obeys : Prop where
  /-- What a rule gives is in the table. -/
  closed : ∀ (id : Nat) (rule : Rule), g.rules[id]? = some rule →
    g.ruleTops table rule ⊆ table.get id
  /-- Nodes inside of rules keep what is allowed. -/
  parts : ∀ (id : Nat) (rule : Rule), g.rules[id]? = some rule → g.Keeps table allowed rule.body
  /-- So do the nodes of the rules themselves. -/
  kinds : ∀ (id : Nat) (rule : Rule) (kind : Kind), g.rules[id]? = some rule →
    rule.kind = some kind → rule.body.tops (g.topsOf table) ⊆ allowed kind

/-- Whether a rule at a place keeps to a table and to what is allowed. -/
def ruleObeys (rule : Rule) (id : Nat) : Bool :=
  (g.ruleTops table rule).isSubset (table.get id) && rule.body.parts.all (g.keeps table allowed) &&
    rule.kind.all fun kind => (rule.body.tops (g.topsOf table)).isSubset (allowed kind)

/-- Whether all rules keep to a table and to what is allowed. -/
def obeys : Bool := g.rules.toList.zipIdx.all fun (rule, id) => g.ruleObeys table allowed rule id

variable {g table allowed}

theorem obeys_of_all (h : g.obeys table allowed = true) : g.Obeys table allowed := by
  have hrule : ∀ id rule, g.rules[id]? = some rule → g.ruleObeys table allowed rule id = true := by
    intro id rule hrule
    refine List.all_eq_true.mp h (rule, id) (List.mem_zipIdx_iff_getElem?.mpr ?_)
    rwa [Array.getElem?_toList]
  refine ⟨fun id rule hr => ?_, fun id rule hr => ?_, fun id rule kind hr hkind => ?_⟩
  all_goals
    have hall := hrule id rule hr
    simp only [ruleObeys, Bool.and_eq_true] at hall
    obtain ⟨⟨hclosed, hparts⟩, hnode⟩ := hall
  · exact KindSet.subset_of_isSubset hclosed
  · exact List.all_eq_true.mp hparts
  · exact KindSet.subset_of_isSubset (Option.all_eq_true _ _ |>.mp hnode kind hkind)

end Grammar

/-! ## What is given obeys -/

variable {g : Grammar} {table : KindTable} {allowed : Kind → KindSet}

/-- What a goal gives has allowed kinds in it.  The rounds of a fold go on from trees of a set of
kinds that are allowed, with its own, under all its tails. -/
def Goal.Fits (g : Grammar) (table : KindTable) (allowed : Kind → KindSet) (ns : List Match) :
    Goal → Prop
  | .term t => g.Keeps table allowed t → Match.Fits allowed (t.tops (g.topsOf table)) ns
  | .rounds tails _ done => ∀ set : KindSet, (∀ tail ∈ tails, g.Keeps table allowed tail.2 ∧
      tail.1 ∈ set ∧ set ∪ tail.2.tops (g.topsOf table) ⊆ allowed tail.1) →
      Match.Fits allowed set done → Match.Fits allowed set ns

/-- What a rule makes of trees that its body gives. -/
theorem Grammar.Obeys.close (hg : g.Obeys table allowed) {id : Nat} {rule : Rule}
    (hrule : g.rules[id]? = some rule) {ns : List Match}
    (h : Match.Fits allowed (rule.body.tops (g.topsOf table)) ns) :
    Match.Fits allowed (table.get id) (rule.close ns) := by
  have hclosed := hg.closed id rule hrule
  rw [ruleTops] at hclosed
  cases hkind : rule.kind with
  | none =>
    rw [hkind] at hclosed
    rw [Rule.close, hkind]
    exact h.mono hclosed
  | some kind =>
    rw [hkind] at hclosed
    rw [Rule.close, hkind]
    refine .node (h.mono (hg.kinds id rule kind hrule hkind)) (hclosed kind ?_)
    exact KindSet.mem_singleton.mpr rfl

/-- **Only allowed nodes stand right under the nodes that a grammar gives.** -/
theorem Grammar.Yields.fits {goal : Goal} {ns : List Match} (hg : g.Obeys table allowed)
    (h : g.Yields goal ns) : goal.Fits g table allowed ns := by
  induction h with
  | token => exact fun _ => .leaf
  | split => exact fun _ => .leaf
  | word => exact fun _ => .leaf
  | any => exact fun _ => .leaf
  | ended => exact fun _ => .nil
  | seq_nil => exact fun _ => .nil
  | seq_cons _ _ ih₁ ih₂ =>
    intro hkeeps
    have hfirst := ih₁ (hkeeps.child (by simp [Term.children]))
    have hrest := ih₂ (Term.every_iff.mpr ⟨rfl, fun c hc =>
      hkeeps.child (List.mem_cons_of_mem _ hc)⟩)
    exact (hfirst.mono KindSet.subset_union_left).append (hrest.mono KindSet.subset_union_right)
  | choice ht _ ih =>
    exact fun hkeeps => (ih (hkeeps.child ht)).mono (Term.tops_subset_topsOfAll ht)
  | opt_none => exact fun _ => .nil
  | opt_some _ ih => exact fun hkeeps => ih (hkeeps.child (by simp [Term.children]))
  | star_nil => exact fun _ => .nil
  | star_cons _ _ ih₁ ih₂ =>
    exact fun hkeeps => (ih₁ (hkeeps.child (by simp [Term.children]))).append (ih₂ hkeeps)
  | plus _ _ ih₁ ih₂ =>
    intro hkeeps
    have hrest := ih₂ (Term.every_iff.mpr ⟨rfl, fun c hc => hkeeps.child hc⟩)
    exact (ih₁ (hkeeps.child (by simp [Term.children]))).append hrest
  | ahead => exact fun _ => .nil
  | notAhead => exact fun _ => .nil
  | @ref r id rule ns hr hrule _ ih =>
    intro _
    have htops : (Term.ref r).tops (g.topsOf table) = table.get id := by
      rw [Term.tops, Grammar.topsOf, hr]
      rfl
    rw [htops]
    exact hg.close hrule (ih (hg.parts id rule hrule))
  | node _ ih =>
    intro hkeeps
    have hunder := KindSet.subset_of_isSubset hkeeps.self
    exact .node ((ih (hkeeps.child (by simp [Term.children]))).mono hunder)
      (KindSet.mem_singleton.mpr rfl)
  | scope _ ih => exact fun hkeeps => ih (hkeeps.child (by simp [Term.children]))
  | gate _ ih => exact fun hkeeps => ih (hkeeps.child (by simp [Term.children]))
  | @fold operand tails max ns ms _ _ ih₁ ih₂ =>
    intro hkeeps
    refine ih₂ _ (fun tail htail => ⟨?_, ?_, ?_⟩) ?_
    · exact hkeeps.child (List.mem_cons_of_mem _ (List.mem_map_of_mem htail))
    · exact KindSet.mem_union.mpr (.inr (KindSet.mem_ofList.mpr (List.mem_map_of_mem htail)))
    · exact KindSet.subset_of_isSubset (List.all_eq_true.mp hkeeps.self tail htail)
    · exact (ih₁ (hkeeps.child List.mem_cons_self)).mono KindSet.subset_union_left
  | rounds_end => exact fun set _ hdone => hdone
  | rounds_more htail _ _ ih₁ ih₂ =>
    intro set htails hdone
    obtain ⟨hkeeps, hmem, hunder⟩ := htails _ htail
    have hround := (hdone.mono KindSet.subset_union_left).append
      ((ih₁ hkeeps).mono KindSet.subset_union_right)
    exact ih₂ set htails (.node (hround.mono hunder) hmem)

end Peg
end Packrat
