/-
# Nodes that take their closer

Where a sequence ends in a leaf that may be left out, it is left out only if it is not there: what
was matched ends with the leaf, or something else is at the place behind
(`Parses.ends_in_closer`).  If all nodes of a kind are made of such sequences, one that lacks its
closer never has the closer right behind it, whatever is around the two (`AreClosed`).

A relation carries this over all that terms match (`Closes.isRoute`).  It tells what is at either
end, so that trees which go on where others stopped can be put behind them:

| field | of trees from one place up to another |
| --- | --- |
| `inside`, `apart` | the closer is not left behind, under a node or among the trees |
| `first` | if their first leaf is a closer, one is at the place where they begin |
| `last` | if their last tree lacks its closer, none is at the place where they stop |
| `stay` | they stop where they begin, if they have no leaves |
-/

import Mathlib.Data.List.Chain
import Packrat.Proofs.Peg.Row

namespace Packrat
namespace Peg

/-! ## Trees that lack their closer -/

/-- A child, with the last of its own children. -/
structure Profile where
  child : Child
  last : Option Child
  deriving DecidableEq, Repr

/-- A node of a kind without its closer. -/
def Profile.IsOpen (kind closer : Kind) (o : Profile) : Prop :=
  o.child = .node kind ∧ o.last ≠ some (.leaf closer)

/-- No node of a kind that lacks its closer has the closer right behind it. -/
def AreClosed (kind closer : Kind) (os : List Profile) : Prop :=
  os.IsChain fun o o' => o.IsOpen kind closer → o'.child ≠ .leaf closer

namespace Match

/-- A tree as it looks from above. -/
def profile (n : Match) : Profile := ⟨n.child, n.children.getLast?.map child⟩

/-- Under each node in the tree the closers are not left behind. -/
def TakesClosers (kind closer : Kind) (n : Match) : Prop :=
  ∀ k ms, (node k ms).Within n → AreClosed kind closer (ms.map profile)

variable {kind closer k : Kind} {ns : List Match}

theorem not_isOpen_token {index : Nat} {part : Option (UInt8 × UInt8)} :
    ¬ (token index k part).profile.IsOpen kind closer := fun h => by cases h.1

/-- Leaves have no nodes below them. -/
theorem takesClosers_token (index : Nat) (part : Option (UInt8 × UInt8)) :
    (token index k part).TakesClosers kind closer := by
  intro k ms h
  cases h

theorem takesClosers_node (hns : AreClosed kind closer (ns.map profile))
    (hinside : ∀ n ∈ ns, n.TakesClosers kind closer) : (node k ns).TakesClosers kind closer := by
  intro k' ms h
  cases h with
  | self => exact hns
  | inner hc hwithin => exact hinside _ hc k' ms hwithin

/-- What a node holds is closed as the node is. -/
theorem TakesClosers.of_node (h : (node k ns).TakesClosers kind closer) :
    AreClosed kind closer (ns.map profile) ∧ ∀ n ∈ ns, n.TakesClosers kind closer :=
  ⟨h k ns .self, fun _ hn k' ms hwithin => h k' ms (.inner hn hwithin)⟩

/-- More trees before those under a node do not change how the node ends, if there are any. -/
theorem isOpen_of_append {ms : List Match} (h : (node k (ns ++ ms)).profile.IsOpen kind closer) :
    (node k ms).profile.IsOpen kind closer := by
  refine ⟨h.1, fun hlast => h.2 ?_⟩
  obtain ⟨n, hn, hchild⟩ := Option.map_eq_some_iff.mp hlast
  exact Option.map_eq_some_iff.mpr ⟨n, List.mem_getLast?_append_of_mem_getLast? hn, hchild⟩

/-- A leaf that is the first tree is the first leaf. -/
theorem head?_leavesAll (h : ns.head?.map child = some (.leaf k)) :
    (leavesAll ns).head?.map child = some (.leaf k) := by
  obtain ⟨n, hn, hchild⟩ := Option.map_eq_some_iff.mp h
  obtain ⟨ms, rfl⟩ := List.head?_eq_some_iff.mp hn
  cases n with
  | token => exact congrArg some hchild
  | node => cases hchild

end Match

/-! ## Terms that take their closer -/

namespace Term

/-- The term reads a leaf of a kind, if there is one. -/
def takes (closer : Kind) : Term → Bool
  | .token kind | .opt (.token kind) => kind == closer
  | _ => false

/-- The last thing that the term does is to take a closer. -/
def endsIn (closer : Kind) : Term → Bool
  | .seq items => items.getLast?.any (·.takes closer)
  | _ => false

/-- Nodes of a kind that the term makes itself end in a closer, and closers are not cut off other
tokens. -/
def closes (kind closer : Kind) : Term → Bool
  | .split k => k != closer
  | .node k body => k != kind || body.endsIn closer
  | .fold _ tails _ => tails.all fun tail => tail.1 != kind || tail.2.endsIn closer
  | _ => true

end Term

/-- All nodes of a kind are made by terms that take their closer. -/
def Grammar.closes (g : Grammar) (kind closer : Kind) : Bool :=
  g.rules.toList.all fun rule =>
    rule.kind != some kind && rule.body.parts.all (·.closes kind closer)

section

variable {m : Machine} {f : Flags} {t : Term} {pos stop : Pos} {ns : List Match}
  {kind closer : Kind}

theorem Grammar.closes_rule {g : Grammar} (h : g.closes kind closer = true) {id : Nat} {rule : Rule}
    (hrule : g.rules[id]? = some rule) :
    rule.kind ≠ some kind ∧ rule.body.Every fun u => u.closes kind closer = true := by
  have hmem : rule ∈ g.rules.toList := Array.mem_toList_iff.mpr (Array.mem_of_getElem? hrule)
  obtain ⟨hkind, hbody⟩ := Bool.and_eq_true_iff.mp (List.all_eq_true.mp h rule hmem)
  exact ⟨bne_iff_ne.mp hkind, List.all_eq_true.mp hbody⟩

/-- A token that is read is the only leaf. -/
theorem Machine.read?_token (h : m.read? pos (.token closer) = some (ns, stop)) :
    ns.getLast?.map Match.child = some (.leaf closer) := by
  simp only [read?] at h
  split_ifs at h
  cases h
  rfl

/-- A closer is read, or is not there. -/
theorem Parses.takes_closer (ht : t.takes closer = true)
    (h : Parses m f (.term t) pos (some (ns, stop))) :
    ns.getLast?.map Match.child = some (.leaf closer) ∨ m.kindAt stop ≠ closer := by
  unfold Term.takes at ht
  split at ht
  · obtain rfl := (eq_of_beq ht).symm
    generalize ha : some (ns, stop) = a at h
    cases h with
    | terminal => exact .inl (Machine.read?_token ha.symm)
  · obtain rfl := (eq_of_beq ht).symm
    generalize ha : some (ns, stop) = a at h
    cases h with
    | terminal ht => cases ht
    | @opt _ _ _ a hbody =>
      cases hbody with
      | terminal =>
        cases hread : m.read? pos (.token closer) with
        | none =>
          rw [hread] at ha
          cases ha
          refine .inr fun hkind => ?_
          simp [Machine.read?, hkind] at hread
        | some r =>
          rw [hread] at ha
          cases ha
          exact .inl (Machine.read?_token hread)
  · cases ht

/-- **Behind what a sequence matches that ends in a closer, there is none that was left.** -/
theorem Parses.ends_in_closer (ht : t.endsIn closer = true)
    (h : Parses m f (.term t) pos (some (ns, stop))) :
    ns.getLast?.map Match.child = some (.leaf closer) ∨ m.kindAt stop ≠ closer := by
  unfold Term.endsIn at ht
  split at ht
  · obtain ⟨last, hlast, htakes⟩ := (Option.any_eq_true _ _).mp ht
    obtain ⟨front, mid, ms, rfl, hparses⟩ := h.exists_last hlast
    refine (hparses.takes_closer htakes).imp (fun hms => ?_) id
    obtain ⟨n, hn, hchild⟩ := Option.map_eq_some_iff.mp hms
    exact Option.map_eq_some_iff.mpr ⟨n, List.mem_getLast?_append_of_mem_getLast? hn, hchild⟩
  · cases ht

/-! ## All that is matched -/

/-- No closer is left behind in trees from one place up to another, nor between them and what stands
around them. -/
structure Closes (m : Machine) (kind closer : Kind) (pos : Pos) (ns : List Match) (stop : Pos) :
    Prop where
  inside : ∀ n ∈ ns, n.TakesClosers kind closer
  apart : AreClosed kind closer (ns.map Match.profile)
  first : (Match.leavesAll ns).head?.map Match.child = some (.leaf closer) → m.kindAt pos = closer
  last : ∀ n ∈ ns.getLast?, n.profile.IsOpen kind closer → m.kindAt stop ≠ closer
  stay : Match.leavesAll ns = [] → stop = pos

namespace Closes

variable {mid : Pos} {ms : List Match}

theorem nil (pos : Pos) : Closes m kind closer pos [] pos where
  inside := by simp
  apart := .nil
  first h := by cases h
  last := by simp
  stay _ := rfl

/-- The place between the trees tells that no closer is left there. -/
theorem areClosed_append (h : Closes m kind closer pos ns mid)
    (hapart : AreClosed kind closer (ms.map Match.profile))
    (hfirst : (Match.leavesAll ms).head?.map Match.child = some (.leaf closer) →
      m.kindAt mid = closer) :
    AreClosed kind closer ((ns ++ ms).map Match.profile) := by
  rw [AreClosed, List.map_append, List.isChain_append]
  refine ⟨h.apart, hapart, fun o ho o' ho' hopen hcloser => ?_⟩
  rw [List.getLast?_map] at ho
  rw [List.head?_map] at ho'
  obtain ⟨n, hn, rfl⟩ := Option.map_eq_some_iff.mp ho
  obtain ⟨n', hn', rfl⟩ := Option.map_eq_some_iff.mp ho'
  refine h.last n hn hopen (hfirst (Match.head?_leavesAll ?_))
  exact Option.map_eq_some_iff.mpr ⟨n', hn', hcloser⟩

theorem append (h : Closes m kind closer pos ns mid) (h' : Closes m kind closer mid ms stop) :
    Closes m kind closer pos (ns ++ ms) stop where
  inside n hn := (List.mem_append.mp hn).elim (h.inside n) (h'.inside n)
  apart := h.areClosed_append h'.apart h'.first
  first hcloser := by
    rw [Match.leavesAll_append] at hcloser
    cases hleaves : Match.leavesAll ns with
    | nil =>
      rw [hleaves] at hcloser
      rw [← h.stay hleaves]
      exact h'.first hcloser
    | cons l ls =>
      rw [hleaves] at hcloser
      exact h.first (by rw [hleaves]; exact hcloser)
  last n hn hopen := by
    cases ms with
    | nil =>
      rw [List.append_nil] at hn
      rw [h'.stay rfl]
      exact h.last n hn hopen
    | cons n' ms =>
      rw [List.getLast?_append_of_ne_nil _ (List.cons_ne_nil _ _)] at hn
      exact h'.last n hn hopen
  stay hleaves := by
    rw [Match.leavesAll_append, List.append_eq_nil_iff] at hleaves
    rw [h'.stay hleaves.2, h.stay hleaves.1]

/-- A leaf is closed by itself. -/
theorem leaf {index : Nat} {k : Kind} {part : Option (UInt8 × UInt8)}
    (h : k = closer → m.kindAt pos = closer) :
    Closes m kind closer pos [.token index k part] stop where
  inside n hn := by
    obtain rfl := List.mem_singleton.mp hn
    exact Match.takesClosers_token index part
  apart := .singleton _
  first hcloser := h (by cases hcloser; rfl)
  last n hn hopen := by
    cases hn
    exact absurd hopen Match.not_isOpen_token
  stay hleaves := by cases hleaves

/-- What is put under a node that takes its closer. -/
theorem node {k : Kind} (h : Closes m kind closer pos ns stop)
    (hlast : k = kind →
      ns.getLast?.map Match.child = some (.leaf closer) ∨ m.kindAt stop ≠ closer) :
    Closes m kind closer pos [.node k ns] stop where
  inside n hn := by
    obtain rfl := List.mem_singleton.mp hn
    exact Match.takesClosers_node h.apart h.inside
  apart := .singleton _
  first := by
    rw [Match.leavesAll_node]
    exact h.first
  last n hn hopen := by
    cases hn
    obtain ⟨hkind, hopen⟩ := hopen
    cases hkind
    exact (hlast rfl).resolve_left hopen
  stay := by
    rw [Match.leavesAll_node]
    exact h.stay

/-- A terminal leaves no closer behind. -/
theorem read {t : Term} (ht : t.closes kind closer = true)
    (h : m.read? pos t = some (ns, stop)) : Closes m kind closer pos ns stop := by
  cases t with
  | token k =>
    simp only [Machine.read?] at h
    split_ifs at h with hkind
    cases h
    exact leaf fun hk => hkind.trans hk
  | split k =>
    simp only [Machine.read?] at h
    split_ifs at h with hkind
    · cases h
      exact leaf fun hk => hkind.trans hk
    · obtain ⟨spelling, -, hcut⟩ := Option.bind_eq_some_iff.mp h
      split_ifs at hcut
      cases hcut
      exact leaf fun hk => absurd hk (bne_iff_ne.mp ht)
  | word text =>
    simp only [Machine.read?] at h
    split_ifs at h with hword
    cases h
    exact leaf fun hk => hword.1.trans hk
  | any =>
    simp only [Machine.read?] at h
    split_ifs at h
    cases h
    exact leaf id
  | ended =>
    simp only [Machine.read?] at h
    split_ifs at h
    cases h
    exact nil pos
  | _ => cases h

/-- A node that goes on around trees that were gathered before. -/
theorem round {k : Kind} (h : Closes m kind closer pos ns mid)
    (h' : Closes m kind closer mid [.node k ms] stop) :
    Closes m kind closer pos [.node k (ns ++ ms)] stop := by
  obtain ⟨hapart, hinside⟩ := (h'.inside _ (List.mem_singleton.mpr rfl)).of_node
  have hfirst := h'.first
  have hstay := h'.stay
  rw [Match.leavesAll_node] at hfirst hstay
  have hboth := h.append h'
  refine ⟨fun n hn => ?_, .singleton _, ?_, fun n hn hopen => ?_, ?_⟩
  · obtain rfl := List.mem_singleton.mp hn
    refine Match.takesClosers_node (h.areClosed_append hapart hfirst) fun n hn => ?_
    exact (List.mem_append.mp hn).elim (h.inside n) (hinside n)
  · simpa using hboth.first
  · cases hn
    exact h'.last _ rfl (Match.isOpen_of_append hopen)
  · simpa using hboth.stay

/-- **The closer of a node is not left behind**, if the grammar's terms take it. -/
theorem isRoute (hg : m.grammar.closes kind closer = true) :
    IsRoute m (fun t => t.closes kind closer = true) (Closes m kind closer) where
  nil := nil
  append := append
  read := read
  node {f k t pos ns stop} ht hparses h := by
    refine h.node ?_
    rintro rfl
    have hends : t.endsIn closer = true := by simpa [Term.closes] using ht
    exact hparses.ends_in_closer hends
  close {f id rule pos ns stop} hrule _ h := by
    obtain ⟨hkind, -⟩ := Grammar.closes_rule hg hrule
    unfold Rule.close
    split
    · next k hk =>
      refine h.node ?_
      rintro rfl
      exact absurd hk hkind
    · exact h
  round _ h h' := h.round h'
  tail h := List.all_eq_true.mp h
  free {t} hfree := by
    cases t <;> first | rfl | cases hfree

end Closes

/-- **What a grammar matches whose terms take their closers takes its closers.** -/
theorem Parses.closes (hg : m.grammar.closes kind closer = true)
    (h : Parses m f (.term t) pos (some (ns, stop)))
    (ht : t.Every fun u => u.closes kind closer = true) : Closes m kind closer pos ns stop :=
  h.follows (Closes.isRoute hg) (fun _ _ hrule => (Grammar.closes_rule hg hrule).2) ht ns stop rfl

end
end Peg
end Packrat
