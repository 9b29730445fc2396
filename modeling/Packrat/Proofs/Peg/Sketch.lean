/-
# Sketches of a parse

Mostly it does not matter what all the tokens are.  What a term comes to is decided by a few kinds,
and where a rule reads a stretch of tokens, by where that stretch ends.  A *scene* tells this much,
and the plain meaning is computed from it as it would be from the tokens (`Scene.sketch`):

| known | used for |
| --- | --- |
| the kinds that may be at a place, and what can be cut off there (`Sight`) | terminals |
| what a rule makes of the stretch from one place to another (`Hole`) | references to the rule |

Places are numbered, and so are leaves: what is taken at place `k` is leaf `k` and leads to place
`k + 1`.  If a machine has places and trees of which the scene holds, then what is found in the
sketch is what the machine makes of its tokens (`Scene.sketch_depicts`).  Thus one computation
settles what a rule comes to over all texts that look alike.

A sketch does not follow repetitions: places of different numbers may be the same.
-/

import Packrat.Proofs.Peg.Computed

namespace Packrat
namespace Peg

/-! ## Trees compared -/

namespace Match

mutual

/-- Two trees are the same. -/
def isSame : Match → Match → Bool
  | .token index kind part, .token index' kind' part' =>
    index = index' && kind = kind' && part = part'
  | .node kind children, .node kind' children' => kind = kind' && areSame children children'
  | _, _ => false

/-- The trees of two lists are the same, one by one. -/
def areSame : List Match → List Match → Bool
  | [], [] => true
  | n :: ns, n' :: ns' => n.isSame n' && areSame ns ns'
  | _, _ => false

end

mutual

theorem isSame_iff : ∀ {n n' : Match}, n.isSame n' = true ↔ n = n'
  | .token _ _ _, .token _ _ _ => by simp [isSame, and_assoc]
  | .node _ _, .node _ _ => by simp [isSame, areSame_iff]
  | .token _ _ _, .node _ _ => by simp [isSame]
  | .node _ _, .token _ _ _ => by simp [isSame]

theorem areSame_iff : ∀ {ns ns' : List Match}, areSame ns ns' = true ↔ ns = ns'
  | [], [] => by simp [areSame]
  | _ :: _, _ :: _ => by simp [areSame, isSame_iff, areSame_iff]
  | [], _ :: _ => by simp [areSame]
  | _ :: _, [] => by simp [areSame]

end

instance : DecidableEq Match := fun _ _ => decidable_of_iff _ isSame_iff

end Match

/-! ## Scenes -/

/-- What is known of a place. -/
structure Sight where
  /-- What is there has one of these kinds. -/
  kinds : List Kind
  /-- Punctuators that can be read, whole or as the beginning of a longer one. -/
  cuts : List Kind := []
  /-- Punctuators that cannot. -/
  lacks : List Kind := []
  /-- Whether an identifier there is one of some words. -/
  words : List (String × Bool) := []

/-- Whether a terminal matches at a place, if that can be told. -/
def Sight.reads? (s : Sight) : Term → Option Bool
  | .token kind =>
    if s.kinds = [kind] then some true
    else if s.kinds.contains kind then none else some false
  | .split kind =>
    if s.cuts.contains kind then some true
    else if s.lacks.contains kind then some false else none
  | .word text =>
    if s.kinds.contains .ident then (s.words.find? (·.1 = text)).map (·.2) else some false
  | _ => none

/-- A stretch of which is known what a rule makes of it: one tree. -/
structure Hole where
  rule : String
  start : Nat
  leaf : Nat
  stop : Nat

/-- What is known of some places, and of some stretches between them. -/
structure Scene where
  sights : List Sight
  holes : List Hole := []

namespace Scene

/-- A leaf that stands for a tree. -/
def leaf (k : Nat) : Match := .token k .error none

/-- The stretch from a place on that a reference reads. -/
def hole? (s : Scene) (g : Grammar) (f : Flags) (r : RuleRef) (k : Nat) : Option Hole :=
  if f = {} then s.holes.find? fun hole => hole.start = k && g.resolve? r = g.id? hole.rule
  else none

/-- The answer to a goal in a scene, if it can be found to a depth of `n` inferences. -/
def sketch (s : Scene) (g : Grammar) : Nat → Machine.Known
  | 0 => fun _ _ _ => none
  | n + 1 => fun f goal pos =>
    let inferred := (Machine.mk g #[] {}).infer (s.sketch g n) f goal pos
    match goal with
    | .rounds .. => inferred
    | .term t =>
      if t.isTerminal then
        (s.sights[pos.index]?.bind (·.reads? t)).map fun found =>
          if found then some ([leaf pos.index], ⟨pos.index + 1, 0⟩) else none
      else
        match t with
        | .star t =>
          match s.sketch g n f (.term t) pos with
          | some none => some (some ([], pos))
          | _ => none
        | .ref r =>
          match s.hole? g f r pos.index with
          | some hole => some (some ([leaf hole.leaf], ⟨hole.stop, 0⟩))
          | none => inferred
        | _ => inferred

end Scene

/-! ## What a scene is of -/

namespace Match

mutual

/-- The tree with others in the places of its leaves. -/
def fill (leaves : List Match) : Match → Match
  | .token k _ _ => leaves.getD k default
  | .node kind children => .node kind (fillAll leaves children)

/-- Some trees with others in the places of their leaves. -/
def fillAll (leaves : List Match) : List Match → List Match
  | [] => []
  | n :: ns => n.fill leaves :: fillAll leaves ns

end

theorem fillAll_eq_map (leaves ns : List Match) : fillAll leaves ns = ns.map (·.fill leaves) := by
  induction ns with
  | nil => rfl
  | cons n ns ih => rw [fillAll, ih, List.map_cons]

end Match

namespace Machine

/-- A sight is of a place of the machine: what is taken there is the leaf, and leads to `next`. -/
structure Shows (m : Machine) (sight : Sight) (pos : Pos) (leaf : Match) (next : Pos) : Prop where
  kind : m.kindAt pos ∈ sight.kinds
  whole : ∀ kind ∈ sight.kinds, sight.kinds = [kind] → m.leafAt pos kind = ([leaf], next)
  cuts : ∀ kind ∈ sight.cuts, m.read? pos (.split kind) = some ([leaf], next)
  lacks : ∀ kind ∈ sight.lacks, m.read? pos (.split kind) = none
  words : ∀ word ∈ sight.words,
    sight.kinds = [.ident] ∧ (m.textAt pos = word.1 ↔ word.2 = true)

variable {m : Machine} {sight : Sight} {pos next : Pos} {n : Match}

instance : Decidable (m.Shows sight pos n next) :=
  decidable_of_iff (m.kindAt pos ∈ sight.kinds ∧
      (∀ kind ∈ sight.kinds, sight.kinds = [kind] → m.leafAt pos kind = ([n], next)) ∧
      (∀ kind ∈ sight.cuts, m.read? pos (.split kind) = some ([n], next)) ∧
      (∀ kind ∈ sight.lacks, m.read? pos (.split kind) = none) ∧
      ∀ word ∈ sight.words, sight.kinds = [.ident] ∧ (m.textAt pos = word.1 ↔ word.2 = true))
    ⟨fun h => ⟨h.1, h.2.1, h.2.2.1, h.2.2.2.1, h.2.2.2.2⟩,
      fun h => ⟨h.kind, h.whole, h.cuts, h.lacks, h.words⟩⟩

/-- What is told of a terminal is so. -/
theorem Shows.read? (h : m.Shows sight pos n next) {t : Term} {found : Bool}
    (hfound : sight.reads? t = some found) :
    m.read? pos t = if found then some ([n], next) else none := by
  cases t with
  | token kind =>
    simp only [Sight.reads?] at hfound
    split_ifs at hfound with hone hmem
    · cases hfound
      have hkind : m.kindAt pos = kind := by simpa [hone] using h.kind
      simp [Machine.read?, hkind, h.whole kind (hone ▸ List.mem_singleton_self _) hone]
    · cases hfound
      have hkind : m.kindAt pos ≠ kind := by
        rintro rfl
        exact hmem (List.contains_iff_mem.mpr h.kind)
      simp [Machine.read?, hkind]
  | split kind =>
    simp only [Sight.reads?] at hfound
    split_ifs at hfound with hcut hlack
    · cases hfound
      exact h.cuts kind (List.contains_iff_mem.mp hcut)
    · cases hfound
      exact h.lacks kind (List.contains_iff_mem.mp hlack)
  | word text =>
    simp only [Sight.reads?] at hfound
    split_ifs at hfound with hident
    · obtain ⟨⟨word, found⟩, hword, rfl⟩ := Option.map_eq_some_iff.mp hfound
      obtain ⟨hone, hiff⟩ := h.words _ (List.mem_of_find?_eq_some hword)
      obtain rfl : word = text := by simpa using List.find?_some hword
      have hkind : m.kindAt pos = .ident := by simpa [hone] using h.kind
      have hleaf := h.whole .ident (hone ▸ List.mem_singleton_self _) hone
      cases found with
      | true => simp [Machine.read?, hkind, hiff.mpr rfl, hleaf]
      | false =>
        have hne : m.textAt pos ≠ word := fun heq => by cases hiff.mp heq
        simp [Machine.read?, hkind, hne]
    · cases hfound
      have hkind : m.kindAt pos ≠ .ident := by
        intro hkind
        exact hident (List.contains_iff_mem.mpr (hkind ▸ h.kind))
      simp [Machine.read?, hkind]
  | _ => cases hfound

/-- The sights are of the places from number `k` on. -/
def ShowsAll (m : Machine) (places : List Pos) (leaves : List Match) : Nat → List Sight → Prop
  | _, [] => True
  | k, sight :: sights =>
    m.Shows sight (places.getD k {}) (leaves.getD k default) (places.getD (k + 1) {}) ∧
      ShowsAll m places leaves (k + 1) sights

variable {places : List Pos} {leaves : List Match}

theorem ShowsAll.get {sights : List Sight} : ∀ {k i : Nat}, m.ShowsAll places leaves k sights →
    sights[i]? = some sight → m.Shows sight (places.getD (k + i) {}) (leaves.getD (k + i) default)
      (places.getD (k + i + 1) {}) := by
  induction sights with
  | nil =>
    intro k i _ hsight
    cases hsight
  | cons first sights ih =>
    intro k i h hsight
    cases i with
    | zero =>
      cases hsight
      exact h.1
    | succ i =>
      rw [List.getElem?_cons_succ] at hsight
      have hrest := ih h.2 hsight
      rwa [Nat.add_right_comm k 1 i] at hrest

/-- A scene is of a machine, with these places and trees. -/
structure Displays (m : Machine) (places : List Pos) (leaves : List Match) (s : Scene) : Prop where
  sights : m.ShowsAll places leaves 0 s.sights
  holes : ∀ hole ∈ s.holes, Parses m {} (.term (.rule hole.rule)) (places.getD hole.start {})
    (some ([leaves.getD hole.leaf default], places.getD hole.stop {}))

/-- What a reference comes to is decided by the rule that it stands for. -/
theorem parses_ref_of_resolve {f : Flags} {r r' : RuleRef} {a : Answer}
    (hr : m.grammar.resolve? r' = m.grammar.resolve? r) (h : Parses m f (.term (.ref r)) pos a) :
    Parses m f (.term (.ref r')) pos a := by
  cases h with
  | terminal ht => cases ht
  | ref_none hnone => exact .ref_none (hr.trans hnone)
  | ref_rule hid hrule hbody => exact .ref_rule (hr.trans hid) hrule hbody

end Machine

namespace Scene

variable {m : Machine} {s : Scene} {places : List Pos} {leaves : List Match}

/-- **What is found in a sketch is so** of every machine that the scene is of. -/
theorem sketch_depicts (h : m.Displays places leaves s) (n : Nat) :
    (s.sketch m.grammar n).Depicts m (·.fill leaves) fun pos => places.getD pos.index {} := by
  induction n with
  | zero =>
    intro f goal pos a ha
    cases ha
  | succ n ih =>
    intro f goal pos a ha
    have hnode : ∀ kind ns, (Match.node kind ns).fill leaves =
        .node kind (ns.map (·.fill leaves)) := fun kind ns => by
      rw [Match.fill, Match.fillAll_eq_map]
    have hinfer := @Machine.infer_depicts m ⟨m.grammar, #[], {}⟩ _ _ _ rfl hnode ih f goal pos a
    simp only [sketch] at ha
    cases goal with
    | rounds tails left ns => exact hinfer (by rintro t ⟨⟩) (by rintro t ⟨⟩) ha
    | term t =>
      simp only at ha
      split_ifs at ha with ht
      · obtain ⟨found, hfound, rfl⟩ := Option.map_eq_some_iff.mp ha
        obtain ⟨sight, hsight, hreads⟩ := Option.bind_eq_some_iff.mp hfound
        have hshows := h.sights.get hsight
        rw [Nat.zero_add] at hshows
        have hread := hshows.read? hreads
        have hparses : Parses m f (.term t) (places.getD pos.index {}) _ := .terminal ht
        rw [hread] at hparses
        cases found <;> exact hparses
      · have hplain : ∀ t', Goal.term t = .term t' → t'.isTerminal = true → False := by
          rintro t' ⟨⟩ ht'
          exact ht ht'
        split at ha
        · next t =>
          split at ha
          · next hbody =>
            cases ha
            exact .star_fail (ih _ _ _ _ hbody)
          · cases ha
        · next r =>
          split at ha
          · next hole hhole =>
            cases ha
            unfold hole? at hhole
            split_ifs at hhole with hflags
            have hmem := List.mem_of_find?_eq_some hhole
            have hfits := List.find?_some hhole
            simp only [Bool.and_eq_true, decide_eq_true_eq] at hfits
            subst hflags
            have hparses := h.holes hole hmem
            rw [hfits.1] at hparses
            exact Machine.parses_ref_of_resolve (r := .named hole.rule) hfits.2 hparses
          · exact hinfer (fun t' h' ht' => (hplain t' h' ht').elim) (by rintro t ⟨⟩) ha
        · next hstar href =>
          exact hinfer (fun t' h' ht' => (hplain t' h' ht').elim)
            (fun t' h' => absurd (Goal.term.inj h') (hstar t')) ha

end Scene

/-! ## Known tokens -/

/-- The leaf of a token `b` places on. -/
def Match.later (b : Nat) : Match → Match
  | .token index kind part => .token (b + index) kind part
  | .node kind children => .node kind children

/-- The place `b` tokens on. -/
def Pos.later (b : Nat) (pos : Pos) : Pos := ⟨b + pos.index, pos.offset⟩

namespace Machine

/-- A machine over one token. -/
def alone (symbol : Symbol) : Machine := ⟨⟨#[]⟩, #[symbol], {}⟩

variable {m : Machine} {b : Nat} {symbol : Symbol}

variable (ht : m.tokens[b]? = some symbol) (offset : UInt8)

include ht

theorem textAt_alone : m.textAt ⟨b, offset⟩ = (alone symbol).textAt ⟨0, offset⟩ := by
  simp [textAt, alone, ht, Pos.isSplit]

theorem kindAt_alone : m.kindAt ⟨b, offset⟩ = (alone symbol).kindAt ⟨0, offset⟩ := by
  simp [kindAt, textAt_alone ht, alone, ht, Pos.isSplit]

theorem leafAt_alone (kind : Kind) : some (m.leafAt ⟨b, offset⟩ kind) =
    Answer.fill (Match.later b) (Pos.later b) (some ((alone symbol).leafAt ⟨0, offset⟩ kind)) := by
  simp [leafAt, alone, ht, Pos.isSplit, Answer.fill, Match.later, Pos.later]

/-- What a terminal makes of a place depends on the token there only. -/
theorem read?_alone (t : Term) : m.read? ⟨b, offset⟩ t =
    ((alone symbol).read? ⟨0, offset⟩ t).fill (Match.later b) (Pos.later b) := by
  cases t with
  | token kind =>
    simp only [read?, kindAt_alone ht, leafAt_alone ht]
    split <;> rfl
  | split kind =>
    have hbegins : ∀ spelling, m.BeginsWith ⟨b, offset⟩ spelling ↔
        (alone symbol).BeginsWith ⟨0, offset⟩ spelling := fun spelling => by
      rw [BeginsWith, BeginsWith, textAt_alone ht]
    simp only [read?, kindAt_alone ht, leafAt_alone ht]
    split
    · rfl
    · cases kind.spelling? with
      | none => rfl
      | some spelling =>
        simp only [Option.bind_some, hbegins]
        split <;> rfl
  | word text =>
    simp only [read?, kindAt_alone ht, leafAt_alone ht, textAt_alone ht]
    split <;> rfl
  | any =>
    simp only [read?, kindAt_alone ht, leafAt_alone ht]
    split <;> rfl
  | ended =>
    simp only [read?, kindAt_alone ht]
    split <;> rfl
  | _ => rfl

variable {offset} {sight : Sight} {n : Match} {next : Pos}

/-- A sight is of a place of the machine if it is of that place in the token there. -/
theorem Shows.of_alone (h : (alone symbol).Shows sight ⟨0, offset⟩ n next) :
    m.Shows sight ⟨b, offset⟩ (n.later b) (next.later b) where
  kind := kindAt_alone ht offset ▸ h.kind
  whole kind hkind hone := by
    have hleaf := leafAt_alone ht offset kind
    rw [h.whole kind hkind hone] at hleaf
    exact Option.some.inj hleaf
  cuts kind hkind := by
    rw [read?_alone ht, h.cuts kind hkind]
    rfl
  lacks kind hkind := by
    rw [read?_alone ht, h.lacks kind hkind]
    rfl
  words word hword := by
    rw [textAt_alone ht]
    exact h.words word hword

end Machine

/-! ## Drawings -/

/-- What a rule comes to in a scene: a tree over the stretch from one place to another. -/
structure Drawing where
  scene : Scene
  rule : String
  start : Nat
  tree : Match
  stop : Nat

namespace Drawing

/-- The tree is found to a depth of `n` inferences. -/
def isFound (n : Nat) (g : Grammar) (d : Drawing) : Bool :=
  d.scene.sketch g n {} (.term (.rule d.rule)) ⟨d.start, 0⟩ = some (some ([d.tree], ⟨d.stop, 0⟩))

/-- **The rule makes the tree** of the tokens of every machine that the scene is of. -/
theorem parses {m : Machine} {d : Drawing} {n : Nat} {places : List Pos} {leaves : List Match}
    (hfound : d.isFound n m.grammar = true) (h : m.Displays places leaves d.scene) :
    Parses m {} (.term (.rule d.rule)) (places.getD d.start {})
      (some ([d.tree.fill leaves], places.getD d.stop {})) :=
  Scene.sketch_depicts h n _ _ _ _ (of_decide_eq_true hfound)

end Drawing
end Peg
end Packrat
