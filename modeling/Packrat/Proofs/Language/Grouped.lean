/-
# Matches on their rungs

What rules that keep to the rungs match is grouped: under every node with operands stand trees
of forms that may stand there (`Match.IsGrouped`).  The proof follows the answers of terms, and
a term shows two things (`Grammar.Shows`): its trees are grouped, and they are of one of the
words that can be told from the term.

The rounds of a fold put nodes over what there is and the trees of a tail.  There the tail is
looked at as an alternative under a node of its own, which lacks the operand on the left; so
what is under the nodes of alternatives is told apart from the nodes (`Grammar.ShowsUnder`).
-/

import Packrat.Proofs.Language.Rung

namespace Packrat
namespace Peg

open Packrat.Language

/-- Under every node with operands stand trees of forms that may stand there. -/
inductive Match.IsGrouped : Match → Prop where
  | token {index kind part} : IsGrouped (.token index kind part)
  | node {kind children} :
    (hasOperands kind = true →
      ∃ word, wordFits kind word = true ∧ List.Forall₂ Form.Fits word children) →
    (∀ c ∈ children, IsGrouped c) → IsGrouped (.node kind children)

theorem Match.IsGrouped.of_within {m n : Match} (hn : n.IsGrouped) (h : m.Within n) :
    m.IsGrouped := by
  induction h with
  | self => exact hn
  | inner hc _ ih =>
    rcases hn with _ | ⟨-, hchildren⟩
    exact ih (hchildren _ hc)

/-- The trees are grouped, and of forms that can be told from the term. -/
structure Grammar.Shows (g : Grammar) (t : Term) (ns : List Match) : Prop where
  grouped : ∀ n ∈ ns, n.IsGrouped
  word : ∀ ws, g.shape t = some ws → ∃ w ∈ ws, List.Forall₂ Form.Fits w ns

/-- What is asked of all parts of a term, so that what it matches is grouped. -/
abbrev Grammar.KeepsRungs (g : Grammar) (t : Term) : Prop := t.Every (g.keepsRungs · = true)

namespace Grammar

variable {g : Grammar}

theorem keepsRungs_rule (name : String) : g.KeepsRungs (.rule name) := Term.every_rule rfl

theorem keepsRungs_rule_ended (name : String) : g.KeepsRungs (.seq [.rule name, .ended]) :=
  Term.every_rule_ended rfl rfl rfl

theorem Shows.empty {t : Term} (h : ∀ ws, g.shape t = some ws → [] ∈ ws) : g.Shows t [] :=
  ⟨by simp, fun ws hws => ⟨[], h ws hws, .nil⟩⟩

/-- A terminal shows a token of its kind. -/
theorem shows_read? {m : Machine} {t : Term} {pos stop : Pos} {ns : List Match}
    (h : m.read? pos t = some (ns, stop)) : m.grammar.Shows t ns := by
  have hleaf : ∀ {index kind part}, m.grammar.shape t = some [[.leaf kind]] →
      m.grammar.Shows t [.token index kind part] := by
    intro index kind part hshape
    refine ⟨by simp [Match.IsGrouped.token], fun ws hws => ?_⟩
    rw [hshape] at hws
    cases hws
    exact ⟨_, List.mem_singleton_self _, .cons rfl .nil⟩
  rcases Machine.read?_cases h with ⟨rfl, rfl⟩ | ⟨index, kind, part, rfl, rfl | rfl | hword | hany⟩
  · refine .empty fun ws hws => ?_
    cases hws
    exact List.mem_singleton_self _
  · exact hleaf rfl
  · exact hleaf rfl
  · obtain ⟨⟨text, rfl⟩, rfl⟩ := hword
    exact hleaf rfl
  · obtain ⟨rfl, -⟩ := hany
    exact ⟨by simp [Match.IsGrouped.token], fun ws hws => by cases hws⟩

/-! ## Composed terms -/

variable {t : Term} {ts : List Term} {ns ms : List Match}

theorem Shows.seq_cons (h : g.Shows t ns) (h' : g.Shows (.seq ts) ms) :
    g.Shows (.seq (t :: ts)) (ns ++ ms) := by
  refine ⟨fun n hn => ?_, fun ws hws => ?_⟩
  · rcases List.mem_append.mp hn with hn | hn
    · exact h.grouped n hn
    · exact h'.grouped n hn
  · simp only [shape, shapeOfSeq] at hws
    cases ht : g.shape t with
    | none => rw [ht] at hws; cases hws
    | some ws₁ =>
      rw [ht] at hws
      obtain ⟨ws₂, hts, rfl⟩ := Option.map_eq_some_iff.mp hws
      obtain ⟨w₁, hw₁, hns⟩ := h.word ws₁ ht
      obtain ⟨w₂, hw₂, hms⟩ := h'.word ws₂ hts
      refine ⟨w₁ ++ w₂, ?_, List.rel_append hns hms⟩
      exact List.mem_flatMap.mpr ⟨w₁, hw₁, List.mem_map_of_mem hw₂⟩

/-- The words of alternatives are those of the first and of the others. -/
theorem shape_choice_cons {ws : List (List Form)} (h : g.shape (.choice (t :: ts)) = some ws) :
    ∃ ws₁ ws₂, g.shape t = some ws₁ ∧ g.shape (.choice ts) = some ws₂ ∧ ws = ws₁ ++ ws₂ := by
  simp only [shape, shapeOfChoice] at h
  cases ht : g.shape t with
  | none => rw [ht] at h; cases h
  | some ws₁ =>
    rw [ht] at h
    obtain ⟨ws₂, hts, rfl⟩ := Option.map_eq_some_iff.mp h
    exact ⟨ws₁, ws₂, rfl, hts, rfl⟩

theorem Shows.choice_here (h : g.Shows t ns) : g.Shows (.choice (t :: ts)) ns := by
  refine ⟨h.grouped, fun ws hws => ?_⟩
  obtain ⟨ws₁, ws₂, ht, -, rfl⟩ := shape_choice_cons hws
  obtain ⟨w, hw, hns⟩ := h.word ws₁ ht
  exact ⟨w, List.mem_append_left _ hw, hns⟩

theorem Shows.choice_next (h : g.Shows (.choice ts) ns) : g.Shows (.choice (t :: ts)) ns := by
  refine ⟨h.grouped, fun ws hws => ?_⟩
  obtain ⟨ws₁, ws₂, -, hts, rfl⟩ := shape_choice_cons hws
  obtain ⟨w, hw, hns⟩ := h.word ws₂ hts
  exact ⟨w, List.mem_append_right _ hw, hns⟩

theorem Shows.opt (h : g.Shows t ns) : g.Shows (.opt t) ns := by
  refine ⟨h.grouped, fun ws hws => ?_⟩
  obtain ⟨ws', ht, rfl⟩ := Option.map_eq_some_iff.mp hws
  obtain ⟨w, hw, hns⟩ := h.word ws' ht
  exact ⟨w, List.mem_cons_of_mem _ hw, hns⟩

/-- Trees side by side, where no word can be told. -/
theorem Shows.repeated {t' : Term} (h : ∀ n ∈ ns, n.IsGrouped) (h' : ∀ n ∈ ms, n.IsGrouped)
    (hnone : g.shape t' = none) : g.Shows t' (ns ++ ms) := by
  refine ⟨fun n hn => ?_, fun ws hws => by rw [hnone] at hws; cases hws⟩
  rcases List.mem_append.mp hn with hn | hn
  · exact h n hn
  · exact h' n hn

/-- A node over trees of a term that may stand under it. -/
theorem Shows.node {kind : Kind} (hkeeps : g.keepsRungs (.node kind t) = true)
    (h : g.Shows t ns) : g.Shows (.node kind t) [.node kind ns] := by
  refine ⟨?_, fun ws hws => ?_⟩
  · rintro n (_ | ⟨_, hn⟩)
    · refine .node (fun hoperands => ?_) h.grouped
      simp only [keepsRungs, hoperands, Bool.not_true, Bool.false_or] at hkeeps
      obtain ⟨ws, hws, hfits⟩ := (Option.any_eq_true ..).mp hkeeps
      obtain ⟨w, hw, hns⟩ := h.word ws hws
      exact ⟨w, List.all_eq_true.mp hfits w hw, hns⟩
    · cases hn
  · cases hws
    exact ⟨_, List.mem_singleton_self _, .cons (Match.kindRung_le_rung kind ns) .nil⟩

/-- What a rule makes of what its body matches. -/
theorem Shows.ref {r : RuleRef} {id : Nat} {rule : Rule} (hid : g.resolve? r = some id)
    (hrule : g.rules[id]? = some rule) (hrung : g.isRung rule = true)
    (h : g.Shows rule.body ns) : g.Shows (.ref r) (rule.close ns) := by
  have hshape : g.shape (.ref r) = ruleShape rule := by simp only [shape, hid, hrule]
  obtain ⟨-, hrung⟩ := Bool.and_eq_true_iff.mp hrung
  cases hname : ladderRung? rule.name with
  | some n =>
    rw [hname] at hrung
    obtain ⟨hkind, hbody⟩ := Bool.and_eq_true_iff.mp hrung
    have hclose : rule.close ns = ns := by rw [Rule.close, Option.isNone_iff_eq_none.mp hkind]
    rw [hclose]
    refine ⟨h.grouped, fun ws hws => ?_⟩
    rw [hshape, ruleShape, hname] at hws
    cases hws
    obtain ⟨ws, hws, hall⟩ := (Option.any_eq_true ..).mp hbody
    obtain ⟨w, hw, hns⟩ := h.word ws hws
    have hword := List.all_eq_true.mp hall w hw
    split at hword
    · next k =>
      rcases hns with _ | ⟨hfits, _ | -⟩
      exact ⟨_, List.mem_singleton_self _, .cons (hfits.mono (of_decide_eq_true hword)) .nil⟩
    · cases hword
  | none =>
    rw [hname] at hrung
    cases hkind : rule.kind with
    | none =>
      have hclose : rule.close ns = ns := by rw [Rule.close, hkind]
      rw [hclose]
      refine ⟨h.grouped, fun ws hws => ?_⟩
      rw [hshape, ruleShape, hname, hkind] at hws
      cases hws
    | some kind =>
      rw [hkind] at hrung
      have hclose : rule.close ns = [.node kind ns] := by rw [Rule.close, hkind]
      rw [hclose]
      refine ⟨?_, fun ws hws => ?_⟩
      · rintro n (_ | ⟨_, hn⟩)
        · refine .node (fun hoperands => ?_) h.grouped
          simp [hoperands] at hrung
        · cases hn
      · rw [hshape, ruleShape, hname, hkind] at hws
        cases hws
        exact ⟨_, List.mem_singleton_self _, .cons (Match.kindRung_le_rung kind ns) .nil⟩

/-! ## Folds -/

/-- Every tail may follow a node from rung `q` on. -/
def FitsBehind (heads : List (Kind × List Form)) (q : Nat) : Prop :=
  ∀ head ∈ heads, wordFits head.1 (.tight q :: head.2) = true

/-- The words of a tail are among those of the tails. -/
theorem mem_headsOf {tails : List (Kind × Term)} {tail : Kind × Term} (htail : tail ∈ tails) :
    ∀ heads, g.headsOf tails = some heads →
      ∃ ws, g.shape tail.2 = some ws ∧ ∀ w ∈ ws, (tail.1, w) ∈ heads := by
  induction tails with
  | nil => cases htail
  | cons first tails ih =>
    obtain ⟨kind, t⟩ := first
    intro heads hheads
    simp only [headsOf] at hheads
    cases ht : g.shape t with
    | none => rw [ht] at hheads; cases hheads
    | some ws =>
      rw [ht] at hheads
      obtain ⟨rest, hrest, rfl⟩ := Option.map_eq_some_iff.mp hheads
      rcases List.mem_cons.mp htail with rfl | hmem
      · exact ⟨ws, ht, fun w hw => List.mem_append_left _ (List.mem_map_of_mem hw)⟩
      · obtain ⟨ws', hws', hall⟩ := ih hmem rest hrest
        exact ⟨ws', hws', fun w hw => List.mem_append_right _ (hall w hw)⟩

/-- A round of a fold: a node over what there is and the trees of a tail. -/
theorem Shows.round {tails : List (Kind × Term)} {tail : Kind × Term} (htail : tail ∈ tails)
    {heads : List (Kind × List Form)} (hheads : g.headsOf tails = some heads) {q b : Nat}
    {n : Match} (hn : n.IsGrouped) (hq : (Form.tight q).Fits n) (hfits : FitsBehind heads q)
    (hlow : ∀ head ∈ heads, b ≤ wordRung head.1 (.tight q :: head.2)) (h : g.Shows tail.2 ms) :
    (Match.node tail.1 (n :: ms)).IsGrouped ∧ (Form.tight b).Fits (.node tail.1 (n :: ms)) := by
  obtain ⟨ws, hws, hall⟩ := mem_headsOf htail heads hheads
  obtain ⟨w, hw, hms⟩ := h.word ws hws
  have hword : List.Forall₂ Form.Fits (.tight q :: w) (n :: ms) := .cons hq hms
  constructor
  · refine .node (fun _ => ⟨_, hfits _ (hall w hw), hword⟩) ?_
    rintro c (_ | ⟨_, hc⟩)
    · exact hn
    · exact h.grouped c hc
  · exact Nat.le_trans (hlow _ (hall w hw)) (wordRung_le_rung hword)

/-! ## All answers -/

/-- What the term under a node shows, and the terms under the nodes of alternatives. -/
def ShowsUnder (g : Grammar) : Term → List Match → Prop
  | .node kind body, ns => g.KeepsRungs body → ∃ ms, ns = [.node kind ms] ∧ g.Shows body ms
  | .choice ts, ns => ∀ tails : List (Kind × Term),
      ts = tails.map (fun tail => .node tail.1 tail.2) →
      (∀ tail ∈ tails, g.KeepsRungs tail.2) →
      ∃ tail ∈ tails, ∃ ms, ns = [.node tail.1 ms] ∧ g.Shows tail.2 ms
  | _, _ => True

/-- What an answer to a goal shows.  The rounds of a fold go on from one node, which is not
below the rung that the tails ask for. -/
def GoalShows (g : Grammar) (a : Answer) : Goal → Prop
  | .term t => ∀ ns stop, a = some (ns, stop) → (g.KeepsRungs t → g.Shows t ns) ∧ ShowsUnder g t ns
  | .rounds tails left done => ∀ heads q b, g.headsOf tails = some heads →
      (∀ tail ∈ tails, g.KeepsRungs tail.2) → b ≤ q →
      (∀ head ∈ heads, b ≤ wordRung head.1 (.tight q :: head.2)) →
      (left ≠ some 0 → FitsBehind heads q) →
      (left ≠ some 0 → left ≠ some 1 → FitsBehind heads b) →
      ∀ n, done = [n] → n.IsGrouped → (Form.tight q).Fits n →
      ∀ ns stop, a = some (ns, stop) →
        ∃ n', ns = [n'] ∧ n'.IsGrouped ∧ (Form.tight b).Fits n'

end Grammar

open Grammar

/-- The term matches one node, and this can be told. -/
def Grammar.isOneNode (g : Grammar) (t : Term) : Bool :=
  t.parts.all g.keepsRungs && match g.shape t with
    | some [[.tight _]] => true
    | _ => false

/-- All rules of a grammar keep to the rungs. -/
theorem Grammar.isRung_of_isLadder {g : Grammar} (hg : g.isLadder = true) {id : Nat} {rule : Rule}
    (hrule : g.rules[id]? = some rule) : g.isRung rule = true :=
  List.all_eq_true.mp hg rule (Array.mem_toList_iff.mpr (Array.mem_of_getElem? hrule))

namespace Parses

variable {m : Machine} {f : Flags} {goal : Goal} {pos : Pos} {a : Answer}

/-- **Answers keep to the rungs** if all rules do. -/
theorem shows (hg : m.grammar.isLadder = true) (h : Parses m f goal pos a) :
    m.grammar.GoalShows a goal := by
  induction h with
  | @terminal f t pos ht =>
    intro ns stop hread
    refine ⟨fun _ => shows_read? hread, ?_⟩
    cases t <;> trivial
  | seq_nil =>
    rintro ns stop ⟨⟩
    refine ⟨fun _ => .empty fun ws hws => ?_, trivial⟩
    cases hws
    exact List.mem_singleton_self _
  | seq_fail => rintro ns stop ⟨⟩
  | @seq_cons f t ts pos ns mid a _ _ ih₁ ih₂ =>
    intro ns' stop heq
    obtain ⟨⟨ms, stop'⟩, rfl, hr⟩ := Option.map_eq_some_iff.mp heq
    cases hr
    refine ⟨fun hkeeps => ?_, trivial⟩
    have hfirst := (ih₁ ns mid rfl).1 (hkeeps.child (by simp [Term.children]))
    have hrest := (ih₂ ms _ rfl).1 (Term.every_iff.mpr ⟨rfl, fun c hc =>
      hkeeps.child (List.mem_cons_of_mem _ hc)⟩)
    exact hfirst.seq_cons hrest
  | choice_nil => rintro ns stop ⟨⟩
  | @choice_here f t ts pos r _ ih =>
    rintro ns stop ⟨⟩
    obtain ⟨hterm, hunder⟩ := ih ns stop rfl
    refine ⟨fun hkeeps => (hterm (hkeeps.child (by simp [Term.children]))).choice_here, ?_⟩
    rintro (_ | ⟨tail, tails⟩) htails hkeeps
    · cases htails
    · obtain ⟨rfl, rfl⟩ := List.cons_eq_cons.mp htails
      obtain ⟨ms, hms, hshows⟩ := hunder (hkeeps tail (by simp))
      exact ⟨tail, by simp, ms, hms, hshows⟩
  | @choice_next f t ts pos a _ _ _ ih =>
    intro ns stop heq
    obtain ⟨hterm, hunder⟩ := ih ns stop heq
    refine ⟨fun hkeeps => (hterm (Term.every_iff.mpr ⟨rfl, fun c hc =>
      hkeeps.child (List.mem_cons_of_mem _ hc)⟩)).choice_next, ?_⟩
    rintro (_ | ⟨tail, tails⟩) htails hkeeps
    · cases htails
    · obtain ⟨-, rfl⟩ := List.cons_eq_cons.mp htails
      obtain ⟨tail', hmem, hms⟩ := hunder tails rfl fun tail' h => hkeeps tail' (by simp [h])
      exact ⟨tail', by simp [hmem], hms⟩
  | @opt f t pos a _ ih =>
    intro ns stop heq
    refine ⟨fun hkeeps => ?_, trivial⟩
    cases a with
    | none =>
      cases heq
      refine .empty fun ws hws => ?_
      obtain ⟨ws', -, rfl⟩ := Option.map_eq_some_iff.mp hws
      exact List.mem_cons_self
    | some r => exact ((ih ns stop heq).1 (hkeeps.child (by simp [Term.children]))).opt
  | star_fail =>
    rintro ns stop ⟨⟩
    exact ⟨fun _ => .empty fun ws hws => (by cases hws), trivial⟩
  | star_empty =>
    rintro ns stop ⟨⟩
    exact ⟨fun _ => .empty fun ws hws => (by cases hws), trivial⟩
  | @star_more f t pos ns mid a _ _ _ ih₁ ih₂ =>
    intro ns' stop heq
    obtain ⟨⟨ms, stop'⟩, rfl, hr⟩ := Option.map_eq_some_iff.mp heq
    cases hr
    refine ⟨fun hkeeps => ?_, trivial⟩
    have hfirst := (ih₁ ns mid rfl).1 (hkeeps.child (by simp [Term.children]))
    have hrest := (ih₂ ms _ rfl).1 hkeeps
    exact .repeated hfirst.grouped hrest.grouped rfl
  | plus_fail => rintro ns stop ⟨⟩
  | @plus_more f t pos ns mid a _ _ ih₁ ih₂ =>
    intro ns' stop heq
    obtain ⟨⟨ms, stop'⟩, rfl, hr⟩ := Option.map_eq_some_iff.mp heq
    cases hr
    refine ⟨fun hkeeps => ?_, trivial⟩
    have hfirst := (ih₁ ns mid rfl).1 (hkeeps.child (by simp [Term.children]))
    have hrest := (ih₂ ms _ rfl).1 (Term.every_iff.mpr ⟨rfl, fun c hc => hkeeps.child hc⟩)
    exact .repeated hfirst.grouped hrest.grouped rfl
  | @ahead f t pos a _ _ =>
    intro ns stop heq
    obtain ⟨r, rfl, hr⟩ := Option.map_eq_some_iff.mp heq
    cases hr
    refine ⟨fun _ => .empty fun ws hws => ?_, trivial⟩
    cases hws
    exact List.mem_singleton_self _
  | @notAhead f t pos a _ _ =>
    intro ns stop heq
    split at heq
    · cases heq
    · cases heq
      refine ⟨fun _ => .empty fun ws hws => ?_, trivial⟩
      cases hws
      exact List.mem_singleton_self _
  | ref_none => rintro ns stop ⟨⟩
  | @ref_rule f r id rule pos a hid hrule _ ih =>
    intro ns stop heq
    obtain ⟨⟨ms, stop'⟩, rfl, hr⟩ := Option.map_eq_some_iff.mp heq
    cases hr
    have hrung := isRung_of_isLadder hg hrule
    have hparts : m.grammar.KeepsRungs rule.body :=
      fun u hu => List.all_eq_true.mp (Bool.and_eq_true_iff.mp hrung).1 u hu
    exact ⟨fun _ => .ref hid hrule hrung ((ih ms _ rfl).1 hparts), trivial⟩
  | @node f kind t pos a _ ih =>
    intro ns stop heq
    obtain ⟨⟨ms, stop'⟩, rfl, hr⟩ := Option.map_eq_some_iff.mp heq
    cases hr
    obtain ⟨hterm, -⟩ := ih ms _ rfl
    refine ⟨fun hkeeps => .node hkeeps.self (hterm (hkeeps.child (by simp [Term.children]))), ?_⟩
    exact fun hkeeps => ⟨ms, rfl, hterm hkeeps⟩
  | scope _ ih =>
    intro ns stop heq
    refine ⟨fun hkeeps => ?_, trivial⟩
    have hbody := (ih ns stop heq).1 (hkeeps.child (by simp [Term.children]))
    exact ⟨hbody.grouped, hbody.word⟩
  | gate_open _ _ ih =>
    intro ns stop heq
    refine ⟨fun hkeeps => ?_, trivial⟩
    have hbody := (ih ns stop heq).1 (hkeeps.child (by simp [Term.children]))
    exact ⟨hbody.grouped, hbody.word⟩
  | gate_shut => rintro ns stop ⟨⟩
  | fold_fail => rintro ns stop ⟨⟩
  | @fold_rounds f operand tails max pos ns mid a _ _ ih₁ ih₂ =>
    intro ns' stop heq
    refine ⟨fun hkeeps => ?_, trivial⟩
    have hoperand := (ih₁ ns mid rfl).1 (hkeeps.child (by simp [Term.children]))
    have hsome : (m.grammar.shape (.fold operand tails max)).isSome = true := hkeeps.self
    obtain ⟨ws, hws⟩ := Option.isSome_iff_exists.mp hsome
    have hshape := hws
    simp only [shape] at hshape
    split at hshape
    · next p heads hp hheads =>
      obtain ⟨b, hb, rfl⟩ := Option.map_eq_some_iff.mp hshape
      obtain ⟨hle, hlow, hfirst, hmore⟩ := foldRung?_eq_some hb
      obtain ⟨w, hw, hns⟩ := hoperand.word _ hp
      obtain rfl := List.mem_singleton.mp hw
      rcases hns with _ | ⟨hq, _ | -⟩
      have htails : ∀ tail ∈ tails, m.grammar.KeepsRungs tail.2 := fun tail h =>
        hkeeps.child (List.mem_cons_of_mem _ (List.mem_map_of_mem h))
      obtain ⟨n', rfl, hgrouped, hfits⟩ := ih₂ heads p b hheads htails hle hlow (fun _ => hfirst)
        (fun _ => hmore) _ rfl (hoperand.grouped _ (by simp)) hq ns' stop heq
      refine ⟨by simpa using hgrouped, fun ws' hws' => ?_⟩
      rw [hws] at hws'
      cases hws'
      exact ⟨_, List.mem_singleton_self _, .cons hfits .nil⟩
    · cases hshape
  | rounds_spent =>
    rintro heads q b hheads htails hle hlow hfirst hmore n rfl hn hq ns stop ⟨⟩
    exact ⟨n, rfl, hn, hq.mono hle⟩
  | rounds_end =>
    rintro heads q b hheads htails hle hlow hfirst hmore n rfl hn hq ns stop ⟨⟩
    exact ⟨n, rfl, hn, hq.mono hle⟩
  | @rounds_more f tails left pos ns kind ms mid a hleft _ _ ih₁ ih₂ =>
    rintro heads q b hheads htails hle hlow hfirst hmore n rfl hn hq ns' stop heq
    obtain ⟨tail, htail, ms', hms, hshows⟩ := (ih₁ _ mid rfl).2 tails rfl htails
    obtain ⟨rfl, rfl⟩ := Match.node.inj (List.cons_eq_cons.mp hms).1
    obtain ⟨hgrouped, hfits⟩ := hshows.round htail hheads hn hq (hfirst hleft) hlow
    have hagain : left.map (· - 1) ≠ some 0 → FitsBehind heads b := by
      intro hnext
      refine hmore hleft ?_
      rintro rfl
      exact hnext rfl
    refine ih₂ heads b b hheads htails (Nat.le_refl b) (fun head hmem => ?_) hagain
      (fun hnext _ => hagain hnext) _ rfl hgrouped hfits ns' stop heq
    rw [wordRung_cons head.1 b q]
    exact hlow head hmem

/-- What is known to be one node is one. -/
theorem node_of_isOneNode {t : Term} {ns : List Match} {stop : Pos}
    (hg : m.grammar.isLadder = true) (ht : m.grammar.isOneNode t = true)
    (h : Parses m f (.term t) pos (some (ns, stop))) :
    ∃ kind children, ns = [.node kind children] := by
  obtain ⟨hkeeps, hshape⟩ := Bool.and_eq_true_iff.mp ht
  split at hshape
  case h_2 => cases hshape
  next k hword =>
  have hshows := (h.shows hg ns stop rfl).1 fun u hu => List.all_eq_true.mp hkeeps u hu
  obtain ⟨w, hw, hns⟩ := hshows.word _ hword
  obtain rfl := List.mem_singleton.mp hw
  rcases hns with _ | ⟨hfits, _ | -⟩
  next n =>
  cases n with
  | token => cases hfits
  | node kind children => exact ⟨kind, children, rfl⟩

end Parses
end Peg
end Packrat
