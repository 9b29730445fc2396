/-
# Runs never enter a rule again

Between runs no rule is being evaluated, whatever limits have cut runs short, and the table
says nothing that it may not (`Machine.IsIdle`).  So one run after another may begin at the
first token with any root, and none enters a rule at a place where it is being evaluated:
the check that grammars go through, which looks at terms only, is sound.
-/

import Packrat.Proofs.Peg.Descent

namespace Packrat
namespace Peg
namespace Machine

variable {m : Machine} {rank : Nat → Nat} {bounded : Prop} {largest : Nat}

/-- Between runs: no rule is being evaluated, and the table says nothing that it may not. -/
structure IsIdle (m : Machine) (bounded : Prop) (memo : Memo) : Prop where
  quiet : ∀ key, memo.get? key ≠ some .inProgress
  forward : ∀ key e, memo.get? key = some e → m.IsForward bounded key e

theorem isIdle_empty : m.IsIdle bounded {} :=
  ⟨fun key h => by simp at h, fun key e h => by simp at h⟩

theorem IsIdle.ready {memo : Memo} (h : m.IsIdle bounded memo) (bound : Nat) :
    m.Ready rank bounded {} bound memo :=
  ⟨isPlace_start, fun key hkey => absurd hkey (h.quiet key), h.forward⟩

theorem IsIdle.keeps {memo memo' : Memo} (h : m.IsIdle bounded memo)
    (hkeeps : m.Keeps bounded memo memo') : m.IsIdle bounded memo' :=
  ⟨fun key hkey => h.quiet key ((hkeeps.active key).mp hkey), hkeeps.forward h.forward⟩

theorem state_ended (s : State) (result : Except Stop (List Match × Pos)) :
    (runWith.ended m s result).state = s := by
  unfold runWith.ended
  split_ifs <;> rfl

/-- A run begins and ends with no rule being evaluated.  It never enters a rule again, and if
it is bounded and has fuel, it ends. -/
theorem runWith_descends (hm : m.Surveyed rank bounded largest) (fuel : Nat) {root : Term}
    {s : State} (hroot : root.Every (m.Allows bounded)) (hidle : m.IsIdle bounded s.memo) :
    match m.runWith fuel root s with
    | .ok r => m.IsIdle bounded r.state.memo
    | .error f => f.isReentry = false ∧
        ¬ (bounded ∧ m.cost largest {} m.grammar.rules.size root.size ≤ fuel) := by
  have hcalls : m.CallsBelow rank root m.grammar.rules.size :=
    fun r _ id _ hid => hm.ranking.lt id hid
  have heval := eval_descends hm fuel root {} _ { s with out := #[] } hroot hcalls (hidle.ready _)
  simp only [runWith]
  cases ho : m.eval fuel root {} { s with out := #[] } with
  | matched stop s' =>
    rw [ho] at heval
    simp only [state_ended]
    exact hidle.keeps heval.2.2
  | failed s' =>
    rw [ho] at heval
    simp only [state_ended]
    exact hidle.keeps heval
  | fault f =>
    rw [ho] at heval
    exact heval

/-- Runs one after the other, each with some fuel and in the state that the last one left,
up to the first that goes wrong. -/
def runAll (m : Machine) : List (Nat × Term) → State → Except Fault (List Run)
  | [], _ => .ok []
  | (fuel, root) :: rest, s =>
    match m.runWith fuel root s with
    | .error f => .error f
    | .ok r => (runAll m rest r.state).map (r :: ·)

theorem runAll_not_reentry (hm : m.Surveyed rank bounded largest) (roots : List (Nat × Term)) :
    ∀ s, (∀ root ∈ roots, root.2.Every (m.Allows bounded)) → m.IsIdle bounded s.memo →
      ∀ f, m.runAll roots s = .error f → f.isReentry = false := by
  induction roots with
  | nil =>
    intro s _ _ f h
    cases h
  | cons root roots ih =>
    obtain ⟨fuel, root⟩ := root
    intro s hroots hidle f h
    have hrun := runWith_descends hm fuel (hroots (fuel, root) (by simp)) hidle
    simp only [runAll] at h
    cases hr : m.runWith fuel root s with
    | error f' =>
      rw [hr] at hrun h
      cases h
      exact hrun.1
    | ok r =>
      rw [hr] at hrun h
      simp only at h
      cases hrest : m.runAll roots r.state with
      | error f' =>
        rw [hrest] at h
        cases h
        exact ih r.state (fun root h => hroots root (by simp [h])) hrun f hrest
      | ok rs =>
        rw [hrest] at h
        cases h

/-- The larger of a number and the sizes of the bodies of rules. -/
def largestBody (g : Grammar) (n : Nat) : Nat :=
  g.rules.foldl (fun n rule => max n rule.body.size) n

theorem le_foldl_max (rules : List Rule) : ∀ n : Nat,
    n ≤ rules.foldl (fun n rule => max n rule.body.size) n ∧
      ∀ rule ∈ rules, rule.body.size ≤ rules.foldl (fun n rule => max n rule.body.size) n := by
  induction rules with
  | nil => exact fun n => ⟨Nat.le_refl n, by simp⟩
  | cons first rules ih =>
    intro n
    obtain ⟨hstart, hall⟩ := ih (max n first.body.size)
    refine ⟨(Nat.le_max_left ..).trans hstart, ?_⟩
    rintro rule (_ | ⟨_, hrule⟩)
    · exact (Nat.le_max_right ..).trans hstart
    · exact hall rule hrule

theorem le_largestBody (g : Grammar) (n : Nat) : n ≤ largestBody g n := by
  rw [largestBody, ← Array.foldl_toList]
  exact (le_foldl_max g.rules.toList n).1

theorem size_le_largestBody {g : Grammar} {id : Nat} {rule : Rule} (n : Nat)
    (hrule : g.rules[id]? = some rule) : rule.body.size ≤ largestBody g n := by
  rw [largestBody, ← Array.foldl_toList]
  refine (le_foldl_max g.rules.toList n).2 rule ?_
  exact Array.mem_toList_iff.mpr (Array.mem_of_getElem? hrule)

/-- What has to be known of a grammar without a cycle of left calls. -/
theorem exists_surveyed (hcycle : m.grammar.leftCycle? = none)
    (hallows : ∀ (id : Nat) (rule : Rule), m.grammar.rules[id]? = some rule →
      rule.body.Every (m.Allows bounded)) (n : Nat) :
    ∃ rank, m.Surveyed rank bounded (largestBody m.grammar n) := by
  obtain ⟨rank, hrank⟩ := Grammar.exists_ranks hcycle
  exact ⟨rank, hrank, hallows, fun id rule hrule => size_le_largestBody n hrule⟩

/-- A run that is not to be bounded may use any term, when all tokens are short. -/
theorem every_allows_of_short (hshort : ∀ t ∈ m.tokens, t.text.utf8ByteSize ≤ 255) (t : Term) :
    t.Every (m.Allows False) :=
  fun _ _ => ⟨fun _ _ _ _ _ t ht _ => hshort t (Array.mem_of_getElem? ht), False.elim⟩

/-- **The check for left recursion is sound.**  With a grammar that has been accepted, and
tokens of at most 255 bytes, no sequence of runs from the empty state on enters a rule at a
place where it is being evaluated, whatever the limits and the fuel. -/
theorem runAll_ne_reentered {rules : List Rule} {g : Grammar} {tokens : Array Symbol}
    (hg : Grammar.ofRules rules = .ok g) (hshort : ∀ t ∈ tokens, t.text.utf8ByteSize ≤ 255)
    (limits : Limits) (roots : List (Nat × Term)) (name : String) (index : Nat) :
    (⟨g, tokens, limits⟩ : Machine).runAll roots {} ≠ .error (.reentered name index) := by
  intro hrun
  obtain ⟨rank, hm⟩ : ∃ rank, (⟨g, tokens, limits⟩ : Machine).Surveyed rank False
      (largestBody g 0) :=
    exists_surveyed (Grammar.leftCycle?_of_ofRules hg)
      (fun id rule _ => every_allows_of_short hshort rule.body) 0
  have hnot := runAll_not_reentry hm roots {} (fun root _ => every_allows_of_short hshort root.2)
    isIdle_empty _ hrun
  cases hnot

/-- The conditions can be met: a type with arguments, whose last brackets are one token, is
read where rules may not be nested as deep, and another run follows. -/
theorem runAll_ne_reentered_arguments :
    let body : Term → Term := fun type =>
      .seq [.token .ident, .opt (.seq [.split .lt, type, .split .gt])]
    let rules : List Rule := [⟨"type", some .pathType, none, none, body (.rule "type")⟩]
    let g : Grammar := ⟨#[⟨"type", some .pathType, none, none, body (.ref (.linked 0))⟩]⟩
    let tokens : Array Symbol := #[⟨.ident, "a"⟩, ⟨.lt, "<"⟩, ⟨.ident, "b"⟩, ⟨.lt, "<"⟩,
      ⟨.ident, "c"⟩, ⟨.shr, ">>"⟩, ⟨.eof, ""⟩]
    let m : Machine := ⟨g, tokens, { maxDepth := some 2 }⟩
    let roots : List (Nat × Term) := [(40, .rule "type"), (40, .token .ident)]
    Grammar.ofRules rules = .ok g ∧ (∀ t ∈ tokens, t.text.utf8ByteSize ≤ 255) ∧
      ∀ name index, m.runAll roots {} ≠ .error (.reentered name index) := by
  intro body rules g tokens m roots
  have hg : Grammar.ofRules rules = .ok g := by cbv
  have hshort : ∀ t ∈ tokens, t.text.utf8ByteSize ≤ 255 := by decide
  exact ⟨hg, hshort, fun name index => runAll_ne_reentered hg hshort _ roots name index⟩

end Machine
end Peg
end Packrat
