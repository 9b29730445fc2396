/-
# Short texts, parsed by computation

What a run without limits comes to is the plain meaning of its root, and that can be computed
(`Machine.answer?`); so can the tokens of a text, when the number of lexemes to read is
counted down.  Put together they give the tree that parsing a text gives
(`Parse.treeWithin`), so that what is said of all trees can be looked at in one.
-/

import Packrat.Proofs.Parse.Ends
import Packrat.Proofs.Peg.Computed
import Packrat.Proofs.Peg.Faithful

namespace Packrat

open Peg

/-- What an optional result keeps. -/
theorem eq_ok_of_toOption {ε α : Type} {r : Except ε α} {a : α} (h : r.toOption = some a) :
    r = .ok a := by
  cases r with
  | error e => cases h
  | ok b => exact congrArg _ (Option.some.inj h)

namespace Lexeme

/-- The first `n` items of a text. -/
def itemsWithin : Nat → List Char → Nat → List Item → List Char → List Item
  | 0, _, _, read, _ => read.reverse
  | _ + 1, _, _, read, [] => read.reverse
  | n + 1, before, start, read, c :: cs =>
    let reading := scan before c cs
    let text := c :: cs.take reading.more
    let item : Item := match reading.result with
      | .ok kind => .ok ⟨kind, text, start⟩
      | .error f => .error (f, start)
    itemsWithin n (text.reverse ++ before) (start + Text.byteSize text) (item :: read)
      (cs.drop reading.more)

/-- There are no more items than characters. -/
theorem itemsFrom_eq_itemsWithin (n : Nat) : ∀ before start read cs, cs.length ≤ n →
    itemsFrom before start read cs = itemsWithin n before start read cs := by
  induction n with
  | zero =>
    intro before start read cs hlen
    obtain rfl := List.eq_nil_of_length_eq_zero (Nat.le_zero.mp hlen)
    rw [itemsFrom, itemsWithin]
  | succ n ih =>
    intro before start read cs hlen
    cases cs with
    | nil => rw [itemsFrom, itemsWithin]
    | cons c cs =>
      have hrest : (cs.drop (scan before c cs).more).length ≤ n := by
        rw [List.length_cons] at hlen
        rw [List.length_drop]
        omega
      rw [itemsFrom, itemsWithin]
      exact ih _ _ _ _ hrest

/-- The items of a text that begins with no mark of an interpreter. -/
theorem items_eq_itemsWithin {text : List Char} (h : shebangSize? text = none) :
    items text = itemsWithin text.length [] 0 [] text := by
  rw [items, h]
  exact itemsFrom_eq_itemsWithin _ _ _ _ _ (Nat.le_refl _)

end Lexeme

namespace Parse

/-- No limits. -/
def unlimited : ParseOptions := { maxSteps := none, maxDepth := none }

/-- The tree of a text that begins with no mark of an interpreter, if the answer to the root
is found to a depth of `n` inferences. -/
def treeWithin (n : Nat) (g : Grammar) (root : Term) (text : List Char) : Option Tree :=
  if Lexeme.shebangSize? text = none then
    (TokenStream.ofItems {} (Lexeme.itemsWithin text.length [] 0 [] text)).toOption.bind fun s =>
      ((Machine.mk g s.symbols {}).answer? n {} (.term root) {}).join.map fun parsed =>
        Tree.build s .sourceFile parsed.1
  else none

variable {text : List Char} {n : Nat}

/-- What is found for the tree of a text: its tokens, and an answer to the root. -/
theorem treeWithin_eq_some {g : Grammar} {root : Term} {tree : Tree}
    (h : treeWithin n g root text = some tree) : ∃ s ns stop, TokenStream.ofText text = .ok s ∧
      Parses ⟨g, s.symbols, {}⟩ {} (.term root) {} (some (ns, stop)) ∧
      tree = Tree.build s .sourceFile ns := by
  unfold treeWithin at h
  split at h
  · next hplain =>
    obtain ⟨s, hs, htree⟩ := Option.bind_eq_some_iff.mp h
    obtain ⟨⟨ns, stop⟩, hanswer, rfl⟩ := Option.map_eq_some_iff.mp htree
    have hfound := Option.join_eq_some_iff.mp hanswer
    refine ⟨s, ns, stop, ?_, Machine.answer?_isSound n _ _ _ _ hfound, rfl⟩
    rw [TokenStream.ofText, Lexeme.items_eq_itemsWithin hplain]
    exact eq_ok_of_toOption hs
  · cases h

/-- What a run answers decides what it comes to. -/
theorem answer_eq_ok {s : TokenStream} {r : Machine.Run} {ns : List Match} {stop : Pos}
    (h : r.answer? = some (some (ns, stop))) :
    ∃ stats, answer s r = .ok ⟨Tree.build s .sourceFile ns, s, stats⟩ := by
  unfold Machine.Run.answer? at h
  split at h
  · next hresult =>
    cases h
    exact ⟨⟨r.state.steps, r.state.memo.size⟩, by simp [answer, hresult]⟩
  · cases h
  · cases h

/-- A run that answers nothing has failed. -/
theorem answer_eq_error {s : TokenStream} {r : Machine.Run} (h : r.answer? = some none) :
    ∃ F, r.result = .error (.failure F) ∧
      answer s r = .error (.parse (.syntaxError (syntaxError s F))) := by
  unfold Machine.Run.answer? at h
  split at h
  · cases h
  · next F hresult => exact ⟨F, hresult, by simp [answer, hresult]⟩
  · cases h

/-- **A run without limits answers what its root comes to.** -/
theorem run_of_parses {g : Grammar} (hg : Language.grammar = .ok g) {s : TokenStream}
    (hs : TokenStream.ofText text = .ok s) {root : Term}
    (hroot : ∀ g, ∀ t ∈ root.parts, Language.isPlain g t = true) {a : Answer}
    (hparses : Parses (machine g s unlimited) {} (.term root) {} a) :
    ∃ table r, (∀ key, table.get? key = none) ∧
      (machine g s unlimited).run root { memo := table } = .ok r ∧
      (run root unlimited s {}).1 = answer s r ∧ r.answer? = some a := by
  obtain ⟨g', table, r, hg', hnone, hrun, hanswer⟩ := exists_run hs hroot unlimited {}
  obtain rfl : g = g' := Except.ok.inj (hg.symm.trans hg')
  have htrue : (machine g s unlimited).MemoTrue table := fun key e hget => by
    simp [hnone] at hget
  obtain ⟨hanswers, hsome⟩ := Machine.runWith_answers htrue hrun
  obtain ⟨a', ha⟩ := Option.isSome_iff_exists.mp (hsome ⟨rfl, rfl⟩ rfl)
  obtain rfl := (hanswers a' ha).unique hparses
  exact ⟨table, r, hnone, hrun, hanswer, ha⟩

/-- **The tree that is found is the tree that a run without limits gives.** -/
theorem run_of_treeWithin {g : Grammar} (hg : Language.grammar = .ok g) {root : Term}
    (hroot : ∀ g, ∀ t ∈ root.parts, Language.isPlain g t = true) {tree : Tree}
    (h : treeWithin n g root text = some tree) :
    ∃ s p, TokenStream.ofText text = .ok s ∧ (run root unlimited s {}).1 = .ok p ∧
      p.tree = tree := by
  obtain ⟨s, ns, stop, hs, hparses, rfl⟩ := treeWithin_eq_some h
  obtain ⟨table, r, -, -, hanswer, ha⟩ := run_of_parses hg hs hroot hparses
  obtain ⟨stats, hok⟩ := answer_eq_ok (s := s) ha
  exact ⟨s, _, hs, hanswer.trans hok, rfl⟩

/-- A text that begins with no mark of an interpreter has no match of the root, which is found to
a depth of `n` inferences. -/
def failsWithin (n : Nat) (g : Grammar) (root : Term) (text : List Char) : Bool :=
  (Lexeme.shebangSize? text).isNone &&
    (TokenStream.ofItems {} (Lexeme.itemsWithin text.length [] 0 [] text)).toOption.any fun s =>
      match (Machine.mk g s.symbols {}).answer? n {} (.term root) {} with
      | some none => true
      | _ => false

/-- **A run without limits fails where no match is found.** -/
theorem ofText_of_failsWithin (text : List Char) (n : Nat)
    (h : Language.coded.any (failsWithin n · (.rule Language.fileRule.name) text) = true) :
    ∃ e, ofText text unlimited = .error (.parse (.syntaxError e)) := by
  obtain ⟨g, hg, h⟩ := Language.exists_of_coded h
  obtain ⟨hplain, hfails⟩ := Bool.and_eq_true_iff.mp h
  obtain ⟨s, hs, hfails⟩ := (Option.any_eq_true ..).mp hfails
  have hstream : TokenStream.ofText text = .ok s := by
    rw [TokenStream.ofText, Lexeme.items_eq_itemsWithin (by simpa using hplain)]
    exact eq_ok_of_toOption hs
  split at hfails
  · next hfound =>
    have hparses := Machine.answer?_isSound n _ _ _ _ hfound
    obtain ⟨table, r, -, -, hanswer, ha⟩ :=
      run_of_parses hg hstream (fun g => Language.isPlain_rule Language.fileRule.name) hparses
    obtain ⟨F, -, herror⟩ := answer_eq_error (s := s) ha
    exact ⟨_, (bind_stream hstream _).trans (hanswer.trans herror)⟩
  · cases hfails

/-- **A file whose tree is found and passes a check.** -/
theorem ofText_of_treeWithin (text : List Char) (n : Nat) (check : Tree → Bool)
    (h : Language.coded.any (fun g =>
      (treeWithin n g (.rule Language.fileRule.name) text).any check) = true) :
    ∃ p, ofText text unlimited = .ok p ∧ check p.tree = true := by
  obtain ⟨g, hg, h⟩ := Language.exists_of_coded h
  obtain ⟨tree, hfound, hcheck⟩ := (Option.any_eq_true ..).mp h
  obtain ⟨s, p, hs, hrun, rfl⟩ :=
    run_of_treeWithin hg (fun g => Language.isPlain_rule Language.fileRule.name) hfound
  exact ⟨p, (bind_stream hs _).trans hrun, hcheck⟩

/-- **A construct whose tree is found and passes a check.** -/
theorem ofEntry_of_treeWithin (entry : Language.Entry) (text : List Char) (n : Nat)
    (check : Tree → Bool) (h : Language.coded.any (fun g =>
      (treeWithin n g (.seq [.rule entry.ruleName, .ended]) text).any check) = true) :
    ∃ p, ofEntry entry text unlimited = .ok p ∧ check p.tree = true := by
  obtain ⟨g, hg, h⟩ := Language.exists_of_coded h
  obtain ⟨tree, hfound, hcheck⟩ := (Option.any_eq_true ..).mp h
  obtain ⟨s, p, hs, hrun, rfl⟩ :=
    run_of_treeWithin hg (fun g => Language.isPlain_rule_ended entry.ruleName) hfound
  exact ⟨p, (bind_stream hs _).trans hrun, hcheck⟩

end Parse
end Packrat
