/-
# The grammar of the language

The rules make a grammar: no name is used twice, none is missing, and no rule left-calls
itself.  What else is asked of its rules is seen by looking at each part of each body, once
and for all (`grammar_isSound`):

| asked | why |
| --- | --- |
| the end of the text is not read as a token | runs stay within the tokens |
| tails of folds without a limit are not nullable | folds end |
| references go to rules of the grammar | none is looked up in vain |
| only `<`, `>` and `&` are cut off longer tokens | pieces are short and have a kind |
| a file ends with the end of the text | nothing is left behind it |
-/

import Packrat.Language
import Packrat.Proofs.Peg.Marking
import Packrat.Proofs.Peg.Naming
import Packrat.Proofs.Peg.Runs
import Packrat.Proofs.Peg.Tiling

namespace Packrat
namespace Language

open Peg

/-- The kinds that are cut off longer tokens. -/
def cutKinds : List Kind := [.lt, .gt, .amp]

/-- A part of a term that is steady and cuts nothing else off. -/
def isPlain (g : Grammar) (t : Term) : Bool :=
  g.isSteady t &&
    match t with
    | .split kind => cutKinds.contains kind
    | _ => true

/-- The term ends with the end of the text. -/
def endsClosed : Term → Bool
  | .seq items =>
    match items.getLast? with
    | some .ended => true
    | _ => false
  | _ => false

/-- What is asked of the grammar. -/
def isSound (g : Grammar) : Bool :=
  (g.rules.toList.all fun rule => rule.body.parts.all (isPlain g)) &&
    (g.id? fileRule.name).any fun id => (g.rules[id]?).any fun rule => endsClosed rule.body

/-- The rules by number, without the checks that their grammar has passed. -/
def coded : Option Grammar := Grammar.coded? rules

theorem coded_leftCycle : coded.any (fun g => g.leftCycle?.isNone) = true := by
  simp only [Grammar.leftCycle?, Grammar.leftCallGraph, Grammar.isMarked_nullableRules]
  decide +kernel

theorem coded_isSound : coded.any isSound = true := by
  unfold isSound isPlain Grammar.isSteady
  simp only [Grammar.isNullable_eq]
  decide +kernel

/-- Every part of every rule of a sound grammar is plain. -/
theorem isPlain_of_isSound {g : Grammar} (hsound : isSound g = true) {rule : Rule}
    (hrule : rule ∈ g.rules) : ∀ t ∈ rule.body.parts, isPlain g t = true := by
  obtain ⟨hall, -⟩ := Bool.and_eq_true_iff.mp hsound
  exact List.all_eq_true.mp (List.all_eq_true.mp hall rule (Array.mem_toList_iff.mpr hrule))

theorem isSteady_of_isPlain {g : Grammar} {t : Term} (h : isPlain g t = true) :
    g.isSteady t = true :=
  (Bool.and_eq_true_iff.mp h).1

/-- The numbers in a sound grammar are of its rules. -/
theorem knowsNumbers_of_isSound {g : Grammar} (hsound : isSound g = true) : g.KnowsNumbers := by
  intro rule hrule id hid
  have hsteady := isSteady_of_isPlain (isPlain_of_isSound hsound hrule _ hid)
  simpa [Grammar.isSteady, Grammar.resolve?] using hsteady

/-- **The grammar is accepted**, and it is the rules by number. -/
theorem exists_coded : ∃ g, grammar = .ok g ∧ coded = some g := by
  have hcodes : (rules.map fun rule => Grammar.codeOf rule.name).Nodup := by decide +kernel
  have hfew : rules.length ≤ Grammar.maxRules := by decide +kernel
  obtain ⟨g, hcoded, hcycle⟩ := (Option.any_eq_true ..).mp coded_leftCycle
  have hsound := coded_isSound
  rw [hcoded, Option.any_some] at hsound
  exact ⟨g, Grammar.ofRules_of_coded? hcodes hfew hcoded (knowsNumbers_of_isSound hsound)
    (Option.isNone_iff_eq_none.mp hcycle), hcoded⟩

theorem exists_grammar : ∃ g, grammar = .ok g := by
  obtain ⟨g, hg, -⟩ := exists_coded
  exact ⟨g, hg⟩

variable {g : Grammar} {m : Machine}

/-- What is seen of these rules is so of the grammar. -/
theorem of_coded {check : Grammar → Bool} (h : coded.any check = true) (hg : grammar = .ok g) :
    check g = true := by
  obtain ⟨g', hg', hcoded⟩ := exists_coded
  obtain rfl := Except.ok.inj (hg'.symm.trans hg)
  rw [hcoded] at h
  exact h

theorem exists_of_coded {check : Grammar → Bool} (h : coded.any check = true) :
    ∃ g, grammar = .ok g ∧ check g = true := by
  obtain ⟨g, hg⟩ := exists_grammar
  exact ⟨g, hg, of_coded h hg⟩

/-- **The grammar is sound.** -/
theorem isSound_of_eq (hg : grammar = .ok g) : isSound g = true := of_coded coded_isSound hg

/-- A name stands for a rule of the grammar. -/
theorem id?_lt {name : String} {id : Nat} (h : g.id? name = some id) : id < g.rules.size := by
  obtain ⟨hlt, -⟩ := Array.findIdx?_eq_some_iff_getElem.mp h
  exact hlt

/-- Every part of every rule is plain. -/
theorem isPlain_of_rule (hg : grammar = .ok g) {id : Nat} {rule : Rule}
    (hrule : g.rules[id]? = some rule) : ∀ t ∈ rule.body.parts, isPlain g t = true :=
  isPlain_of_isSound (isSound_of_eq hg) (Array.mem_of_getElem? hrule)

/-- The term for a rule by its name is plain. -/
theorem isPlain_rule (name : String) : ∀ t ∈ (Term.rule name).parts, isPlain g t = true := by
  refine Term.every_rule ?_
  cases hid : g.id? name with
  | none => simp [Term.rule, isPlain, Grammar.isSteady, Grammar.resolve?, hid]
  | some id => simpa [Term.rule, isPlain, Grammar.isSteady, Grammar.resolve?, hid] using id?_lt hid

/-- The term for a rule and the end of the text behind it is plain. -/
theorem isPlain_rule_ended (name : String) :
    ∀ t ∈ (Term.seq [.rule name, .ended]).parts, isPlain g t = true :=
  Term.every_rule_ended rfl (isPlain_rule name _ (Term.self_mem_parts _)) rfl

theorem mem_cutKinds_of_isPlain {kind : Kind} (h : isPlain g (.split kind) = true) :
    kind ∈ cutKinds := by
  simpa using (Bool.and_eq_true_iff.mp h).2

/-- What is plain is allowed in a bounded run over tokens that are short where they are cut. -/
theorem every_allows (hshort : ∀ kind ∈ cutKinds, m.CutsShort kind) {t : Term}
    (h : ∀ u ∈ t.parts, isPlain m.grammar u = true) : t.Every (m.Allows True) := by
  refine fun u hu => ⟨fun kind hkind => ?_, fun _ => isSteady_of_isPlain (h u hu)⟩
  exact hshort kind (mem_cutKinds_of_isPlain (g := m.grammar) (hkind ▸ h u hu))

/-- What is plain covers what it reads. -/
theorem every_cuts {t : Term} (h : ∀ u ∈ t.parts, isPlain m.grammar u = true) :
    t.Every (m.Cuts (· ∈ cutKinds)) := by
  refine fun u hu => ⟨isSteady_of_isPlain (h u hu), fun kind hkind => ?_⟩
  exact mem_cutKinds_of_isPlain (g := m.grammar) (hkind ▸ h u hu)

/-- Runs with the grammar are bounded, over tokens that are short where they are cut. -/
theorem exists_surveyed (hg : grammar = .ok m.grammar)
    (hshort : ∀ kind ∈ cutKinds, m.CutsShort kind) (n : Nat) :
    ∃ rank, m.Surveyed rank True (Machine.largestBody m.grammar n) := by
  have hrules : Grammar.ofRules rules = .ok m.grammar := hg
  exact Machine.exists_surveyed (Grammar.leftCycle?_of_ofRules hrules)
    (fun id rule hrule => every_allows hshort (isPlain_of_rule hg hrule)) n

/-- Matches of the grammar's rules cover what they read. -/
theorem rulesCut (hg : grammar = .ok m.grammar) : m.RulesCut (· ∈ cutKinds) :=
  fun _ _ hrule => every_cuts (isPlain_of_rule hg hrule)

end Language
end Packrat
