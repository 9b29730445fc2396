/-
# Names as numbers

Rules are found by their names, and a check of a whole grammar compares a great many of them.  Where
the kernel runs such a check, numbers are compared much faster.  So a name is told by the number that
its bytes spell, which no other name does (`Grammar.codeOf_inj`), and a rule has the same number
whether it is found by its name or by its code (`Grammar.id?_eq_idOfCode?`).
-/

import Mathlib.Data.List.Basic
import Mathlib.Data.List.Induction
import Packrat.Proofs.Peg.Acceptance

namespace Packrat
namespace Peg.Grammar

/-- The number that bytes spell behind a 1, so that zeros in front count. -/
def spell (bytes : List UInt8) : Nat := bytes.foldl (fun n b => n * 256 + b.toNat) 1

theorem spell_concat (bytes : List UInt8) (b : UInt8) :
    spell (bytes ++ [b]) = spell bytes * 256 + b.toNat := by
  rw [spell, List.foldl_concat, spell]

theorem spell_pos (bytes : List UInt8) : 0 < spell bytes := by
  induction bytes using List.reverseRecOn with
  | nil => exact Nat.one_pos
  | append_singleton bytes b ih =>
    rw [spell_concat]
    omega

/-- Different bytes spell different numbers. -/
theorem spell_inj {bytes bytes' : List UInt8} (h : spell bytes = spell bytes') :
    bytes = bytes' := by
  have hlong : ∀ (bytes : List UInt8) (b : UInt8), spell (bytes ++ [b]) ≠ spell [] := by
    intro bytes b heq
    have hpos := spell_pos bytes
    rw [spell_concat, show spell [] = 1 from rfl] at heq
    omega
  induction bytes using List.reverseRecOn generalizing bytes' with
  | nil =>
    rcases List.eq_nil_or_concat' bytes' with rfl | ⟨bytes', b', rfl⟩
    · rfl
    · exact absurd h.symm (hlong bytes' b')
  | append_singleton bytes b ih =>
    rcases List.eq_nil_or_concat' bytes' with rfl | ⟨bytes', b', rfl⟩
    · exact absurd h (hlong bytes b)
    · -- the last byte is what is left over, and the others are the quotient
      have hb := b.toNat_lt
      have hb' := b'.toNat_lt
      rw [spell_concat, spell_concat] at h
      obtain rfl := ih (show spell bytes = spell bytes' by omega)
      obtain rfl : b = b' := UInt8.toNat_inj.mp (by omega)
      rfl

/-- The code of a name. -/
def codeOf (name : String) : Nat := spell name.toByteArray.data.toList

theorem codeOf_inj {name name' : String} (h : codeOf name = codeOf name') : name = name' :=
  String.toByteArray_inj.mp (ByteArray.ext (Array.toList_inj.mp (spell_inj h)))

/-- The number of the rule with a name, from the codes of all rules. -/
def idOfCode? (codes : List Nat) (name : String) : Option Nat :=
  codes.findIdx? (· = codeOf name)

/-- **A rule is found by its code as by its name.** -/
theorem id?_eq_idOfCode? (rules : List Rule) (name : String) :
    (⟨rules.toArray⟩ : Grammar).id? name =
      idOfCode? (rules.map fun rule => codeOf rule.name) name := by
  rw [id?, idOfCode?, List.findIdx?_toArray, List.findIdx?_map]
  congr 1
  funext rule
  exact decide_eq_decide.mpr ⟨congrArg codeOf, codeOf_inj⟩

/-- The rules by number, where a number is found by a code. -/
def coded? (rules : List Rule) : Option Grammar :=
  (linkRules (idOfCode? (rules.map fun rule => codeOf rule.name)) rules).toOption.map unlinked

/-- **Rules with different codes make the grammar that the codes give**, if all numbers in it are of
rules and no rule left-calls itself. -/
theorem ofRules_of_coded? {rules : List Rule} {g : Grammar}
    (hcodes : (rules.map fun rule => codeOf rule.name).Nodup) (hfew : rules.length ≤ maxRules)
    (hcoded : coded? rules = some g) (hnumbers : g.KnowsNumbers) (hcycle : g.leftCycle? = none) :
    ofRules rules = .ok g := by
  have hnodup : (rules.map (·.name)).Nodup := by
    refine List.Nodup.of_map codeOf ?_
    rwa [List.map_map]
  have hdup : lastDuplicate? [] rules = none :=
    lastDuplicate?_eq_none_iff.mpr ⟨hnodup, by simp⟩
  have hid : (unlinked rules).id? = idOfCode? (rules.map fun rule => codeOf rule.name) :=
    funext (id?_eq_idOfCode? rules)
  obtain ⟨bodies, hbodies, rfl⟩ := Option.map_eq_some_iff.mp hcoded
  rw [← hid] at hbodies
  cases hlink : linkRules (unlinked rules).id? rules with
  | error e =>
    rw [hlink] at hbodies
    cases hbodies
  | ok linked =>
    rw [hlink] at hbodies
    obtain rfl : linked = bodies := Option.some.inj hbodies
    rw [ofRules_eq_map hdup hfew hlink, checkLeftCalls_eq_ok hnumbers hcycle]
    rfl

end Peg.Grammar
end Packrat
