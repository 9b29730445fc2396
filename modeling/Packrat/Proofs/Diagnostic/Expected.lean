/-
# Names of what was expected

A list of expected names holds the name of each thing that was expected and nothing else
(`Expected.mem_names`).  Three operators or more are there under one name, and no token is
called an expression; so a comparison that is found where only tokens were expected, among them
three operators, is one that cannot be chained (`SyntaxError.code_of_operators`).
-/

import Mathlib.Data.List.Nodup
import Mathlib.Data.List.Perm.Subperm
import Packrat.Diagnostic.ParseError

namespace Packrat
namespace Expected

/-- The name under which something stands in a list of names. -/
def nameIn (expected : List Expected) (e : Expected) : String :=
  if collapseFrom ≤ (expected.filter isOperator).length && e.isOperator then "operator"
  else e.describe

/-- **A list of names names what was expected.** -/
theorem mem_names {expected : List Expected} {name : String} :
    name ∈ names expected ↔ ∃ e ∈ expected, name = nameIn expected e := by
  have hfold : ∀ (es : List Expected) (seen : List String),
      name ∈ es.foldl (fun seen e =>
        if seen.contains (nameIn expected e) then seen else seen ++ [nameIn expected e]) seen ↔
      name ∈ seen ∨ ∃ e ∈ es, name = nameIn expected e := by
    intro es
    induction es with
    | nil => simp
    | cons e es ih =>
      intro seen
      rw [List.foldl_cons, ih]
      split
      · next hseen =>
        have hmem : nameIn expected e ∈ seen := by simpa using hseen
        constructor
        · rintro (h | ⟨e', he', rfl⟩)
          · exact .inl h
          · exact .inr ⟨e', by simp [he'], rfl⟩
        · rintro (h | ⟨e', he', rfl⟩)
          · exact .inl h
          · rcases List.mem_cons.mp he' with rfl | he'
            · exact .inl hmem
            · exact .inr ⟨e', he', rfl⟩
      · simp [or_assoc]
  rw [names]
  exact (hfold expected []).trans (by simp)

/-- What no kind is called. -/
theorem describe_ne_expression (kind : Kind) : kind.describe ≠ "expression" := by
  have hall : ∀ entry ∈ Kind.strictKeywords ++ Kind.punctuators,
      "'" ++ entry.1 ++ "'" ≠ "expression" := by decide
  unfold Kind.describe
  split
  any_goals decide
  split
  · next hfind => exact hall _ (List.mem_of_find?_eq_some hfind)
  · decide

variable {expected : List Expected}

/-- Tokens are not called expressions. -/
theorem expression_not_mem_names (h : ∀ e ∈ expected, ∃ kind, e = token kind) :
    "expression" ∉ names expected := by
  intro hmem
  obtain ⟨e, he, hname⟩ := mem_names.mp hmem
  obtain ⟨kind, rfl⟩ := h e he
  unfold nameIn at hname
  split at hname
  · exact absurd hname (by decide)
  · exact describe_ne_expression kind hname.symm

/-- Three operators share one name. -/
theorem operator_mem_names {kinds : List Kind} (hnodup : kinds.Nodup)
    (hlength : collapseFrom ≤ kinds.length) (hkinds : ∀ kind ∈ kinds, kind ∈ operators)
    (h : ∀ kind ∈ kinds, token kind ∈ expected) : "operator" ∈ names expected := by
  have hmem : ∀ e ∈ kinds.map token, e ∈ expected.filter isOperator := by
    intro e he
    obtain ⟨kind, hkind, rfl⟩ := List.mem_map.mp he
    exact List.mem_filter.mpr ⟨h kind hkind, by simpa [isOperator] using hkinds kind hkind⟩
  have hinj : (kinds.map token).Nodup := hnodup.map fun _ _ heq => token.inj heq
  have hle : collapseFrom ≤ (expected.filter isOperator).length := by
    have hsub := (hinj.subperm hmem).length_le
    rw [List.length_map] at hsub
    omega
  obtain ⟨kind, hkind⟩ : ∃ kind, kind ∈ kinds :=
    List.exists_mem_of_length_pos (Nat.lt_of_lt_of_le (by decide) hlength)
  obtain ⟨hin, hoperator⟩ := List.mem_filter.mp (hmem _ (List.mem_map_of_mem hkind))
  exact mem_names.mpr ⟨_, hin, by simp [nameIn, hle, hoperator]⟩

end Expected

/-- **A comparison that cannot be chained** has been found if it stands where nothing but tokens
were expected, three operators among them, and not in the place of a type. -/
theorem SyntaxError.code_of_operators (position : Position) (offset size : Nat) {text : String}
    {expected : List Expected} {context : Context} (hfound : "'" ++ text ++ "'" ∈ comparisons)
    (htokens : ∀ what ∈ expected, ∃ kind, what = .token kind) {kinds : List Kind}
    (hnodup : kinds.Nodup) (hlength : Expected.collapseFrom ≤ kinds.length)
    (hkinds : ∀ kind ∈ kinds, kind ∈ Expected.operators)
    (hoperators : ∀ kind ∈ kinds, .token kind ∈ expected)
    (hcontext : context.isTypePosition = false) :
    (SyntaxError.of position offset size (some text) expected context).code =
      .chainedComparison := by
  have hoperator := Expected.operator_mem_names hnodup hlength hkinds hoperators
  have hexpression := Expected.expression_not_mem_names htokens
  have hchained : (SyntaxError.of position offset size (some text) expected
      context).isChainedComparison = true := by
    simp [isChainedComparison, of, hfound, hoperator, hexpression, hcontext]
  rw [code, if_pos hchained]

end Packrat
