/-
# What a term can give

The trees that a term gives are known in part without the tokens: `Grammar.Yields` follows the rules
and leaves out places, flags and lookahead, and which alternative is the first that matches.  What a
term matches is among what it can give (`Parses.yields`), so whatever holds of all that a grammar
can give holds of all matches.

| term | can give |
| --- | --- |
| `token`, `split`, `word`, `any` | a leaf of a kind that the term reads |
| `ended`, `ahead`, `notAhead` | nothing |
| `seq`, `choice` | trees side by side; those of one alternative |
| `opt`, `star`, `plus` | those of any number of rounds that the term admits |
| `ref`, `node` | those of the body, under a node |
| `scoped`, `gate` | those of the body |
| `fold` | those of the operand, wrapped with those of a tail any number of times |
-/

import Packrat.Proofs.Peg.Plain

namespace Packrat
namespace Peg

/-- Some trees are among what a goal can give, whatever the tokens are. -/
inductive Grammar.Yields (g : Grammar) : Goal → List Match → Prop where
  | token {kind index part} : Yields g (.term (.token kind)) [.token index kind part]
  | split {kind index part} : Yields g (.term (.split kind)) [.token index kind part]
  | word {text index part} : Yields g (.term (.word text)) [.token index .ident part]
  | any {kind index part} : kind.isOpening = false → kind.isClosing = false →
    Yields g (.term .any) [.token index kind part]
  | ended : Yields g (.term .ended) []
  | seq_nil : Yields g (.term (.seq [])) []
  | seq_cons {t ts ns ms} : Yields g (.term t) ns → Yields g (.term (.seq ts)) ms →
    Yields g (.term (.seq (t :: ts))) (ns ++ ms)
  | choice {t ts ns} : t ∈ ts → Yields g (.term t) ns → Yields g (.term (.choice ts)) ns
  | opt_none {t} : Yields g (.term (.opt t)) []
  | opt_some {t ns} : Yields g (.term t) ns → Yields g (.term (.opt t)) ns
  | star_nil {t} : Yields g (.term (.star t)) []
  | star_cons {t ns ms} : Yields g (.term t) ns → Yields g (.term (.star t)) ms →
    Yields g (.term (.star t)) (ns ++ ms)
  | plus {t ns ms} : Yields g (.term t) ns → Yields g (.term (.star t)) ms →
    Yields g (.term (.plus t)) (ns ++ ms)
  | ahead {t} : Yields g (.term (.ahead t)) []
  | notAhead {t} : Yields g (.term (.notAhead t)) []
  | ref {r id rule ns} : g.resolve? r = some id → g.rules[id]? = some rule →
    Yields g (.term rule.body) ns → Yields g (.term (.ref r)) (rule.close ns)
  | node {kind t ns} : Yields g (.term t) ns → Yields g (.term (.node kind t)) [.node kind ns]
  | scope {set clear t ns} : Yields g (.term t) ns → Yields g (.term (.scoped set clear t)) ns
  | gate {flags whenSet t ns} : Yields g (.term t) ns → Yields g (.term (.gate flags whenSet t)) ns
  | fold {operand tails max ns ms} : Yields g (.term operand) ns →
    Yields g (.rounds tails max ns) ms → Yields g (.term (.fold operand tails max)) ms
  | rounds_end {tails left done} : Yields g (.rounds tails left done) done
  | rounds_more {tails left done kind t ns ms} : (kind, t) ∈ tails → Yields g (.term t) ns →
    Yields g (.rounds tails (left.map (· - 1)) [.node kind (done ++ ns)]) ms →
    Yields g (.rounds tails left done) ms

namespace Grammar.Yields

variable {g : Grammar} {t : Term} {ns : List Match} {kind : Kind}

/-- A terminal gives what it reads. -/
theorem of_read? {m : Machine} {pos stop : Pos} (h : m.read? pos t = some (ns, stop)) :
    g.Yields (.term t) ns := by
  rcases Machine.read?_cases h with
    ⟨rfl, rfl⟩ | ⟨index, kind, part, rfl, rfl | rfl | ⟨⟨text, rfl⟩, rfl⟩ | ⟨rfl, hopen, hclose⟩⟩
  · exact .ended
  · exact .token
  · exact .split
  · exact .word
  · exact .any hopen hclose

/-- A node of a round of a fold is over what one of the tails gives. -/
theorem of_ofTails {tails : List (Kind × Term)}
    (h : g.Yields (.term (Term.ofTails tails)) [.node kind ns]) :
    ∃ t, (kind, t) ∈ tails ∧ g.Yields (.term t) ns := by
  cases h with
  | choice htail htree =>
    obtain ⟨tail, hmem, rfl⟩ := List.mem_map.mp htail
    cases htree with
    | node hbody => exact ⟨tail.2, hmem, hbody⟩

end Grammar.Yields

/-- **What is matched is among what can be given.** -/
theorem Parses.yields {m : Machine} {f : Flags} {goal : Goal} {pos : Pos} {a : Answer}
    (h : Parses m f goal pos a) :
    ∀ ns stop, a = some (ns, stop) → m.grammar.Yields goal ns := by
  -- of a changed answer, the trees before the change are given
  have hmap : ∀ {a : Answer} {change : List Match → List Match} {ns : List Match} {stop : Pos},
      a.mapTrees change = some (ns, stop) → ∃ ms, a = some (ms, stop) ∧ ns = change ms := by
    intro a change ns stop heq
    obtain ⟨⟨ms, stop'⟩, rfl, hr⟩ := Option.map_eq_some_iff.mp heq
    cases hr
    exact ⟨ms, rfl, rfl⟩
  induction h with
  | terminal => exact fun _ _ hread => .of_read? hread
  | seq_nil =>
    rintro ns stop ⟨⟩
    exact .seq_nil
  | seq_fail => rintro ns stop ⟨⟩
  | seq_cons _ _ ih₁ ih₂ =>
    intro ns stop heq
    obtain ⟨ms, rfl, rfl⟩ := hmap heq
    exact .seq_cons (ih₁ _ _ rfl) (ih₂ _ _ rfl)
  | choice_nil => rintro ns stop ⟨⟩
  | choice_here _ ih =>
    rintro ns stop ⟨⟩
    exact .choice List.mem_cons_self (ih _ _ rfl)
  | choice_next _ _ _ ih =>
    intro ns stop heq
    cases ih ns stop heq with
    | choice ht hyields => exact .choice (List.mem_cons_of_mem _ ht) hyields
  | @opt _ _ _ a _ ih =>
    intro ns stop heq
    cases a with
    | none =>
      cases heq
      exact .opt_none
    | some r =>
      cases heq
      exact .opt_some (ih _ _ rfl)
  | star_fail =>
    rintro ns stop ⟨⟩
    exact .star_nil
  | star_empty =>
    rintro ns stop ⟨⟩
    exact .star_nil
  | star_more _ _ _ ih₁ ih₂ =>
    intro ns stop heq
    obtain ⟨ms, rfl, rfl⟩ := hmap heq
    exact .star_cons (ih₁ _ _ rfl) (ih₂ _ _ rfl)
  | plus_fail => rintro ns stop ⟨⟩
  | plus_more _ _ ih₁ ih₂ =>
    intro ns stop heq
    obtain ⟨ms, rfl, rfl⟩ := hmap heq
    exact .plus (ih₁ _ _ rfl) (ih₂ _ _ rfl)
  | ahead =>
    intro ns stop heq
    obtain ⟨-, -, hr⟩ := Option.map_eq_some_iff.mp heq
    cases hr
    exact .ahead
  | notAhead =>
    intro ns stop heq
    split at heq
    · cases heq
    · cases heq
      exact .notAhead
  | ref_none => rintro ns stop ⟨⟩
  | ref_rule hr hrule _ ih =>
    intro ns stop heq
    obtain ⟨ms, rfl, rfl⟩ := hmap heq
    exact .ref hr hrule (ih _ _ rfl)
  | node _ ih =>
    intro ns stop heq
    obtain ⟨ms, rfl, rfl⟩ := hmap heq
    exact .node (ih _ _ rfl)
  | scope _ ih => exact fun ns stop heq => .scope (ih ns stop heq)
  | gate_open _ _ ih => exact fun ns stop heq => .gate (ih ns stop heq)
  | gate_shut => rintro ns stop ⟨⟩
  | fold_fail => rintro ns stop ⟨⟩
  | fold_rounds _ _ ih₁ ih₂ => exact fun ns stop heq => .fold (ih₁ _ _ rfl) (ih₂ ns stop heq)
  | rounds_spent =>
    rintro ns stop ⟨⟩
    exact .rounds_end
  | rounds_end =>
    rintro ns stop ⟨⟩
    exact .rounds_end
  | rounds_more _ _ _ ih₁ ih₂ =>
    intro ns stop heq
    obtain ⟨t, htail, hyields⟩ := (ih₁ _ _ rfl).of_ofTails
    exact .rounds_more htail hyields (ih₂ ns stop heq)

end Peg
end Packrat
