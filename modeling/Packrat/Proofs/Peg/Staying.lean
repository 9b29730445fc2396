/-
# Only nullable terms stay

`Term.nullable` says of a term that it may match without reading, without a look at tokens.  It
keeps its word: a term that matches and leaves the place where it began is nullable
(`Parses.advances`).  Places count the bytes inside a token in 8 bits, so tokens must not have more
than 255; then a match never goes back either.

The induction is over what is matched.  Rounds of a fold are a goal of their own, of which nothing
is asked but to go forward or to stay: whether a fold is nullable is the operand's business.
Together with `Grammar.isLeast_nullableRules` this is what the check for left recursion stands on
(`Grammar.nullable_isLeast_and_sound`).
-/

import Packrat.Proofs.Peg.Faithful
import Packrat.Proofs.Peg.Lookup
import Packrat.Proofs.Peg.Place

namespace Packrat
namespace Peg
namespace Machine

variable {m : Machine} {pos stop : Pos} {ns : List Match}

/-- The offsets inside each token fit into 8 bits. -/
def HasShortTokens (m : Machine) : Prop :=
  ∀ (i : Nat) (t : Symbol), m.tokens[i]? = some t → t.text.utf8ByteSize ≤ 255

variable (m) in
theorem lt_leafAt (pos : Pos) (kind : Kind) : pos < (m.leafAt pos kind).2 :=
  .inl (Nat.lt_succ_self _)

/-- **A terminal goes forward from any place**, if tokens are short; only the term for the end of
the text stays. -/
theorem HasShortTokens.read?_advances (hshort : m.HasShortTokens) {t : Term}
    (h : m.read? pos t = some (ns, stop)) (null : RuleRef → Bool) :
    pos.Advances stop (t.nullable null) := by
  have hleaf : ∀ {kind}, some (m.leafAt pos kind) = some (ns, stop) →
      pos.Advances stop (t.nullable null) := by
    intro kind heq
    cases heq
    exact .inl (lt_leafAt m pos kind)
  cases t with
  | token kind =>
    simp only [read?] at h
    split_ifs at h
    exact hleaf h
  | split kind =>
    simp only [read?] at h
    split_ifs at h
    · exact hleaf h
    · obtain ⟨spelling, hspell, hcut⟩ := Option.bind_eq_some_iff.mp h
      split_ifs at hcut with hbegins
      obtain ⟨t, ht⟩ := hbegins.exists_token
      cases hcut
      exact .inl (lt_pieceAt ht (hshort _ t ht) hspell hbegins).1
  | word text =>
    simp only [read?] at h
    split_ifs at h
    exact hleaf h
  | any =>
    simp only [read?] at h
    split_ifs at h
    exact hleaf h
  | ended =>
    simp only [read?] at h
    split_ifs at h
    cases h
    exact .inr ⟨rfl, rfl⟩
  | _ => cases h

end Machine

/-- A match goes forward, or stays if it may. -/
def Answer.Advances (pos : Pos) (mayStay : Bool) (a : Answer) : Prop :=
  ∀ ns stop, a = some (ns, stop) → pos.Advances stop mayStay

section

variable {pos mid : Pos} {ns : List Match} {a : Answer} {b b' : Bool}
  {change : List Match → List Match}

theorem Answer.advances_none : Answer.Advances pos b none := by
  rintro ns stop ⟨⟩

theorem Answer.advances_stay : Answer.Advances pos true (some (ns, pos)) := by
  rintro ns stop ⟨⟩
  exact .inr ⟨rfl, rfl⟩

theorem Answer.Advances.imp (h : a.Advances pos b) (hb : b = true → b' = true) :
    a.Advances pos b' := fun _ _ heq => (h _ _ heq).imp hb

/-- What is made of the trees does not matter. -/
theorem Answer.Advances.mapTrees (h : a.Advances pos b) : (a.mapTrees change).Advances pos b := by
  intro ns stop heq
  obtain ⟨⟨ns', stop'⟩, rfl, hr⟩ := Option.map_eq_some_iff.mp heq
  cases hr
  exact h _ _ rfl

/-- A match that goes on where another one stopped. -/
theorem Answer.Advances.after (h : a.Advances mid b')
    (hfirst : Answer.Advances pos b (some (ns, mid))) : a.Advances pos (b && b') :=
  fun _ _ heq => (hfirst ns mid rfl).trans (h _ _ heq)

end

/-- A goal may be reached where it began: a term if it is nullable, the rounds of a fold always. -/
def Goal.mayStay (null : RuleRef → Bool) : Goal → Bool
  | .term t => t.nullable null
  | .rounds .. => true

/-- A reference may stay when the body of its rule may. -/
theorem Grammar.isNullable_of_resolve {g : Grammar} {r : RuleRef} {id : Nat} {rule : Rule}
    (hr : g.resolve? r = some id) (hrule : g.rules[id]? = some rule)
    (hbody : rule.body.nullable g.isNullable = true) : g.isNullable r = true := by
  rw [Grammar.isNullable_eq_linked hr]
  exact Grammar.isNullable_of_body hrule hbody

/-- **What matches goes forward, or it stays and is nullable.** -/
theorem Parses.advances {m : Machine} (hshort : m.HasShortTokens) {f : Flags} {goal : Goal}
    {pos : Pos} {a : Answer} (h : Parses m f goal pos a) :
    a.Advances pos (goal.mayStay m.grammar.isNullable) := by
  induction h with
  | terminal => exact fun ns stop heq => hshort.read?_advances heq _
  | seq_nil => exact Answer.advances_stay
  | seq_fail => exact Answer.advances_none
  | seq_cons _ _ ih₁ ih₂ => exact (ih₂.after ih₁).mapTrees
  | choice_nil => exact Answer.advances_none
  | choice_here _ ih => exact ih.imp fun ht => Bool.or_eq_true_iff.mpr (.inl ht)
  | choice_next _ _ _ ih => exact ih.imp fun hts => Bool.or_eq_true_iff.mpr (.inr hts)
  | @opt f t pos a _ ih =>
    cases a with
    | none => exact Answer.advances_stay
    | some r => exact ih.imp fun _ => rfl
  | star_fail => exact Answer.advances_stay
  | star_empty => exact Answer.advances_stay
  | star_more _ _ _ ih₁ ih₂ => exact (ih₂.after ih₁).mapTrees.imp fun _ => rfl
  | plus_fail => exact Answer.advances_none
  | plus_more _ _ ih₁ ih₂ =>
    exact (ih₂.after ih₁).mapTrees.imp fun h => (Bool.and_eq_true_iff.mp h).1
  | @ahead f t pos a _ _ =>
    cases a with
    | none => exact Answer.advances_none
    | some r => exact Answer.advances_stay
  | @notAhead f t pos a _ _ =>
    cases a with
    | none => exact Answer.advances_stay
    | some r => exact Answer.advances_none
  | ref_none => exact Answer.advances_none
  | ref_rule hr hrule _ ih => exact ih.mapTrees.imp (Grammar.isNullable_of_resolve hr hrule)
  | node _ ih => exact ih.mapTrees
  | scope _ ih => exact ih
  | gate_open _ _ ih => exact ih
  | gate_shut => exact Answer.advances_none
  | fold_fail => exact Answer.advances_none
  | fold_rounds _ _ ih₁ ih₂ =>
    exact (ih₂.after ih₁).imp fun h => (Bool.and_eq_true_iff.mp h).1
  | rounds_spent => exact Answer.advances_stay
  | rounds_end => exact Answer.advances_stay
  | rounds_more _ _ _ ih₁ ih₂ => exact (ih₂.after ih₁).imp fun _ => rfl

namespace Machine

variable {m : Machine}

/-- **An evaluation that stays shows a nullable term**, if no limit is set and the table that it
begins with says only what is so. -/
theorem nullable_of_eval (hshort : m.HasShortTokens) (hlim : m.IsUnlimited) {fuel : Nat} {t : Term}
    {pos stop : Pos} {s s' : State} (hlive : s.halted = false) (htrue : m.MemoTrue s.memo)
    (h : m.eval fuel t pos s = .matched stop s') :
    pos.Advances stop (t.nullable m.grammar.isNullable) := by
  have hanswers := m.eval_isFaithful fuel t pos s
  rw [h] at hanswers
  obtain ⟨ns, -, -, -, hnone⟩ := hanswers
  obtain ⟨ns, -, -, hparses⟩ := (m.eval_isFaithful fuel).of_matched htrue (hnone hlim hlive) h
  exact hparses.advances hshort ns stop rfl

end Machine

/-- Where the match ends, if there is one. -/
def Outcome.stop? : Outcome → Option Pos
  | .matched stop _ => some stop
  | _ => none

theorem Outcome.exists_of_stop? {o : Outcome} {stop : Pos} (h : o.stop? = some stop) :
    ∃ s, o = .matched stop s := by
  cases o with
  | matched stop' s =>
    obtain rfl := Option.some.inj h
    exact ⟨s, rfl⟩
  | failed => cases h
  | fault => cases h

namespace Grammar

/-- **The nullable rules are a sound least fixed point.**  Marking ends, in place as in rounds, with
the least set of rules that is closed under being nullable; and the check of a grammar finds this
set, if the numbers in its rules are of rules.  And over tokens of at most 255 bytes, a term that is
evaluated without limits, and matches where it began, is nullable. -/
theorem nullable_isLeast_and_sound (g : Grammar) :
    g.passes (Array.replicate g.rules.size false) = g.nullableRules ∧
    (g.KnowsNumbers → g.findNullable = .ok g.nullableRules) ∧
    IsLeast {S | g.IsClosed S} (markedIn g.nullableRules) ∧
    ∀ m : Machine, m.grammar = g → m.HasShortTokens → m.IsUnlimited →
      ∀ fuel t pos s s', s.halted = false → m.MemoTrue s.memo →
        m.eval fuel t pos s = .matched pos s' → t.nullable g.isNullable = true := by
  refine ⟨g.passes_eq_nullableRules, fun hnumbers => ?_, g.isLeast_nullableRules, ?_⟩
  · exact g.findNullable_attempts.eq fun _ => hnumbers.not_isStray
  rintro m rfl hshort hlim fuel t pos s s' hlive htrue h
  rcases Machine.nullable_of_eval hshort hlim hlive htrue h with hlt | ⟨-, hnullable⟩
  · exact absurd hlt (Pos.lt_irrefl pos)
  · exact hnullable

/-- Two rules that refer to each other: a list is two items, and an item is a list in parentheses,
or nothing. -/
def twoItems : Grammar :=
  ⟨#[{ name := "list", body := .seq [.ref (.linked 1), .ref (.linked 1)] },
    { name := "item",
      body := .opt (.seq [.token .lParen, .ref (.linked 0), .token .rParen]) }]⟩

/-- Before a closing parenthesis a list matches nothing, so it is nullable. -/
theorem nullable_isLeast_and_sound_list :
    (Term.ref (.linked 0)).nullable twoItems.isNullable = true := by
  let m : Machine := ⟨twoItems, #[⟨.rParen, ")"⟩], {}⟩
  have hshort : m.HasShortTokens := by
    intro i t ht
    obtain rfl := List.mem_singleton.mp (List.mem_of_getElem? (Array.getElem?_toList ▸ ht))
    decide
  have hstays : (m.eval 6 (.ref (.linked 0)) {} {}).stop? = some {} := by cbv
  obtain ⟨s', h⟩ := Outcome.exists_of_stop? hstays
  exact (nullable_isLeast_and_sound twoItems).2.2.2 m rfl hshort ⟨rfl, rfl⟩ 6 _ {} {} s' rfl
    m.memoTrue_empty h

end Grammar
end Peg
end Packrat
