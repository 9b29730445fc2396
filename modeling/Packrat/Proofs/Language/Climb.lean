/-
# How the ladder reads a chain

A rung of the ladder reads from an integer on as much of a chain as it can
(`Machine.exists_climb`).  What it reads is a grouped tree whose operators stand on the rung's
level or a tighter one, with at most one comparison in a stretch; and it stops only for a
reason: the next operator stands on a looser level, or it is a comparison although there is
one in the stretch already.

| level | after its operand | what stands behind its operator |
| --- | --- | --- |
| assignments | at most one round | another assignment, or a tighter tree |
| comparisons | at most one round | a tighter tree |
| the others | rounds, as long as there are operators of the level | a tighter tree |

The step is `Grown.binary`: a tree, an operator of the level and the tree behind it make a tree
of the same kind.  Wherever a rung stops, the tightest operators have been asked for last.
-/

import Packrat.Proofs.Language.Operand

namespace Packrat
namespace Language

open Peg

/-! ## Trees as matches -/

namespace Expr

/-- The number of tokens under a tree. -/
def width (e : Expr) : Nat := 2 * e.links.length + 1

/-- The tree over a token stream in which it begins with token `i`. -/
def toMatch (i : Nat) : Expr → Match
  | literal _ => .node .literal [.token i .intNumber none]
  | binary op l r => .node .binExpr
    [l.toMatch i, .token (i + l.width) op.kind none, r.toMatch (i + l.width + 1)]

theorem width_binary (op : BinaryOp) (l r : Expr) :
    (binary op l r).width = l.width + 1 + r.width := by
  simp only [width, links, List.length_append, List.length_cons]
  omega

end Expr

/-! ## Rungs by number -/

/-- The rule that reads the operands and operators of a level, or casts behind the last. -/
def rungName (L : Nat) : String := (levels[L]?.map (·.rule)).getD "expr_cast"

/-- The number of the rung behind an operator of a level. -/
def rungBehind (L : Nat) : Nat := if L = 0 then 0 else L + 1

/-- What the table says of a level, by its number. -/
theorem levels_getElem {L : Nat} {level : Level} (h : levels[L]? = some level) :
    level.rule = rungName L ∧ level.behind = rungName (rungBehind L) ∧
      level.operand = (if L = 0 then "expr_range" else rungName (L + 1)) ∧
      level.max = (if L = 0 ∨ L = 3 then some 1 else none) := by
  have hall : ∀ L < 10, ∀ level ∈ levels[L]?, level.rule = rungName L ∧
      level.behind = rungName (rungBehind L) ∧
      level.operand = (if L = 0 then "expr_range" else rungName (L + 1)) ∧
      level.max = (if L = 0 ∨ L = 3 then some 1 else none) := by decide
  exact hall L (List.getElem?_eq_some_iff.mp h).1 level h

/-- The operators of a level are those that stand on it. -/
theorem mem_operators_iff {L : Nat} {level : Level} (h : levels[L]? = some level)
    {op : BinaryOp} : op.kind ∈ level.operators ↔ op.level = L := by
  have hall : ∀ L < 10, ∀ level ∈ levels[L]?, ∀ kind ∈ level.operators, level? kind = some L := by
    decide
  constructor
  · intro hmem
    have hlevel := hall L (List.getElem?_eq_some_iff.mp h).1 level h op.kind hmem
    exact Option.some.inj (op.on_level.symm.trans hlevel)
  · rintro rfl
    obtain ⟨level', hlevel', hmem⟩ := op.kind_mem
    cases h.symm.trans hlevel'
    exact hmem

/-- The end of a text is no operator. -/
theorem eof_not_mem_operators {L : Nat} {level : Level} (h : levels[L]? = some level) :
    Kind.eof ∉ level.operators := by
  have hall : ∀ level ∈ levels, Kind.eof ∉ level.operators := by decide
  exact hall level (List.mem_of_getElem? h)

theorem BinaryOp.kind_ne_eof (op : BinaryOp) : op.kind ≠ .eof := by
  obtain ⟨level, hlevel, hmem⟩ := op.kind_mem
  exact fun heof => eof_not_mem_operators hlevel (heof ▸ hmem)

/-- The operators that bind most tightly. -/
def tightest : List Kind := [.star, .slash, .percent]

/-! ## What a rung has read -/

/-- Nothing more of level `K` or tighter can be read behind the tree: there is a looser operator
or the end, or a second comparison in a stretch. -/
def LeavesOff (K : Nat) (e : Expr) (left : List (BinaryOp × Integer)) : Prop :=
  ∀ op ∈ left.head?.map (·.1), op.level < K ∨ op.level = 3 ∧ endsOpen e.ops = true

/-- The tree has grown from the integer `x` over a part of the chain behind it, with operators of
level `L` or tighter; level `K` can read no more. -/
structure Grown (L K : Nat) (x : Integer) (rest : List (BinaryOp × Integer)) (e : Expr)
    (left : List (BinaryOp × Integer)) : Prop where
  first : e.first = x
  links : e.links ++ left = rest
  isGrouped : e.IsGrouped
  le_level : ∀ op ∈ e.root?, L ≤ op.level
  settles : settles false e.ops = true
  leavesOff : LeavesOff K e left

namespace Grown

variable {L K R : Nat} {x x₁ : Integer} {op : BinaryOp} {e e₁ : Expr}
  {rest left left₁ : List (BinaryOp × Integer)}

/-- An integer by itself. -/
theorem literal {K : Nat} (h : ∀ op ∈ rest.head?.map (·.1), op.level < K) :
    Grown L K x rest (.literal x) rest :=
  ⟨rfl, rfl, trivial, by rintro op ⟨⟩, rfl, fun op hop => .inl (h op hop)⟩

/-- What is read on a level counts as read on a looser one, for the same operators to come. -/
theorem mono {L' : Nat} (h : Grown L K x rest e left) (hle : L' ≤ L) :
    Grown L' K x rest e left :=
  ⟨h.first, h.links, h.isGrouped, fun op hop => Nat.le_trans hle (h.le_level op hop), h.settles,
    h.leavesOff⟩

/-- A level at which the next operator does not stand can read no more if the next level cannot. -/
theorem leave (h : Grown L (K + 1) x rest e left)
    (hnot : ∀ op ∈ left.head?.map (·.1), op.level ≠ K ∨ op.level = 3 ∧ endsOpen e.ops = true) :
    Grown L K x rest e left := by
  refine ⟨h.first, h.links, h.isGrouped, h.le_level, h.settles, fun op hop => ?_⟩
  rcases h.leavesOff op hop with hlt | hopen
  · rcases hnot op hop with hne | hopen
    · left
      omega
    · exact .inr hopen
  · exact .inr hopen

/-- **One round.**  A tree, an operator of the level behind it and the tree that stands behind
the operator make a tree of the level; what cannot be read behind the last part cannot be read
behind the whole. -/
theorem binary (h : Grown L K x rest e ((op, x₁) :: left)) (hop : op.level = L)
    (htight : L = 0 ∨ L = 3 → ∀ op' ∈ e.root?, L < op'.level)
    (h₁ : Grown (rungBehind L) (rungBehind L) x₁ left e₁ left₁) :
    Grown L (rungBehind L) x rest (.binary op e e₁) left₁ := by
  have hroot₁ : ∀ op' ∈ e₁.root?, op.takes op' = false := by
    intro op' hop'
    have hle := h₁.le_level op' hop'
    rw [← Bool.not_eq_true, BinaryOp.takes_iff]
    unfold rungBehind at hle
    split at hle <;> omega
  have hroot : ∀ op' ∈ e.root?, op'.takes op = true := by
    intro op' hop'
    have hle := h.le_level op' hop'
    rw [BinaryOp.takes_iff]
    by_cases hzero : L = 0
    · have hlt := htight (.inl hzero) op' hop'
      omega
    · omega
  -- from comparisons on, what is on both sides binds more tightly than comparisons do
  have htl : 3 ≤ op.level → ∀ op' ∈ e.ops, 3 < op'.level := by
    intro hlevel
    refine h.isGrouped.le_level fun op' hop' => ?_
    have hle := h.le_level op' hop'
    by_cases hthree : L = 3
    · have hlt := htight (.inr hthree) op' hop'
      omega
    · omega
  have htr : 3 ≤ op.level → ∀ op' ∈ e₁.ops, 3 < op'.level := by
    intro hlevel
    refine h₁.isGrouped.le_level fun op' hop' => ?_
    have hle := h₁.le_level op' hop'
    unfold rungBehind at hle
    split at hle <;> omega
  obtain ⟨hsettles, hopen⟩ := Expr.settles_binary op h.settles h₁.settles htl htr
  refine ⟨h.first, ?_, ⟨hroot, hroot₁, h.isGrouped, h₁.isGrouped⟩, ?_, hsettles, ?_⟩
  · rw [← h.links, ← h₁.links, ← h₁.first]
    simp [Expr.links]
  · rintro op' ⟨⟩
    exact Nat.le_of_eq hop.symm
  · intro next hnext
    rcases h₁.leavesOff next hnext with hlt | ⟨hthree, hopen₁⟩
    · exact .inl hlt
    · rw [hopen]
      by_cases hlevel : op.level < 3
      · rw [if_pos hlevel]
        exact .inr ⟨hthree, hopen₁⟩
      · left
        rw [hthree, rungBehind]
        split <;> omega

end Grown
end Language

/-! ## What a rule yields -/

namespace Peg.Machine

open Packrat.Language

/-- The rule of a name reads the tree from token `i` on, and unless it reads operands of the
tightest operators, it asks for these at the end of the tree. -/
structure Yields (m : Machine) (name : String) (i : Nat) (e : Expr) : Prop where
  reads : ∀ r, m.grammar.refersTo r name = true → m.Reads (.term (.ref r)) ⟨i, 0⟩
    (some ([e.toMatch i], ⟨i + e.width, 0⟩)) (i + e.width)
  asks : name ≠ "expr_cast" → ∀ r, m.grammar.refersTo r name = true → ∀ kind ∈ tightest,
    m.Asks ⟨{}, .term (.ref r), ⟨i, 0⟩⟩ ⟨i + e.width, 0⟩ (.token kind)

variable {m : Machine} {i j : Nat} {x : Integer} {op : BinaryOp} {e e₁ e' : Expr}
  {rest left : List (BinaryOp × Integer)} {kinds : List Kind} {kind : Kind}

/-- What a task asks for, the tasks that come to it ask for. -/
theorem Asks.of_visits {task task' : Task} {q : Pos} {what : Expected}
    (hvisit : m.Visits task task') (h : m.Asks task' q what) : m.Asks task q what := by
  obtain ⟨f, u, hvisit', hask⟩ := h
  exact ⟨f, u, hvisit.trans hvisit', hask⟩

/-- An integer is what the rule of casts yields. -/
theorem yields_cast (hg : m.grammar.isClimbable = true) (hat : m.IsAt i x rest) :
    m.Yields "expr_cast" i (.literal x) :=
  ⟨fun _ hr => reads_cast hg hat hr, fun hne => absurd rfl hne⟩

/-- A range without an end is what stands before its end. -/
theorem Yields.range (hg : m.grammar.isClimbable = true) (hat : m.IsAt i x rest)
    (hkind : m.kindAt ⟨i + e.width, 0⟩ ∈ followers) (h : m.Yields "expr_or" i e) :
    m.Yields "expr_range" i e := by
  simp only [Grammar.isClimbable, Bool.and_eq_true] at hg
  obtain ⟨⟨⟨⟨⟨⟨⟨-, hrange⟩, -⟩, -⟩, -⟩, -⟩, -⟩, -⟩ := hg
  have hall : ∀ r, m.grammar.refersTo r "expr_range" = true →
      m.Reads (.term (.ref r)) ⟨i, 0⟩ (some ([e.toMatch i], ⟨i + e.width, 0⟩)) (i + e.width) ∧
        ∃ r', m.grammar.refersTo r' "expr_or" = true ∧
          m.Visits ⟨{}, .term (.ref r), ⟨i, 0⟩⟩ ⟨{}, .term (.ref r'), ⟨i, 0⟩⟩ := by
    intro r hr
    obtain ⟨id, rule, hid, hrule, hcheck⟩ := exists_rule hrange hr
    unfold Grammar.isRangeRule at hcheck
    split at hcheck
    · simp only [Bool.and_eq_true, bne_iff_ne] at hcheck
      obtain ⟨⟨⟨⟨hfirst, hsecond⟩, hrefers⟩, htails⟩, hmax⟩ := hcheck
      have hle : i ≤ i + e.width := Nat.le_add_right _ _
      have hfirst := reads_of_rejects hat.kindAt (by rintro r ⟨⟩) _ hfirst
      have hsecond := reads_of_rejects hat.kindAt (by rintro r ⟨⟩) _ hsecond
      constructor
      · exact Reads.ref hid hrule (by rintro c ⟨⟩) (.inl rfl)
          (.choice_next (hfirst.mono hle) (.choice_next (hsecond.mono hle)
            (.choice_here (.fold (h.reads _ hrefers)
              (.rounds_end hmax (reads_tailsReject htails hkind))))))
      · refine ⟨_, hrefers, ?_⟩
        exact .head (.ref hid hrule) (.head (.choice_tail hfirst.parses)
          (.head (.choice_tail hsecond.parses) (.head .choice_head (.single .operand))))
    · cases hcheck
  refine ⟨fun r hr => (hall r hr).1, fun _ r hr kind hkind => ?_⟩
  obtain ⟨-, r', hr', hvisit⟩ := hall r hr
  exact .of_visits hvisit (h.asks (by decide) r' hr' kind hkind)

/-! ## Rounds -/

/-- The tails of a level: an operator, and what is behind it. -/
def levelTails (kinds : List Kind) (behind : RuleRef) : List (Kind × Term) :=
  [(.binExpr, .seq [.anyOf kinds, .ref behind])]

/-- One of some tokens is read. -/
theorem reads_anyOf (h : m.kindAt ⟨j, 0⟩ ∈ kinds) : m.Reads (.term (.anyOf kinds)) ⟨j, 0⟩
    (some ([.token j (m.kindAt ⟨j, 0⟩) none], ⟨j + 1, 0⟩)) j := by
  induction kinds with
  | nil => cases h
  | cons kind kinds ih =>
    by_cases heq : m.kindAt ⟨j, 0⟩ = kind
    · subst heq
      exact .choice_here (.token_some rfl)
    · exact .choice_next (.token_none heq) (ih ((List.mem_cons.mp h).resolve_left heq))

/-- None of some tokens is there. -/
theorem reads_anyOf_none (h : m.kindAt ⟨j, 0⟩ ∉ kinds) :
    m.Reads (.term (.anyOf kinds)) ⟨j, 0⟩ none j := by
  induction kinds with
  | nil => exact .choice_nil
  | cons kind kinds ih =>
    have hnot := not_or.mp (mt List.mem_cons.mpr h)
    exact .choice_next (.token_none hnot.1) (ih hnot.2)

/-- Where none of some tokens is there, all have been asked for. -/
theorem asks_anyOf (h : m.kindAt ⟨j, 0⟩ ∉ kinds) (hkind : kind ∈ kinds) :
    m.Asks ⟨{}, .term (.anyOf kinds), ⟨j, 0⟩⟩ ⟨j, 0⟩ (.token kind) := by
  induction kinds with
  | nil => cases hkind
  | cons kind' kinds ih =>
    have hnot := not_or.mp (mt List.mem_cons.mpr h)
    rcases List.mem_cons.mp hkind with rfl | hmem
    · exact .call ⟨{}, .token kind, .refl, rfl, by simp [read?, hnot.1]⟩ .choice_head
    · exact .call (ih hnot.2 hmem) (.choice_tail (Reads.token_none hnot.1).parses)

/-- From the tree `e` on, which begins with token `i`, at most `max` rounds of a level come to
the tree `e'`.  On the tightest level the last round asks for the operators behind `e'`; on the
others the last operand does. -/
def RoundsTo (m : Machine) (level : Level) (max : Option Nat) (i : Nat) (e e' : Expr) : Prop :=
  ∀ behind, m.grammar.refersTo behind level.behind = true → ∀ task,
    m.Visits task ⟨{}, .rounds (levelTails level.operators behind) max [e.toMatch i],
      ⟨i + e.width, 0⟩⟩ →
    (level.operand ≠ "expr_cast" → ∀ kind ∈ tightest,
      m.Asks task ⟨i + e.width, 0⟩ (.token kind)) →
    e.width ≤ e'.width ∧
      m.Reads (.rounds (levelTails level.operators behind) max [e.toMatch i]) ⟨i + e.width, 0⟩
        (some ([e'.toMatch i], ⟨i + e'.width, 0⟩)) (i + e'.width) ∧
      ∀ kind ∈ tightest, m.Asks task ⟨i + e'.width, 0⟩ (.token kind)

variable {level : Level} {max : Option Nat}

/-- No round is left. -/
theorem roundsTo_spent (hcast : level.operand ≠ "expr_cast") :
    m.RoundsTo level (some 0) i e e :=
  fun _ _ _ _ hasks => ⟨Nat.le_refl _, .rounds_spent, hasks hcast⟩

/-- The level of which casts are the operands is the tightest. -/
theorem operators_eq_tightest (hlevel : level ∈ levels) (hcast : level.operand = "expr_cast") :
    level.operators = tightest := by
  have hall : ∀ level ∈ levels, level.operand = "expr_cast" → level.operators = tightest := by
    decide
  exact hall level hlevel hcast

/-- A round comes to its operator first. -/
theorem visits_operator {behind : RuleRef} {ns : List Match} {pos : Pos} (hmax : max ≠ some 0) :
    m.Visits ⟨{}, .rounds (levelTails kinds behind) max ns, pos⟩ ⟨{}, .term (.anyOf kinds), pos⟩ :=
  .head (.tails hmax) (.head .choice_head (.head .node (.single .seq_head)))

/-- A round comes to what is behind its operator. -/
theorem visits_behind {behind : RuleRef} {ns ns' : List Match} {pos mid : Pos}
    (hmax : max ≠ some 0) (h : Parses m {} (.term (.anyOf kinds)) pos (some (ns', mid))) :
    m.Visits ⟨{}, .rounds (levelTails kinds behind) max ns, pos⟩ ⟨{}, .term (.ref behind), mid⟩ :=
  .head (.tails hmax) (.head .choice_head (.head .node (.head (.seq_tail h) (.single .seq_head))))

/-- No operator of the level is there. -/
theorem roundsTo_end (hlevel : level ∈ levels) (hmax : max ≠ some 0)
    (hnot : m.kindAt ⟨i + e.width, 0⟩ ∉ level.operators) : m.RoundsTo level max i e e := by
  intro behind _ task hvisit hasks
  have hfail : m.Reads (.term (.seq [.anyOf level.operators, .ref behind])) ⟨i + e.width, 0⟩ none
      (i + e.width) := (reads_anyOf_none hnot).seq_fail
  refine ⟨Nat.le_refl _, .rounds_end hmax (.choice_next hfail.node .choice_nil),
    fun kind hkind => ?_⟩
  by_cases hcast : level.operand = "expr_cast"
  · rw [← operators_eq_tightest hlevel hcast] at hkind
    exact .of_visits (hvisit.trans (visits_operator hmax)) (asks_anyOf hnot hkind)
  · exact hasks hcast kind hkind

/-- An operator of the level is there, and a tree behind it. -/
theorem roundsTo_more (hmax : max ≠ some 0) (hop : op.kind ∈ level.operators)
    (hkind : m.kindAt ⟨i + e.width, 0⟩ = op.kind)
    (hcast : level.operand ≠ "expr_cast" → level.behind ≠ "expr_cast")
    (h₁ : m.Yields level.behind (i + e.width + 1) e₁)
    (h : m.RoundsTo level (max.map (· - 1)) i (.binary op e e₁) e') :
    m.RoundsTo level max i e e' := by
  intro behind hbehind task hvisit _
  have hwidth : i + e.width + 1 + e₁.width = i + (Expr.binary op e e₁).width := by
    rw [Expr.width_binary]
    omega
  have hoperator := reads_anyOf (hkind ▸ hop)
  have hright := h₁.reads behind hbehind
  rw [hkind] at hoperator
  rw [hwidth] at hright
  have hround : m.Reads (.term (.ofTails (levelTails level.operators behind))) ⟨i + e.width, 0⟩
      (some ([.node .binExpr [.token (i + e.width) op.kind none, e₁.toMatch (i + e.width + 1)]],
        ⟨i + (Expr.binary op e e₁).width, 0⟩)) (i + (Expr.binary op e e₁).width) :=
    .choice_here (.node (.seq_cons (hoperator.mono (by omega)) (.seq_cons hright .seq_nil)))
  obtain ⟨hle, hreads, hasks⟩ := h behind hbehind task
    (hvisit.trans (.single (.more hmax hround.parses))) fun hne kind hmem => by
      rw [← hwidth]
      exact .of_visits (hvisit.trans (visits_behind hmax hoperator.parses))
        (h₁.asks (hcast hne) behind hbehind kind hmem)
  refine ⟨by omega, .rounds_more hmax (hround.mono (by omega)) hreads, hasks⟩

/-- An operand and the rounds behind it are what the rule of a level yields. -/
theorem Yields.rung (hg : m.grammar.isClimbable = true) (hlevel : level ∈ levels)
    (h : m.Yields level.operand i e) (hrounds : m.RoundsTo level level.max i e e') :
    m.Yields level.rule i e' := by
  simp only [Grammar.isClimbable, Bool.and_eq_true] at hg
  obtain ⟨⟨⟨⟨⟨⟨⟨hlevels, -⟩, -⟩, -⟩, -⟩, -⟩, -⟩, -⟩ := hg
  have hall : ∀ r, m.grammar.refersTo r level.rule = true →
      m.Reads (.term (.ref r)) ⟨i, 0⟩ (some ([e'.toMatch i], ⟨i + e'.width, 0⟩)) (i + e'.width) ∧
        ∀ kind ∈ tightest,
          m.Asks ⟨{}, .term (.ref r), ⟨i, 0⟩⟩ ⟨i + e'.width, 0⟩ (.token kind) := by
    intro r hr
    obtain ⟨id, rule, hid, hrule, hcheck⟩ :=
      exists_rule (List.all_eq_true.mp hlevels level hlevel) hr
    unfold Grammar.isLevelRule at hcheck
    split at hcheck
    · next operand ops behind max =>
      simp only [Bool.and_eq_true, decide_eq_true_eq] at hcheck
      obtain ⟨⟨⟨hoperand, hbehind⟩, hops⟩, rfl⟩ := hcheck
      obtain rfl := tokensOf?_eq_some hops
      have hread := h.reads operand hoperand
      have hbody : m.Visits ⟨{}, .term (.ref r), ⟨i, 0⟩⟩ ⟨{}, .term (.fold (.ref operand)
          (levelTails level.operators behind) level.max), ⟨i, 0⟩⟩ := .single (.ref hid hrule)
      obtain ⟨hle, hreads, hasks⟩ := hrounds behind hbehind _
        (hbody.trans (.single (.rounds hread.parses))) fun hne kind hmem =>
          .of_visits (hbody.trans (.single .operand)) (h.asks hne operand hoperand kind hmem)
      exact ⟨Reads.ref hid hrule (by rintro c ⟨⟩) (.inl rfl)
        (.fold (hread.mono (by omega)) hreads), hasks⟩
    · cases hcheck
  exact ⟨fun r hr => (hall r hr).1, fun _ r hr => (hall r hr).2⟩

/-! ## From rung to rung -/

theorem IsBehind.append {links : List (BinaryOp × Integer)} :
    ∀ {i : Nat}, m.IsBehind i (links ++ left) → m.IsBehind (i + 2 * links.length) left := by
  induction links with
  | nil => exact fun h => h
  | cons link links ih =>
    intro i h
    have hrest := ih h.next.behind
    rwa [show i + 1 + 1 + 2 * links.length = i + 2 * (link :: links).length by
      rw [List.length_cons]; omega] at hrest

/-- What is left is behind the tree. -/
theorem IsAt.behind_grown {L K : Nat} (hat : m.IsAt i x rest) (h : Grown L K x rest e left) :
    m.IsBehind (i + e.width) left := by
  have hbehind := hat.behind
  rw [← h.links] at hbehind
  have hrest := hbehind.append
  rwa [show i + 1 + 2 * e.links.length = i + e.width by rw [Expr.width]; omega] at hrest

/-- An operator of a level comes next, or none. -/
theorem next_cases (L : Nat) (left : List (BinaryOp × Integer)) :
    (∃ op x₁ left₁, left = (op, x₁) :: left₁ ∧ op.level = L) ∨
      ∀ op ∈ left.head?.map (·.1), op.level ≠ L := by
  cases left with
  | nil => exact .inr (by rintro op ⟨⟩)
  | cons link left₁ =>
    by_cases hlevel : link.1.level = L
    · exact .inl ⟨link.1, link.2, left₁, rfl, hlevel⟩
    · exact .inr (by rintro op ⟨⟩; exact hlevel)

variable {L : Nat}

/-- Where no operator of a level comes next, there is none of their tokens. -/
theorem IsBehind.not_mem_operators (hlevel : levels[L]? = some level) (h : m.IsBehind j left)
    (hnot : ∀ op ∈ left.head?.map (·.1), op.level ≠ L) :
    m.kindAt ⟨j, 0⟩ ∉ level.operators := by
  cases left with
  | nil =>
    rw [h.kindAt_nil]
    exact eof_not_mem_operators hlevel
  | cons link left =>
    rw [h.kindAt_cons, mem_operators_iff hlevel]
    exact hnot link.1 rfl

/-- A rung reads from every integer on what it can read of a chain. -/
def Climbs (m : Machine) (L : Nat) : Prop :=
  ∀ i x rest, m.IsAt i x rest → ∃ e left, Grown L L x rest e left ∧ m.Yields (rungName L) i e

/-- One round of a level, and what comes of the rounds behind it. -/
theorem roundsTo_binary {left₁ : List (BinaryOp × Integer)} {x₁ : Integer}
    (hlevel : levels[L]? = some level) (hmax : max ≠ some 0)
    (hbehind : m.IsBehind (i + e.width) ((op, x₁) :: left₁)) (hop : op.level = L)
    (h₁ : m.Yields (rungName (rungBehind L)) (i + e.width + 1) e₁)
    (h : m.RoundsTo level (max.map (· - 1)) i (.binary op e e₁) e') :
    m.RoundsTo level max i e e' := by
  obtain ⟨-, hname, -, -⟩ := levels_getElem hlevel
  have hcast : ∀ level ∈ levels, level.operand ≠ "expr_cast" → level.behind ≠ "expr_cast" := by
    decide
  exact roundsTo_more hmax ((mem_operators_iff hlevel).mpr hop) hbehind.kindAt_cons
    (hcast level (List.mem_of_getElem? hlevel)) (hname ▸ h₁) h

/-- Below casts there is an integer. -/
theorem climbs_cast (hg : m.grammar.isClimbable = true) : m.Climbs 10 := by
  intro i x rest hat
  exact ⟨.literal x, rest, .literal fun op _ => op.level_lt, yields_cast hg hat⟩

/-- The operand of a level is what the next rung yields. -/
theorem Climbs.operand (hg : m.grammar.isClimbable = true) (hlevel : levels[L]? = some level)
    (h : m.Climbs (L + 1)) (hat : m.IsAt i x rest) :
    ∃ e left, Grown (L + 1) (L + 1) x rest e left ∧ m.Yields level.operand i e := by
  obtain ⟨e, left, hgrown, hyields⟩ := h i x rest hat
  obtain ⟨-, -, hoperand, -⟩ := levels_getElem hlevel
  refine ⟨e, left, hgrown, ?_⟩
  rw [hoperand]
  by_cases hzero : L = 0
  · subst hzero
    exact .range hg hat (hat.behind_grown hgrown).mem_followers hyields
  · rwa [if_neg hzero]

/-- Levels that group to the left take operators as long as there are some. -/
theorem exists_roundsTo_left (hlevel : levels[L]? = some level) (hzero : L ≠ 0) (hthree : L ≠ 3)
    (h : m.Climbs (L + 1)) (hat : m.IsAt i x rest) (hgrown : Grown L (L + 1) x rest e left) :
    ∃ e' left', Grown L L x rest e' left' ∧ m.RoundsTo level none i e e' := by
  have hbehind : rungBehind L = L + 1 := if_neg hzero
  induction hn : left.length using Nat.strong_induction_on generalizing e left with
  | _ n ih =>
    rcases next_cases L left with ⟨op, x₁, left₁, rfl, hop⟩ | hnot
    · have hat₁ := (hat.behind_grown hgrown).next
      obtain ⟨e₁, left₂, hgrown₁, hyields₁⟩ := h _ _ _ hat₁
      have hbinary := hgrown.binary hop (by omega) (hbehind ▸ hgrown₁)
      have hshort : left₂.length < n := by
        have hlength := congrArg List.length hgrown₁.links
        rw [List.length_append] at hlength
        rw [← hn, List.length_cons]
        omega
      obtain ⟨e', left', hgrown', hrounds⟩ := ih _ hshort (hbehind ▸ hbinary) rfl
      exact ⟨e', left', hgrown', roundsTo_binary hlevel (by simp) (hat.behind_grown hgrown) hop
        (hbehind ▸ hyields₁) hrounds⟩
    · exact ⟨e, left, hgrown.leave fun op hop => .inl (hnot op hop),
        roundsTo_end (List.mem_of_getElem? hlevel) (by simp)
          ((hat.behind_grown hgrown).not_mem_operators hlevel hnot)⟩

/-- Comparisons are not chained: behind one there is no second round. -/
theorem exists_roundsTo_cmp (hlevel : levels[3]? = some level) (h : m.Climbs 4)
    (hat : m.IsAt i x rest) (hgrown : Grown 4 4 x rest e left) :
    ∃ e' left', Grown 3 3 x rest e' left' ∧ m.RoundsTo level (some 1) i e e' := by
  rcases next_cases 3 left with ⟨op, x₁, left₁, rfl, hop⟩ | hnot
  · obtain ⟨e₁, left₂, hgrown₁, hyields₁⟩ := h _ _ _ (hat.behind_grown hgrown).next
    have hbinary := (hgrown.mono (by omega : 3 ≤ 4)).binary hop
      (fun _ op' hop' => hgrown.le_level op' hop') hgrown₁
    have hopen : endsOpen (Expr.binary op e e₁).ops = true := by
      have hend := Expr.settles_binary op hgrown.settles hgrown₁.settles
        (fun _ => hgrown.isGrouped.le_level hgrown.le_level)
        (fun _ => hgrown₁.isGrouped.le_level hgrown₁.le_level)
      simp [hend.2, hop]
    refine ⟨_, _, hbinary.leave fun next _ => ?_, roundsTo_binary hlevel (by simp)
      (hat.behind_grown hgrown) hop hyields₁ (roundsTo_spent ?_)⟩
    · by_cases hnext : next.level = 3
      · exact .inr ⟨hnext, hopen⟩
      · exact .inl hnext
    · obtain ⟨-, -, hoperand, -⟩ := levels_getElem hlevel
      rw [hoperand]
      decide
  · exact ⟨e, left, (hgrown.mono (by omega)).leave fun op hop => .inl (hnot op hop),
      roundsTo_end (List.mem_of_getElem? hlevel) (by simp)
        ((hat.behind_grown hgrown).not_mem_operators hlevel hnot)⟩

/-- All rungs but that of assignments read in this way if the next one does. -/
theorem climbs_of_succ (hg : m.grammar.isClimbable = true) (hzero : L ≠ 0) (hlt : L < 10)
    (h : m.Climbs (L + 1)) : m.Climbs L := by
  intro i x rest hat
  obtain ⟨level, hlevel⟩ : ∃ level, levels[L]? = some level := ⟨_, List.getElem?_eq_getElem hlt⟩
  obtain ⟨hrule, -, -, hmax⟩ := levels_getElem hlevel
  obtain ⟨e, left, hgrown, hyields⟩ := h.operand hg hlevel hat
  have hrounds : ∃ e' left', Grown L L x rest e' left' ∧ m.RoundsTo level level.max i e e' := by
    rw [hmax]
    by_cases hthree : L = 3
    · subst hthree
      exact exists_roundsTo_cmp hlevel h hat hgrown
    · rw [if_neg (by omega)]
      exact exists_roundsTo_left hlevel hzero hthree h hat (hgrown.mono (Nat.le_succ L))
  obtain ⟨e', left', hgrown', hrounds⟩ := hrounds
  exact ⟨e', left', hgrown', hrule ▸ hyields.rung hg (List.mem_of_getElem? hlevel) hrounds⟩

/-- The rung of `||` and all tighter ones read in this way. -/
theorem climbs_of_ne_zero (hg : m.grammar.isClimbable = true) (hzero : L ≠ 0) (hle : L ≤ 10) :
    m.Climbs L := by
  induction hle using Nat.decreasingInduction with
  | self => exact climbs_cast hg
  | of_succ L hlt ih => exact climbs_of_succ hg hzero hlt (ih (Nat.succ_ne_zero L))

/-- **Assignments read on as well**: behind one there may be another one. -/
theorem climbs_zero (hg : m.grammar.isClimbable = true) : m.Climbs 0 := by
  obtain ⟨level, hlevel⟩ : ∃ level, levels[0]? = some level := ⟨_, rfl⟩
  obtain ⟨hrule, -, hoperand, hmax⟩ := levels_getElem hlevel
  rw [if_pos (.inl rfl)] at hmax
  have hnext : m.Climbs 1 := climbs_of_ne_zero hg (by omega) (by omega)
  intro i x rest hat
  induction hn : rest.length using Nat.strong_induction_on generalizing i x rest with
  | _ n ih =>
    obtain ⟨e, left, hgrown, hyields⟩ := hnext.operand hg hlevel hat
    have hrounds : ∃ e' left', Grown 0 0 x rest e' left' ∧ m.RoundsTo level (some 1) i e e' := by
      rcases next_cases 0 left with ⟨op, x₁, left₁, rfl, hop⟩ | hnot
      · have hshort : left₁.length < n := by
          have hlength := congrArg List.length hgrown.links
          rw [List.length_append, List.length_cons] at hlength
          omega
        obtain ⟨e₁, left₂, hgrown₁, hyields₁⟩ :=
          ih _ hshort _ _ _ (hat.behind_grown hgrown).next rfl
        have hbinary := (hgrown.mono (Nat.zero_le 1)).binary hop
          (fun _ op' hop' => hgrown.le_level op' hop') hgrown₁
        refine ⟨_, _, hbinary, roundsTo_binary hlevel (by simp) (hat.behind_grown hgrown) hop
          hyields₁ (roundsTo_spent ?_)⟩
        rw [hoperand]
        decide
      · exact ⟨e, left, (hgrown.mono (Nat.zero_le 1)).leave fun op hop => .inl (hnot op hop),
          roundsTo_end (List.mem_of_getElem? hlevel) (by simp)
            ((hat.behind_grown hgrown).not_mem_operators hlevel hnot)⟩
    obtain ⟨e', left', hgrown', hrounds⟩ := hrounds
    rw [← hmax] at hrounds
    exact ⟨e', left', hgrown', hrule ▸ hyields.rung hg (List.mem_of_getElem? hlevel) hrounds⟩

/-! ## A whole text -/

/-- An expression is what the rule of assignments yields. -/
theorem Yields.expr (hg : m.grammar.isClimbable = true) (h : m.Yields "expr_assign" i e) :
    m.Yields "expr" i e := by
  simp only [Grammar.isClimbable, Bool.and_eq_true] at hg
  obtain ⟨-, hexpr⟩ := hg
  constructor
  · intro r hr
    obtain ⟨id, rule, hid, hrule, hcheck⟩ := exists_rule hexpr hr
    unfold Grammar.isExprRule at hcheck
    split at hcheck
    · exact Reads.ref hid hrule (by rintro c ⟨⟩) (.inr rfl) (h.reads _ hcheck)
    · cases hcheck
  · intro _ r hr kind hkind
    obtain ⟨id, rule, hid, hrule, hcheck⟩ := exists_rule hexpr hr
    unfold Grammar.isExprRule at hcheck
    split at hcheck
    · exact .call (h.asks (by decide) _ hcheck kind hkind) (.ref hid hrule)
    · cases hcheck

/-- An expression and the end of the text behind it. -/
def wholeExpr : Term := .seq [.rule "expr", .ended]

/-- **A text that is a chain** is read as far as the ladder reads: to its end, or up to an
operator where other operators are asked for and nothing but tokens. -/
theorem exists_reads_wholeExpr (hg : m.grammar.isClimbable = true) (hat : m.IsAt 0 x rest) :
    ∃ e left, Grown 0 0 x rest e left ∧
      m.Reads (.term wholeExpr) {}
        (if left = [] then some ([e.toMatch 0], ⟨e.width, 0⟩) else none) e.width ∧
      ∀ kind ∈ tightest, m.Asks ⟨{}, .term wholeExpr, {}⟩ ⟨e.width, 0⟩ (.token kind) := by
  obtain ⟨e, left, hgrown, hyields⟩ := climbs_zero hg 0 x rest hat
  have hexpr : m.Yields "expr" 0 e := .expr hg hyields
  have hrefers : m.grammar.refersTo (.named "expr") "expr" = true := decide_eq_true rfl
  have hread := hexpr.reads _ hrefers
  have hbehind := hat.behind_grown hgrown
  simp only [Nat.zero_add] at hread hbehind
  refine ⟨e, left, hgrown, ?_, fun kind hkind => ?_⟩
  · cases left with
    | nil =>
      have hended : m.Reads (.term .ended) ⟨e.width, 0⟩ (some ([], ⟨e.width, 0⟩)) e.width :=
        .terminal_some rfl (by simp [read?, hbehind.kindAt_nil])
      exact .seq_cons hread (.seq_cons hended .seq_nil)
    | cons link left =>
      have hended : m.Reads (.term .ended) ⟨e.width, 0⟩ none e.width :=
        .terminal_none rfl rfl (by simp [read?, hbehind.kindAt_cons, link.1.kind_ne_eof])
      exact .seq_cons hread hended.seq_fail
  · have hask := hexpr.asks (by decide) _ hrefers kind hkind
    rw [Nat.zero_add] at hask
    exact .call hask .seq_head

end Peg.Machine
end Packrat
