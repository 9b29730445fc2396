/-
# Chains of binary operators

Integers with binary operators between them make a chain (`Chain`).  How its operators group
can be told without a grammar, from their levels alone: operators wait on a stack, each with
the operand to its left, until one comes that does not bind more tightly; then they take what
is to their right (`shunt`).

Of the trees over a chain, the one that is built in this way is the only one in which no
operand binds too loosely for its operator (`shunt_links`): whatever else puts the operators
together and keeps to the levels comes to the same tree.

In which chains there is no tree for the ladder is told from the stretches between
assignments, `||` and `&&`: no stretch may hold two comparisons (`IsSettled`).
-/

import Packrat.Proofs.Language.Rung
import Packrat.Proofs.Lexeme.Number

namespace Packrat
namespace Language

/-- An integer literal. -/
structure Integer where
  word : List Char
  isInteger : Lexeme.IsInteger word

/-- A binary operator: a kind of token that stands on a level. -/
structure BinaryOp where
  kind : Kind
  level : Nat
  on_level : level? kind = some level

/-- Integers with binary operators between them. -/
structure Chain where
  first : Integer
  rest : List (BinaryOp × Integer)

/-- A tree over a chain. -/
inductive Expr where
  | literal (x : Integer)
  | binary (op : BinaryOp) (l r : Expr)

/-! ## Operators -/

/-- The operators between stretches: assignments, `||` and `&&`. -/
def separators : List Kind := assignments ++ [.pipePipe, .ampAmp]

namespace BinaryOp

variable (op next : BinaryOp)

/-- The text of the operator. -/
def word : List Char := (op.kind.spelling?.getD "").toList

/-- The operator takes the operand between it and the next one: it binds more tightly, or as
tightly if its level groups to the left.  Only assignments group to the right. -/
def takes : Bool :=
  next.level < op.level ||
    (next.level = op.level && !levels[op.level]?.any (·.assoc = .right))

/-- The operator compares. -/
def compares : Bool := comparisons.contains op.kind

/-- The operator stands between two stretches. -/
def separates : Bool := separators.contains op.kind

theorem level_lt : op.level < 10 := (List.findIdx?_eq_some_iff_getElem.mp op.on_level).1

/-- The operator is one of its level. -/
theorem kind_mem : ∃ level, levels[op.level]? = some level ∧ op.kind ∈ level.operators := by
  obtain ⟨hlt, hmem, -⟩ := List.findIdx?_eq_some_iff_getElem.mp op.on_level
  exact ⟨levels[op.level], List.getElem?_eq_getElem hlt, by simpa using hmem⟩

variable {op next}

theorem takes_iff : op.takes next = true ↔
    next.level < op.level ∨ next.level = op.level ∧ op.level ≠ 0 := by
  have hassoc : ∀ L < 10, levels[L]?.any (·.assoc = .right) = decide (L = 0) := by decide
  simp [takes, hassoc op.level op.level_lt]

/-- Comparisons stand on a level of their own, below which are the operators between
stretches. -/
theorem compares_iff : op.compares = true ↔ op.level = 3 := by
  have hall : ∀ L < 10, ∀ level, levels[L]? = some level → ∀ kind ∈ level.operators,
      (comparisons.contains kind = true ↔ L = 3) := by decide
  obtain ⟨level, hlevel, hmem⟩ := op.kind_mem
  exact hall op.level op.level_lt level hlevel op.kind hmem

theorem separates_iff : op.separates = true ↔ op.level < 3 := by
  have hall : ∀ L < 10, ∀ level, levels[L]? = some level → ∀ kind ∈ level.operators,
      (separators.contains kind = true ↔ L < 3) := by decide
  obtain ⟨level, hlevel, hmem⟩ := op.kind_mem
  exact hall op.level op.level_lt level hlevel op.kind hmem

/-- An operator that does not take an operand from another one does not take it from an operator
that binds it more tightly either. -/
theorem not_takes_trans {outer inner : BinaryOp} (h : outer.takes op = false)
    (h' : inner.takes op = true) : outer.takes inner = false := by
  rw [← Bool.not_eq_true, takes_iff] at *
  omega

/-- What takes an operand from the next operator leaves to its own right only operators that do
so, too. -/
theorem takes_trans {inner : BinaryOp} (h : op.takes inner = false) (h' : op.takes next = true) :
    inner.takes next = true := by
  rw [← Bool.not_eq_true, takes_iff] at h
  rw [takes_iff] at *
  omega

end BinaryOp

/-! ## The shunting yard -/

/-- Operators that wait for the tree to their right, the last first, each with its left
operand. -/
abbrev Waiting := List (Expr × BinaryOp)

/-- Operators that wait take the tree `e`, while they take it from the next operator; at the
end all do. -/
def settle (next : Option BinaryOp) : Waiting → Expr → Waiting × Expr
  | [], e => ([], e)
  | (l, op) :: waiting, e =>
    if next.all (op.takes ·) then settle next waiting (.binary op l e) else ((l, op) :: waiting, e)

/-- Go on with a chain behind the tree `e`, while operators wait. -/
def shunt : Waiting → Expr → List (BinaryOp × Integer) → Expr
  | waiting, e, [] => (settle none waiting e).2
  | waiting, e, (op, x) :: rest =>
    let (waiting, e) := settle (some op) waiting e
    shunt ((e, op) :: waiting) (.literal x) rest

namespace Chain

/-- The tree of a chain by the levels of its operators. -/
def tree (c : Chain) : Expr := shunt [] (.literal c.first) c.rest

/-- The operators of a chain, in order. -/
def ops (c : Chain) : List BinaryOp := c.rest.map (·.1)

/-- The text of a chain, with a space between two tokens. -/
def text (c : Chain) : List Char :=
  c.first.word ++ c.rest.flatMap fun link => ' ' :: link.1.word ++ ' ' :: link.2.word

end Chain

namespace Expr

/-- The first integer in a tree. -/
def first : Expr → Integer
  | literal x => x
  | binary _ l _ => l.first

/-- The operators in a tree, in order, each with the integer behind it. -/
def links : Expr → List (BinaryOp × Integer)
  | literal _ => []
  | binary op l r => l.links ++ (op, r.first) :: r.links

/-- The operator on top of a tree. -/
def root? : Expr → Option BinaryOp
  | literal _ => none
  | binary op _ _ => some op

/-- No operand binds too loosely for its operator. -/
def IsGrouped : Expr → Prop
  | literal _ => True
  | binary op l r => (∀ op' ∈ l.root?, op'.takes op = true) ∧
    (∀ op' ∈ r.root?, op.takes op' = false) ∧ l.IsGrouped ∧ r.IsGrouped

end Expr

/-- **The shunting yard finds the grouped tree.**  When the chain of a grouped tree has been
read, the tree is there for any operator that comes next and leaves it whole. -/
theorem shunt_links {e : Expr} (he : e.IsGrouped) : ∀ waiting : Waiting,
    (∀ l op, waiting.head? = some (l, op) → ∀ op' ∈ e.root?, op.takes op' = false) →
    ∃ waiting' e', (∀ rest,
        shunt waiting (.literal e.first) (e.links ++ rest) = shunt waiting' e' rest) ∧
      ∀ next : Option BinaryOp, (∀ op ∈ next, ∀ op' ∈ e.root?, op'.takes op = true) →
        settle next waiting' e' = settle next waiting e := by
  induction e with
  | literal x => exact fun waiting _ => ⟨waiting, .literal x, fun _ => rfl, fun _ _ => rfl⟩
  | binary op l r ihl ihr =>
    obtain ⟨hl, hr, hgl, hgr⟩ := he
    intro waiting hhead
    obtain ⟨waiting₁, e₁, hshunt₁, hsettle₁⟩ := ihl hgl waiting fun l₀ op₀ h₀ op' hop' =>
      BinaryOp.not_takes_trans (hhead l₀ op₀ h₀ op rfl) (hl op' hop')
    obtain ⟨waiting₂, e₂, hshunt₂, hsettle₂⟩ := ihr hgr ((l, op) :: waiting) (by
      rintro l₀ op₀ ⟨⟩ op' hop'
      exact hr op' hop')
    -- when `op` comes, the left operand is whole, and no operator before takes it
    have hstop : settle (some op) waiting₁ e₁ = (waiting, l) := by
      rw [hsettle₁ (some op) (by rintro op' ⟨⟩; exact hl)]
      cases waiting with
      | nil => rfl
      | cons top waiting =>
        obtain ⟨l₀, op₀⟩ := top
        have hnot : op₀.takes op = false := hhead l₀ op₀ rfl op rfl
        simp [settle, hnot]
    refine ⟨waiting₂, e₂, fun rest => ?_, fun next hnext => ?_⟩
    · calc shunt waiting (.literal l.first) ((l.links ++ (op, r.first) :: r.links) ++ rest)
        _ = shunt waiting₁ e₁ ((op, r.first) :: (r.links ++ rest)) := by
          rw [List.append_assoc, hshunt₁, List.cons_append]
        _ = shunt ((l, op) :: waiting) (.literal r.first) (r.links ++ rest) := by
          rw [shunt, hstop]
        _ = shunt waiting₂ e₂ rest := hshunt₂ rest
    · have htakes : next.all (op.takes ·) = true := by
        cases next with
        | none => rfl
        | some op' => exact hnext op' rfl op rfl
      rw [hsettle₂ next fun op' hop' inner hinner =>
        BinaryOp.takes_trans (hr inner hinner) (hnext op' hop' op rfl)]
      simp [settle, htakes]

/-- **There is one grouped tree over a chain**, the one that the shunting yard builds. -/
theorem Chain.tree_eq {c : Chain} {e : Expr} (he : e.IsGrouped) (hfirst : e.first = c.first)
    (hlinks : e.links = c.rest) : c.tree = e := by
  obtain ⟨waiting, e', hshunt, hsettle⟩ := shunt_links he [] (by rintro l op ⟨⟩)
  have hread := hshunt []
  rw [List.append_nil, hfirst, hlinks] at hread
  rw [Chain.tree, hread, shunt, hsettle none (by rintro op ⟨⟩)]
  rfl

/-! ## Stretches -/

/-- Operators, cut at those that separate. -/
def stretches : List BinaryOp → List (List BinaryOp)
  | [] => [[]]
  | op :: ops =>
    if op.separates then [] :: stretches ops else (stretches ops).modifyHead (op :: ·)

/-- No stretch holds two comparisons. -/
def IsSettled (ops : List BinaryOp) : Prop :=
  ∀ stretch ∈ stretches ops, stretch.countP (·.compares) ≤ 1

/-- There is a comparison in the stretch behind an operator, if there was one before. -/
def openBehind (isOpen : Bool) (op : BinaryOp) : Bool :=
  !op.separates && (isOpen || op.compares)

/-- There is a comparison in the last stretch. -/
def endsOpen (ops : List BinaryOp) : Bool := ops.foldl openBehind false

/-- No comparison comes while there is one in the stretch. -/
def settles (isOpen : Bool) : List BinaryOp → Bool
  | [] => true
  | op :: ops => !(isOpen && op.compares) && settles (openBehind isOpen op) ops

theorem settles_append {isOpen : Bool} {ops ops' : List BinaryOp} :
    settles isOpen (ops ++ ops') =
      (settles isOpen ops && settles (ops.foldl openBehind isOpen) ops') := by
  induction ops generalizing isOpen with
  | nil => rfl
  | cons op ops ih => simp [settles, ih, Bool.and_assoc]

theorem BinaryOp.not_compares_of_separates {op : BinaryOp} (h : op.separates = true) :
    op.compares = false := by
  rw [← Bool.not_eq_true, BinaryOp.compares_iff]
  rw [BinaryOp.separates_iff] at h
  omega

theorem exists_stretches (ops : List BinaryOp) : ∃ stretch others,
    stretches ops = stretch :: others := by
  induction ops with
  | nil => exact ⟨[], [], rfl⟩
  | cons op ops ih =>
    obtain ⟨stretch, others, heq⟩ := ih
    by_cases hsep : op.separates = true
    · exact ⟨[], stretches ops, by rw [stretches, if_pos hsep]⟩
    · exact ⟨op :: stretch, others, by rw [stretches, if_neg hsep, heq]; rfl⟩

/-- Looking for a second comparison from left to right is counting them in the stretches. -/
theorem settles_iff {isOpen : Bool} {ops stretch : List BinaryOp} {others : List (List BinaryOp)}
    (heq : stretches ops = stretch :: others) : settles isOpen ops = true ↔
      stretch.countP (·.compares) + isOpen.toNat ≤ 1 ∧
        ∀ stretch ∈ others, stretch.countP (·.compares) ≤ 1 := by
  induction ops generalizing isOpen stretch others with
  | nil =>
    cases heq
    have hle : isOpen.toNat ≤ 1 := isOpen.toNat_le
    simp [settles, hle]
  | cons op ops ih =>
    obtain ⟨next, rest, hops⟩ := exists_stretches ops
    by_cases hsep : op.separates = true
    · rw [stretches, if_pos hsep] at heq
      obtain ⟨rfl, rfl⟩ := List.cons_eq_cons.mp heq
      have hle : isOpen.toNat ≤ 1 := isOpen.toNat_le
      have hbehind : openBehind isOpen op = false := by simp [openBehind, hsep]
      rw [settles, BinaryOp.not_compares_of_separates hsep, hbehind, Bool.and_false, Bool.not_false,
        Bool.true_and, ih hops, hops]
      simp [hle]
    · rw [stretches, if_neg hsep, hops] at heq
      obtain ⟨rfl, rfl⟩ := List.cons_eq_cons.mp heq
      have hbehind : openBehind isOpen op = (isOpen || op.compares) := by simp [openBehind, hsep]
      rw [settles, hbehind, Bool.and_eq_true, ih hops, List.countP_cons]
      cases isOpen <;> cases op.compares <;> simp

/-- No stretch holds two comparisons if none comes as a second one. -/
theorem isSettled_iff {ops : List BinaryOp} : IsSettled ops ↔ settles false ops = true := by
  obtain ⟨stretch, others, heq⟩ := exists_stretches ops
  rw [settles_iff heq, IsSettled, heq, List.forall_mem_cons]
  simp

/-- Where a stretch ends with a comparison in it, another one is too many. -/
theorem not_isSettled_of_endsOpen {ops : List BinaryOp} {op : BinaryOp}
    (hopen : endsOpen ops = true) (hop : op.compares = true) : ¬ IsSettled (ops ++ [op]) := by
  rw [isSettled_iff, settles_append]
  rw [endsOpen] at hopen
  simp [settles, hopen, hop]

/-! ## Operators in grouped trees -/

/-- Operators that bind more tightly than comparisons change nothing about the stretch. -/
theorem settles_tight {ops : List BinaryOp} (h : ∀ op ∈ ops, 3 < op.level) (isOpen : Bool) :
    settles isOpen ops = true ∧ ops.foldl openBehind isOpen = isOpen := by
  induction ops generalizing isOpen with
  | nil => exact ⟨rfl, rfl⟩
  | cons op ops ih =>
    have hlevel := h op (by simp)
    have hcompares : op.compares = false := by
      rw [← Bool.not_eq_true, BinaryOp.compares_iff]
      omega
    have hseparates : op.separates = false := by
      rw [← Bool.not_eq_true, BinaryOp.separates_iff]
      omega
    have hbehind : openBehind isOpen op = isOpen := by simp [openBehind, hcompares, hseparates]
    simpa [settles, hcompares, hbehind] using ih (fun op' hop' => h op' (by simp [hop'])) isOpen

namespace Expr

/-- The operators in a tree, in order. -/
def ops (e : Expr) : List BinaryOp := e.links.map (·.1)

theorem ops_binary (op : BinaryOp) (l r : Expr) :
    (binary op l r).ops = l.ops ++ op :: r.ops := by
  simp [ops, links]

/-- In a grouped tree no operator binds more loosely than the one on top. -/
theorem IsGrouped.le_level {e : Expr} (he : e.IsGrouped) {n : Nat}
    (hroot : ∀ op ∈ e.root?, n ≤ op.level) : ∀ op ∈ e.ops, n ≤ op.level := by
  induction e generalizing n with
  | literal x =>
    rintro op ⟨⟩
  | binary op l r ihl ihr =>
    obtain ⟨hl, hr, hgl, hgr⟩ := he
    have hop : n ≤ op.level := hroot op rfl
    intro op' hop'
    rw [ops_binary] at hop'
    rcases List.mem_append.mp hop' with hmem | hmem
    · refine ihl hgl (fun inner hinner => ?_) op' hmem
      have htakes := hl inner hinner
      rw [BinaryOp.takes_iff] at htakes
      omega
    · rcases List.mem_cons.mp hmem with rfl | hmem
      · exact hop
      · refine ihr hgr (fun inner hinner => ?_) op' hmem
        have htakes := hr inner hinner
        rw [← Bool.not_eq_true, BinaryOp.takes_iff] at htakes
        omega

/-- The stretches of a binary tree: a looser operator begins a new one, a comparison stands
alone in one. -/
theorem settles_binary (op : BinaryOp) {l r : Expr} (hl : settles false l.ops = true)
    (hr : settles false r.ops = true) (htl : 3 ≤ op.level → ∀ op' ∈ l.ops, 3 < op'.level)
    (htr : 3 ≤ op.level → ∀ op' ∈ r.ops, 3 < op'.level) :
    settles false (binary op l r).ops = true ∧ endsOpen (binary op l r).ops =
      if op.level < 3 then endsOpen r.ops else decide (op.level = 3) := by
  rw [ops_binary, settles_append, hl, Bool.true_and, endsOpen, List.foldl_append, settles,
    List.foldl_cons]
  by_cases hlevel : op.level < 3
  · have hsep : op.separates = true := BinaryOp.separates_iff.mpr hlevel
    have hbehind : ∀ b, openBehind b op = false := fun b => by simp [openBehind, hsep]
    simp [hbehind, BinaryOp.not_compares_of_separates hsep, hr, hlevel, endsOpen]
  · have hsep : op.separates = false := by
      rw [← Bool.not_eq_true, BinaryOp.separates_iff]
      exact hlevel
    have hcompares : op.compares = decide (op.level = 3) := by
      rw [Bool.eq_iff_iff, BinaryOp.compares_iff, decide_eq_true_iff]
    obtain ⟨-, hfold⟩ := settles_tight (htl (by omega)) false
    obtain ⟨hsettles, hfold'⟩ :=
      settles_tight (htr (by omega)) (decide (op.level = 3))
    simp [hfold, openBehind, hsep, hcompares, hsettles, hfold', hlevel]

end Expr
end Language
end Packrat
