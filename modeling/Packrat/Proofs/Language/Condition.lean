/-
# `let` in conditions

Whether `let` may stand in an expression is told by a flag.  It is set where the condition of an
`if` or a `while` or the guard of a match arm begins, and cleared behind most opening brackets.
What is known of the flag where a term is matched is its *stance*, told with the brackets that are
open since the condition began:

| stance | known |
| --- | --- |
| `clear` | the flag is clear |
| `start` | all is in a condition in which no bracket is open |
| `bare` | if the flag is set, all is in a condition in which no bracket is open |
| `inside` | if the flag is set, all is in a condition |

An attribute opens a bracket and does not clear the flag, so its value may hold a `let` if there is
a condition around the attribute.  From the beginning of the value brackets are therefore counted
anew (`Scope.enter`).

Each rule asks for a stance (`Stance.ofRule`).  That all rules of the language keep to what they ask
for is seen by looking at them once (`hasLetsInConditions_grammar`); that in their trees every
`let` then stands where a condition or the value of an attribute is not in a bracket of its own is
`Parses.keepsLets`.
-/

import Packrat.Proofs.Language.Head

namespace Packrat
namespace Language

open Peg

/-! ## Conditions and what is open in them -/

/-- The keyword before the condition of a node, and what stands before the value of an
attribute. -/
def scopeKeyword? : Kind → Option Kind
  | .ifExpr | .matchGuard => some .ifKw
  | .whileExpr => some .whileKw
  | .metaItem => some .eq
  | _ => none

/-- The brackets that are open since the innermost condition or value of an attribute in a
condition began; nothing outside all conditions. -/
abbrev Scope := Option (List Kind)

/-- The brackets that are open behind some marks. -/
def Scope.past (scope : Scope) (word : List Mark) : Scope :=
  scope.map fun opened => Mark.openAfter opened word

/-- Where a condition begins no bracket of its own is open.  The value of an attribute is in a
condition if the attribute is. -/
def Scope.enter (scope : Scope) (kind : Kind) : Scope :=
  if kind = .metaItem then scope.map fun _ => [] else some []

/-- The last token that is no trivia, behind one more. -/
def nextToken (last : Option Kind) (kind : Kind) : Option Kind :=
  if kind.isTrivia then last else some kind

/-- In a node of a kind, a condition or a value begins behind the token. -/
def beginsScope (kind : Kind) (last : Option Kind) : Bool :=
  last.isSome && last == scopeKeyword? kind

theorem Scope.past_append (scope : Scope) (word word' : List Mark) :
    scope.past (word ++ word') = (scope.past word).past word' := by
  simp [past, Function.comp_def, Mark.openAfter_append]

theorem Scope.past_nil (scope : Scope) : scope.past [] = scope := by
  simp [past, Mark.openAfter]

end Language

namespace Peg

open Packrat.Language

mutual

/-- Every `let` in the tree is in a condition in which no bracket is open, or in such a value of an
attribute in a condition. -/
def Match.KeepsLets (scope : Scope) : Match → Prop
  | .token .. => True
  | .node kind children =>
    (kind = .letExpr → scope = some []) ∧ KeepsLetsIn kind scope none children

/-- So it is in the trees under a node of a kind, behind a token. -/
def Match.KeepsLetsIn (kind : Kind) (scope : Scope) (last : Option Kind) : List Match → Prop
  | [] => True
  | .token index kind' part :: ns =>
    KeepsLetsIn kind (scope.past (Match.token index kind' part).marks) (nextToken last kind') ns
  | .node kind' children :: ns =>
    ((Match.node kind' children).KeepsLets scope ∨
      beginsScope kind last = true ∧ (Match.node kind' children).KeepsLets (scope.enter kind)) ∧
    KeepsLetsIn kind (scope.past (Match.node kind' children).marks) none ns

end

namespace Match

variable {kind kind' : Kind} {scope : Scope} {last last' : Option Kind} {ns ms : List Match}

theorem beginsScope_none (kind : Kind) : beginsScope kind none = false := rfl

/-- It is enough that each tree keeps what is open before it. -/
theorem KeepsLetsIn.of_none (h : KeepsLetsIn kind scope none ns) :
    KeepsLetsIn kind scope last ns := by
  induction ns generalizing scope last with
  | nil => trivial
  | cons n ns ih =>
    cases n with
    | token index kind' part =>
      simp only [KeepsLetsIn, nextToken] at h ⊢
      split at h
      · next htrivia =>
        rw [if_pos htrivia]
        exact ih h
      · next htrivia => rwa [if_neg htrivia]
    | node kind' children =>
      simp only [KeepsLetsIn, beginsScope_none, Bool.false_eq_true, false_and, or_false] at h ⊢
      exact ⟨.inl h.1, h.2⟩

/-- Trees under a node in which no condition begins may stand under any node. -/
theorem KeepsLetsIn.of_plain (hkind : scopeKeyword? kind = none)
    (h : KeepsLetsIn kind scope last ns) : KeepsLetsIn kind' scope last' ns := by
  have hbegins : ∀ last, beginsScope kind last = false := by
    intro last
    cases last <;> simp [beginsScope, hkind]
  induction ns generalizing scope last last' with
  | nil => trivial
  | cons n ns ih =>
    cases n with
    | token index kind' part => exact ih h
    | node kind' children =>
      obtain ⟨hnode, hrest⟩ := h
      refine ⟨.inl (hnode.resolve_right fun hscope => ?_), ih hrest⟩
      rw [hbegins] at hscope
      cases hscope.1

theorem KeepsLetsIn.append (h : KeepsLetsIn kind scope last ns)
    (h' : KeepsLetsIn kind (scope.past (marksAll ns)) none ms) :
    KeepsLetsIn kind scope last (ns ++ ms) := by
  induction ns generalizing scope last with
  | nil =>
    rw [marksAll, Scope.past_nil] at h'
    exact h'.of_none
  | cons n ns ih =>
    rw [marksAll, Scope.past_append] at h'
    cases n with
    | token index kind' part => exact ih h h'
    | node kind' children => exact ⟨h.1, ih h.2 h'⟩

/-- The brackets in the trees are closed in them. -/
def Balanced (ns : List Match) : Prop :=
  ∀ opened, Mark.openAfter opened (marksAll ns) = opened

theorem Balanced.past (h : Balanced ns) (scope : Scope) : scope.past (marksAll ns) = scope := by
  cases scope with
  | none => rfl
  | some opened => simp [Scope.past, h opened]

/-- Trees side by side, of which the first close what they open. -/
theorem KeepsLetsIn.beside (hns : Balanced ns) (h : KeepsLetsIn kind scope last ns)
    (h' : KeepsLetsIn kind scope none ms) : KeepsLetsIn kind scope last (ns ++ ms) :=
  h.append (by rwa [hns.past])

end Match

/-! ## Stances -/

/-- What is known of the flag that allows `let`, and of the brackets that are open since a condition
began. -/
inductive Stance where
  | clear
  | start
  | bare
  | inside
  deriving DecidableEq, Repr

namespace Stance

/-- What the stance says of flags and brackets. -/
def Holds (f : Flags) (scope : Scope) : Stance → Prop
  | clear => f.letAllowed = false
  | start => scope = some []
  | bare => f.letAllowed = true → scope = some []
  | inside => f.letAllowed = true → scope.isSome = true

/-- What the first stance says the second one does not go beyond. -/
def meets : Stance → Stance → Bool
  | clear, asked => asked != start
  | start, asked => asked != clear
  | bare, asked => asked = bare || asked = inside
  | inside, asked => asked = inside

/-- The stance where some more brackets are open. -/
def within (st : Stance) : List Kind → Stance
  | [] => st
  | _ :: _ => if st = clear then clear else inside

/-- The stance where a condition or a value in a node of a kind begins. -/
def entering (kind : Kind) : Stance := if kind = .metaItem then bare else start

/-- The stance under changed flags, if the flag may be changed so. -/
def change? (set unset : Flags) (st : Stance) : Option Stance :=
  if unset.letAllowed then some clear
  else if set.letAllowed then if st = start then some start else none
  else some st

/-- The stance where some flags have been found set, or not. -/
def found (flags : Flags) (whenSet : Bool) (st : Stance) : Stance :=
  if whenSet && flags = .lets && st = bare then start else st

variable {st asked : Stance} {f : Flags} {scope : Scope}

theorem holds_inside (h : st.Holds f scope) : inside.Holds f scope := by
  intro hset
  cases st with
  | clear => rw [show f.letAllowed = false from h] at hset; cases hset
  | start => rw [show scope = some [] from h]; rfl
  | bare => rw [h hset]; rfl
  | inside => exact h hset

theorem holds_of_meets (hmeets : st.meets asked = true) (h : st.Holds f scope) :
    asked.Holds f scope := by
  cases asked with
  | inside => exact holds_inside h
  | clear => cases st <;> first | exact h | cases hmeets
  | start => cases st <;> first | exact h | cases hmeets
  | bare =>
    cases st with
    | clear => exact fun hset => by rw [show f.letAllowed = false from h] at hset; cases hset
    | start => exact fun _ => h
    | bare => exact h
    | inside => cases hmeets

theorem holds_within (h : st.Holds f scope) (opened : List Kind) :
    (st.within opened).Holds f (scope.map (opened ++ ·)) := by
  cases opened with
  | nil => simpa [within] using h
  | cons last opened =>
    rw [within]
    split
    · next hclear =>
      subst hclear
      exact h
    · intro hset
      rw [Option.isSome_map]
      exact holds_inside h hset

theorem holds_entering (h : st.Holds f scope) (kind : Kind) :
    (entering kind).Holds f (scope.enter kind) := by
  unfold entering Scope.enter
  split
  · intro hset
    obtain ⟨opened, rfl⟩ := Option.isSome_iff_exists.mp (holds_inside h hset)
    rfl
  · rfl

theorem holds_change {set unset : Flags} (hchange : st.change? set unset = some asked)
    (h : st.Holds f scope) : asked.Holds ((f.union set).diff unset) scope := by
  unfold change? at hchange
  split at hchange
  · next hunset =>
    cases hchange
    simp [Holds, Flags.diff, hunset]
  · next hunset =>
    split at hchange
    · obtain ⟨rfl, heq⟩ := Option.ite_none_right_eq_some.mp hchange
      cases heq
      exact h
    · next hset =>
      cases hchange
      have hsame : ((f.union set).diff unset).letAllowed = f.letAllowed := by
        simp [Flags.diff, Flags.union, hunset, hset]
      cases st <;> simpa only [Holds, hsame] using h

theorem holds_found {flags : Flags} {whenSet : Bool} (hgate : f.intersects flags = whenSet)
    (h : st.Holds f scope) : (st.found flags whenSet).Holds f scope := by
  unfold found
  split
  · next hlets =>
    simp only [Bool.and_eq_true, decide_eq_true_eq] at hlets
    obtain ⟨⟨rfl, rfl⟩, rfl⟩ := hlets
    exact h (by simpa [Flags.intersects, Flags.lets] using hgate)
  · exact h

/-- The rules of expressions on the operator ladder, and closures, whose bodies end where the
expression around them does. -/
def openRules : List String :=
  levels.map (·.rule) ++
    ["expr", "expr_range", "expr_cast", "expr_unary", "expr_postfix", "expr_primary",
      "closure_expr"]

/-- The rules of constructs that stand in a file or in a block, or between other brackets behind
which the flag is cleared. -/
def closedRules : List String :=
  ["source_file", "item", "item_in_block", "module", "extern_block", "struct", "union",
    "record_field_list", "record_field", "enum", "variant", "assoc_item_list", "assoc_item",
    "trait", "impl", "const", "static", "stmt", "let_stmt", "match_arm", "record_expr_field"]

/-- What a rule asks for. -/
def ofRule (name : String) : Stance :=
  if name = "condition" then start
  else if openRules.contains name then bare
  else if closedRules.contains name then clear
  else inside

end Stance

/-! ## Terms that keep to their stances -/

namespace Grammar

variable (g : Grammar)

/-- The term matches one node, also if it is a rule that does not make the node itself. -/
def isNodeful : Term → Bool
  | .ref r => g.isOneNode (.ref r) ||
      (g.resolve? r).any fun id => (g.rules[id]?).any fun rule =>
        rule.kind.isNone && g.isOneNode rule.body
  | t => g.isOneNode t

mutual

/-- Under a node of a kind and in some stance, the term makes `let` only where a condition or the
value of an attribute has begun, and no bracket has been opened since. -/
def keepsLets (kind : Kind) (st : Stance) : Term → Bool
  | .token _ | .split _ | .word _ | .any | .ended | .ahead _ | .notAhead _ => true
  | .seq items => keepsLetsSeq kind st [] none items
  | .choice alternatives => keepsLetsAll kind st alternatives
  | .opt body => keepsLets kind st body
  | .star body | .plus body => g.isTame false true body && keepsLets kind st body
  | .ref r => (g.resolve? r).all fun id => (g.rules[id]?).all fun rule =>
      st.meets (.ofRule rule.name)
  | .node kind body => (kind != .letExpr || st = .start) && keepsLets kind st body
  | .scoped set unset body => (st.change? set unset).any fun st => keepsLets kind st body
  | .gate flags whenSet body => keepsLets kind (st.found flags whenSet) body
  | .fold operand tails _ =>
    g.isTame false true operand && g.isTameTails false true tails &&
      keepsLets .sourceFile st operand && keepsLetsTails st tails

/-- Terms in sequence, of which those before have left some brackets open; `last` is the token right
before them. -/
def keepsLetsSeq (kind : Kind) (st : Stance) : List Kind → Option Kind → List Term → Bool
  | opened, _, [] => opened.isEmpty
  | opened, last, .token kind' :: ts =>
    (turn? opened kind').any fun opened => keepsLetsSeq kind st opened (nextToken last kind') ts
  | opened, last, t :: ts =>
    g.isTame false true t &&
      (keepsLets kind (st.within opened) t ||
        beginsScope kind last && g.isNodeful t && keepsLets .sourceFile (.entering kind) t) &&
      keepsLetsSeq kind st opened none ts

/-- Alternatives that all keep to the stance. -/
def keepsLetsAll (kind : Kind) (st : Stance) : List Term → Bool
  | [] => true
  | t :: ts => keepsLets kind st t && keepsLetsAll kind st ts

/-- Tails that all keep to the stance, under nodes in which no condition begins. -/
def keepsLetsTails (st : Stance) : List (Kind × Term) → Bool
  | [] => true
  | (kind, t) :: tails =>
    (scopeKeyword? kind).isNone && kind != .letExpr && keepsLets kind st t &&
      keepsLetsTails st tails

end

/-- A term behind a token, after which some brackets are open, if it is a sequence. -/
def keepsLetsFrom (kind : Kind) (st : Stance) (opened : List Kind) (last : Option Kind) :
    Term → Bool
  | .seq items => g.keepsLetsSeq kind st opened last items
  | t => opened.isEmpty && g.keepsLets kind st t

/-- What is asked of a rule. -/
def ruleKeepsLets (rule : Rule) : Bool :=
  rule.kind != some .letExpr &&
    g.keepsLets (rule.kind.getD .sourceFile) (.ofRule rule.name) rule.body

/-- What is asked of a grammar. -/
def hasLetsInConditions : Bool := g.rules.toList.all g.ruleKeepsLets

end Grammar
end Peg

namespace Language

open Peg

/-- **All rules of the language keep to their stances.** -/
theorem hasLetsInConditions_grammar {g : Grammar} (hg : grammar = .ok g) :
    g.hasLetsInConditions = true :=
  of_coded (by decide +kernel) hg

end Language
namespace Peg

open Packrat.Language Grammar Match

variable {g : Grammar} {kind : Kind} {st : Stance} {opened : List Kind} {last : Option Kind}
  {t : Term} {ts : List Term} {f : Flags} {a : Answer} {scope : Scope} {ns : List Match}
  {stop : Pos}

namespace Grammar

/-- In a sequence a token turns what is open; another term leaves it, and is in its stance or where
a condition begins. -/
theorem keepsLetsSeq_cons (h : g.keepsLetsSeq kind st opened last (t :: ts) = true) :
    (∃ kind' opened', t = .token kind' ∧ turn? opened kind' = some opened' ∧
      g.keepsLetsSeq kind st opened' (nextToken last kind') ts = true) ∨
    g.isTame false true t = true ∧ g.keepsLetsSeq kind st opened none ts = true ∧
      (g.keepsLets kind (st.within opened) t = true ∨
        beginsScope kind last = true ∧ g.isNodeful t = true ∧
          g.keepsLets .sourceFile (.entering kind) t = true) := by
  unfold keepsLetsSeq at h
  split at h
  · next heq => cases heq
  · next heq =>
    cases heq
    obtain ⟨opened', hturn, hrest⟩ := (Option.any_eq_true ..).mp h
    exact .inl ⟨_, opened', rfl, hturn, hrest⟩
  · next heq =>
    cases heq
    simp only [Bool.and_eq_true, Bool.or_eq_true] at h
    obtain ⟨⟨htame, hterm⟩, hrest⟩ := h
    exact .inr ⟨htame, hrest, hterm.imp_right fun h => ⟨h.1.1, h.1.2, h.2⟩⟩

theorem keepsLetsFrom_nil (h : g.keepsLets kind st t = true) :
    g.keepsLetsFrom kind st [] none t = true := by
  cases t <;> exact h

/-- What is asked of a term that is no sequence does not depend on what stands before it. -/
theorem keepsLets_of_keepsLetsFrom (h : g.keepsLetsFrom kind st opened last t = true)
    (hseq : t.isSeq = false) : opened = [] ∧ g.keepsLets kind st t = true := by
  unfold keepsLetsFrom at h
  split at h
  · cases hseq
  · obtain ⟨hopened, hkeeps⟩ := Bool.and_eq_true_iff.mp h
    exact ⟨List.isEmpty_iff.mp hopened, hkeeps⟩

/-- Tails as alternatives, under whatever node. -/
theorem keepsLets_ofTails {tails : List (Kind × Term)} (h : g.keepsLetsTails st tails = true) :
    g.keepsLets .sourceFile st (.ofTails tails) = true := by
  change g.keepsLetsAll _ _ _ = true
  induction tails with
  | nil => rfl
  | cons tail tails ih =>
    simp only [keepsLetsTails, Bool.and_eq_true] at h
    obtain ⟨⟨⟨-, hlet⟩, hkeeps⟩, hrest⟩ := h
    rw [List.map_cons, keepsLetsAll, keepsLets, hlet, hkeeps, ih hrest]
    rfl

theorem of_mem_tails {tails : List (Kind × Term)} (h : g.keepsLetsTails st tails = true)
    {tail : Kind × Term} (htail : tail ∈ tails) :
    scopeKeyword? tail.1 = none ∧ tail.1 ≠ .letExpr := by
  induction tails with
  | nil => cases htail
  | cons tail' tails ih =>
    simp only [keepsLetsTails, Bool.and_eq_true] at h
    obtain ⟨⟨⟨hplain, hlet⟩, -⟩, hrest⟩ := h
    rcases List.mem_cons.mp htail with rfl | htail
    · exact ⟨Option.isNone_iff_eq_none.mp hplain, by simpa using hlet⟩
    · exact ih hrest htail

theorem ruleKeepsLets_of (hg : g.hasLetsInConditions = true) {id : Nat} {rule : Rule}
    (hrule : g.rules[id]? = some rule) : rule.kind ≠ some .letExpr ∧
      g.keepsLets (rule.kind.getD .sourceFile) (.ofRule rule.name) rule.body = true := by
  have h := List.all_eq_true.mp hg rule (Array.mem_toList_iff.mpr (Array.mem_of_getElem? hrule))
  obtain ⟨hkind, hbody⟩ := Bool.and_eq_true_iff.mp h
  exact ⟨bne_iff_ne.mp hkind, hbody⟩

/-- What an answer to a goal says of `let`.  A sequence may go on where some brackets have been
opened; the rounds of a fold go on from trees that close what they open. -/
def GoalKeepsLets (g : Grammar) (f : Flags) (a : Answer) : Goal → Prop
  | .term t => ∀ kind st opened last, g.keepsLetsFrom kind st opened last t = true →
      ∀ scope, st.Holds f scope → ∀ ns stop, a = some (ns, stop) →
        KeepsLetsIn kind (scope.map (opened ++ ·)) last ns
  | .rounds tails _ done => ∀ st, g.keepsLetsTails st tails = true →
      g.isTameTails false true tails = true → Balanced done →
      ∀ scope, st.Holds f scope → KeepsLetsIn .sourceFile scope none done →
        ∀ ns stop, a = some (ns, stop) → KeepsLetsIn .sourceFile scope none ns

/-- What holds of terms in their stance holds of terms wherever they stand in a sequence. -/
theorem GoalKeepsLets.term (hseq : t.isSeq = false)
    (h : ∀ kind st, g.keepsLets kind st t = true → ∀ scope, st.Holds f scope →
      ∀ ns stop, a = some (ns, stop) → KeepsLetsIn kind scope none ns) :
    GoalKeepsLets g f a (.term t) := by
  intro kind st opened last hkeeps scope hscope ns stop heq
  obtain ⟨rfl, hterm⟩ := keepsLets_of_keepsLetsFrom hkeeps hseq
  simpa using (h kind st hterm scope hscope ns stop heq).of_none

theorem GoalKeepsLets.keeps (h : GoalKeepsLets g f a (.term t))
    (hkeeps : g.keepsLets kind st t = true) (hscope : st.Holds f scope)
    (heq : a = some (ns, stop)) : KeepsLetsIn kind scope none ns := by
  simpa using h kind st [] none (keepsLetsFrom_nil hkeeps) scope hscope ns stop heq

end Grammar

/-- The trees of a term that is tame close what they open. -/
theorem Parses.isBalanced {m : Machine} {pos : Pos} (htame : m.grammar.hasTameRules = true)
    (ht : m.grammar.isTame false true t = true)
    (h : Parses m f (.term t) pos (some (ns, stop))) : Balanced ns := by
  intro opened
  simpa using ((h.nests htame).tame ht Bool.noConfusion rfl).balanced opened

/-- Where a condition begins stands one node. -/
theorem Parses.node_of_isNodeful {m : Machine} {pos : Pos} (hladder : m.grammar.isLadder = true)
    (ht : m.grammar.isNodeful t = true) (h : Parses m f (.term t) pos (some (ns, stop))) :
    ∃ kind children, ns = [.node kind children] := by
  unfold isNodeful at ht
  split at ht
  · next r =>
    rcases Bool.or_eq_true_iff.mp ht with hone | hbody
    · exact h.node_of_isOneNode hladder hone
    · obtain ⟨id, rule, ms, hid, hrule, rfl, hparses⟩ := h.exists_body
      rw [hid, Option.any_some, hrule, Option.any_some] at hbody
      obtain ⟨hkind, hone⟩ := Bool.and_eq_true_iff.mp hbody
      rw [Rule.close, Option.isNone_iff_eq_none.mp hkind]
      exact hparses.node_of_isOneNode hladder hone
  · exact h.node_of_isOneNode hladder ht

namespace Parses

variable {m : Machine} {goal : Goal} {pos : Pos}

/-- A terminal makes no `let`. -/
theorem keepsLets_read? {t : Term} (h : m.read? pos t = some (ns, stop)) :
    KeepsLetsIn kind scope none ns := by
  rcases Machine.read?_cases h with ⟨-, rfl⟩ | ⟨index, kind', part, rfl, -⟩
  · trivial
  · trivial

/-- A tree that keeps what is open before it, alone. -/
theorem keepsLetsIn_singleton {children : List Match} {kind' : Kind} :
    KeepsLetsIn kind scope last [.node kind' children] ↔
      (Match.node kind' children).KeepsLets scope ∨
        beginsScope kind last = true ∧ (Match.node kind' children).KeepsLets (scope.enter kind) :=
  and_iff_left trivial

/-- In a sequence a condition begins behind its keyword; everything else keeps the stance. -/
theorem keepsLets_seq_cons {mid : Pos} {ms : List Match} (hladder : m.grammar.isLadder = true)
    (htame : m.grammar.hasTameRules = true)
    (hfirst : Parses m f (.term t) pos (some (ns, mid)))
    (h : GoalKeepsLets m.grammar f (some (ns, mid)) (.term t))
    (h' : GoalKeepsLets m.grammar f (some (ms, stop)) (.term (.seq ts))) :
    GoalKeepsLets m.grammar f (some (ns ++ ms, stop)) (.term (.seq (t :: ts))) := by
  rintro kind st opened last hkeeps scope hscope ns' stop' ⟨⟩
  rcases keepsLetsSeq_cons hkeeps with
    ⟨kind', opened', rfl, hturn, hrest⟩ | ⟨hterm, hrest, hstance⟩
  · obtain ⟨index, part, rfl⟩ := hfirst.token_eq
    have hms := h' kind st opened' (nextToken last kind') hrest scope hscope ms stop rfl
    have hpast : Scope.past (scope.map (opened ++ ·)) (Match.token index kind' part).marks =
        scope.map (opened' ++ ·) := by
      simp [Scope.past, Function.comp_def, Match.marks, Mark.openAfter_ofToken, turn_append hturn]
    change KeepsLetsIn kind (Scope.past (scope.map (opened ++ ·)) _) _ ms
    rwa [hpast]
  · have hms := h' kind st opened none hrest scope hscope ms stop rfl
    have hwithin := Stance.holds_within hscope opened
    refine KeepsLetsIn.beside (hfirst.isBalanced htame hterm) ?_ hms
    rcases hstance with hplain | ⟨hbegins, hnode, hentered⟩
    · exact (h.keeps hplain hwithin rfl).of_none
    · obtain ⟨kind', children, rfl⟩ := hfirst.node_of_isNodeful hladder hnode
      have hnode := h.keeps hentered (Stance.holds_entering hwithin kind) rfl
      rw [keepsLetsIn_singleton, beginsScope_none] at hnode
      exact keepsLetsIn_singleton.mpr (.inr ⟨hbegins, hnode.resolve_right (by simp)⟩)

/-- **Every `let` stands in a condition** or the value of an attribute in one, with no bracket
opened since, if all rules keep to their stances. -/
theorem keepsLets (hg : m.grammar.hasLetsInConditions = true) (hladder : m.grammar.isLadder = true)
    (htame : m.grammar.hasTameRules = true) (h : Parses m f goal pos a) :
    GoalKeepsLets m.grammar f a goal := by
  induction h with
  | @terminal f t pos ht =>
    exact .term (Term.isSeq_of_isTerminal ht) fun _ _ _ _ _ ns stop => keepsLets_read?
  | seq_nil =>
    rintro kind st opened last - scope - ns stop ⟨⟩
    trivial
  | seq_fail => rintro kind st opened last - scope - ns stop ⟨⟩
  | @seq_cons f t ts pos ns mid a hfirst hrest ih₁ ih₂ =>
    cases a with
    | none => rintro kind st opened last - scope - ns stop ⟨⟩
    | some r => exact keepsLets_seq_cons hladder htame hfirst ih₁ ih₂
  | choice_nil => exact .term rfl fun kind st _ scope _ ns stop heq => by cases heq
  | choice_here _ ih =>
    refine .term rfl fun kind st hkeeps scope hscope ns stop heq => ?_
    exact ih.keeps (Bool.and_eq_true_iff.mp hkeeps).1 hscope heq
  | choice_next _ _ _ ih =>
    refine .term rfl fun kind st hkeeps scope hscope ns stop heq => ?_
    exact ih.keeps (t := .choice _) (Bool.and_eq_true_iff.mp hkeeps).2 hscope heq
  | @opt f t pos a _ ih =>
    refine .term rfl fun kind st hkeeps scope hscope ns stop heq => ?_
    cases a with
    | none =>
      cases heq
      trivial
    | some r => exact ih.keeps hkeeps hscope heq
  | star_fail =>
    refine .term rfl fun kind st _ scope _ ns stop heq => ?_
    cases heq
    trivial
  | star_empty =>
    refine .term rfl fun kind st _ scope _ ns stop heq => ?_
    cases heq
    trivial
  | star_more hfirst _ _ ih₁ ih₂ =>
    refine .term rfl fun kind st hkeeps scope hscope ns stop heq => ?_
    obtain ⟨⟨ms, stop'⟩, rfl, hr⟩ := Option.map_eq_some_iff.mp heq
    cases hr
    obtain ⟨hterm, hbody⟩ := Bool.and_eq_true_iff.mp hkeeps
    exact .beside (hfirst.isBalanced htame hterm) (ih₁.keeps hbody hscope rfl)
      (ih₂.keeps hkeeps hscope rfl)
  | plus_fail => exact .term rfl fun kind st _ scope _ ns stop heq => by cases heq
  | plus_more hfirst _ ih₁ ih₂ =>
    refine .term rfl fun kind st hkeeps scope hscope ns stop heq => ?_
    obtain ⟨⟨ms, stop'⟩, rfl, hr⟩ := Option.map_eq_some_iff.mp heq
    cases hr
    obtain ⟨hterm, hbody⟩ := Bool.and_eq_true_iff.mp hkeeps
    exact .beside (hfirst.isBalanced htame hterm) (ih₁.keeps hbody hscope rfl)
      (ih₂.keeps (t := .star _) hkeeps hscope rfl)
  | ahead =>
    refine .term rfl fun kind st _ scope _ ns stop heq => ?_
    obtain ⟨r, -, hr⟩ := Option.map_eq_some_iff.mp heq
    cases hr
    trivial
  | notAhead =>
    refine .term rfl fun kind st _ scope _ ns stop heq => ?_
    split at heq
    · cases heq
    · cases heq
      trivial
  | ref_none => exact .term rfl fun kind st _ scope _ ns stop heq => by cases heq
  | @ref_rule f r id rule pos a hid hrule _ ih =>
    refine .term rfl fun kind st hkeeps scope hscope ns stop heq => ?_
    obtain ⟨⟨ms, stop'⟩, rfl, hr⟩ := Option.map_eq_some_iff.mp heq
    cases hr
    obtain ⟨hlet, hbody⟩ := ruleKeepsLets_of hg hrule
    have hmeets : st.meets (.ofRule rule.name) = true := by
      simpa [Grammar.keepsLets, hid, hrule] using hkeeps
    have hms := ih.keeps hbody (Stance.holds_of_meets hmeets hscope) rfl
    cases hkind : rule.kind with
    | none =>
      rw [hkind] at hms
      rw [show rule.close ms = ms by rw [Rule.close, hkind]]
      exact hms.of_plain rfl
    | some kind' =>
      rw [hkind] at hms hlet
      rw [show rule.close ms = [.node kind' ms] by rw [Rule.close, hkind]]
      exact keepsLetsIn_singleton.mpr (.inl ⟨fun heq => absurd (congrArg some heq) hlet, hms⟩)
  | node _ ih =>
    refine .term rfl fun kind st hkeeps scope hscope ns stop heq => ?_
    obtain ⟨⟨ms, stop'⟩, rfl, hr⟩ := Option.map_eq_some_iff.mp heq
    cases hr
    obtain ⟨hlet, hbody⟩ := Bool.and_eq_true_iff.mp hkeeps
    refine keepsLetsIn_singleton.mpr (.inl ⟨fun heq => ?_, ih.keeps hbody hscope rfl⟩)
    -- where `let` is made, the stance says that no bracket is open
    have hstart : st = .start := by simpa [heq] using hlet
    rw [hstart] at hscope
    exact hscope
  | scope _ ih =>
    refine .term rfl fun kind st hkeeps scope hscope ns stop heq => ?_
    obtain ⟨st', hchange, hbody⟩ := (Option.any_eq_true ..).mp hkeeps
    exact ih.keeps hbody (Stance.holds_change hchange hscope) heq
  | gate_open hgate _ ih =>
    refine .term rfl fun kind st hkeeps scope hscope ns stop heq => ?_
    exact ih.keeps hkeeps (Stance.holds_found hgate hscope) heq
  | gate_shut => exact .term rfl fun kind st _ scope _ ns stop heq => by cases heq
  | fold_fail => exact .term rfl fun kind st _ scope _ ns stop heq => by cases heq
  | fold_rounds hoperand _ ih₁ ih₂ =>
    refine .term rfl fun kind st hkeeps scope hscope ns stop heq => ?_
    simp only [Grammar.keepsLets, Bool.and_eq_true] at hkeeps
    obtain ⟨⟨⟨hterm, htails⟩, hbody⟩, hrounds⟩ := hkeeps
    exact (ih₂ st hrounds htails (hoperand.isBalanced htame hterm) scope hscope
      (ih₁.keeps hbody hscope rfl) ns stop heq).of_plain rfl
  | rounds_spent =>
    rintro st - - - scope - hdone ns stop ⟨⟩
    exact hdone
  | rounds_end =>
    rintro st - - - scope - hdone ns stop ⟨⟩
    exact hdone
  | @rounds_more f tails left pos ns kind ms mid a _ hround _ ih₁ ih₂ =>
    intro st htails htame' hns scope hscope hdone ns' stop heq
    obtain ⟨tail, htail, ms', hms⟩ := hround.exists_tail
    obtain ⟨rfl, rfl⟩ := Match.node.inj (List.cons_eq_cons.mp hms).1
    obtain ⟨hplain, hlet⟩ := of_mem_tails htails htail
    have hbalanced := hround.isBalanced htame ((isTame_ofTails tails).trans htame')
    have hnode := ih₁.keeps (keepsLets_ofTails htails) hscope rfl
    rw [keepsLetsIn_singleton, beginsScope_none] at hnode
    have htree := hnode.resolve_right (by simp)
    -- the node of the tail takes in what there is, and no condition begins under it
    have hall : KeepsLetsIn tail.1 scope none (ns ++ ms) :=
      .beside hns (hdone.of_plain rfl) htree.2
    refine ih₂ st htails htame' (fun opened => ?_) scope hscope
      (keepsLetsIn_singleton.mpr (.inl ⟨fun heq => absurd heq hlet, hall⟩)) ns' stop heq
    have hms := hbalanced opened
    rw [marksAll_singleton, Match.marks, Mark.openAfter_append, Mark.openAfter_ofNode] at hms ⊢
    rw [marksAll_append, Mark.openAfter_append, hns]
    exact hms

end Parses
end Peg

namespace Language

open Peg

variable {g : Grammar}

/-- Every construct that can be parsed on its own begins outside all conditions. -/
theorem keepsLets_rule_ended (hg : grammar = .ok g) (entry : Entry) :
    g.keepsLets .sourceFile .clear (.seq [.rule entry.ruleName, .ended]) = true := by
  have hlinked : coded.any (fun g => Entry.all.all fun entry =>
      g.keepsLets .sourceFile .clear (.seq [.rule entry.ruleName, .ended])) = true := by
    decide +kernel
  exact List.all_eq_true.mp (of_coded hlinked hg) entry (by cases entry <;> decide)

/-- So does a file. -/
theorem keepsLets_rule (hg : grammar = .ok g) :
    g.keepsLets .sourceFile .clear (.rule fileRule.name) = true := by
  rcases Grammar.keepsLetsSeq_cons (keepsLets_rule_ended hg .sourceFile) with
    ⟨kind, opened, htoken, -⟩ | ⟨-, -, hkeeps | ⟨hbegins, -⟩⟩
  · cases htoken
  · exact hkeeps
  · cases hbegins

end Language
end Packrat
