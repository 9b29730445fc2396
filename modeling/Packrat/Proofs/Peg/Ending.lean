/-
# Which runs end

A run of an accepted grammar ends when its rules are *steady* and cut short tokens only
(`Machine.exists_run_of_allows`): then the fuel that `run` gives is not less than the run
costs.  Acceptance alone is not enough:

| loop | ends | unless |
| --- | --- | --- |
| `fold` with a limit | after so many rounds | |
| `star`, `plus` | at a round that leaves its place | rounds go on behind the last token, or come back to an earlier place (`star_end_runs_on`, `star_piece_runs_on`) |
| `fold` without a limit | at a round in which no tail matches | a tail matches nothing, and so does the next round (`fold_runs_on`) |

The check that grammars go through looks for rules that call themselves before they have read
a token.  It passes by the tails of a fold whose operand has read one, so nothing is asked of
them.
-/

import Mathlib.Tactic.Ring
import Packrat.Proofs.Peg.Runs

namespace Packrat
namespace Peg
namespace Machine

/-! ## Loops that run on -/

/-- A fold without a limit goes on as long as tails match, whether they read anything or
not: if from every place and state that `P` admits a tail matches and leads to such a place and
state, then no number of rounds is enough. -/
theorem foldFrom_eq_outOfFuel {eval : Evaluator} {tails : List (Kind × Term)} {mark : Nat}
    {P : Pos → State → Prop}
    (htail : ∀ pos s, P pos s →
      ∃ stop s', tailFrom eval mark pos tails s = .matched stop s' ∧ P stop s')
    (rounds : Nat) : ∀ folded pos s, P pos s →
      foldFrom eval tails none mark rounds folded pos s = .fault .outOfFuel := by
  induction rounds with
  | zero => exact fun _ _ _ _ => rfl
  | succ rounds ih =>
    intro folded pos s hs
    obtain ⟨stop, s', hround, hs'⟩ := htail pos s hs
    simp only [foldFrom, Option.any_none, hround]
    exact ih (folded + 1) stop s' hs'

/-- A repetition goes on as long as its term matches and leaves another place: if from all
places that `P` admits it leads to another such place, no number of rounds is enough. -/
theorem repeatFrom_eq_outOfFuel {eval : Evaluator} {t : Term} {P : Pos → Prop}
    (hbody : ∀ pos s, P pos → ∃ stop s', eval t pos s = .matched stop s' ∧ stop ≠ pos ∧ P stop)
    (rounds : Nat) : ∀ pos s, P pos → repeatFrom eval t rounds pos s = .fault .outOfFuel := by
  induction rounds with
  | zero => exact fun _ _ _ => rfl
  | succ rounds ih =>
    intro pos s hpos
    obtain ⟨stop, s', hround, hne, hstop⟩ := hbody pos s hpos
    simp only [repeatFrom, hround, if_neg hne]
    exact ih stop s' hstop

/-! ## Fuel -/

/-- A run is given no less fuel than its root costs. -/
theorem cost_le_fuelFor (m : Machine) (root : Term) :
    m.cost (largestBody m.grammar root.size) {} m.grammar.rules.size root.size ≤
      m.fuelFor root := by
  have hroot := le_largestBody m.grammar root.size
  have hplaces : m.remaining {} ≤ 256 * m.tokens.size := Nat.sub_le _ _
  have hless : (m.remaining {} + 1) * (m.grammar.rules.size + 1) ≤
      256 * (m.tokens.size + 2) * (m.grammar.rules.size + 2) :=
    Nat.mul_le_mul (by omega) (by omega)
  have hall : (m.remaining {} + 1) * (m.grammar.rules.size + 1) *
        (largestBody m.grammar root.size + 1) ≤
      (256 * (m.tokens.size + 2) * (m.grammar.rules.size + 2) + m.limits.maxSteps.getD 0) *
        (largestBody m.grammar root.size + 2) :=
    Nat.mul_le_mul (hless.trans (Nat.le_add_right ..)) (Nat.le_succ _)
  have hfuel : m.fuelFor root = (256 * (m.tokens.size + 2) * (m.grammar.rules.size + 2) +
      m.limits.maxSteps.getD 0) * (largestBody m.grammar root.size + 2) := rfl
  rw [hfuel, cost]
  refine Nat.le_trans ?_ hall
  calc (m.remaining {} * (m.grammar.rules.size + 1) + m.grammar.rules.size) *
        (largestBody m.grammar root.size + 1) + root.size
      ≤ (m.remaining {} * (m.grammar.rules.size + 1) + m.grammar.rules.size) *
        (largestBody m.grammar root.size + 1) + (largestBody m.grammar root.size + 1) := by omega
    _ = (m.remaining {} + 1) * (m.grammar.rules.size + 1) *
        (largestBody m.grammar root.size + 1) := by ring

/-! ## Runs that end -/

variable {m : Machine}

/-- A run ends whose root is steady, too. -/
theorem exists_run_of_every {rules : List Rule} (hg : Grammar.ofRules rules = .ok m.grammar)
    (hallows : ∀ rule ∈ m.grammar.rules, rule.body.Every (m.Allows True)) {root : Term}
    (hroot : root.Every (m.Allows True)) : ∃ r, m.run root {} = .ok r := by
  have hbodies : ∀ (id : Nat) (rule : Rule), m.grammar.rules[id]? = some rule →
      rule.body.Every (m.Allows True) :=
    fun _ rule hrule => hallows rule (Array.mem_of_getElem? hrule)
  obtain ⟨rank, hm⟩ := exists_surveyed (Grammar.leftCycle?_of_ofRules hg) hbodies root.size
  have hrun := runWith_descends hm (m.fuelFor root) (s := {}) hroot isIdle_empty
  rw [run]
  cases ho : m.runWith (m.fuelFor root) root {} with
  | ok r => exact ⟨r, rfl⟩
  | error f =>
    rw [ho] at hrun
    exact absurd ⟨trivial, cost_le_fuelFor m _⟩ hrun.2

/-- **Steady rules end.**  With an accepted grammar whose rules fold without a limit only over
tails that are not nullable, do not read the end of the text as a token, refer to rules that
are there and cut tokens of at most 255 bytes only, the run of every rule comes to an end,
whatever the tokens and the limits. -/
theorem exists_run_of_allows {rules : List Rule} (hg : Grammar.ofRules rules = .ok m.grammar)
    (hallows : ∀ rule ∈ m.grammar.rules, rule.body.Every (m.Allows True)) {id : Nat}
    (hid : id < m.grammar.rules.size) : ∃ r, m.run (.ref (.linked id)) {} = .ok r := by
  refine exists_run_of_every hg hallows fun t ht => ?_
  obtain rfl := List.mem_singleton.mp ht
  refine ⟨fun kind h => (by cases h), fun _ => ?_⟩
  simpa [Grammar.isSteady, Grammar.resolve?] using hid

/-- When all tokens are short, it is enough to look at the rules. -/
theorem every_allows_of_steady (hshort : ∀ t ∈ m.tokens, t.text.utf8ByteSize ≤ 255) {t : Term}
    (hsteady : t.parts.all m.grammar.isSteady = true) : t.Every (m.Allows True) :=
  fun u hu => ⟨fun _ _ _ _ _ t ht _ => hshort t (Array.mem_of_getElem? ht),
    fun _ => List.all_eq_true.mp hsteady u hu⟩

/-- The conditions can be met: sums in nested brackets, where the closing brackets are one
token and a tail calls the rule of the whole sum. -/
theorem exists_run_of_allows_sum :
    let rules : List Rule := [
      ⟨"sum", none, none, none,
        .fold (.rule "atom") [(.binExpr, .seq [.token .plus, .rule "atom"])] none⟩,
      ⟨"atom", some .parenExpr, none, none,
        .choice [.token .intNumber, .seq [.split .lt, .rule "sum", .split .gt]]⟩]
    let g : Grammar := ⟨#[
      ⟨"sum", none, none, none,
        .fold (.ref (.linked 1)) [(.binExpr, .seq [.token .plus, .ref (.linked 1)])] none⟩,
      ⟨"atom", some .parenExpr, none, none,
        .choice [.token .intNumber, .seq [.split .lt, .ref (.linked 0), .split .gt]]⟩]⟩
    let tokens : Array Symbol := #[⟨.shl, "<<"⟩, ⟨.intNumber, "1"⟩, ⟨.plus, "+"⟩,
      ⟨.intNumber, "2"⟩, ⟨.gt, ">"⟩, ⟨.plus, "+"⟩, ⟨.intNumber, "3"⟩, ⟨.gt, ">"⟩, ⟨.eof, ""⟩]
    let m : Machine := ⟨g, tokens, {}⟩
    Grammar.ofRules rules = .ok g ∧ (∀ rule ∈ g.rules, rule.body.Every (m.Allows True)) ∧
      ∀ id < 2, ∃ r, m.run (.ref (.linked id)) {} = .ok r := by
  intro rules g tokens m
  have hg : Grammar.ofRules rules = .ok g := by cbv
  have hshort : ∀ t ∈ tokens, t.text.utf8ByteSize ≤ 255 := by decide
  have hsteady : g.rules.toList.all (fun rule => rule.body.parts.all g.isSteady) = true := by
    decide +kernel
  have hallows : ∀ rule ∈ g.rules, rule.body.Every (m.Allows True) := fun rule hrule =>
    every_allows_of_steady hshort
      (List.all_eq_true.mp hsteady rule (Array.mem_toList_iff.mpr hrule))
  exact ⟨hg, hallows, fun id hid => exists_run_of_allows (m := m) hg hallows hid⟩

/-! ## Runs that do not end -/

/-- A name, and behind it tails that match nothing. -/
def idleTails : List Rule :=
  [⟨"a", none, none, none, .fold (.token .ident) [(.binExpr, .rule "e")] none⟩,
   ⟨"e", none, none, none, .empty⟩]

/-- The first rule of these, with the second by number. -/
def idleFold : Term := .fold (.token .ident) [(.binExpr, .ref (.linked 1))] none

/-- The rules by number, and a single name to read. -/
def idleMachine : Machine where
  grammar := ⟨#[⟨"a", none, none, none, idleFold⟩, ⟨"e", none, none, none, .empty⟩]⟩
  tokens := #[⟨.ident, "x"⟩, ⟨.eof, ""⟩]

/-- No limit has been passed, and behind the name the second rule is unknown or known to match
nothing. -/
structure MayIdle (s : State) : Prop where
  flags : s.flags = {}
  live : s.halted = false
  known : s.memo.get? ⟨1, ⟨1, 0⟩, {}⟩ = none ∨
    ∃ ns, s.memo.get? ⟨1, ⟨1, 0⟩, {}⟩ = some (.matched ⟨1, 0⟩ ns)

/-- A tail that matches nothing can do so again. -/
theorem MayIdle.tailFrom {s : State} (h : MayIdle s) (fuel mark : Nat) :
    ∃ s', Machine.tailFrom (idleMachine.eval (fuel + 2)) mark ⟨1, 0⟩
      [(.binExpr, .ref (.linked 1))] s = .matched ⟨1, 0⟩ s' ∧ MayIdle s' := by
  obtain ⟨hflags, hlive, hknown⟩ := h
  have hrule : idleMachine.grammar.rules[1]? = some ⟨"e", none, none, none, .empty⟩ := rfl
  have hlimits : idleMachine.limits = {} := rfl
  rw [eval]
  simp only [Machine.tailFrom, step, Grammar.resolve?, hrule, applyRule, hlive, hlimits, hflags,
    Option.any_none]
  rcases hknown with hnone | ⟨ns, hsome⟩
  · simp only [hnone, enterRule, eval, step, Term.empty, seqFrom]
    refine ⟨_, rfl, rfl, hlive, .inr ?_⟩
    simp only [State.wrap, State.truncate, State.push, Memo.get?_insert, if_true]
    exact ⟨_, rfl⟩
  · simp only [hsome]
    exact ⟨_, rfl, rfl, hlive, .inr ⟨ns, hsome⟩⟩

/-- The fold goes round and round behind the name. -/
theorem eval_idleFold {s : State} (hflags : s.flags = {}) (hlive : s.halted = false)
    (hnone : s.memo.get? ⟨1, ⟨1, 0⟩, {}⟩ = none) (fuel : Nat) :
    idleMachine.eval (fuel + 3) idleFold {} s = .fault .outOfFuel := by
  have hname : idleMachine.eval (fuel + 2) (.token .ident) {} s =
      .matched ⟨1, 0⟩ (s.push (.token 0 .ident none)) := rfl
  have hidle : MayIdle (s.push (.token 0 .ident none)) := ⟨hflags, hlive, .inl hnone⟩
  rw [eval]
  simp only [step, idleFold, hname]
  refine foldFrom_eq_outOfFuel (P := fun pos s => pos = ⟨1, 0⟩ ∧ MayIdle s) ?_ _ 0 _ _ ⟨rfl, hidle⟩
  rintro pos s ⟨rfl, hs⟩
  obtain ⟨s', hround, hs'⟩ := hs.tailFrom fuel _
  exact ⟨_, s', hround, rfl, hs'⟩

/-- **Acceptance is not enough.**  The grammar of these two rules is accepted, and no fuel is
enough for a run of the first over a single name, with no limit set. -/
theorem fold_runs_on : Grammar.ofRules idleTails = .ok idleMachine.grammar ∧
    idleMachine.limits = {} ∧
    ∀ fuel, idleMachine.runWith fuel (.rule "a") {} = .error .outOfFuel := by
  refine ⟨by cbv, rfl, fun fuel => ?_⟩
  rcases fuel with _ | _ | _ | _ | fuel
  · cbv
  · cbv
  · cbv
  · cbv
  · change idleMachine.runWith (fuel + 4) (.rule "a") {} = _
    have hid : idleMachine.grammar.resolve? (.named "a") = some 0 := by cbv
    have hrule : idleMachine.grammar.rules[0]? = some ⟨"a", none, none, none, idleFold⟩ := rfl
    have hempty : (State.memo {}).get? ⟨0, {}, {}⟩ = none := by simp
    let entered : State :=
      { depth := 1, steps := 1, memo := Memo.insert {} ⟨0, {}, {}⟩ .inProgress }
    have hbody : idleMachine.eval (fuel + 3) idleFold {} entered = .fault .outOfFuel :=
      eval_idleFold rfl rfl (by simp [entered, Memo.get?_insert]) fuel
    simp only [runWith, Term.rule]
    rw [eval]
    simp only [step, hid, hrule, applyRule, enterRule]
    rw [if_neg (by decide), if_neg (by decide), if_neg (by decide)]
    simp only [hempty]
    simp only [entered] at hbody
    rw [hbody]

/-- Reading the end of the text as a token goes on behind it for ever. -/
theorem star_end_runs_on (g : Grammar) (s : State) (fuel : Nat) :
    (⟨g, #[], {}⟩ : Machine).eval fuel (.star (.token .eof)) {} s = .fault .outOfFuel := by
  match fuel with
  | 0 | 1 => rfl
  | fuel + 2 =>
    rw [eval]
    refine repeatFrom_eq_outOfFuel (P := fun pos => pos.offset = 0) (fun pos s hpos => ?_) _ _ _ rfl
    refine ⟨⟨pos.index + 1, 0⟩, s.push (.token pos.index .eof none), ?_, ?_, rfl⟩
    · simp [eval, step, readToken, kindAt, leaf, Pos.isSplit, hpos]
    · intro heq
      have hindex := congrArg Pos.index heq
      simp at hindex

/-- A name of so many times the same two letters. -/
def longName (n : Nat) : List Char := (List.replicate n ['a', 's']).flatten

theorem byteSize_longName (n : Nat) : Text.byteSize (longName n) = 2 * n := by
  induction n with
  | zero => rfl
  | succ n ih =>
    rw [longName, List.replicate_succ, List.flatten_cons, Text.byteSize_append]
    change 2 + Text.byteSize (longName n) = _
    rw [ih]
    omega

theorem longName_add (k n : Nat) : longName (k + n) = longName k ++ longName n := by
  rw [longName, List.replicate_add, List.flatten_append]
  rfl

theorem dropBytes?_longName (k n : Nat) :
    Text.dropBytes? (2 * k) (longName (k + n)) = some (longName n) :=
  Text.dropBytes?_eq_some_iff.mpr ⟨longName k, longName_add k n, byteSize_longName k⟩

/-- No punctuator is a keyword. -/
theorem punctuator?_ne_as (text : String) : (Kind.punctuator? text).getD .error ≠ .asKw := by
  have hnone : ∀ entry ∈ Kind.punctuators, entry.2 ≠ .asKw := by decide
  cases hkind : Kind.punctuator? text with
  | none => decide
  | some kind =>
    obtain ⟨entry, hfind, rfl⟩ := Option.map_eq_some_iff.mp hkind
    exact hnone entry (List.mem_of_find?_eq_some hfind)

/-- A machine over a name of 258 bytes. -/
def longNameMachine (g : Grammar) : Machine := ⟨g, #[⟨.ident, String.ofList (longName 129)⟩], {}⟩

/-- Behind `k` pieces, what is left of the name begins with another piece. -/
theorem readSplit_longName (g : Grammar) {pos : Pos} {k : Nat} (hindex : pos.index = 0)
    (hk : k < 128) (hoffset : pos.offset.toNat = 2 * k) (s : State) :
    ∃ s', (longNameMachine g).readSplit .asKw pos s = .matched ⟨0, pos.offset + 2⟩ s' := by
  have htext : (longNameMachine g).textAt pos = String.ofList (longName (129 - k)) := by
    have hdrop := dropBytes?_longName k (129 - k)
    rw [Nat.add_sub_cancel' (by omega)] at hdrop
    by_cases hsplit : pos.isSplit = true
    · simp [textAt, longNameMachine, hindex, hsplit, hoffset, hdrop]
    · have hzero : pos.offset = 0 := by simpa [Pos.isSplit] using hsplit
      have hk0 : k = 0 := by simpa [hzero] using hoffset
      simp [textAt, longNameMachine, hindex, hsplit, hk0]
  have hkind : (longNameMachine g).kindAt pos ≠ .asKw := by
    by_cases hsplit : pos.isSplit = true
    · simpa [kindAt, longNameMachine, hindex, hsplit] using punctuator?_ne_as _
    · simp [kindAt, longNameMachine, hindex, hsplit]
  have hspell : Kind.asKw.spelling? = some "as" := by decide
  obtain ⟨n, hn⟩ : ∃ n, 129 - k = n + 2 := ⟨127 - k, by omega⟩
  have hbegins : "as".utf8ByteSize < ((longNameMachine g).textAt pos).utf8ByteSize ∧
      "as".toList.isPrefixOf ((longNameMachine g).textAt pos).toList = true := by
    have hsize : "as".utf8ByteSize = 2 := rfl
    rw [htext, hn, hsize, Text.utf8ByteSize_ofList, byteSize_longName, String.toList_ofList]
    exact ⟨by omega, by simp [longName, List.replicate_succ]⟩
  simp only [readSplit, if_neg hkind, hspell, if_pos hbegins, hindex]
  exact ⟨_, rfl⟩

/-- Cutting pieces off a token of more than 255 bytes comes back to where it began. -/
theorem star_piece_runs_on (g : Grammar) (s : State) (fuel : Nat) :
    (longNameMachine g).eval fuel (.star (.split .asKw)) {} s = .fault .outOfFuel := by
  match fuel with
  | 0 | 1 => rfl
  | fuel + 2 =>
    rw [eval]
    refine repeatFrom_eq_outOfFuel
      (P := fun pos => pos.index = 0 ∧ ∃ k < 128, pos.offset.toNat = 2 * k) ?_ _ _ _
      ⟨rfl, 0, by omega, rfl⟩
    rintro pos s ⟨hindex, k, hk, hoffset⟩
    obtain ⟨s', hread⟩ := readSplit_longName g hindex hk hoffset s
    have hnext : (pos.offset + 2).toNat = (2 * k + 2) % 256 := by
      rw [UInt8.toNat_add, hoffset]
      rfl
    refine ⟨_, s', hread, fun heq => ?_, rfl, if k = 127 then 0 else k + 1, ?_, ?_⟩
    · have hsame := congrArg (·.offset.toNat) heq
      simp only [hnext, hoffset] at hsame
      omega
    · split <;> omega
    · rw [hnext]
      split <;> omega

end Machine
end Peg
end Packrat
