/-
# What a run leaves in the table

A run that ends with an answer leaves a table that says only what is so, and another run may begin
with it.  When a limit is passed, the rules that are being evaluated do not go on, but they come to
an end all the same, and note in the table what became of them.  They are a chain of rules, each of
them applied on the way to an answer of the one before (`Machine.Chain`):

| what the table says of | |
| --- | --- |
| a rule outside the chain | is so |
| a rule of the chain | is that it matched or failed, and need not be so |
| no rule | is that it is being evaluated |

The work that began while no limit had been passed and ends with one passed has given up a chain of
rules (`Machine.GivesUp`); from there on nothing is noted but by the rules of the chain around it.
-/

import Packrat.Proofs.Peg.Limits
import Packrat.Proofs.Peg.Reuse

namespace Packrat
namespace Peg
namespace Machine

/-- Rules that are being evaluated, each on the way to an answer of the one before it, and the
first on the way to an answer of a task.  In the last of them another rule is applied. -/
inductive Chain (m : Machine) : Task → List MemoKey → Prop where
  | here {task f r id rule pos} : m.Visits task ⟨f, .term (.ref r), pos⟩ →
    m.grammar.resolve? r = some id → m.grammar.rules[id]? = some rule → Chain m task []
  | inside {task f r id rule pos keys} : m.Visits task ⟨f, .term (.ref r), pos⟩ →
    m.grammar.resolve? r = some id → m.grammar.rules[id]? = some rule →
    Chain m ⟨f, .term rule.body, pos⟩ keys → Chain m task (⟨id, pos, f⟩ :: keys)

variable {m : Machine} {task task' : Task}

/-- What is applied on the way to an answer is applied on the way to what calls for it. -/
theorem Chain.call {keys : List MemoKey} (h : m.Chain task' keys) (hcall : m.Calls task task') :
    m.Chain task keys := by
  cases h with
  | here hvisit hid hrule => exact .here (.head hcall hvisit) hid hrule
  | inside hvisit hid hrule hchain => exact .inside (.head hcall hvisit) hid hrule hchain

/-! ## Nothing is left open -/

/-- The rules that count as being evaluated are among some. -/
def IsOpenIn (S : Set MemoKey) (s : State) : Prop :=
  ∀ key, s.memo.get? key = some .inProgress → key ∈ S

theorem isOpenIn_isLasting (S : Set MemoKey) : State.IsLasting (IsOpenIn S) :=
  .of_told fun _ _ hmemo _ hs key hget => hs key (hmemo ▸ hget)

/-- A rule whose end has been noted is no longer being evaluated. -/
theorem IsOpenIn.of_insert {S : Set MemoKey} {key : MemoKey} {e : MemoEntry} {s s' : State}
    (h : IsOpenIn (insert key S) s) (hmemo : s'.memo = s.memo.insert key e)
    (he : e ≠ .inProgress) : IsOpenIn S s' := by
  intro key' hget
  rw [hmemo, Memo.get?_insert] at hget
  split at hget
  · cases hget
    exact absurd rfl he
  · next hne => exact (h key' hget).resolve_left (Ne.symm hne)

/-- **A rule that has been entered is left**, whatever became of it. -/
theorem eval_leavesClosed (m : Machine) (fuel : Nat) (S : Set MemoKey) :
    Preserves (IsOpenIn S) (m.eval fuel) := by
  refine eval_preserves isOpenIn_isLasting (fun fuel ih S id rule pos s _ hs => ?_) fuel S
  refine applyRule_preserves (isOpenIn_isLasting S) hs (fun _ => hs) (fun _ => hs)
    (fun _ _ => hs) fun _ _ _ => ?_
  have hentered : IsOpenIn (insert ⟨id, pos, s.flags⟩ S)
      (entering pos (stepped s) rule ⟨id, pos, s.flags⟩) := by
    intro key hget
    change (s.memo.insert _ _).get? key = _ at hget
    rw [Memo.get?_insert] at hget
    split at hget
    · next heq => exact .inl heq.symm
    · exact .inr (hs key hget)
  rw [enterRule_eq]
  refine (ih _ rule.body pos _ hentered).resume (fun stop s' hs' => ?_) fun s' hs' => ?_
  · obtain ⟨ns, hmemo⟩ := memo_leavingMatched (stepped s) s' rule ⟨id, pos, s.flags⟩ stop
    exact hs'.of_insert hmemo (by simp)
  · exact hs'.of_insert (memo_leavingFailed pos (stepped s) s' rule _) (by simp)

/-! ## What has been given up -/

/-- Work on a task that began in state `s` has passed a limit: apart from a chain of rules, which
was being evaluated then, the table says only what is so. -/
def GaveUp (m : Machine) (task : Task) (s s' : State) : Prop :=
  s'.halted = true ∧ ∃ keys, m.Chain task keys ∧ s.steps + keys.length < s'.steps ∧
    (∀ d, m.limits.maxDepth = some d → s.depth + keys.length ≤ d) ∧
    ∀ key e, s'.memo.get? key = some e → key ∉ keys → m.EntryTrue key e

/-- Work that ends with a limit passed has given up a chain of rules. -/
def GivesUp (m : Machine) (task : Task) (s : State) (o : Outcome) : Prop :=
  o.Leaves fun s' => s'.halted = true → m.GaveUp task s s'

/-- No limit has been passed, and the table says only what is so. -/
structure IsLive (m : Machine) (s : State) : Prop where
  live : s.halted = false
  memo : m.MemoTrue s.memo
  depth : ∀ d, m.limits.maxDepth = some d → s.depth ≤ d

variable {eval : Evaluator} {s s₁ s₂ : State} {o : Outcome}

theorem GaveUp.call (h : m.GaveUp task' s s₁) (hcall : m.Calls task task') :
    m.GaveUp task s s₁ := by
  obtain ⟨hhalted, keys, hchain, hrest⟩ := h
  exact ⟨hhalted, keys, hchain.call hcall, hrest⟩

theorem GivesUp.call (h : m.GivesUp task' s o) (hcall : m.Calls task task') :
    m.GivesUp task s o := h.imp fun _ h hhalted => (h hhalted).call hcall

/-- It does not matter when the work began, as long as it was not later. -/
theorem GivesUp.after (h : m.GivesUp task s₁ o) (hdepth : s₁.depth = s.depth)
    (hsteps : s.steps ≤ s₁.steps) : m.GivesUp task s o := by
  refine h.imp fun s' h hhalted => ?_
  obtain ⟨-, keys, hchain, hlt, hdeep, htrue⟩ := h hhalted
  exact ⟨hhalted, keys, hchain, by omega, hdepth ▸ hdeep, htrue⟩

/-- Work goes on with another task from a state that it has led to. -/
theorem GivesUp.further {goal : Goal} {pos : Pos} (h : m.GivesUp ⟨s₁.flags, goal, pos⟩ s₁ o)
    (hflags : s₁.flags = s.flags) (hdepth : s₁.depth = s.depth) (hsteps : s.steps ≤ s₁.steps)
    (hcall : m.Calls task ⟨s.flags, goal, pos⟩) : m.GivesUp task s o := by
  rw [hflags] at h
  exact (h.call hcall).after hdepth hsteps

/-- Work that ends with no limit passed gives nothing up. -/
theorem GivesUp.of_live (h : o.Leaves fun s' => s'.halted = false) : m.GivesUp task s o :=
  h.imp fun s' hlive hhalted => by simp [hlive] at hhalted

/-- What terms do to a state changes neither its table nor its counters. -/
theorem gaveUp_isLasting (m : Machine) (task : Task) (s : State) :
    State.IsLasting (m.GaveUp task s) := by
  refine .of_told fun s₁ s₂ hmemo hcounters h => ?_
  have hhalted : s₂.halted = s₁.halted := congrArg Counters.halted hcounters
  have hsteps : s₂.steps = s₁.steps := congrArg Counters.steps hcounters
  unfold GaveUp
  rw [hmemo, hhalted, hsteps]
  exact h

/-- No limit is passed but by rules. -/
theorem live_isLasting : State.IsLasting fun s => s.halted = false :=
  .of_told fun _ _ _ hcounters hs => (congrArg Counters.halted hcounters).trans hs

/-- **Once a limit has been passed, nothing is noted** but by the rules around. -/
theorem eval_gaveUp (m : Machine) (fuel : Nat) (i : Task × State) :
    Preserves (m.GaveUp i.1 i.2) (m.eval fuel) := by
  refine eval_preserves (fun i => gaveUp_isLasting m i.1 i.2)
    (fun fuel _ i id rule pos s _ hs => ?_) fuel i
  rw [applyRule_of_halted m _ pos s id rule hs.1]
  exact hs

/-- Work goes on as long as no limit has been passed, and does nothing more to the table when one
has. -/
theorem GivesUp.resume {onMatch : Pos → State → Outcome} {onFail : State → Outcome}
    (h : m.GivesUp task s o)
    (hmatch : ∀ stop s₁, o = .matched stop s₁ → s₁.halted = false →
      m.GivesUp task s (onMatch stop s₁))
    (hfail : ∀ s₁, o = .failed s₁ → s₁.halted = false → m.GivesUp task s (onFail s₁))
    (hmatch' : ∀ stop s₁, m.GaveUp task s s₁ → (onMatch stop s₁).Leaves (m.GaveUp task s))
    (hfail' : ∀ s₁, m.GaveUp task s s₁ → (onFail s₁).Leaves (m.GaveUp task s)) :
    m.GivesUp task s (o.resume onMatch onFail) := by
  cases o with
  | matched stop s₁ =>
    cases hhalted : s₁.halted with
    | false => exact hmatch stop s₁ rfl hhalted
    | true => exact (hmatch' stop s₁ (h hhalted)).imp fun _ h _ => h
  | failed s₁ =>
    cases hhalted : s₁.halted with
    | false => exact hfail s₁ rfl hhalted
    | true => exact (hfail' s₁ (h hhalted)).imp fun _ h _ => h
  | fault f => trivial

/-- An evaluator that gives up a chain of rules when a limit is passed. -/
def GivesUpChains (m : Machine) (eval : Evaluator) : Prop :=
  ∀ t pos s, m.IsLive s → m.GivesUp ⟨s.flags, .term t, pos⟩ s (eval t pos s)

/-! ## Loops -/

section

variable (hfaith : m.IsFaithful eval) (hcounts : ∀ t pos s, m.CountsFrom s (eval t pos s))
include hfaith hcounts

/-- The state behind a match is live if no limit has been passed. -/
theorem IsLive.of_matched {t : Term} {pos mid : Pos} (hs : m.IsLive s)
    (ho : eval t pos s = .matched mid s₁) (hlive : s₁.halted = false) :
    m.IsLive s₁ ∧ s.steps ≤ s₁.steps ∧ ∃ ns, s.Extends s₁ ns ∧
      Parses m s.flags (.term t) pos (some (ns, mid)) := by
  obtain ⟨ns, hext, htrue, hparses⟩ := hfaith.of_matched hs.memo hlive ho
  have hsteps := hcounts t pos s
  rw [ho] at hsteps
  exact ⟨⟨hlive, htrue, hext.depth ▸ hs.depth⟩, hsteps.steps_le, ns, hext, hparses⟩

/-- The state after a failure is live if no limit has been passed. -/
theorem IsLive.of_failed {t : Term} {pos : Pos} (hs : m.IsLive s)
    (ho : eval t pos s = .failed s₁) (hlive : s₁.halted = false) :
    m.IsLive s₁ ∧ s.steps ≤ s₁.steps ∧ s.Extends s₁ [] ∧
      Parses m s.flags (.term t) pos none := by
  obtain ⟨hext, htrue, hparses⟩ := hfaith.of_failed hs.memo hlive ho
  have hsteps := hcounts t pos s
  rw [ho] at hsteps
  exact ⟨⟨hlive, htrue, hext.depth ▸ hs.depth⟩, hsteps.steps_le, hext, hparses⟩

omit hfaith hcounts in
/-- The output has no part in it. -/
theorem IsLive.output (hs : m.IsLive s) (out : Array Match) : m.IsLive { s with out := out } :=
  ⟨hs.live, hs.memo, hs.depth⟩

variable (hrests : ∀ i : Task × State, Preserves (m.GaveUp i.1 i.2) eval)
  (heval : m.GivesUpChains eval)
include hrests heval

theorem seqFrom_givesUp (mark : Nat) (ts : List Term) : ∀ pos s, m.IsLive s →
    m.GivesUp ⟨s.flags, .term (.seq ts), pos⟩ s (seqFrom eval mark ts pos s) := by
  induction ts with
  | nil => exact fun _ _ hs => .of_live hs.live
  | cons t ts ih =>
    intro pos s hs
    have hlasting := gaveUp_isLasting m ⟨s.flags, .term (.seq (t :: ts)), pos⟩ s
    rw [seqFrom_cons]
    refine ((heval t pos s hs).call .seq_head).resume (fun mid s₁ ho hlive => ?_)
      (fun s₁ _ hlive => .of_live hlive)
      (seqFrom_preserves hlasting (hrests (_, s)) mark ts)
      fun s₁ h => hlasting.output h _
    obtain ⟨hs₁, hsteps, ns, hext, hparses⟩ := hs.of_matched hfaith hcounts ho hlive
    exact (ih mid s₁ hs₁).further hext.flags hext.depth hsteps (.seq_tail hparses)

theorem choiceFrom_givesUp (mark : Nat) (pos : Pos) (ts : List Term) : ∀ s, m.IsLive s →
    m.GivesUp ⟨s.flags, .term (.choice ts), pos⟩ s (choiceFrom eval mark pos ts s) := by
  induction ts with
  | nil => exact fun _ hs => .of_live hs.live
  | cons t ts ih =>
    intro s hs
    have hlasting := gaveUp_isLasting m ⟨s.flags, .term (.choice (t :: ts)), pos⟩ s
    rw [choiceFrom_cons]
    refine ((heval t pos s hs).call .choice_head).resume (fun _ _ _ hlive => .of_live hlive)
      (fun s₁ ho hlive => ?_) (fun _ _ h => h)
      fun s₁ h => choiceFrom_preserves hlasting (hrests (_, s)) mark pos ts _ (hlasting.output h _)
    obtain ⟨hs₁, hsteps, hext, hparses⟩ := hs.of_failed hfaith hcounts ho hlive
    exact (ih _ (hs₁.output _)).further hext.flags hext.depth hsteps (.choice_tail hparses)

theorem repeatFrom_givesUp (t : Term) (fuel : Nat) : ∀ pos s, m.IsLive s →
    m.GivesUp ⟨s.flags, .term (.star t), pos⟩ s (repeatFrom eval t fuel pos s) := by
  induction fuel with
  | zero => exact fun _ _ _ => trivial
  | succ fuel ih =>
    intro pos s hs
    have hlasting := gaveUp_isLasting m ⟨s.flags, .term (.star t), pos⟩ s
    rw [repeatFrom_succ]
    refine ((heval t pos s hs).call .star_round).resume (fun mid s₁ ho hlive => ?_)
      (fun _ _ hlive => .of_live hlive) (fun mid s₁ h => ?_) fun s₁ h => hlasting.output h _
    · obtain ⟨hs₁, hsteps, ns, hext, hparses⟩ := hs.of_matched hfaith hcounts ho hlive
      split
      · exact .of_live hlive
      · next hmid =>
        exact (ih mid s₁ hs₁).further hext.flags hext.depth hsteps (.star_more hparses hmid)
    · split
      · exact hlasting.output h _
      · exact repeatFrom_preserves hlasting (hrests (_, s)) t fuel mid s₁ h

/-- The tails of a fold are tried like alternatives, each under a node of its kind. -/
theorem tailFrom_givesUp (mark : Nat) (pos : Pos) (tails : List (Kind × Term)) :
    ∀ s, m.IsLive s →
    m.GivesUp ⟨s.flags, .term (.ofTails tails), pos⟩ s (tailFrom eval mark pos tails s) := by
  induction tails with
  | nil => exact fun _ hs => .of_live hs.live
  | cons tail tails ih =>
    obtain ⟨kind, t⟩ := tail
    intro s hs
    have hlasting := gaveUp_isLasting m ⟨s.flags, .term (.ofTails ((kind, t) :: tails)), pos⟩ s
    rw [tailFrom_cons]
    refine (((heval t pos s hs).call .node).call .choice_head).resume
      (fun _ _ _ hlive => .of_live hlive) (fun s₁ ho hlive => ?_)
      (fun _ _ h => hlasting.output h _)
      fun s₁ h => tailFrom_preserves hlasting (hrests (_, s)) mark pos tails _ (hlasting.output h _)
    obtain ⟨hs₁, hsteps, hext, hparses⟩ := hs.of_failed hfaith hcounts ho hlive
    exact (ih _ (hs₁.output _)).further hext.flags hext.depth hsteps
      (.choice_tail (.node hparses))

theorem foldFrom_givesUp {base : State} (tails : List (Kind × Term)) (max : Option Nat)
    (fuel : Nat) : ∀ folded pos s ns, base.Extends s ns → m.IsLive s →
    m.GivesUp ⟨s.flags, .rounds tails (max.map (· - folded)) ns, pos⟩ s
      (foldFrom eval tails max base.out.size fuel folded pos s) := by
  induction fuel with
  | zero => exact fun _ _ _ _ _ _ => trivial
  | succ fuel ih =>
    intro folded pos s ns hbase hs
    have hlasting :=
      gaveUp_isLasting m ⟨s.flags, .rounds tails (max.map (· - folded)) ns, pos⟩ s
    have htail := tailFrom_givesUp hfaith hcounts hrests heval base.out.size pos tails s hs
    have hanswers := tailFrom_answers hfaith pos tails s hbase
    have hsteps := tailFrom_counts hcounts base.out.size pos tails s
    rw [foldFrom_succ]
    simp only [any_le_iff_left]
    split
    · exact .of_live hs.live
    · next hleft =>
      refine (htail.call (.tails hleft)).resume (fun mid s₁ ho hlive => ?_)
        (fun _ _ hlive => .of_live hlive)
        (foldFrom_preserves hlasting (hrests (_, s)) tails max _ fuel (folded + 1))
        fun _ h => h
      rw [ho] at hanswers hsteps
      obtain ⟨kind, ms, hext, -, hmemo, -⟩ := hanswers
      obtain ⟨htrue, hparses⟩ := hmemo hlive hs.memo
      have hdepth : s₁.depth = s.depth := hext.depth.trans hbase.depth.symm
      have hrest := ih (folded + 1) mid s₁ _ hext ⟨hlive, htrue, hdepth ▸ hs.depth⟩
      rw [show max.map (· - (folded + 1)) = (max.map (· - folded)).map (· - 1) by
        simp [Option.map_map, Function.comp_def, Nat.sub_sub]] at hrest
      rw [← hbase.flags] at hparses
      exact hrest.further (hext.flags.trans hbase.flags.symm) hdepth hsteps.steps_le
        (.more hleft hparses)

/-! ## Rules -/

omit hfaith hcounts hrests in
/-- **A rule in which a limit is passed is given up**, whatever it notes of itself. -/
theorem enterRule_givesUp {r : RuleRef} {id : Nat} {rule : Rule} {pos : Pos} {s : State}
    (hid : m.grammar.resolve? r = some id) (hrule : m.grammar.rules[id]? = some rule)
    (hs : m.IsLive s) (hdeep : m.limits.maxDepth.any (· ≤ s.depth) = false) :
    m.GivesUp ⟨s.flags, .term (.ref r), pos⟩ s
      (enterRule eval rule ⟨id, pos, s.flags⟩ pos (stepped s)) := by
  have hentered : m.IsLive (entering pos (stepped s) rule ⟨id, pos, s.flags⟩) := by
    refine ⟨hs.live, hs.memo.insert trivial, fun d hd => ?_⟩
    rw [hd, Option.any_some, decide_eq_false_iff_not] at hdeep
    exact Nat.lt_of_not_le hdeep
  have hnoted : ∀ {s₁ s₂ : State} {e : MemoEntry}, s₂.counters = s₁.counters →
      s₂.memo = s₁.memo.insert ⟨id, pos, s.flags⟩ e →
      (s₁.halted = true → m.GaveUp ⟨s.flags, .term rule.body, pos⟩
        (entering pos (stepped s) rule ⟨id, pos, s.flags⟩) s₁) →
      s₂.halted = true → m.GaveUp ⟨s.flags, .term (.ref r), pos⟩ s s₂ := by
    intro s₁ s₂ e hcounters hmemo h hhalted
    have hhalted₁ : s₁.halted = true :=
      (congrArg Counters.halted hcounters).symm.trans hhalted
    have hsteps₂ : s₂.steps = s₁.steps := congrArg Counters.steps hcounters
    obtain ⟨-, keys, hchain, hlt, hdepth, htrue⟩ := h hhalted₁
    refine ⟨hhalted, _ :: keys, .inside .refl hid hrule hchain, ?_, fun d hd => ?_,
      fun key e' hget hnot => ?_⟩
    · change s.steps + 1 + keys.length < s₁.steps at hlt
      rw [List.length_cons, hsteps₂]
      omega
    · have hle : s.depth + 1 + keys.length ≤ d := hdepth d hd
      rw [List.length_cons]
      omega
    · obtain ⟨hne, hnot⟩ := not_or.mp (List.mem_cons.not.mp hnot)
      rw [hmemo, Memo.get?_insert, if_neg (Ne.symm hne)] at hget
      exact htrue key e' hget hnot
  rw [enterRule_eq]
  refine Outcome.Leaves.resume (heval rule.body pos _ hentered) (fun stop s₁ h => ?_)
    fun s₁ h => ?_
  · obtain ⟨ns, hmemo⟩ := memo_leavingMatched (stepped s) s₁ rule ⟨id, pos, s.flags⟩ stop
    exact hnoted (counters_leavingMatched ..) hmemo h
  · exact hnoted (counters_leavingFailed ..) (memo_leavingFailed ..) h

omit hfaith hcounts hrests in
/-- A limit is passed where a rule is applied, or inside it. -/
theorem applyRule_givesUp {r : RuleRef} {id : Nat} {rule : Rule} {pos : Pos} {s : State}
    (hid : m.grammar.resolve? r = some id) (hrule : m.grammar.rules[id]? = some rule)
    (hs : m.IsLive s) :
    m.GivesUp ⟨s.flags, .term (.ref r), pos⟩ s (m.applyRule eval id rule pos s) := by
  have hpassed : ∀ {s'}, s'.halted = true → s'.steps = s.steps + 1 → s'.memo = s.memo →
      m.GaveUp ⟨s.flags, .term (.ref r), pos⟩ s s' := by
    intro s' hhalted hsteps hmemo
    refine ⟨hhalted, [], .here .refl hid hrule, ?_, hs.depth, fun key e hget _ => ?_⟩
    · rw [hsteps]
      exact Nat.lt_succ_self _
    · exact hs.memo key e (hmemo ▸ hget)
  rw [applyRule_eq _ _ _ _ _ _ hs.live]
  split
  · exact fun hhalted => hpassed hhalted rfl rfl
  · split
    · exact fun hhalted => hpassed hhalted rfl rfl
    · next hdeep =>
      unfold consult
      split
      · trivial
      · exact .of_live hs.live
      · exact .of_live hs.live
      · exact enterRule_givesUp heval hid hrule hs (eq_false_of_ne_true hdeep)

/-! ## Terms -/

/-- One step of evaluation gives up a chain of rules when the evaluation of the terms inside
does. -/
theorem step_givesUpChains (fuel : Nat) : m.GivesUpChains (m.step fuel eval) := by
  intro t pos s hs
  have hlasting := fun task => gaveUp_isLasting m task s
  cases t with
  | token _ | split _ | word _ | any | ended =>
    exact .of_live (terminal_preserves live_isLasting fuel rfl pos hs.live)
  | seq items => exact seqFrom_givesUp hfaith hcounts hrests heval _ items pos s hs
  | choice items => exact choiceFrom_givesUp hfaith hcounts hrests heval _ pos items s hs
  | opt body =>
    rw [step_opt]
    exact ((heval body pos s hs).call .opt).resume (fun _ _ _ h => .of_live h)
      (fun _ _ h => .of_live h) (fun _ _ h => h) fun _ h => (hlasting _).output h _
  | star body => exact repeatFrom_givesUp hfaith hcounts hrests heval body fuel pos s hs
  | plus body =>
    rw [step_plus]
    refine ((heval body pos s hs).call .plus_round).resume (fun mid s₁ ho hlive => ?_)
      (fun _ _ h => .of_live h) (repeatFrom_preserves (hlasting _) (hrests (_, s)) body fuel)
      fun _ h => h
    obtain ⟨hs₁, hsteps, ns, hext, hparses⟩ := hs.of_matched hfaith hcounts ho hlive
    exact (repeatFrom_givesUp hfaith hcounts hrests heval body fuel mid s₁ hs₁).further
      hext.flags hext.depth hsteps (.plus_more hparses)
  | ahead body =>
    rw [step_ahead]
    exact ((heval body pos s hs).call .ahead).resume (fun _ _ _ h => .of_live h)
      (fun _ _ h => .of_live h) (fun _ _ h => (hlasting _).output h _)
      fun _ h => (hlasting _).output h _
  | notAhead body =>
    rw [step_notAhead]
    have hbody := heval body pos (muted s) ⟨hs.live, hs.memo, hs.depth⟩
    exact ((hbody.after (s := s) rfl (Nat.le_refl _)).call .notAhead).resume
      (fun _ _ _ h => .of_live h) (fun _ _ h => .of_live h) (fun _ _ h => h) fun _ h => h
  | ref r =>
    cases hid : m.grammar.resolve? r with
    | none =>
      simp only [step, hid]
      exact .of_live hs.live
    | some id =>
      cases hrule : m.grammar.rules[id]? with
      | none =>
        simp only [step, hid, hrule]
        trivial
      | some rule =>
        rw [step_ref m eval fuel pos s hid hrule]
        exact applyRule_givesUp heval hid hrule hs
  | node kind body =>
    rw [step_node]
    exact ((heval body pos s hs).call .node).resume (fun _ _ _ h => .of_live h)
      (fun _ _ h => .of_live h) (fun _ _ h => (hlasting _).output h _) fun _ h => h
  | «scoped» set clear body =>
    rw [step_scoped]
    have hbody := heval body pos (flagged s ((s.flags.union set).diff clear))
      ⟨hs.live, hs.memo, hs.depth⟩
    exact ((hbody.after (s := s) rfl (Nat.le_refl _)).call .scope).resume
      (fun _ _ _ h => .of_live h) (fun _ _ h => .of_live h) (fun _ _ h => h) fun _ h => h
  | gate flags whenSet body =>
    rw [step_gate]
    split
    · next hopen => exact (heval body pos s hs).call (.gate hopen)
    · exact .of_live hs.live
  | fold operand tails max =>
    rw [step_fold]
    refine ((heval operand pos s hs).call .operand).resume (fun mid s₁ ho hlive => ?_)
      (fun _ _ h => .of_live h)
      (foldFrom_preserves (hlasting _) (hrests (_, s)) tails max _ _ 0) fun _ h => h
    obtain ⟨hs₁, hsteps, ns, hext, hparses⟩ := hs.of_matched hfaith hcounts ho hlive
    have hrest := foldFrom_givesUp hfaith hcounts hrests heval tails max (foldRounds fuel max) 0 mid
      s₁ ns hext hs₁
    refine GivesUp.further ?_ hext.flags hext.depth hsteps (.rounds hparses)
    simpa using hrest

end

/-- **What an evaluation gives up is a chain of rules**, whatever fuel it is given. -/
theorem eval_givesUpChains (m : Machine) (fuel : Nat) : m.GivesUpChains (m.eval fuel) := by
  induction fuel with
  | zero => exact fun _ _ _ _ => trivial
  | succ fuel ih =>
    exact step_givesUpChains (m.eval_isFaithful fuel) (eval_counts m fuel) (eval_gaveUp m fuel) ih
      fuel

/-! ## Runs -/

/-- What a run leaves is what its root has left. -/
theorem closeRun_leaves {r : Run} (h : m.closeRun o = .ok r) :
    ∃ s, o.state? = some s ∧ r.state.memo = s.memo ∧ r.state.steps = s.steps ∧
      (r.answer?.isSome = !s.halted) := by
  cases o with
  | matched stop s =>
    cases h
    refine ⟨s, rfl, by rw [state_ended], by rw [state_ended], ?_⟩
    rw [ended_answer?]
    cases hhalted : s.halted <;> rfl
  | failed s =>
    cases h
    refine ⟨s, rfl, by rw [state_ended], by rw [state_ended], ?_⟩
    rw [ended_answer?]
    change (if s.halted then none else some none).isSome = _
    cases hhalted : s.halted <;> rfl
  | fault f => cases h

/-- A true table stays true as long as no limit has been passed. -/
theorem memoTrue_of_state? {fuel : Nat} {t : Term} {pos : Pos} (htrue : m.MemoTrue s.memo)
    (hends : (m.eval fuel t pos s).state? = some s₁) (hlive : s₁.halted = false) :
    m.MemoTrue s₁.memo := by
  cases ho : m.eval fuel t pos s with
  | matched stop s' =>
    rw [ho] at hends
    cases hends
    obtain ⟨-, -, htrue', -⟩ := (m.eval_isFaithful fuel).of_matched htrue hlive ho
    exact htrue'
  | failed s' =>
    rw [ho] at hends
    cases hends
    exact ((m.eval_isFaithful fuel).of_failed htrue hlive ho).2.1
  | fault f =>
    rw [ho] at hends
    cases hends

/-- Limits have no part in what a table says. -/
theorem MemoTrue.under {memo : Memo} (h : m.MemoTrue memo) {limits : Limits} :
    (m.under limits).MemoTrue memo := by
  intro key e hget
  have he := h key e hget
  cases e with
  | inProgress => trivial
  | failed => exact ruleParses_under.mpr he
  | matched stop ns => exact ruleParses_under.mpr he

/-- **What a run leaves in an empty table.**  No rule counts as being evaluated.  If the run has
answered, the table says only what is so, and all runs that begin with it answer what is so.  If it
has passed a limit, then there is a chain of rules, fewer than the steps it has taken and no more
than may be inside one another, apart from which the table says only what is so. -/
theorem run_leaves {fuel : Nat} {root : Term} {r : Run}
    (hrun : m.runWith fuel root {} = .ok r) :
    (∀ key, r.state.memo.get? key ≠ some .inProgress) ∧
    (r.answer?.isSome → m.MemoTrue r.state.memo ∧
      ∀ limits fuel' root' r' a,
        (m.under limits).runWith fuel' root' { memo := r.state.memo } = .ok r' →
        r'.answer? = some a → Parses m {} (.term root') {} a) ∧
    (r.answer? = none → ∃ chain, m.Chain ⟨{}, .term root, {}⟩ chain ∧
      chain.length < r.state.steps ∧ (∀ d, m.limits.maxDepth = some d → chain.length ≤ d) ∧
      ∀ key e, r.state.memo.get? key = some e → key ∉ chain → m.EntryTrue key e) := by
  rw [runWith_eq] at hrun
  obtain ⟨s, hs, hmemo, hsteps, hanswer⟩ := closeRun_leaves hrun
  have hlive : m.IsLive {} := ⟨rfl, m.memoTrue_empty, fun _ _ => Nat.zero_le _⟩
  rw [hmemo, hsteps, ← Option.isNone_iff_eq_none, ← Option.not_isSome, hanswer]
  refine ⟨fun key hget => ?_, fun hdone => ?_, fun hhalted => ?_⟩
  · have hclosed := (eval_leavesClosed m fuel ∅ root {} {} fun key hget => by
      simp at hget).of_state? hs
    exact hclosed key hget
  · have htrue := memoTrue_of_state? hlive.memo hs (by simpa using hdone)
    refine ⟨htrue, fun limits fuel' root' r' a hrun' ha => ?_⟩
    exact parses_under.mp ((runWith_answers (s := { memo := s.memo }) htrue.under hrun').1 a ha)
  · obtain ⟨-, keys, hchain, hlt, hdepth, htrue⟩ :=
      (eval_givesUpChains m fuel root {} {} hlive).of_state? hs (by simpa using hhalted)
    simp only [Nat.zero_add] at hlt hdepth
    exact ⟨keys, hchain, hlt, hdepth, htrue⟩

/-- A rule that applies a rule that reads a name, and a name to read; one step is allowed. -/
def tripMachine : Machine where
  grammar := ⟨#[⟨"a", none, none, none, .ref (.linked 1)⟩, ⟨"b", none, none, none, .token .ident⟩]⟩
  tokens := #[⟨.ident, "x"⟩, ⟨.eof, ""⟩]
  limits := { maxSteps := some 1 }

/-- What a chain says of itself need not be so: the only rule of this one matches the name, and the
table says that it fails.  A run without limits that begins with this table fails as well. -/
theorem run_leaves_trip : ∃ r, tripMachine.runWith 6 (.ref (.linked 0)) {} = .ok r ∧
    (∀ key, r.state.memo.get? key ≠ some .inProgress) ∧
    (∃ chain, tripMachine.Chain ⟨{}, .term (.ref (.linked 0)), {}⟩ chain ∧ chain.length < 2 ∧
      ∀ key e, r.state.memo.get? key = some e → key ∉ chain → tripMachine.EntryTrue key e) ∧
    r.state.memo.get? ⟨0, {}, {}⟩ = some .failed ∧
    tripMachine.RuleParses {} 0 {} (some ([.token 0 .ident none], ⟨1, 0⟩)) ∧
    ((tripMachine.under {}).runWith 6 (.ref (.linked 0))
      { memo := r.state.memo }).toOption.bind (·.answer?) = some none := by
  have hsome : (tripMachine.runWith 6 (.ref (.linked 0)) {}).toOption.map (fun r =>
      (r.answer?, r.state.steps, r.state.memo.get? ⟨0, {}, {}⟩,
        ((tripMachine.under {}).runWith 6 (.ref (.linked 0))
          { memo := r.state.memo }).toOption.bind (·.answer?))) =
      some (none, 2, some .failed, some none) := by cbv
  obtain ⟨r, hrun, heq⟩ := exists_run_of_toOption hsome
  simp only [Prod.mk.injEq] at heq
  obtain ⟨hanswer, hsteps, hget, hagain⟩ := heq
  obtain ⟨hclosed, -, hchain⟩ := run_leaves hrun
  obtain ⟨chain, hchain, hlt, -, htrue⟩ := hchain hanswer
  exact ⟨r, hrun, hclosed, ⟨chain, hchain, hsteps ▸ hlt, htrue⟩, hget,
    ⟨_, _, rfl, .ref_rule rfl rfl (.terminal rfl), rfl⟩, hagain⟩

/-! ## A table that does not say what is so -/

/-- Rounds of a tail that always matches nothing have no end, and so no answer. -/
theorem not_parses_idle {f : Flags} {ns : List Match} {pos : Pos} {a : Answer} :
    ¬ Parses idleMachine f (.rounds [(.binExpr, .ref (.linked 1))] none ns) pos a := by
  intro h
  have htail : ∀ pos, Parses idleMachine f (.term (.ofTails [(.binExpr, .ref (.linked 1))])) pos
      (some ([.node .binExpr []], pos)) := by
    intro pos
    have hrule : Parses idleMachine f (.term (.ref (.linked 1))) pos (some ([], pos)) :=
      @Parses.ref_rule _ f (.linked 1) 1 ⟨"e", none, none, none, .empty⟩ pos (some ([], pos)) rfl
        rfl .seq_nil
    have hnode : Parses idleMachine f (.term (.node .binExpr (.ref (.linked 1)))) pos
        (some ([.node .binExpr []], pos)) := .node hrule
    exact .choice_here hnode
  generalize hgoal : Goal.rounds [(.binExpr, .ref (.linked 1))] none ns = goal at h
  induction h generalizing ns with
  | rounds_end _ hnone =>
    cases hgoal
    cases hnone.unique (htail _)
  | rounds_more _ _ _ _ ih =>
    cases hgoal
    exact ih htail rfl
  | rounds_spent => cases hgoal
  | _ => cases hgoal

/-- **A run that has passed a limit may leave what is not so.**  The grammar of these two rules is
accepted, and the first has no answer at a name.  After a run that may take one step, the table says
that it has matched there. -/
theorem budget_leaves_untrue : Grammar.ofRules idleTails = .ok idleMachine.grammar ∧
    (∃ r, (idleMachine.within (some 1) none).runWith 12 (.rule "a") {} = .ok r ∧
      r.result = .error (.budget 2) ∧
      r.state.memo.get? ⟨0, {}, {}⟩ = some (.matched ⟨1, 0⟩ [.token 0 .ident none])) ∧
    ∀ a, ¬ idleMachine.RuleParses {} 0 {} a := by
  refine ⟨by cbv, ?_, ?_⟩
  · have hsome : ((idleMachine.within (some 1) none).runWith 12 (.rule "a") {}).toOption.map
        (fun r => (r.result, r.state.memo.get? ⟨0, {}, {}⟩)) =
        some (.error (.budget 2), some (.matched ⟨1, 0⟩ [.token 0 .ident none])) := by cbv
    obtain ⟨r, hrun, heq⟩ := exists_run_of_toOption hsome
    obtain ⟨hresult, hget⟩ := Prod.mk.inj heq
    exact ⟨r, hrun, hresult, hget⟩
  · rintro a ⟨rule, b, hrule, hparses, -⟩
    cases hrule
    cases hparses with
    | terminal ht => cases ht
    | fold_fail hname => cases hname.unique (.terminal rfl)
    | fold_rounds _ hrounds => exact not_parses_idle hrounds

end Machine
end Peg
end Packrat
