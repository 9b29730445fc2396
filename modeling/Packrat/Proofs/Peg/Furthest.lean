/-
# The furthest failure

A run keeps a record of what was asked for in vain at the furthest place.  When nothing is
held back, the record says what the plain meaning says (`Machine.Grows`): all that is asked
for on the way to an answer is on record or overtaken, and what is on record was asked for.
The memo table makes no difference to this: a rule is answered from it only after its body
has been evaluated, and what the body asks for has been noted then (`Machine.IsTuned`).

Two things hold back what is asked for, and are ruled out (`Machine.IsOpen`): nothing is noted
inside a negative lookahead, and a rule that fails puts its label in the place of what its
body asked for.
-/

import Packrat.Proofs.Peg.Faithful
import Packrat.Proofs.Peg.Place
import Packrat.Proofs.Peg.Resume
import Packrat.Proofs.Peg.Visits

namespace Packrat
namespace Peg

/-! ## Records -/

/-- What was asked for at a place is on record, or there is a record of a later place. -/
def Failure.Covers (F : Failure) (q : Pos) (what : Expected) : Prop :=
  q < F.pos ∨ q = F.pos ∧ what ∈ F.expected

namespace Machine

/-- From one record to a later one: what some tasks ask for has been noted, and nothing else. -/
structure Grows (m : Machine) (F F' : Failure) (tasks : List Task) : Prop where
  kept : ∀ q what, F.Covers q what → F'.Covers q what
  noted : ∀ task ∈ tasks, ∀ q what, m.Asks task q what → F'.Covers q what
  only : ∀ what ∈ F'.expected,
    (∃ task ∈ tasks, m.Asks task F'.pos what) ∨ F'.pos = F.pos ∧ what ∈ F.expected
  full : F'.pos = F.pos ∨ F'.expected ≠ []

variable {m : Machine} {F F' F'' : Failure} {tasks tasks' : List Task} {task : Task}

/-- Nothing is noted where nothing is asked for. -/
theorem Grows.refl (h : ∀ task ∈ tasks, ∀ q what, ¬ m.Asks task q what) : m.Grows F F tasks :=
  ⟨fun _ _ h => h, fun task ht q what ha => absurd ha (h task ht q what),
    fun _ hw => .inr ⟨rfl, hw⟩, .inl rfl⟩

theorem Grows.trans (h : m.Grows F F' tasks) (h' : m.Grows F' F'' tasks') :
    m.Grows F F'' (tasks ++ tasks') where
  kept q what hw := h'.kept q what (h.kept q what hw)
  noted task ht q what ha := by
    rcases List.mem_append.mp ht with ht | ht
    · exact h'.kept q what (h.noted task ht q what ha)
    · exact h'.noted task ht q what ha
  only what hw := by
    rcases h'.only what hw with ⟨task, ht, ha⟩ | ⟨heq', hw⟩
    · exact .inl ⟨task, List.mem_append_right _ ht, ha⟩
    · rcases h.only what hw with ⟨task, ht, ha⟩ | ⟨heq, hw⟩
      · exact .inl ⟨task, List.mem_append_left _ ht, heq' ▸ ha⟩
      · exact .inr ⟨heq'.trans heq, hw⟩
  full := by
    rcases h'.full with heq' | hne
    · rcases h.full with heq | hne
      · exact .inl (heq'.trans heq)
      · -- what was on record at this place still is
        obtain ⟨what, hw⟩ := List.exists_mem_of_ne_nil _ hne
        rcases h'.kept F'.pos what (.inr ⟨rfl, hw⟩) with hlt | ⟨-, hw⟩
        · rw [heq'] at hlt
          exact absurd hlt (Pos.lt_irrefl _)
        · exact .inr (List.ne_nil_of_mem hw)
    · exact .inr hne

/-- A task asks for what its calls ask for. -/
theorem Grows.call (h : m.Grows F F' tasks) (htask : ∀ t, task.goal = .term t → t.asks? = none)
    (hcalls : ∀ task', m.Calls task task' ↔ task' ∈ tasks) : m.Grows F F' [task] where
  kept := h.kept
  noted task' ht q what ha := by
    obtain rfl := List.mem_singleton.mp ht
    obtain ⟨task'', hcall, ha⟩ := ha.exists_call htask
    exact h.noted task'' ((hcalls task'').mp hcall) q what ha
  only what hw := by
    rcases h.only what hw with ⟨task', ht, ha⟩ | hsame
    · exact .inl ⟨task, List.mem_singleton_self _, ha.call ((hcalls task').mpr ht)⟩
    · exact .inr hsame
  full := h.full

/-- A terminal asks for one thing, where it does not match. -/
theorem asks_terminal {f : Flags} {t : Term} {pos q : Pos} {what : Expected}
    (ht : t.isTerminal = true) : m.Asks ⟨f, .term t, pos⟩ q what ↔
      q = pos ∧ t.asks? = some what ∧ m.read? pos t = none := by
  constructor
  · rintro ⟨f', u, hvisit, hask, hnone⟩
    rcases Relation.ReflTransGen.cases_head hvisit with heq | ⟨task', hcall, -⟩
    · cases heq
      exact ⟨rfl, hask, hnone⟩
    · exact absurd hcall (not_calls_terminal ht)
  · rintro ⟨rfl, hask, hnone⟩
    exact ⟨f, t, .refl, hask, hnone⟩

end Machine

namespace State

variable {s : State} {pos : Pos} {what : Expected}

/-- Asking in vain, when no negative lookahead is around. -/
theorem failure_expect (hs : s.suppress = 0) : (s.expect pos what).failure =
    if s.failure.pos < pos then ⟨pos, [what], s.contextAt pos⟩
    else if s.failure.pos = pos then
      ⟨pos, if s.failure.expected.contains what then s.failure.expected
        else s.failure.expected ++ [what],
        if s.failure.expected.isEmpty then s.contextAt pos else s.failure.context⟩
    else s.failure := by
  unfold expect
  rw [if_neg (by omega)]
  split
  · rfl
  · split <;> rfl

theorem mem_note {what' : Expected} {ws : List Expected} :
    what' ∈ (if ws.contains what then ws else ws ++ [what]) ↔ what' = what ∨ what' ∈ ws := by
  split
  · next h =>
    have hmem : what ∈ ws := by simpa using h
    constructor
    · exact .inr
    · rintro (rfl | h)
      · exact hmem
      · exact h
  · simp [or_comm]

/-- The record after asking in vain. -/
theorem grows_expect {m : Machine} {f : Flags} {t : Term} (hs : s.suppress = 0)
    (ht : t.isTerminal = true) (hask : t.asks? = some what) (hnone : m.read? pos t = none) :
    m.Grows s.failure (s.expect pos what).failure [⟨f, .term t, pos⟩] := by
  have hasks : m.Asks ⟨f, .term t, pos⟩ pos what :=
    (Machine.asks_terminal ht).mpr ⟨rfl, hask, hnone⟩
  have hcover : ∀ {F : Failure}, F.Covers pos what →
      ∀ task ∈ [(⟨f, .term t, pos⟩ : Task)], ∀ q what', m.Asks task q what' → F.Covers q what' := by
    intro F hF task htask q what' ha
    obtain rfl := List.mem_singleton.mp htask
    obtain ⟨rfl, hask', -⟩ := (Machine.asks_terminal ht).mp ha
    rw [hask] at hask'
    cases hask'
    exact hF
  rw [failure_expect hs]
  split
  · next hlt =>
    refine ⟨fun q what' h => ?_, hcover (.inr ⟨rfl, List.mem_singleton_self _⟩), fun what' hw => ?_,
      .inr (List.cons_ne_nil _ _)⟩
    · rcases h with h | ⟨rfl, -⟩
      · exact .inl (Pos.lt_trans h hlt)
      · exact .inl hlt
    · obtain rfl := List.mem_singleton.mp hw
      exact .inl ⟨_, List.mem_singleton_self _, hasks⟩
  · next hnlt =>
    split
    · next heq =>
      subst heq
      refine ⟨fun q what' h => ?_, hcover (.inr ⟨rfl, mem_note.mpr (.inl rfl)⟩), fun what' hw => ?_,
        .inl rfl⟩
      · exact h.imp_right fun ⟨hq, hw⟩ => ⟨hq, mem_note.mpr (.inr hw)⟩
      · rcases mem_note.mp hw with rfl | hw
        · exact .inl ⟨_, List.mem_singleton_self _, hasks⟩
        · exact .inr ⟨rfl, hw⟩
    · next hne =>
      -- the record is of a later place
      have hlt : pos < s.failure.pos := Pos.lt_of_not_lt hnlt hne
      exact ⟨fun _ _ h => h, hcover (.inl hlt), fun _ hw => .inr ⟨rfl, hw⟩, .inl rfl⟩

end State

namespace Machine

variable (m : Machine) (K : Context → Prop)

/-- A term of a task holds nothing back: it is no negative lookahead, and no rule that puts a
label over what its body asks for.  The contexts that are entered are of some sort. -/
def IsOpen (task : Task) : Prop :=
  match task.goal with
  | .term (.notAhead _) => False
  | .term (.ref r) => ∀ id rule, m.grammar.resolve? r = some id → m.grammar.rules[id]? = some rule →
    (rule.label.isSome = true → ¬ Parses m task.flags (.term rule.body) task.pos none) ∧
      ∀ c ∈ rule.context, K c
  | _ => True

/-- No term that a task comes to holds anything back. -/
def IsOpenFrom (task : Task) : Prop := ∀ task', m.Visits task task' → m.IsOpen K task'

/-- A state in which nothing is held back, and in which all is on record that is asked for by
the rules that the table answers. -/
structure IsTuned (s : State) : Prop where
  live : s.halted = false
  loud : s.suppress = 0
  memo : m.MemoTrue s.memo
  noted : ∀ key e, s.memo.get? key = some e → e ≠ .inProgress →
    ∀ rule, m.grammar.rules[key.rule]? = some rule →
      ∀ q what, m.Asks ⟨key.flags, .term rule.body, key.pos⟩ q what → s.failure.Covers q what
  contexts : ∀ c ∈ s.contexts, K c.1
  context : K s.failure.context

variable {m K} {task task' : Task} {s s' : State}

/-- It does not matter what has been matched, which flags are in force and what was counted. -/
theorem IsTuned.of_same (h : m.IsTuned K s) (hhalted : s'.halted = s.halted)
    (hsuppress : s'.suppress = s.suppress) (hmemo : s'.memo = s.memo)
    (hfailure : s'.failure = s.failure) (hcontexts : s'.contexts = s.contexts) :
    m.IsTuned K s' where
  live := hhalted.trans h.live
  loud := hsuppress.trans h.loud
  memo := hmemo ▸ h.memo
  noted := by
    rw [hmemo, hfailure]
    exact h.noted
  contexts := hcontexts ▸ h.contexts
  context := hfailure ▸ h.context

/-- Noting in the table what came of a rule, all of whose requests are on record. -/
theorem IsTuned.insert (h : m.IsTuned K s) {key : MemoKey} {e : MemoEntry}
    (htrue : m.MemoTrue (s.memo.insert key e))
    (hnoted : e ≠ .inProgress → ∀ rule, m.grammar.rules[key.rule]? = some rule →
      ∀ q what, m.Asks ⟨key.flags, .term rule.body, key.pos⟩ q what → s.failure.Covers q what) :
    m.IsTuned K { s with memo := s.memo.insert key e } where
  live := h.live
  loud := h.loud
  memo := htrue
  noted key' e' hget hne := by
    rw [Memo.get?_insert] at hget
    split at hget
    · next heq =>
      subst heq
      cases hget
      exact hnoted hne
    · exact h.noted key' e' hget hne
  contexts := h.contexts
  context := h.context

theorem IsTuned.withContexts (h : m.IsTuned K s) {contexts : List (Context × Pos)}
    (hcontexts : ∀ c ∈ contexts, K c.1) (depth : Nat) :
    m.IsTuned K { s with contexts := contexts, depth := depth } :=
  ⟨h.live, h.loud, h.memo, h.noted, hcontexts, h.context⟩

/-- The context of a record is one that has been entered, or the top level. -/
theorem IsTuned.expect (h : m.IsTuned K s) (htop : K .topLevel) {f : Flags} {t : Term} {pos : Pos}
    {what : Expected} (ht : t.isTerminal = true) (hask : t.asks? = some what)
    (hnone : m.read? pos t = none) : m.IsTuned K (s.expect pos what) := by
  have hgrows := s.grows_expect (m := m) (f := f) h.loud ht hask hnone
  have hat : K (s.contextAt pos) := by
    unfold State.contextAt
    cases hfind : s.contexts.find? fun c => c.2 < pos with
    | none => exact htop
    | some c => exact h.contexts c (List.mem_of_find?_eq_some hfind)
  have hcontext : K (s.expect pos what).failure.context := by
    rw [State.failure_expect h.loud]
    split
    · exact hat
    · split
      · simp only
        split
        · exact hat
        · exact h.context
      · exact h.context
  obtain ⟨failure, heq⟩ := s.notes_expect pos what
  rw [heq] at hgrows hcontext ⊢
  exact ⟨h.live, h.loud, h.memo, fun key e hget hne rule hrule q what' ha =>
    hgrows.kept q what' (h.noted key e hget hne rule hrule q what' ha), h.contexts, hcontext⟩

theorem IsTuned.truncate (h : m.IsTuned K s) (mark : Nat) : m.IsTuned K (s.truncate mark) :=
  h.of_same rfl rfl rfl rfl rfl

theorem IsTuned.wrap (h : m.IsTuned K s) (mark : Nat) (kind : Kind) :
    m.IsTuned K (s.wrap mark kind) :=
  h.of_same rfl rfl rfl rfl rfl

theorem IsTuned.withFlags (h : m.IsTuned K s) (f : Flags) : m.IsTuned K { s with flags := f } :=
  h.of_same rfl rfl rfl rfl rfl

theorem IsOpenFrom.call (h : m.IsOpenFrom K task) (hcall : m.Calls task task') :
    m.IsOpenFrom K task' := fun task'' hvisit => h task'' (.head hcall hvisit)

end Machine

/-- An outcome that leaves a tuned state, and the record `F` with what some tasks ask for. -/
def Outcome.Records (m : Machine) (K : Context → Prop) (F : Failure) (tasks : List Task) :
    Outcome → Prop
  | .matched _ s' | .failed s' => m.IsTuned K s' ∧ m.Grows F s'.failure tasks
  | .fault _ => True

namespace Outcome

variable {m : Machine} {K : Context → Prop} {F F' : Failure} {task : Task}
  {tasks tasks' : List Task} {o : Outcome}

/-- The tasks that have been answered are the calls of a task. -/
theorem Records.call (h : o.Records m K F tasks)
    (htask : ∀ t, task.goal = .term t → t.asks? = none)
    (hcalls : ∀ task', m.Calls task task' ↔ task' ∈ tasks) : o.Records m K F [task] := by
  cases o with
  | matched stop s' => exact ⟨h.1, h.2.call htask hcalls⟩
  | failed s' => exact ⟨h.1, h.2.call htask hcalls⟩
  | fault f => trivial

/-- Other tasks have been answered before. -/
theorem Records.after (h : o.Records m K F' tasks') (hgrows : m.Grows F F' tasks) :
    o.Records m K F (tasks ++ tasks') := by
  cases o with
  | matched stop s' => exact ⟨h.1, hgrows.trans h.2⟩
  | failed s' => exact ⟨h.1, hgrows.trans h.2⟩
  | fault f => trivial

end Outcome

namespace Machine

variable {m : Machine} {K : Context → Prop} {eval : Evaluator}

/-- An evaluator that records what the tasks ask for that it answers. -/
def IsRecording (m : Machine) (K : Context → Prop) (eval : Evaluator) : Prop :=
  ∀ t pos s, m.IsTuned K s → m.IsOpenFrom K ⟨s.flags, .term t, pos⟩ →
    (eval t pos s).Records m K s.failure [⟨s.flags, .term t, pos⟩]

/-! ## Loops -/

section

variable (hfaith : m.IsFaithful eval) (heval : m.IsRecording K eval)
include hfaith

theorem parses_of_matched {t : Term} {pos mid : Pos} {s s' : State} (hs : m.IsTuned K s)
    (hs' : m.IsTuned K s') (ho : eval t pos s = .matched mid s') :
    ∃ ns, s.Extends s' ns ∧ Parses m s.flags (.term t) pos (some (ns, mid)) := by
  obtain ⟨ns, hext, -, hparses⟩ := hfaith.of_matched hs.memo hs'.live ho
  exact ⟨ns, hext, hparses⟩

theorem parses_of_failed {t : Term} {pos : Pos} {s s' : State} (hs : m.IsTuned K s)
    (hs' : m.IsTuned K s') (ho : eval t pos s = .failed s') :
    s'.flags = s.flags ∧ Parses m s.flags (.term t) pos none := by
  obtain ⟨hext, -, hparses⟩ := hfaith.of_failed hs.memo hs'.live ho
  exact ⟨hext.flags, hparses⟩

include heval

theorem seqFrom_records (mark : Nat) (ts : List Term) : ∀ pos s, m.IsTuned K s →
    m.IsOpenFrom K ⟨s.flags, .term (.seq ts), pos⟩ →
    (seqFrom eval mark ts pos s).Records m K s.failure [⟨s.flags, .term (.seq ts), pos⟩] := by
  induction ts with
  | nil =>
    intro pos s hs _
    have hrecords : (seqFrom eval mark [] pos s).Records m K s.failure [] := ⟨hs, .refl (by simp)⟩
    exact hrecords.call (by rintro t ⟨⟩; rfl) fun _ => calls_seq_nil
  | cons t ts ih =>
    intro pos s hs hopen
    have ht := heval t pos s hs (hopen.call .seq_head)
    simp only [seqFrom]
    cases ho : eval t pos s with
    | matched mid s₁ =>
      rw [ho] at ht
      obtain ⟨ns, hext, hparses⟩ := parses_of_matched hfaith hs ht.1 ho
      have hrest := ih mid s₁ ht.1 (by rw [hext.flags]; exact hopen.call (.seq_tail hparses))
      rw [hext.flags] at hrest
      exact (hrest.after ht.2).call (by rintro t ⟨⟩; rfl) fun _ => calls_seq_of_some hparses
    | failed s₁ =>
      rw [ho] at ht
      obtain ⟨-, hparses⟩ := parses_of_failed hfaith hs ht.1 ho
      have hrecords : (Outcome.failed (s₁.truncate mark)).Records m K s.failure
          [⟨s.flags, .term t, pos⟩] := ⟨ht.1.truncate mark, ht.2⟩
      exact hrecords.call (by rintro t ⟨⟩; rfl) fun _ => calls_seq_of_none hparses
    | fault f => trivial

theorem choiceFrom_records (mark : Nat) (pos : Pos) (ts : List Term) : ∀ s, m.IsTuned K s →
    m.IsOpenFrom K ⟨s.flags, .term (.choice ts), pos⟩ →
    (choiceFrom eval mark pos ts s).Records m K s.failure [⟨s.flags, .term (.choice ts), pos⟩] := by
  induction ts with
  | nil =>
    intro s hs _
    have hrecords : (choiceFrom eval mark pos [] s).Records m K s.failure [] :=
      ⟨hs, .refl (by simp)⟩
    exact hrecords.call (by rintro t ⟨⟩; rfl) fun _ => calls_choice_nil
  | cons t ts ih =>
    intro s hs hopen
    have ht := heval t pos s hs (hopen.call .choice_head)
    simp only [choiceFrom]
    cases ho : eval t pos s with
    | matched mid s₁ =>
      rw [ho] at ht
      obtain ⟨ns, hext, hparses⟩ := parses_of_matched hfaith hs ht.1 ho
      exact ht.call (by rintro t ⟨⟩; rfl) fun _ => calls_choice_of_some hparses
    | failed s₁ =>
      rw [ho] at ht
      obtain ⟨hflags, hparses⟩ := parses_of_failed hfaith hs ht.1 ho
      have hback : (s₁.truncate mark).flags = s.flags := hflags
      have hrest := ih _ (ht.1.truncate mark) (by
        rw [hback]
        exact hopen.call (.choice_tail hparses))
      rw [hback] at hrest
      exact (hrest.after ht.2).call (by rintro t ⟨⟩; rfl) fun _ => calls_choice_of_none hparses
    | fault f => trivial

theorem repeatFrom_records (t : Term) (fuel : Nat) : ∀ pos s, m.IsTuned K s →
    m.IsOpenFrom K ⟨s.flags, .term (.star t), pos⟩ →
    (repeatFrom eval t fuel pos s).Records m K s.failure [⟨s.flags, .term (.star t), pos⟩] := by
  induction fuel with
  | zero => exact fun _ _ _ _ => trivial
  | succ fuel ih =>
    intro pos s hs hopen
    have ht := heval t pos s hs (hopen.call .star_round)
    simp only [repeatFrom]
    cases ho : eval t pos s with
    | matched mid s₁ =>
      rw [ho] at ht
      obtain ⟨ns, hext, hparses⟩ := parses_of_matched hfaith hs ht.1 ho
      by_cases hmid : mid = pos
      · subst hmid
        simp only [if_true]
        have hrecords : (Outcome.matched mid (s₁.truncate s.out.size)).Records m K s.failure
            [⟨s.flags, .term t, mid⟩] := ⟨ht.1.truncate _, ht.2⟩
        refine hrecords.call (by rintro t ⟨⟩; rfl) fun _ => calls_star_of_end ?_
        intro ns' mid' hparses'
        cases hparses.unique hparses'
        rfl
      · simp only [hmid, if_false]
        have hrest := ih mid s₁ ht.1 (by
          rw [hext.flags]
          exact hopen.call (.star_more hparses hmid))
        rw [hext.flags] at hrest
        exact (hrest.after ht.2).call (by rintro t ⟨⟩; rfl) fun _ => calls_star_of_some hparses hmid
    | failed s₁ =>
      rw [ho] at ht
      obtain ⟨-, hparses⟩ := parses_of_failed hfaith hs ht.1 ho
      have hrecords : (Outcome.matched pos (s₁.truncate s.out.size)).Records m K s.failure
          [⟨s.flags, .term t, pos⟩] := ⟨ht.1.truncate _, ht.2⟩
      refine hrecords.call (by rintro t ⟨⟩; rfl) fun _ => calls_star_of_end ?_
      intro ns' mid' hparses'
      cases hparses.unique hparses'
    | fault f => trivial

/-- The tails of a fold are tried like alternatives, each under a node of its kind. -/
theorem tailFrom_records (mark : Nat) (pos : Pos) (tails : List (Kind × Term)) :
    ∀ s, m.IsTuned K s → m.IsOpenFrom K ⟨s.flags, .term (.ofTails tails), pos⟩ →
    (tailFrom eval mark pos tails s).Records m K s.failure
        [⟨s.flags, .term (.ofTails tails), pos⟩] ∧
      (∀ mid s', tailFrom eval mark pos tails s = .matched mid s' → s'.flags = s.flags ∧
        ∃ kind ms, Parses m s.flags (.term (.ofTails tails)) pos
          (some ([.node kind ms], mid))) ∧
      ∀ s', tailFrom eval mark pos tails s = .failed s' →
        Parses m s.flags (.term (.ofTails tails)) pos none := by
  induction tails with
  | nil =>
    intro s hs _
    have hrecords : (tailFrom eval mark pos [] s).Records m K s.failure [] :=
      ⟨hs, .refl (by simp)⟩
    refine ⟨hrecords.call (by rintro t ⟨⟩; rfl) fun _ => calls_choice_nil, ?_, ?_⟩
    · rintro mid s' ⟨⟩
    · exact fun _ _ => .choice_nil
  | cons tail tails ih =>
    obtain ⟨kind, t⟩ := tail
    intro s hs hopen
    have hnode : m.IsOpenFrom K ⟨s.flags, .term (.node kind t), pos⟩ := hopen.call .choice_head
    have ht := heval t pos s hs (hnode.call .node)
    simp only [tailFrom]
    cases ho : eval t pos s with
    | matched mid s₁ =>
      rw [ho] at ht
      obtain ⟨ns, hext, hparses⟩ := parses_of_matched hfaith hs ht.1 ho
      have hrecords : (Outcome.matched mid (s₁.wrap mark kind)).Records m K s.failure
          [⟨s.flags, .term t, pos⟩] := ⟨ht.1.wrap _ _, ht.2⟩
      have htail : Parses m s.flags (.term (.node kind t)) pos (some ([.node kind ns], mid)) :=
        .node hparses
      refine ⟨(hrecords.call (by rintro t ⟨⟩; rfl) fun _ => calls_node).call
        (by rintro t ⟨⟩; rfl) fun _ => calls_choice_of_some htail, ?_, by rintro s' ⟨⟩⟩
      rintro mid' s' ⟨⟩
      exact ⟨hext.flags, kind, ns, .choice_here htail⟩
    | failed s₁ =>
      rw [ho] at ht
      obtain ⟨hflags, hparses⟩ := parses_of_failed hfaith hs ht.1 ho
      have htail : Parses m s.flags (.term (.node kind t)) pos none := .node hparses
      have hback : (s₁.truncate s.out.size).flags = s.flags := hflags
      obtain ⟨hrest, hmatched, hfailed⟩ := ih _ (ht.1.truncate s.out.size) (by
        rw [hback]
        exact hopen.call (.choice_tail htail))
      rw [hback] at hrest hmatched hfailed
      have hfirst : m.Grows s.failure s₁.failure [⟨s.flags, .term (.node kind t), pos⟩] :=
        ht.2.call (by rintro t ⟨⟩; rfl) fun _ => calls_node
      refine ⟨(hrest.after hfirst).call (by rintro t ⟨⟩; rfl) fun _ => calls_choice_of_none htail,
        fun mid s' h => ?_, fun s' h => .choice_next htail (hfailed s' h)⟩
      obtain ⟨hflags', kind', ms, hparses'⟩ := hmatched mid s' h
      exact ⟨hflags', kind', ms, .choice_next htail hparses'⟩
    | fault f => exact ⟨trivial, by rintro mid s' ⟨⟩, by rintro s' ⟨⟩⟩

theorem foldFrom_records (mark : Nat) (tails : List (Kind × Term)) (max : Option Nat) (fuel : Nat) :
    ∀ folded pos s ns, m.IsTuned K s →
    m.IsOpenFrom K ⟨s.flags, .rounds tails (max.map (· - folded)) ns, pos⟩ →
    (foldFrom eval tails max mark fuel folded pos s).Records m K s.failure
      [⟨s.flags, .rounds tails (max.map (· - folded)) ns, pos⟩] := by
  induction fuel with
  | zero => exact fun _ _ _ _ _ _ => trivial
  | succ fuel ih =>
    intro folded pos s ns hs hopen
    simp only [foldFrom, any_le_iff_left]
    by_cases hleft : max.map (· - folded) = some 0
    · rw [if_pos hleft]
      rw [hleft]
      have hrecords : (Outcome.matched pos s).Records m K s.failure [] := ⟨hs, .refl (by simp)⟩
      exact hrecords.call (by rintro t ⟨⟩) fun _ => calls_rounds_spent
    · rw [if_neg hleft]
      obtain ⟨ht, hmatched, hfailed⟩ :=
        tailFrom_records hfaith heval mark pos tails s hs (hopen.call (.tails hleft))
      cases ho : tailFrom eval mark pos tails s with
      | matched mid s₁ =>
        rw [ho] at ht
        obtain ⟨hflags, kind, ms, hparses⟩ := hmatched mid s₁ ho
        have hnext : (max.map (· - folded)).map (· - 1) = max.map (· - (folded + 1)) := by
          simp [Option.map_map, Function.comp_def, Nat.sub_sub]
        have hrest := ih (folded + 1) mid s₁ [.node kind (ns ++ ms)] ht.1 (by
          rw [hflags, ← hnext]
          exact hopen.call (.more hleft hparses))
        rw [hflags, ← hnext] at hrest
        exact (hrest.after ht.2).call (by rintro t ⟨⟩) fun _ => calls_rounds_of_some hleft hparses
      | failed s₁ =>
        rw [ho] at ht
        have hrecords : (Outcome.matched pos s₁).Records m K s.failure
            [⟨s.flags, .term (.ofTails tails), pos⟩] := ht
        exact hrecords.call (by rintro t ⟨⟩) fun _ => calls_rounds_of_none hleft (hfailed s₁ ho)
      | fault f => trivial

/-! ## Rules -/

/-- **A rule is noted in the table after what its body asks for is on record.** -/
theorem enterRule_records {id : Nat} {rule : Rule} (hrule : m.grammar.rules[id]? = some rule)
    (pos : Pos) (s : State) (hs : m.IsTuned K s)
    (hopen : m.IsOpenFrom K ⟨s.flags, .term rule.body, pos⟩)
    (hlabel : rule.label.isSome = true → ¬ Parses m s.flags (.term rule.body) pos none)
    (hcontext : ∀ c ∈ rule.context, K c) :
    (enterRule eval rule ⟨id, pos, s.flags⟩ pos s).Records m K s.failure
      [⟨s.flags, .term rule.body, pos⟩] := by
  have hanswers := enterRule_answers hfaith pos s hrule
  have hkey : ∀ {F : Failure}, m.Grows s.failure F [⟨s.flags, .term rule.body, pos⟩] →
      ∀ rule', m.grammar.rules[id]? = some rule' → ∀ q what,
        m.Asks ⟨s.flags, .term rule'.body, pos⟩ q what → F.Covers q what := by
    intro F hgrows rule' hrule' q what ha
    cases hrule.symm.trans hrule'
    exact hgrows.noted _ (List.mem_singleton_self _) q what ha
  simp only [enterRule] at hanswers ⊢
  generalize hentered : State.mk s.out s.flags s.failure _ s.suppress s.steps s.exhausted
    (s.depth + 1) s.tooDeep (s.memo.insert ⟨id, pos, s.flags⟩ .inProgress) = entered at hanswers ⊢
  have htuned : m.IsTuned K entered := by
    subst hentered
    have hinner : ∀ c ∈ innerContexts rule pos s.contexts, K c.1 := by
      unfold innerContexts
      cases hc : rule.context with
      | none => exact hs.contexts
      | some context =>
        rintro c (_ | ⟨_, hmem⟩)
        · exact hcontext context hc
        · exact hs.contexts c hmem
    have htrue : m.MemoTrue (s.memo.insert ⟨id, pos, s.flags⟩ .inProgress) := hs.memo.insert trivial
    exact (hs.insert htrue fun hne => absurd rfl hne).withContexts hinner (s.depth + 1)
  have hflags : entered.flags = s.flags := by rw [← hentered]
  have hfailure : entered.failure = s.failure := by rw [← hentered]
  have hbody := heval rule.body pos entered htuned (by rwa [hflags])
  rw [hflags, hfailure] at hbody
  cases ho : eval rule.body pos entered with
  | matched stop s₁ =>
    rw [ho] at hbody hanswers
    obtain ⟨hs₁, hgrows⟩ := hbody
    obtain ⟨_, -, -, hmemo, -⟩ := hanswers
    have hout := hs₁.withContexts hs.contexts (s₁.depth - 1)
    refine ⟨?_, ?_⟩
    · cases hkind : rule.kind with
      | none =>
        simp only [hkind] at hmemo
        exact hout.insert (hmemo hs₁.live hs.memo).1 fun _ => hkey hgrows
      | some kind =>
        simp only [hkind] at hmemo
        exact (hout.wrap s.out.size kind).insert (hmemo hs₁.live hs.memo).1 fun _ => hkey hgrows
    · cases rule.kind <;> exact hgrows
  | failed s₁ =>
    rw [ho] at hbody hanswers
    obtain ⟨hs₁, hgrows⟩ := hbody
    obtain ⟨-, -, hmemo, -⟩ := hanswers
    have hnone : rule.label = none := by
      cases hl : rule.label with
      | none => rfl
      | some label =>
        have hparses := (parses_of_failed hfaith htuned hs₁ ho).2
        rw [hflags] at hparses
        exact absurd hparses (hlabel (by rw [hl]; rfl))
    have hout := (hs₁.withContexts hs.contexts (s₁.depth - 1)).truncate s.out.size
    simp only [hnone] at hmemo ⊢
    exact ⟨hout.insert (hmemo hs₁.live hs.memo).1 fun _ => hkey hgrows, hgrows⟩
  | fault f => trivial

/-- A rule is entered, or answered from the table; either way its requests are on record. -/
theorem applyRule_records (hlim : m.IsUnlimited) {id : Nat} {rule : Rule}
    (hrule : m.grammar.rules[id]? = some rule) (pos : Pos) (s : State) (hs : m.IsTuned K s)
    (hopen : m.IsOpenFrom K ⟨s.flags, .term rule.body, pos⟩)
    (hlabel : rule.label.isSome = true → ¬ Parses m s.flags (.term rule.body) pos none)
    (hcontext : ∀ c ∈ rule.context, K c) :
    (m.applyRule eval id rule pos s).Records m K s.failure [⟨s.flags, .term rule.body, pos⟩] := by
  have hcounted : m.IsTuned K { s with steps := s.steps + 1 } := hs.of_same rfl rfl rfl rfl rfl
  have henter := enterRule_records hfaith heval hrule pos _ hcounted hopen hlabel hcontext
  have hknown : ∀ e, s.memo.get? ⟨id, pos, s.flags⟩ = some e → e ≠ .inProgress →
      m.Grows s.failure s.failure [⟨s.flags, .term rule.body, pos⟩] := by
    refine fun e hget hne => ⟨fun _ _ h => h, fun task ht q what ha => ?_,
      fun _ hw => .inr ⟨rfl, hw⟩, .inl rfl⟩
    obtain rfl := List.mem_singleton.mp ht
    exact hs.noted _ e hget hne rule hrule q what ha
  unfold applyRule
  rw [hs.live]
  simp only [Bool.false_eq_true, if_false, hlim.1, hlim.2, Option.any_none]
  split
  · exact henter
  · trivial
  · next hget =>
    split
    · exact ⟨hcounted, hknown _ hget (by rintro ⟨⟩)⟩
    · exact henter
  · next stop nodes hget =>
    split
    · exact ⟨hs.of_same rfl rfl rfl rfl rfl, hknown _ hget (by rintro ⟨⟩)⟩
    · exact henter

/-! ## Terms -/

omit hfaith heval in
theorem terminal_records (htop : K .topLevel) (fuel : Nat) {t : Term} (ht : t.isTerminal = true)
    (pos : Pos) (s : State) (hs : m.IsTuned K s) :
    (m.step fuel eval t pos s).Records m K s.failure [⟨s.flags, .term t, pos⟩] := by
  have hreads := m.step_readsAs pos s fuel eval ht
  cases ho : m.step fuel eval t pos s with
  | matched stop s' =>
    rw [ho] at hreads
    obtain ⟨ns, hread, rfl⟩ := hreads
    refine ⟨hs.of_same rfl rfl rfl rfl rfl, .refl fun task htask q what ha => ?_⟩
    obtain rfl := List.mem_singleton.mp htask
    obtain ⟨-, -, hnone⟩ := (asks_terminal ht).mp ha
    rw [hread] at hnone
    cases hnone
  | failed s' =>
    rw [ho] at hreads
    have heq := step_terminal_failed ht ho
    cases hask : t.asks? with
    | none =>
      rw [hask] at heq
      subst heq
      refine ⟨hs, .refl fun task htask q what ha => ?_⟩
      obtain rfl := List.mem_singleton.mp htask
      obtain ⟨-, hsome, -⟩ := (asks_terminal ht).mp ha
      cases hask.symm.trans hsome
    | some what =>
      rw [hask] at heq
      subst heq
      exact ⟨hs.expect (f := s.flags) htop ht hask hreads.1,
        State.grows_expect hs.loud ht hask hreads.1⟩
  | fault f => trivial

/-- One step of evaluation records what it asks for when the evaluation of the terms inside
does. -/
theorem step_isRecording (htop : K .topLevel) (hlim : m.IsUnlimited) (fuel : Nat) :
    m.IsRecording K (m.step fuel eval) := by
  intro t pos s hs hopen
  cases t with
  | token _ | split _ | word _ | any | ended =>
    exact terminal_records htop fuel rfl pos s hs
  | seq items => exact seqFrom_records hfaith heval _ items pos s hs hopen
  | choice alternatives => exact choiceFrom_records hfaith heval _ pos alternatives s hs hopen
  | opt body =>
    have hbody := heval body pos s hs (hopen.call .opt)
    simp only [step]
    refine Outcome.Records.call ?_
      (by rintro t ⟨⟩; rfl) fun _ => calls_opt
    cases ho : eval body pos s with
    | matched stop s' => rwa [ho] at hbody
    | failed s' =>
      rw [ho] at hbody
      exact ⟨hbody.1.truncate _, hbody.2⟩
    | fault f => trivial
  | star body => exact repeatFrom_records hfaith heval body fuel pos s hs hopen
  | plus body =>
    have hbody := heval body pos s hs (hopen.call .plus_round)
    simp only [step]
    cases ho : eval body pos s with
    | matched mid s' =>
      rw [ho] at hbody
      obtain ⟨ns, hext, hparses⟩ := parses_of_matched hfaith hs hbody.1 ho
      have hrest := repeatFrom_records hfaith heval body fuel mid s' hbody.1 (by
        rw [hext.flags]
        exact hopen.call (.plus_more hparses))
      rw [hext.flags] at hrest
      exact (hrest.after hbody.2).call (by rintro t ⟨⟩; rfl) fun _ => calls_plus_of_some hparses
    | failed s' =>
      rw [ho] at hbody
      obtain ⟨-, hparses⟩ := parses_of_failed hfaith hs hbody.1 ho
      exact hbody.call (by rintro t ⟨⟩; rfl) fun _ => calls_plus_of_none hparses
    | fault f => trivial
  | ahead body =>
    have hbody := heval body pos s hs (hopen.call .ahead)
    simp only [step]
    refine Outcome.Records.call ?_
      (by rintro t ⟨⟩; rfl) fun _ => calls_ahead
    cases ho : eval body pos s with
    | matched stop s' =>
      rw [ho] at hbody
      exact ⟨hbody.1.truncate _, hbody.2⟩
    | failed s' =>
      rw [ho] at hbody
      exact ⟨hbody.1.truncate _, hbody.2⟩
    | fault f => trivial
  | notAhead body => exact absurd (hopen _ .refl) id
  | ref r =>
    simp only [step]
    cases hid : m.grammar.resolve? r with
    | none =>
      have hrecords : (Outcome.failed s).Records m K s.failure [] := ⟨hs, .refl (by simp)⟩
      exact hrecords.call (by rintro t ⟨⟩; rfl) fun _ => calls_ref_of_none hid
    | some id =>
      simp only
      cases hrule : m.grammar.rules[id]? with
      | none => trivial
      | some rule =>
        obtain ⟨hlabel, hcontext⟩ := hopen _ .refl id rule hid hrule
        exact (applyRule_records hfaith heval hlim hrule pos s hs (hopen.call (.ref hid hrule))
          hlabel hcontext).call (by rintro t ⟨⟩; rfl) fun _ => calls_ref hid hrule
  | node kind body =>
    have hbody := heval body pos s hs (hopen.call .node)
    simp only [step]
    refine Outcome.Records.call ?_
      (by rintro t ⟨⟩; rfl) fun _ => calls_node
    cases ho : eval body pos s with
    | matched stop s' =>
      rw [ho] at hbody
      exact ⟨hbody.1.wrap _ _, hbody.2⟩
    | failed s' => rwa [ho] at hbody
    | fault f => trivial
  | «scoped» set clear body =>
    have hbody := heval body pos _ (hs.withFlags ((s.flags.union set).diff clear))
      (hopen.call .scope)
    simp only [step]
    refine Outcome.Records.call ?_
      (by rintro t ⟨⟩; rfl) fun _ => calls_scoped
    cases ho : eval body pos { s with flags := (s.flags.union set).diff clear } with
    | matched stop s' =>
      rw [ho] at hbody
      exact ⟨hbody.1.withFlags _, hbody.2⟩
    | failed s' =>
      rw [ho] at hbody
      exact ⟨hbody.1.withFlags _, hbody.2⟩
    | fault f => trivial
  | gate flags whenSet body =>
    simp only [step]
    split
    · next hgate =>
      exact (heval body pos s hs (hopen.call (.gate hgate))).call (by rintro t ⟨⟩; rfl)
        fun _ => calls_gate_of_open hgate
    · next hgate =>
      have hrecords : (Outcome.failed s).Records m K s.failure [] := ⟨hs, .refl (by simp)⟩
      exact hrecords.call (by rintro t ⟨⟩; rfl) fun _ => calls_gate_of_shut hgate
  | fold operand tails max =>
    have hoperand := heval operand pos s hs (hopen.call .operand)
    simp only [step]
    cases ho : eval operand pos s with
    | matched mid s' =>
      rw [ho] at hoperand
      obtain ⟨ns, hext, hparses⟩ := parses_of_matched hfaith hs hoperand.1 ho
      have hcall : m.Calls ⟨s.flags, .term (.fold operand tails max), pos⟩
          ⟨s.flags, .rounds tails (max.map (· - 0)) ns, mid⟩ := by
        simpa using Calls.rounds hparses
      have hrest := fun rounds => foldFrom_records hfaith heval s.out.size tails max rounds 0 mid s'
        ns hoperand.1 (by
          rw [hext.flags]
          exact hopen.call hcall)
      simp only [hext.flags, Nat.sub_zero, Option.map_id_fun', id_eq] at hrest
      exact ((hrest _).after hoperand.2).call (by rintro t ⟨⟩; rfl)
        fun _ => calls_fold_of_some hparses
    | failed s' =>
      rw [ho] at hoperand
      obtain ⟨-, hparses⟩ := parses_of_failed hfaith hs hoperand.1 ho
      exact hoperand.call (by rintro t ⟨⟩; rfl) fun _ => calls_fold_of_none hparses
    | fault f => trivial

end

/-- Every evaluation records what it asks for, whatever fuel it is given. -/
theorem eval_isRecording (htop : K .topLevel) (hlim : m.IsUnlimited) (fuel : Nat) :
    m.IsRecording K (m.eval fuel) := by
  induction fuel with
  | zero => exact fun _ _ _ _ _ => trivial
  | succ fuel ih => exact step_isRecording (m.eval_isFaithful fuel) ih htop hlim fuel

/-- **A failed run names the furthest place where something was asked for in vain, and all that
was asked for there.**  The run begins with a table that says nothing, has no limits, and
nothing is held back on the way; then memos make no difference.  Only at the beginning of the
text it may be that nothing was asked for. -/
theorem runWith_furthest (htop : K .topLevel) (hlim : m.IsUnlimited) {fuel : Nat} {root : Term}
    {table : Memo} {r : Run} {F : Failure} (hnone : ∀ key, table.get? key = none)
    (hopen : m.IsOpenFrom K ⟨{}, .term root, {}⟩)
    (hrun : m.runWith fuel root { memo := table } = .ok r)
    (hresult : r.result = .error (.failure F)) :
    (∀ what, what ∈ F.expected ↔ m.Asks ⟨{}, .term root, {}⟩ F.pos what) ∧
      (∀ q what, m.Asks ⟨{}, .term root, {}⟩ q what → q < F.pos ∨ q = F.pos) ∧
      (F.pos = {} ∨ F.expected ≠ []) ∧ K F.context := by
  have htuned : m.IsTuned K { memo := table } :=
    ⟨rfl, rfl, fun key e hget => by simp [hnone] at hget, fun key e hget => by simp [hnone] at hget,
      by simp, htop⟩
  have hroot := eval_isRecording htop hlim fuel root {} _ htuned hopen
  simp only [runWith] at hrun
  cases ho : m.eval fuel root {} { memo := table } with
  | matched stop s' =>
    rw [ho] at hrun
    cases hrun
    simp only [runWith.ended] at hresult
    split at hresult
    · cases hresult
    · split at hresult <;> cases hresult
  | failed s' =>
    rw [ho] at hroot hrun
    obtain ⟨hs', hgrows⟩ := hroot
    cases hrun
    simp only [runWith.ended] at hresult
    split at hresult
    · cases hresult
    · split at hresult
      · cases hresult
      · cases hresult
        refine ⟨fun what => ⟨fun hw => ?_, fun ha => ?_⟩, fun q what ha => ?_, hgrows.full,
          hs'.context⟩
        · rcases hgrows.only what hw with ⟨task, htask, ha⟩ | ⟨-, hw⟩
          · obtain rfl := List.mem_singleton.mp htask
            exact ha
          · cases hw
        · rcases hgrows.noted _ (List.mem_singleton_self _) _ what ha with hlt | ⟨-, hw⟩
          · exact absurd hlt (Pos.lt_irrefl _)
          · exact hw
        · exact (hgrows.noted _ (List.mem_singleton_self _) q what ha).imp_right And.left
  | fault f =>
    rw [ho] at hrun
    cases hrun

end Machine
end Peg
end Packrat
