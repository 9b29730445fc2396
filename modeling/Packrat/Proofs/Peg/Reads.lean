/-
# Answers that ask for tokens only

Where terms are read that look no further than one token ahead, all that is asked for in vain
is tokens, and none of them behind the place where reading stops.  `Machine.Reads` says this of
an answer, together with what `runWith_furthest` asks for: that nothing is held back.  There is
a lemma for each constructor that such terms are made of, and a term that cannot begin with
the token that is there is seen to fail by looking at it (`Term.rejects`).
-/

import Packrat.Proofs.Peg.Furthest

namespace Packrat
namespace Peg
/-! ## Terms that cannot begin -/

namespace Term

mutual

/-- It is seen at once that the term does not match where a token of a kind is; `known` are the
rules of which this is known. -/
def rejects (known : RuleRef → Bool) (kind : Kind) : Term → Bool
  | .token kind' => kind ≠ kind'
  | .seq items => rejectsHead known kind items
  | .choice alternatives => rejectsAll known kind alternatives
  | .node _ body => body.rejects known kind
  | .ref r => known r
  | _ => false

/-- The first of some terms does not match. -/
def rejectsHead (known : RuleRef → Bool) (kind : Kind) : List Term → Bool
  | [] => false
  | t :: _ => t.rejects known kind

/-- None of some terms matches. -/
def rejectsAll (known : RuleRef → Bool) (kind : Kind) : List Term → Bool
  | [] => true
  | t :: ts => t.rejects known kind && rejectsAll known kind ts

end

end Term

/-- A rule without a label, in no place of types, does not match where a token of a kind is. -/
def Grammar.rejectsRef (g : Grammar) (kind : Kind) (r : RuleRef) : Bool :=
  ((g.resolve? r).bind (g.rules[·]?)).any fun rule => rule.label.isNone &&
    rule.context.all (!·.isTypePosition) && rule.body.rejects (fun _ => false) kind

namespace Machine

/-- The context does not stand for a place of types. -/
def OutsideTypes (c : Context) : Prop := c.isTypePosition = false

/-- The task holds nothing back, and asks at most for a token, not behind token `last`. -/
structure IsCalm (m : Machine) (last : Nat) (task : Task) : Prop where
  isOpen : m.IsOpen OutsideTypes task
  asks : ∀ t what, task.goal = .term t → t.asks? = some what → m.read? task.pos t = none →
    task.pos.offset = 0 ∧ task.pos.index ≤ last ∧ ∃ kind, what = .token kind

/-- The goal has the answer, and all tasks on the way to it are calm. -/
structure Reads (m : Machine) (goal : Goal) (pos : Pos) (a : Answer) (last : Nat) : Prop where
  parses : Parses m {} goal pos a
  calm : ∀ task, m.Visits ⟨{}, goal, pos⟩ task → m.IsCalm last task

variable {m : Machine} {goal : Goal} {pos mid : Pos} {a : Answer} {last last' i j : Nat}
  {t : Term} {ts : List Term} {tails : List (Kind × Term)} {ns ms : List Match} {kind : Kind}

theorem IsCalm.mono {task : Task} (h : m.IsCalm last task) (hle : last ≤ last') :
    m.IsCalm last' task := by
  refine ⟨h.isOpen, fun t what ht hask hnone => ?_⟩
  obtain ⟨hoffset, hindex, hkind⟩ := h.asks t what ht hask hnone
  exact ⟨hoffset, by omega, hkind⟩

namespace Reads

theorem mono (h : m.Reads goal pos a last) (hle : last ≤ last') : m.Reads goal pos a last' :=
  ⟨h.parses, fun task hvisit => (h.calm task hvisit).mono hle⟩

/-- All that a task comes to is calm if it is so itself and so are its calls. -/
theorem of_calls {tasks : List Task} (hparses : Parses m {} goal pos a)
    (htask : ∀ t, goal = .term t → t.asks? = none)
    (hopen : m.IsOpen OutsideTypes ⟨{}, goal, pos⟩)
    (hcalls : ∀ task, m.Calls ⟨{}, goal, pos⟩ task ↔ task ∈ tasks)
    (hcalm : ∀ task ∈ tasks, ∀ task', m.Visits task task' → m.IsCalm last task') :
    m.Reads goal pos a last := by
  refine ⟨hparses, fun task hvisit => ?_⟩
  rcases Relation.ReflTransGen.cases_head hvisit with rfl | ⟨task', hcall, hvisit⟩
  · refine ⟨hopen, fun t what ht hask => ?_⟩
    rw [htask t ht] at hask
    cases hask
  · exact hcalm task' ((hcalls task').mp hcall) task hvisit

/-! ## Terminals -/

theorem terminal_some {r : List Match × Pos} (ht : t.isTerminal = true)
    (hread : m.read? pos t = some r) : m.Reads (.term t) pos (some r) last := by
  refine ⟨hread ▸ .terminal ht, fun task hvisit => ?_⟩
  rcases Relation.ReflTransGen.cases_head hvisit with rfl | ⟨task', hcall, -⟩
  · refine ⟨?_, fun u what hu _ hnone => ?_⟩
    · cases t <;> trivial
    · cases hu
      cases hread.symm.trans hnone
  · exact absurd hcall (not_calls_terminal ht)

theorem terminal_none (ht : t.isTerminal = true) (hask : t.asks? = some (.token kind))
    (hread : m.read? ⟨i, 0⟩ t = none) : m.Reads (.term t) ⟨i, 0⟩ none i := by
  refine ⟨hread ▸ .terminal ht, fun task hvisit => ?_⟩
  rcases Relation.ReflTransGen.cases_head hvisit with rfl | ⟨task', hcall, -⟩
  · refine ⟨?_, fun u what hu hask' _ => ?_⟩
    · cases t <;> trivial
    · cases hu
      cases hask.symm.trans hask'
      exact ⟨rfl, Nat.le_refl i, kind, rfl⟩
  · exact absurd hcall (not_calls_terminal ht)

theorem token_some (hkind : m.kindAt ⟨i, 0⟩ = kind) : m.Reads (.term (.token kind)) ⟨i, 0⟩
    (some ([.token i kind none], ⟨i + 1, 0⟩)) last := by
  refine terminal_some rfl ?_
  simp [read?, hkind, leafAt, Pos.isSplit]

theorem token_none (hkind : m.kindAt ⟨i, 0⟩ ≠ kind) :
    m.Reads (.term (.token kind)) ⟨i, 0⟩ none i :=
  terminal_none rfl rfl (by simp [read?, hkind])

/-! ## Composed terms -/

theorem seq_nil : m.Reads (.term (.seq [])) pos (some ([], pos)) last :=
  of_calls .seq_nil (by rintro t ⟨⟩; rfl) trivial (fun _ => calls_seq_nil) (by simp)

theorem seq_fail (h : m.Reads (.term t) pos none last) :
    m.Reads (.term (.seq (t :: ts))) pos none last := by
  refine of_calls (.seq_fail h.parses) (by rintro t ⟨⟩; rfl) trivial
    (fun _ => calls_seq_of_none h.parses) fun task htask => ?_
  obtain rfl := List.mem_singleton.mp htask
  exact h.calm

theorem seq_cons (h : m.Reads (.term t) pos (some (ns, mid)) last)
    (h' : m.Reads (.term (.seq ts)) mid a last) :
    m.Reads (.term (.seq (t :: ts))) pos (a.mapTrees (ns ++ ·)) last := by
  refine of_calls (.seq_cons h.parses h'.parses) (by rintro t ⟨⟩; rfl) trivial
    (fun _ => calls_seq_of_some h.parses) fun task htask => ?_
  rcases List.mem_cons.mp htask with rfl | htask
  · exact h.calm
  · obtain rfl := List.mem_singleton.mp htask
    exact h'.calm

theorem choice_nil : m.Reads (.term (.choice [])) pos none last :=
  of_calls .choice_nil (by rintro t ⟨⟩; rfl) trivial (fun _ => calls_choice_nil) (by simp)

theorem choice_here (h : m.Reads (.term t) pos (some (ns, mid)) last) :
    m.Reads (.term (.choice (t :: ts))) pos (some (ns, mid)) last := by
  refine of_calls (.choice_here h.parses) (by rintro t ⟨⟩; rfl) trivial
    (fun _ => calls_choice_of_some h.parses) fun task htask => ?_
  obtain rfl := List.mem_singleton.mp htask
  exact h.calm

theorem choice_next (h : m.Reads (.term t) pos none last)
    (h' : m.Reads (.term (.choice ts)) pos a last) :
    m.Reads (.term (.choice (t :: ts))) pos a last := by
  refine of_calls (.choice_next h.parses h'.parses) (by rintro t ⟨⟩; rfl) trivial
    (fun _ => calls_choice_of_none h.parses) fun task htask => ?_
  rcases List.mem_cons.mp htask with rfl | htask
  · exact h.calm
  · obtain rfl := List.mem_singleton.mp htask
    exact h'.calm

theorem node (h : m.Reads (.term t) pos a last) :
    m.Reads (.term (.node kind t)) pos (a.mapTrees fun ns => [.node kind ns]) last := by
  refine of_calls (.node h.parses) (by rintro t ⟨⟩; rfl) trivial (fun _ => calls_node)
    fun task htask => ?_
  obtain rfl := List.mem_singleton.mp htask
  exact h.calm

/-- A rule whose label stays out of sight: it has none, or matches. -/
theorem ref {r : RuleRef} {id : Nat} {rule : Rule} (hid : m.grammar.resolve? r = some id)
    (hrule : m.grammar.rules[id]? = some rule) (hcontext : ∀ c ∈ rule.context, OutsideTypes c)
    (hlabel : rule.label = none ∨ a.isSome = true) (h : m.Reads (.term rule.body) pos a last) :
    m.Reads (.term (.ref r)) pos (a.mapTrees rule.close) last := by
  refine of_calls (.ref_rule hid hrule h.parses) (by rintro t ⟨⟩; rfl) ?_
    (fun _ => calls_ref hid hrule) fun task htask => ?_
  · intro id' rule' hid' hrule'
    cases hid.symm.trans hid'
    cases hrule.symm.trans hrule'
    refine ⟨fun hsome hnone => ?_, hcontext⟩
    rcases hlabel with hlabel | hlabel
    · rw [hlabel] at hsome
      cases hsome
    · cases h.parses.unique hnone
      cases hlabel
  · obtain rfl := List.mem_singleton.mp htask
    exact h.calm

/-! ## Folds -/

theorem fold {max : Option Nat} (h : m.Reads (.term t) pos (some (ns, mid)) last)
    (h' : m.Reads (.rounds tails max ns) mid a last) :
    m.Reads (.term (.fold t tails max)) pos a last := by
  refine of_calls (.fold_rounds h.parses h'.parses) (by rintro t ⟨⟩; rfl) trivial
    (fun _ => calls_fold_of_some h.parses) fun task htask => ?_
  rcases List.mem_cons.mp htask with rfl | htask
  · exact h.calm
  · obtain rfl := List.mem_singleton.mp htask
    exact h'.calm

theorem rounds_spent : m.Reads (.rounds tails (some 0) ns) pos (some (ns, pos)) last :=
  of_calls .rounds_spent (by rintro t ⟨⟩) trivial (fun _ => calls_rounds_spent) (by simp)

theorem rounds_end {left : Option Nat} (hleft : left ≠ some 0)
    (h : m.Reads (.term (.ofTails tails)) pos none last) :
    m.Reads (.rounds tails left ns) pos (some (ns, pos)) last := by
  refine of_calls (.rounds_end hleft h.parses) (by rintro t ⟨⟩) trivial
    (fun _ => calls_rounds_of_none hleft h.parses) fun task htask => ?_
  obtain rfl := List.mem_singleton.mp htask
  exact h.calm

theorem rounds_more {left : Option Nat} (hleft : left ≠ some 0)
    (h : m.Reads (.term (.ofTails tails)) pos (some ([.node kind ms], mid)) last)
    (h' : m.Reads (.rounds tails (left.map (· - 1)) [.node kind (ns ++ ms)]) mid a last) :
    m.Reads (.rounds tails left ns) pos a last := by
  refine of_calls (.rounds_more hleft h.parses h'.parses) (by rintro t ⟨⟩) trivial
    (fun _ => calls_rounds_of_some hleft h.parses) fun task htask => ?_
  rcases List.mem_cons.mp htask with rfl | htask
  · exact h.calm
  · obtain rfl := List.mem_singleton.mp htask
    exact h'.calm

end Reads
/-! ## Terms that cannot begin -/

variable {known : RuleRef → Bool}

mutual

/-- A term that cannot begin with the token that is there fails, and asks for no other. -/
theorem reads_of_rejects (hkind : m.kindAt ⟨i, 0⟩ = kind)
    (hknown : ∀ r, known r = true → m.Reads (.term (.ref r)) ⟨i, 0⟩ none i) :
    ∀ t : Term, t.rejects known kind = true → m.Reads (.term t) ⟨i, 0⟩ none i
  | .token kind', h => .token_none (by simpa [hkind, Term.rejects] using h)
  | .seq items, h => reads_of_rejectsHead hkind hknown items h
  | .choice alternatives, h => reads_of_rejectsAll hkind hknown alternatives h
  | .node _ body, h => (reads_of_rejects hkind hknown body h).node
  | .ref r, h => hknown r h

/-- Terms in sequence fail with the first. -/
theorem reads_of_rejectsHead (hkind : m.kindAt ⟨i, 0⟩ = kind)
    (hknown : ∀ r, known r = true → m.Reads (.term (.ref r)) ⟨i, 0⟩ none i) :
    ∀ ts : List Term, Term.rejectsHead known kind ts = true →
      m.Reads (.term (.seq ts)) ⟨i, 0⟩ none i
  | t :: _, h => (reads_of_rejects hkind hknown t h).seq_fail

/-- Alternatives fail if each one does. -/
theorem reads_of_rejectsAll (hkind : m.kindAt ⟨i, 0⟩ = kind)
    (hknown : ∀ r, known r = true → m.Reads (.term (.ref r)) ⟨i, 0⟩ none i) :
    ∀ ts : List Term, Term.rejectsAll known kind ts = true →
      m.Reads (.term (.choice ts)) ⟨i, 0⟩ none i
  | [], _ => .choice_nil
  | t :: ts, h =>
    .choice_next (reads_of_rejects hkind hknown t (Bool.and_eq_true_iff.mp h).1)
      (reads_of_rejectsAll hkind hknown ts (Bool.and_eq_true_iff.mp h).2)

end

theorem reads_of_rejectsRef (hkind : m.kindAt ⟨i, 0⟩ = kind) {r : RuleRef}
    (h : m.grammar.rejectsRef kind r = true) : m.Reads (.term (.ref r)) ⟨i, 0⟩ none i := by
  obtain ⟨rule, hrule, hall⟩ := (Option.any_eq_true ..).mp h
  obtain ⟨id, hid, hrule⟩ := Option.bind_eq_some_iff.mp hrule
  obtain ⟨hboth, hrejects⟩ := Bool.and_eq_true_iff.mp hall
  obtain ⟨hlabel, hcontext⟩ := Bool.and_eq_true_iff.mp hboth
  refine .ref (a := none) hid hrule (fun c hc => ?_) (.inl (Option.isNone_iff_eq_none.mp hlabel))
    (reads_of_rejects hkind (by rintro r ⟨⟩) rule.body hrejects)
  rw [show rule.context = some c from hc] at hcontext
  simpa [OutsideTypes] using hcontext

/-- Tails all of which fail. -/
theorem reads_ofTails_none (hkind : m.kindAt ⟨i, 0⟩ = kind) {tails : List (Kind × Term)}
    (h : ∀ tail ∈ tails, tail.2.rejects (m.grammar.rejectsRef kind) kind = true) :
    m.Reads (.term (.ofTails tails)) ⟨i, 0⟩ none i := by
  induction tails with
  | nil => exact .choice_nil
  | cons tail tails ih =>
    have hfirst := reads_of_rejects hkind (fun r hr => reads_of_rejectsRef hkind hr) tail.2
      (h tail (by simp))
    exact .choice_next hfirst.node (ih fun tail' h' => h tail' (by simp [h']))

/-! ## Failed runs -/

/-- **Where reading stops, a failed run says so.**  If something is asked for where reading
stops, then the failure is there; it lists what has been asked for, and that is tokens only. -/
theorem Reads.furthest {root : Term} (h : m.Reads (.term root) {} none last) {what : Expected}
    (hasks : m.Asks ⟨{}, .term root, {}⟩ ⟨last, 0⟩ what) (hlim : m.IsUnlimited) {fuel : Nat}
    {table : Memo} (hnone : ∀ key, table.get? key = none) {r : Run} {F : Failure}
    (hrun : m.runWith fuel root { memo := table } = .ok r)
    (hresult : r.result = .error (.failure F)) :
    F.pos = ⟨last, 0⟩ ∧ (∀ what, m.Asks ⟨{}, .term root, {}⟩ ⟨last, 0⟩ what → what ∈ F.expected) ∧
      (∀ what ∈ F.expected, ∃ kind, what = .token kind) ∧ OutsideTypes F.context := by
  obtain ⟨hexpected, hbefore, hfull, hcontext⟩ :=
    runWith_furthest (K := OutsideTypes) rfl hlim hnone
      (fun task hvisit => (h.calm task hvisit).isOpen) hrun hresult
  have hcalm : ∀ what ∈ F.expected,
      F.pos.offset = 0 ∧ F.pos.index ≤ last ∧ ∃ kind, what = .token kind := by
    intro what hw
    obtain ⟨f, u, hvisit, hask, hread⟩ := (hexpected what).mp hw
    exact (h.calm _ hvisit).asks u what rfl hask hread
  have hpos : F.pos = ⟨last, 0⟩ := by
    rcases hbefore _ _ hasks with hlt | heq
    · -- nothing is asked for behind the place where reading stops
      rcases hfull with hstart | hne
      · rw [hstart] at hlt
        exact absurd hlt Pos.not_lt_start
      · obtain ⟨what, hw⟩ := List.exists_mem_of_ne_nil _ hne
        obtain ⟨hoffset, hindex, -⟩ := hcalm what hw
        rcases hlt with hlt | ⟨-, hlt⟩
        · exact absurd hindex (Nat.not_le.mpr hlt)
        · rw [hoffset] at hlt
          exact absurd hlt (UInt8.lt_irrefl 0)
    · exact heq.symm
  exact ⟨hpos, fun what ha => (hexpected what).mpr (hpos ▸ ha),
    fun what hw => (hcalm what hw).2.2, hcontext⟩

end Machine
end Peg
end Packrat
