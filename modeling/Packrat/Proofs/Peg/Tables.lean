/-
# Tables that say the same

Two tables say the same if they know of the same keys, and of each key that it is being
evaluated, that it fails, or that it matches up to the same place (`Memo.SaysSame`).  Two runs of a
machine that begin with such tables go side by side: they take the same steps, record the same
failures and pass the same limits (`Machine.eval_keepsTables`).  So they end in the same way, and
as long as the tables say what is so they match the same trees (`Machine.runWith_eq_of_saysSame`).

How often a table has been emptied makes no difference to a run, and a run does not change it.
-/

import Packrat.Proofs.Peg.Limits
import Packrat.Proofs.Peg.Reuse

namespace Packrat
namespace Peg

/-- What is known of a key, without the trees. -/
def MemoEntry.bare : MemoEntry → MemoEntry
  | .matched stop _ => .matched stop []
  | e => e

namespace Memo

/-- Two tables know of the same keys, and the same of each of them, trees apart. -/
structure SaysSame (memo memo' : Memo) : Prop where
  bare : ∀ key, (memo'.get? key).map MemoEntry.bare = (memo.get? key).map MemoEntry.bare
  size : memo'.size = memo.size

variable {memo memo' : Memo}

theorem mem_entries_iff (key : MemoKey) : key ∈ memo.entries ↔ (memo.get? key).isSome = true :=
  Std.HashMap.mem_iff_isSome_getElem?

/-- The size of a table in which something is noted of a key. -/
theorem size_insert (key : MemoKey) (e : MemoEntry) : (memo.insert key e).size =
    if (memo.get? key).isSome then memo.size else memo.size + 1 := by
  simp only [Memo.size, Memo.insert, Std.HashMap.size_insert, mem_entries_iff]

/-- Tables still say the same when the same is noted in both. -/
theorem SaysSame.insert (h : memo.SaysSame memo') (key : MemoKey) {e e' : MemoEntry}
    (he : e'.bare = e.bare) : (memo.insert key e).SaysSame (memo'.insert key e') where
  bare key' := by
    rw [Memo.get?_insert, Memo.get?_insert]
    split
    · rw [Option.map_some, Option.map_some, he]
    · exact h.bare key'
  size := by
    have hknown : (memo'.get? key).isSome = (memo.get? key).isSome := by
      simpa only [Option.isSome_map] using congrArg Option.isSome (h.bare key)
    rw [size_insert, size_insert, hknown, h.size]

/-- Two tables that know of no key say the same. -/
theorem saysSame_of_isEmpty (h : memo.isEmpty = true) (h' : memo'.isEmpty = true) :
    memo.SaysSame memo' := by
  refine ⟨fun key => by rw [get?_of_isEmpty h, get?_of_isEmpty h'], ?_⟩
  rw [isEmpty, decide_eq_true_iff] at h h'
  rw [h, h']

end Memo

namespace State

/-- The state with another output and another table. -/
def onto (s : State) (out : Array Match) (memo : Memo) : State :=
  { s with out := out, memo := memo }

/-- Two states that differ in the output and in the trees of the table at most; how often their
tables have been emptied is given. -/
structure SameButTrees (generation generation' : Nat) (s s' : State) : Prop where
  same : s' = s.onto s'.out s'.memo
  memo : s.memo.SaysSame s'.memo
  left : s.memo.generation = generation
  right : s'.memo.generation = generation'

/-- Asking in vain depends neither on the output nor on the table. -/
theorem expect_onto (s : State) (out : Array Match) (memo : Memo) (pos : Pos) (what : Expected) :
    (s.onto out memo).expect pos what = (s.expect pos what).onto out memo := by
  unfold expect onto
  split_ifs <;> rfl

theorem expectLabel_onto (s : State) (out : Array Match) (memo : Memo) (pos : Pos)
    (before : Failure) (label : String) :
    (s.onto out memo).expectLabel pos before label =
      (s.expectLabel pos before label).onto out memo := by
  unfold expectLabel
  change (if s.suppress = 0 ∧ s.failure.pos = pos then _ else s.onto out memo) = _
  split
  · change State.expect (State.onto { s with failure := _ } out memo) pos _ = _
    rw [expect_onto]
    rfl
  · rfl

variable {s s' : State} {generation generation' : Nat}

/-- Work that is done alike on states that differ in these alone leaves such states, if it leaves
output and table alone. -/
theorem SameButTrees.map (h : SameButTrees generation generation' s s') (work : State → State)
    (honto : ∀ s out memo, work (s.onto out memo) = (work s).onto out memo)
    (hmemo : ∀ s, (work s).memo = s.memo) :
    SameButTrees generation generation' (work s) (work s') where
  same := by
    have hout : (work s').out = s'.out := by
      rw [h.same, honto]
      rfl
    rw [hout, hmemo, ← honto, ← h.same]
  memo := by
    rw [hmemo, hmemo]
    exact h.memo
  left := by rw [hmemo, h.left]
  right := by rw [hmemo, h.right]

theorem SameButTrees.output (h : SameButTrees generation generation' s s')
    (out out' : Array Match) :
    SameButTrees generation generation' { s with out := out } { s' with out := out' } where
  same := by
    rw [h.same]
    rfl
  memo := h.memo
  left := h.left
  right := h.right

theorem SameButTrees.noted (h : SameButTrees generation generation' s s') (key : MemoKey)
    {e e' : MemoEntry} (he : e'.bare = e.bare) : SameButTrees generation generation'
      { s with memo := s.memo.insert key e } { s' with memo := s'.memo.insert key e' } where
  same := by
    rw [h.same]
    rfl
  memo := h.memo.insert key he
  left := h.left
  right := h.right

theorem SameButTrees.expect (h : SameButTrees generation generation' s s') (pos : Pos)
    (what : Expected) :
    SameButTrees generation generation' (s.expect pos what) (s'.expect pos what) := by
  refine h.map (·.expect pos what) (fun s out memo => s.expect_onto out memo pos what) fun s => ?_
  obtain ⟨failure, heq⟩ := s.notes_expect pos what
  rw [heq]

theorem SameButTrees.expectLabel (h : SameButTrees generation generation' s s') (pos : Pos)
    (before : Failure) (label : String) : SameButTrees generation generation'
      (s.expectLabel pos before label) (s'.expectLabel pos before label) := by
  refine h.map (·.expectLabel pos before label)
    (fun s out memo => s.expectLabel_onto out memo pos before label) fun s => ?_
  obtain ⟨failure, heq⟩ := s.notes_expectLabel pos before label
  rw [heq]

theorem sameButTrees_isSteadfast (generation generation' : Nat) :
    IsSteadfast fun _ => SameButTrees generation generation' where
  flags h := by
    rw [h.same]
    rfl
  output h := h.output
  expect h := h.expect
  flagged h f := h.map (Machine.flagged · f) (fun _ _ _ => rfl) fun _ => rfl
  muted h := h.map Machine.muted (fun _ _ _ => rfl) fun _ => rfl
  unmuted h :=
    h.map (fun s => { s with suppress := s.suppress - 1 }) (fun _ _ _ => rfl) fun _ => rfl

end State

namespace Machine

variable {m : Machine} {eval eval' : Evaluator} {generation generation' : Nat} {s s' : State}

/-- A rule that is entered in both runs. -/
theorem enterRule_keepsTables
    (heval : GoAlongside (fun _ _ => True) (fun _ => State.SameButTrees generation generation')
      eval eval') (rule : Rule) (key : MemoKey) (pos : Pos)
    (hs : State.SameButTrees generation generation' s s') :
    (enterRule eval rule key pos s).Alongside (State.SameButTrees generation generation')
      (enterRule eval' rule key pos s') := by
  have hentering : State.SameButTrees generation generation' (entering pos s rule key)
      (entering pos s' rule key) :=
    (hs.noted key rfl).map (fun s => { s with
      contexts := innerContexts rule pos s.contexts, depth := s.depth + 1 })
      (fun _ _ _ => rfl) fun _ => rfl
  have hcontexts : s'.contexts = s.contexts := by
    rw [hs.same]
    rfl
  have hfailure : s'.failure = s.failure := by
    rw [hs.same]
    rfl
  have hleaving : ∀ {t t'}, State.SameButTrees generation generation' t t' →
      State.SameButTrees generation generation' (leaving s t) (leaving s' t') := by
    intro t t' ht
    unfold leaving
    rw [hcontexts]
    exact ht.map (fun t => { t with contexts := s.contexts, depth := t.depth - 1 })
      (fun _ _ _ => rfl) fun _ => rfl
  rw [enterRule_eq, enterRule_eq]
  refine (heval 0 rule.body pos _ _ trivial hentering).resume (fun stop t t' ht => ⟨rfl, ?_⟩)
    fun t t' ht => ?_
  · unfold leavingMatched
    cases rule.kind with
    | none => exact (hleaving ht).noted key rfl
    | some kind => exact ((hleaving ht).output _ _).noted key rfl
  · have hcut := (hleaving ht).output ((leaving s t).out.shrink s.out.size)
      ((leaving s' t').out.shrink s'.out.size)
    change State.SameButTrees _ _ _ _
    unfold leavingFailed
    rw [hfailure]
    cases rule.label with
    | none => exact hcut.noted key rfl
    | some label => exact (hcut.expectLabel pos s.failure label).noted key rfl

/-- Tables that say the same answer a rule alike, or both do not. -/
theorem consult_keepsTables (reuse : Bool) {rule : Rule} {key : MemoKey} {pos : Pos}
    (hs : State.SameButTrees generation generation' s s')
    (henter : (enterRule eval rule key pos s).Alongside
      (State.SameButTrees generation generation') (enterRule eval' rule key pos s')) :
    (consult reuse eval rule key pos s).Alongside (State.SameButTrees generation generation')
      (consult reuse eval' rule key pos s') := by
  have hbare := hs.memo.bare key
  rw [consult_eq, consult_eq]
  cases hget : s.memo.get? key with
  | none =>
    rw [hget, Option.map_none, Option.map_eq_none_iff] at hbare
    rw [hbare]
    exact henter
  | some e =>
    rw [hget, Option.map_some] at hbare
    obtain ⟨e', hget', hsame⟩ := Option.map_eq_some_iff.mp hbare
    rw [hget']
    cases e with
    | inProgress => exact Outcome.alongside_fault _ _
    | failed =>
      cases e' with
      | failed =>
        change Outcome.Alongside _ (if reuse then _ else _) (if reuse then _ else _)
        split
        · exact hs
        · exact henter
      | inProgress => cases hsame
      | matched stop' ns' => cases hsame
    | matched stop ns =>
      cases e' with
      | matched stop' ns' =>
        cases hsame
        change Outcome.Alongside _ (if reuse then _ else _) (if reuse then _ else _)
        split
        · exact ⟨rfl, hs.output _ _⟩
        · exact henter
      | inProgress => cases hsame
      | failed => cases hsame

/-- **Two runs whose tables say the same go side by side**, whatever fuel they are given. -/
theorem eval_keepsTables (m : Machine) (generation generation' fuel fuel' : Nat) :
    GoAlongside (fun _ _ => True) (fun _ => State.SameButTrees generation generation')
      (m.eval fuel) (m.eval fuel') := by
  change GoAlongside _ _ (m.eval fuel) ((m.under m.limits).eval fuel')
  refine eval_alongside (ι := Unit)
    (R := fun _ _ => State.SameButTrees generation generation')
    (fun _ => State.sameButTrees_isSteadfast generation generation')
    ⟨fun _ _ _ => trivial, fun _ => trivial⟩ ?_ fuel fuel' ()
  intro fuel heval fuel' _ n r id rule pos s s' _ _ _ hs
  have hlimit : ∀ field : State → Nat, (∀ s out memo, field (State.onto s out memo) = field s) →
      field s' = field s := fun field honto => by rw [hs.same, honto]
  have hsteps : s'.steps = s.steps := hlimit State.steps fun _ _ _ => rfl
  have hdepth : s'.depth = s.depth := hlimit State.depth fun _ _ _ => rfl
  have hflags : s'.flags = s.flags := by
    rw [hs.same]
    rfl
  have hhalted : s'.halted = s.halted := by
    rw [hs.same]
    rfl
  cases hlive : s.halted with
  | true =>
    rw [applyRule_of_halted _ _ _ _ _ _ hlive, applyRule_of_halted _ _ _ _ _ _ (hhalted ▸ hlive)]
    exact hs
  | false =>
    rw [applyRule_eq _ _ _ _ _ _ hlive, applyRule_eq _ _ _ _ _ _ (hhalted ▸ hlive), hsteps, hdepth,
      hflags]
    have hcounted : State.SameButTrees generation generation' (stepped s) (stepped s') :=
      hs.map stepped (fun _ _ _ => rfl) fun _ => rfl
    change Outcome.Alongside _ _ (if m.limits.maxSteps.any _ then _ else
      if m.limits.maxDepth.any _ then _ else consult m.limits.reuse _ _ _ _ _)
    split
    · exact hcounted.map (fun s => { s with exhausted := true }) (fun _ _ _ => rfl) fun _ => rfl
    · split
      · exact hcounted.map (fun s => { s with tooDeep := true }) (fun _ _ _ => rfl) fun _ => rfl
      · exact consult_keepsTables _ hcounted
          (enterRule_keepsTables (heval fuel' ()) rule ⟨id, pos, s.flags⟩ pos hcounted)

/-- The ends of two runs are the same, but for what they are told to give where no limit has been
passed. -/
theorem result_ended (hs : State.SameButTrees generation generation' s s')
    (result result' : Except Stop (List Match × Pos)) :
    (runWith.ended m s' result').result = (runWith.ended m s result).result ∨
      (runWith.ended m s result).result = result ∧
        (runWith.ended m s' result').result = result' := by
  rw [hs.same]
  unfold runWith.ended State.onto
  split_ifs
  · exact .inl rfl
  · exact .inl rfl
  · exact .inr ⟨rfl, rfl⟩

/-- What becomes of two evaluations that went side by side. -/
theorem closeRun_alongside {o o' : Outcome} {r r' : Run}
    (h : o.Alongside (State.SameButTrees generation generation') o')
    (hrun : m.closeRun o = .ok r) (hrun' : m.closeRun o' = .ok r') :
    State.SameButTrees generation generation' r.state r'.state ∧
      (r'.result = r.result ∨
        ∃ parsed parsed', r.result = .ok parsed ∧ r'.result = .ok parsed') := by
  cases o with
  | matched stop s =>
    cases o' with
    | matched stop' s' =>
      cases hrun
      cases hrun'
      rw [state_ended, state_ended]
      exact ⟨h.2, (result_ended h.2 _ _).imp_right fun hends => ⟨_, _, hends⟩⟩
    | failed s' => exact absurd h id
    | fault f => cases hrun'
  | failed s =>
    cases o' with
    | matched stop' s' => exact absurd h id
    | failed s' =>
      cases hrun
      cases hrun'
      have hfailure : s'.failure = s.failure := by
        rw [State.SameButTrees.same h]
        rfl
      have hleft : State.SameButTrees generation generation'
          { s with failure := if s.halted then s.failure else {} }
          { s' with failure := if s'.halted then s'.failure else {} } :=
        State.SameButTrees.map h
          (fun s => { s with failure := if s.halted then s.failure else {} })
          (fun _ _ _ => rfl) fun _ => rfl
      rw [state_ended, state_ended, hfailure]
      refine ⟨hfailure ▸ hleft, .inl ?_⟩
      rcases result_ended (m := m) hleft (.error (.failure s.failure))
        (.error (.failure s.failure)) with hsame | ⟨hends, hends'⟩
      · exact hfailure ▸ hsame
      · exact hfailure ▸ hends'.trans hends.symm
    | fault f => cases hrun'
  | fault f => cases hrun

/-- **Runs whose tables say the same end in the same way**, if the tables say what is so. -/
theorem runWith_of_saysSame {memo memo' : Memo} {fuel fuel' : Nat} {root : Term} {r r' : Run}
    (hsame : memo.SaysSame memo') (htrue : m.MemoTrue memo) (htrue' : m.MemoTrue memo')
    (hrun : m.runWith fuel root { memo := memo } = .ok r)
    (hrun' : m.runWith fuel' root { memo := memo' } = .ok r') :
    r'.result = r.result ∧
      State.SameButTrees memo.generation memo'.generation r.state r'.state := by
  have heval := eval_keepsTables m memo.generation memo'.generation fuel fuel' 0 root {}
    { memo := memo } { memo := memo' } trivial ⟨rfl, hsame, rfl, rfl⟩
  obtain ⟨hstate, hresult⟩ :=
    closeRun_alongside heval (by rw [← hrun, runWith_eq]) (by rw [← hrun', runWith_eq])
  refine ⟨?_, hstate⟩
  rcases hresult with heq | ⟨parsed, parsed', hparsed, hparsed'⟩
  · exact heq
  · -- what both runs match is so, and therefore the same
    have hright := (runWith_answers htrue hrun).1 (some parsed) (by rw [Run.answer?, hparsed])
    have hright' := (runWith_answers htrue' hrun').1 (some parsed') (by rw [Run.answer?, hparsed'])
    rw [hparsed, hparsed', Option.some.inj (hright'.unique hright)]

end Machine
end Peg
end Packrat
