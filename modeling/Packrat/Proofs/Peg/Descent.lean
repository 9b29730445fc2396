/-
# No rule is entered again

A grammar without a cycle of left calls is evaluated without ever entering a rule at a place
where it is being evaluated.  While a term is evaluated, all rules being evaluated at its
place have ranks above the ranks of its left calls (`Machine.Ready`); a rule that is entered
has one of these lower ranks, and its left calls are lower still.

The same induction counts: if the run is bounded and the fuel is not less than the cost of
the term, then nothing goes wrong at all.  There is one lemma for each loop of the machine,
one for rules and one for terms.

| work | why it ends |
| --- | --- |
| a term inside another | it is smaller, or begins at a later place |
| the body of a rule | the rule has a lower rank, or begins at a later place |
| a round of a repetition | the last round has read something |
| a round of a fold | the last round has read something, or was one of a limited number |
-/

import Packrat.Proofs.Peg.Ready

namespace Packrat
namespace Peg

/-- A rule was entered while it was being evaluated. -/
def Fault.isReentry : Fault → Bool
  | reentered .. => true
  | _ => false

/-- An outcome of work that began at a place, with a table: a match goes forward, both
matches and failures keep what must be kept, and a fault is not that a rule was entered
again, and comes only of too little fuel. -/
def Outcome.Descends (m : Machine) (bounded : Prop) (pos : Pos) (mayStay : Bool) (memo : Memo)
    (enough : Prop) : Outcome → Prop
  | .matched stop s => pos.Advances stop mayStay ∧ m.IsPlace bounded stop ∧
      m.Keeps bounded memo s.memo
  | .failed s => m.Keeps bounded memo s.memo
  | .fault f => f.isReentry = false ∧ ¬ enough

namespace Outcome

variable {m : Machine} {bounded enough enough' : Prop} {pos mid : Pos} {a b : Bool}
  {memo memo' : Memo} {o : Outcome}

/-- Work behind an earlier stretch of work. -/
theorem Descends.after (h : o.Descends m bounded mid b memo' enough')
    (hadv : pos.Advances mid a) (hkeeps : m.Keeps bounded memo memo')
    (henough : enough → enough') : o.Descends m bounded pos (a && b) memo enough := by
  cases o with
  | matched stop s => exact ⟨hadv.trans h.1, h.2.1, hkeeps.trans h.2.2⟩
  | failed s => exact hkeeps.trans h
  | fault f => exact ⟨h.1, fun he => h.2 (henough he)⟩

theorem Descends.imp (h : o.Descends m bounded pos b memo' enough')
    (hstay : b = true → a = true) (hkeeps : m.Keeps bounded memo memo')
    (henough : enough → enough') : o.Descends m bounded pos a memo enough := by
  cases o with
  | matched stop s => exact ⟨h.1.imp hstay, h.2.1, hkeeps.trans h.2.2⟩
  | failed s => exact hkeeps.trans h
  | fault f => exact ⟨h.1, fun he => h.2 (henough he)⟩

/-- A terminal descends. -/
theorem ReadsAs.descends {t : Term} {s : State} (h : o.ReadsAs m pos s (m.read? pos t))
    (hplace : m.IsPlace bounded pos) (hallows : m.Allows bounded t) :
    o.Descends m bounded pos (t.nullable m.grammar.isNullable) s.memo enough := by
  cases o with
  | matched stop s' =>
    obtain ⟨ns, hread, rfl⟩ := h
    obtain ⟨hadv, hstop⟩ := Machine.read?_advances hplace hallows hread m.grammar.isNullable
    exact ⟨hadv, hstop, .refl _⟩
  | failed s' =>
    obtain ⟨-, failure, rfl⟩ := h
    exact .refl _
  | fault f => exact absurd h.1 hplace.not_isLost

/-- A term that need not match. -/
theorem Descends.opt (hplace : m.IsPlace bounded pos) (mark : Nat) :
    o.Descends m bounded pos b memo enough → Descends m bounded pos true memo enough
      (match o with
        | .failed s => .matched pos (s.truncate mark)
        | outcome => outcome) := by
  intro h
  cases o with
  | matched stop s => exact ⟨h.1.imp fun _ => rfl, h.2⟩
  | failed s => exact ⟨.inr ⟨rfl, rfl⟩, hplace, h⟩
  | fault f => exact h

/-- A term that is looked for and not read. -/
theorem Descends.ahead (hplace : m.IsPlace bounded pos) (mark : Nat) :
    o.Descends m bounded pos b memo enough → Descends m bounded pos true memo enough
      (match o with
        | .matched _ s => .matched pos (s.truncate mark)
        | .failed s => .failed (s.truncate mark)
        | .fault f => .fault f) := by
  intro h
  cases o with
  | matched stop s => exact ⟨.inr ⟨rfl, rfl⟩, hplace, h.2.2⟩
  | failed s => exact h
  | fault f => exact h

/-- A term that must not be found. -/
theorem Descends.notAhead (hplace : m.IsPlace bounded pos) (mark : Nat) :
    o.Descends m bounded pos b memo enough → Descends m bounded pos true memo enough
      (match o with
        | .matched _ s => .failed ({ s with suppress := s.suppress - 1 }.truncate mark)
        | .failed s => .matched pos ({ s with suppress := s.suppress - 1 }.truncate mark)
        | .fault f => .fault f) := by
  intro h
  cases o with
  | matched stop s => exact h.2.2
  | failed s => exact ⟨.inr ⟨rfl, rfl⟩, hplace, h⟩
  | fault f => exact h

/-- A term under a node. -/
theorem Descends.node (mark : Nat) (kind : Kind) :
    o.Descends m bounded pos b memo enough → Descends m bounded pos b memo enough
      (match o with
        | .matched stop s => .matched stop (s.wrap mark kind)
        | outcome => outcome) := by
  intro h
  cases o with
  | matched stop s => exact h
  | failed s => exact h
  | fault f => exact h

/-- A term with other flags. -/
theorem Descends.withFlags (flags : Flags) :
    o.Descends m bounded pos b memo enough → Descends m bounded pos b memo enough
      (match o with
        | .matched stop s => .matched stop { s with flags := flags }
        | .failed s => .failed { s with flags := flags }
        | .fault f => .fault f) := by
  intro h
  cases o with
  | matched stop s => exact h
  | failed s => exact h
  | fault f => exact h

end Outcome

namespace Machine

/-- What is known of the grammar of a machine. -/
structure Surveyed (m : Machine) (rank : Nat → Nat) (bounded : Prop) (largest : Nat) : Prop where
  ranking : m.grammar.IsRanking rank
  allows : ∀ (id : Nat) (rule : Rule), m.grammar.rules[id]? = some rule →
    rule.body.Every (m.Allows bounded)
  size_le : ∀ (id : Nat) (rule : Rule), m.grammar.rules[id]? = some rule → rule.body.size ≤ largest

/-- An evaluator that descends wherever it is ready for a term, and for which `fuel` is
enough when it is not less than the cost. -/
def EvalDescends (m : Machine) (rank : Nat → Nat) (bounded : Prop) (largest fuel : Nat)
    (eval : Evaluator) : Prop :=
  ∀ t pos bound s, t.Every (m.Allows bounded) → m.CallsBelow rank t bound →
    m.Ready rank bounded pos bound s.memo →
    (eval t pos s).Descends m bounded pos (t.nullable m.grammar.isNullable) s.memo
      (bounded ∧ m.cost largest pos bound t.size ≤ fuel)

variable {m : Machine} {rank : Nat → Nat} {bounded enough : Prop} {largest fuel : Nat}
  {eval : Evaluator}

theorem seqFrom_descends (hrank : m.grammar.IsRanking rank)
    (heval : m.EvalDescends rank bounded largest fuel eval) (mark : Nat) (ts : List Term) :
    ∀ pos bound s, (∀ t ∈ ts, t.Every (m.Allows bounded)) →
      m.CallsBelow rank (.seq ts) bound → m.Ready rank bounded pos bound s.memo →
      (enough → bounded ∧ ∀ t ∈ ts, m.cost largest pos bound t.size ≤ fuel) →
      (seqFrom eval mark ts pos s).Descends m bounded pos
        (Term.allNullable m.grammar.isNullable ts) s.memo enough := by
  induction ts with
  | nil => exact fun pos bound s _ _ hready _ => ⟨.inr ⟨rfl, rfl⟩, hready.place, .refl _⟩
  | cons t ts ih =>
    intro pos bound s hallows hcalls hready henough
    have hfirst : m.CallsBelow rank t bound :=
      fun r hr => hcalls r (List.mem_append_left _ hr)
    have ht := heval t pos bound s (hallows t (by simp)) hfirst hready
    simp only [seqFrom]
    cases ho : eval t pos s with
    | matched mid s₁ =>
      rw [ho] at ht
      obtain ⟨hadv, hmid, hkeeps⟩ := ht
      obtain ⟨bound', hready', hcalls', hcost⟩ := hready.after largest hrank hadv hmid hkeeps
      -- the terms behind a nullable one are left calls too
      have hrest : m.CallsBelow rank (.seq ts) bound' := by
        refine hcalls' _ fun hnull r hr => hcalls r (List.mem_append_right _ ?_)
        rwa [if_pos hnull]
      refine (ih mid bound' s₁ (fun t' h' => hallows t' (by simp [h'])) hrest hready'
        fun he => ?_).after hadv hkeeps id
      exact ⟨(henough he).1, fun t' h' =>
        (hcost (henough he).1 _).trans ((henough he).2 t' (by simp [h']))⟩
    | failed s₁ =>
      rw [ho] at ht
      exact ht
    | fault f =>
      rw [ho] at ht
      exact ⟨ht.1, fun he => ht.2 ⟨(henough he).1, (henough he).2 t (by simp)⟩⟩

theorem choiceFrom_descends (heval : m.EvalDescends rank bounded largest fuel eval) (mark : Nat)
    {pos : Pos} {bound : Nat} (ts : List Term) :
    ∀ s, (∀ t ∈ ts, t.Every (m.Allows bounded)) → m.CallsBelow rank (.choice ts) bound →
      m.Ready rank bounded pos bound s.memo →
      (enough → bounded ∧ ∀ t ∈ ts, m.cost largest pos bound t.size ≤ fuel) →
      (choiceFrom eval mark pos ts s).Descends m bounded pos
        (Term.anyNullable m.grammar.isNullable ts) s.memo enough := by
  induction ts with
  | nil => exact fun s _ _ _ _ => .refl _
  | cons t ts ih =>
    intro s hallows hcalls hready henough
    have hfirst : m.CallsBelow rank t bound :=
      fun r hr => hcalls r (List.mem_append_left _ hr)
    have hrest : m.CallsBelow rank (.choice ts) bound :=
      fun r hr => hcalls r (List.mem_append_right _ hr)
    have ht := heval t pos bound s (hallows t (by simp)) hfirst hready
    simp only [choiceFrom, Term.anyNullable]
    cases ho : eval t pos s with
    | matched stop s₁ =>
      rw [ho] at ht
      exact ⟨ht.1.imp fun h => by simp [h], ht.2⟩
    | failed s₁ =>
      rw [ho] at ht
      refine (ih (s₁.truncate mark) (fun t' h' => hallows t' (by simp [h'])) hrest
        (hready.keeps ht) fun he => ?_).imp (fun h => by simp [h]) ht id
      exact ⟨(henough he).1, fun t' h' => (henough he).2 t' (by simp [h'])⟩
    | fault f =>
      rw [ho] at ht
      exact ⟨ht.1, fun he => ht.2 ⟨(henough he).1, (henough he).2 t (by simp)⟩⟩

/-- The rounds of a repetition: each but the last reads something. -/
theorem repeatFrom_descends (hrank : m.grammar.IsRanking rank)
    (heval : m.EvalDescends rank bounded largest fuel eval) {t : Term}
    (hallows : t.Every (m.Allows bounded)) (rounds : Nat) :
    ∀ pos bound s, m.CallsBelow rank t bound → m.Ready rank bounded pos bound s.memo →
      (enough → bounded ∧ m.cost largest pos bound t.size ≤ fuel ∧ m.remaining pos < rounds) →
      (repeatFrom eval t rounds pos s).Descends m bounded pos true s.memo enough := by
  induction rounds with
  | zero => exact fun _ _ _ _ _ henough => ⟨rfl, fun he => Nat.not_lt_zero _ (henough he).2.2⟩
  | succ rounds ih =>
    intro pos bound s hcalls hready henough
    have ht := heval t pos bound s hallows hcalls hready
    simp only [repeatFrom]
    cases ho : eval t pos s with
    | matched mid s₁ =>
      rw [ho] at ht
      obtain ⟨hadv, hmid, hkeeps⟩ := ht
      by_cases hsame : mid = pos
      · subst hsame
        simp only [if_true]
        exact ⟨.inr ⟨rfl, rfl⟩, hmid, hkeeps⟩
      · simp only [hsame, if_false]
        have hlt : pos < mid := hadv.resolve_right fun h => hsame h.1
        obtain ⟨bound', hready', hcalls', hcost⟩ := hready.after largest hrank hadv hmid hkeeps
        refine ((ih mid bound' s₁ (hcalls' t fun _ => hcalls) hready' fun he => ?_).after
          hadv hkeeps id).imp (fun _ => rfl) (.refl _) id
        obtain ⟨hb, hfuel, hrounds⟩ := henough he
        have hless := remaining_lt hb hmid hlt
        exact ⟨hb, (hcost hb _).trans hfuel, by omega⟩
    | failed s₁ =>
      rw [ho] at ht
      exact ⟨.inr ⟨rfl, rfl⟩, hready.place, ht⟩
    | fault f =>
      rw [ho] at ht
      exact ⟨ht.1, fun he => ht.2 ⟨(henough he).1, (henough he).2.1⟩⟩

/-- Some tail of a fold is nullable. -/
def anyTailNullable (g : Grammar) (tails : List (Kind × Term)) : Bool :=
  tails.any fun tail => tail.2.nullable g.isNullable

theorem tailFrom_descends (heval : m.EvalDescends rank bounded largest fuel eval) (mark : Nat)
    {pos : Pos} {bound : Nat} (tails : List (Kind × Term)) :
    ∀ s, (∀ tail ∈ tails, tail.2.Every (m.Allows bounded)) →
      (∀ tail ∈ tails, m.CallsBelow rank tail.2 bound) → m.Ready rank bounded pos bound s.memo →
      (enough → bounded ∧ ∀ tail ∈ tails, m.cost largest pos bound tail.2.size ≤ fuel) →
      (tailFrom eval mark pos tails s).Descends m bounded pos
        (anyTailNullable m.grammar tails) s.memo enough := by
  induction tails with
  | nil => exact fun s _ _ _ _ => .refl _
  | cons tail tails ih =>
    obtain ⟨kind, t⟩ := tail
    intro s hallows hcalls hready henough
    have ht := heval t pos bound s (hallows (kind, t) (by simp)) (hcalls (kind, t) (by simp)) hready
    simp only [tailFrom, anyTailNullable, List.any_cons]
    cases ho : eval t pos s with
    | matched stop s₁ =>
      rw [ho] at ht
      exact ⟨ht.1.imp fun h => by simp [h], ht.2⟩
    | failed s₁ =>
      rw [ho] at ht
      refine (ih (s₁.truncate s.out.size) (fun tail h => hallows tail (by simp [h]))
        (fun tail h => hcalls tail (by simp [h])) (hready.keeps ht) fun he => ?_).imp
        (fun h => by simpa using .inr (by simpa [anyTailNullable] using h)) ht id
      exact ⟨(henough he).1, fun tail h => (henough he).2 tail (by simp [h])⟩
    | fault f =>
      rw [ho] at ht
      exact ⟨ht.1, fun he => ht.2 ⟨(henough he).1, (henough he).2 (kind, t) (by simp)⟩⟩

/-- There are rounds enough for a fold: no more are allowed, or each reads something and
there are more than places ahead. -/
def CanFold (m : Machine) (tails : List (Kind × Term)) (max : Option Nat) (rounds folded : Nat)
    (pos : Pos) : Prop :=
  match max with
  | some limit => folded ≤ limit ∧ limit < folded + rounds
  | none => anyTailNullable m.grammar tails = false ∧ m.remaining pos < rounds

/-- The rounds of a fold. -/
theorem foldFrom_descends (hrank : m.grammar.IsRanking rank)
    (heval : m.EvalDescends rank bounded largest fuel eval) {tails : List (Kind × Term)}
    {max : Option Nat} (hallows : ∀ tail ∈ tails, tail.2.Every (m.Allows bounded)) (mark : Nat)
    (rounds : Nat) :
    ∀ folded pos bound s, (∀ tail ∈ tails, m.CallsBelow rank tail.2 bound) →
      m.Ready rank bounded pos bound s.memo →
      (enough → bounded ∧ (∀ tail ∈ tails, m.cost largest pos bound tail.2.size ≤ fuel) ∧
        m.CanFold tails max rounds folded pos) →
      (foldFrom eval tails max mark rounds folded pos s).Descends m bounded pos true s.memo
        enough := by
  induction rounds with
  | zero =>
    refine fun folded pos bound s _ _ henough => ⟨rfl, fun he => ?_⟩
    have hfold := (henough he).2.2
    cases max with
    | none => exact Nat.not_lt_zero _ hfold.2
    | some limit => exact absurd hfold.2 (Nat.not_lt_of_le hfold.1)
  | succ rounds ih =>
    intro folded pos bound s hcalls hready henough
    simp only [foldFrom]
    split
    · exact ⟨.inr ⟨rfl, rfl⟩, hready.place, .refl _⟩
    · next hmax =>
      have ht : (tailFrom eval mark pos tails s).Descends m bounded pos
          (anyTailNullable m.grammar tails) s.memo enough :=
        tailFrom_descends heval mark tails s hallows hcalls hready fun he =>
          ⟨(henough he).1, (henough he).2.1⟩
      cases ho : tailFrom eval mark pos tails s with
      | matched mid s₁ =>
        rw [ho] at ht
        obtain ⟨hadv, hmid, hkeeps⟩ := ht
        obtain ⟨bound', hready', hcalls', hcost⟩ := hready.after largest hrank hadv hmid hkeeps
        refine ((ih (folded + 1) mid bound' s₁ (fun tail h => hcalls' tail.2 fun _ => hcalls tail h)
          hready' fun he => ?_).after hadv hkeeps id).imp (fun _ => rfl) (.refl _) id
        obtain ⟨hb, hfuel, hfold⟩ := henough he
        refine ⟨hb, fun tail h => (hcost hb _).trans (hfuel tail h), ?_⟩
        cases max with
        | none =>
          obtain ⟨hnull, hrounds⟩ := hfold
          have hlt : pos < mid := hadv.resolve_right fun h => by simp [hnull] at h
          have hless := remaining_lt hb hmid hlt
          exact ⟨hnull, by omega⟩
        | some limit =>
          have hleft : folded < limit := by simpa using hmax
          have hlimit : limit < folded + (rounds + 1) := hfold.2
          exact ⟨hleft, by omega⟩
      | failed s₁ =>
        rw [ho] at ht
        exact ⟨.inr ⟨rfl, rfl⟩, hready.place, ht⟩
      | fault f =>
        rw [ho] at ht
        exact ht

/-- The body of a rule is evaluated below the rule's own rank. -/
theorem enterRule_descends (hm : m.Surveyed rank bounded largest)
    (heval : m.EvalDescends rank bounded largest fuel eval) {id : Nat} {rule : Rule} {pos : Pos}
    {bound : Nat} {s : State} (hrule : m.grammar.rules[id]? = some rule)
    (hrank : rank id < bound) (hready : m.Ready rank bounded pos bound s.memo)
    (henough : enough → bounded ∧ m.cost largest pos (rank id) rule.body.size ≤ fuel) :
    (enterRule eval rule ⟨id, pos, s.flags⟩ pos s).Descends m bounded pos
      (m.grammar.isNullable (.linked id)) s.memo enough := by
  have hnew : s.memo.get? ⟨id, pos, s.flags⟩ ≠ some .inProgress :=
    hready.get?_ne ⟨id, pos, s.flags⟩ rfl hrank
  simp only [enterRule]
  generalize hentered : State.mk s.out s.flags s.failure _ s.suppress s.steps s.exhausted
    (s.depth + 1) s.tooDeep (s.memo.insert ⟨id, pos, s.flags⟩ .inProgress) = entered
  have hmemo : entered.memo = s.memo.insert ⟨id, pos, s.flags⟩ .inProgress := by rw [← hentered]
  have hcalls : m.CallsBelow rank rule.body (rank id) := hm.ranking.call id rule hrule
  have hbody := heval rule.body pos (rank id) entered (hm.allows id rule hrule) hcalls
    (hmemo ▸ hready.enter ⟨id, pos, s.flags⟩ rfl hrank)
  cases ho : eval rule.body pos entered with
  | matched stop s₁ =>
    rw [ho] at hbody
    obtain ⟨hadv, hstop, hkeeps⟩ := hbody
    rw [hmemo] at hkeeps
    have hnull : rule.body.nullable m.grammar.isNullable = true →
        m.grammar.isNullable (.linked id) = true := Grammar.isNullable_of_body hrule
    have hforward : ∀ ns, m.IsForward bounded ⟨id, pos, s.flags⟩ (.matched stop ns) := by
      rintro ns stop' ns' ⟨⟩
      exact ⟨hadv.imp hnull, hstop⟩
    refine ⟨hadv.imp hnull, hstop, ?_⟩
    cases rule.kind with
    | none => exact hkeeps.noted hnew (by simp) (hforward _)
    | some kind => exact hkeeps.noted hnew (by simp) (hforward _)
  | failed s₁ =>
    rw [ho] at hbody
    have hkeeps : m.Keeps bounded _ s₁.memo := hbody
    rw [hmemo] at hkeeps
    have hforward : m.IsForward bounded ⟨id, pos, s.flags⟩ .failed := by
      rintro stop ns ⟨⟩
    cases rule.label with
    | none => exact hkeeps.noted hnew (by simp) hforward
    | some label =>
      obtain ⟨failure, hnotes⟩ := State.notes_expectLabel
        (State.truncate { s₁ with contexts := s.contexts, depth := s₁.depth - 1 } s.out.size)
        pos s.failure label
      simp only [hnotes]
      exact hkeeps.noted hnew (by simp) hforward
  | fault f =>
    rw [ho] at hbody
    exact ⟨hbody.1, fun he => hbody.2 (henough he)⟩

/-- A rule of lower rank is applied: entered, or answered from the table. -/
theorem applyRule_descends (hm : m.Surveyed rank bounded largest)
    (heval : m.EvalDescends rank bounded largest fuel eval) {id : Nat} {rule : Rule} {pos : Pos}
    {bound : Nat} {s : State} (hrule : m.grammar.rules[id]? = some rule)
    (hrank : rank id < bound) (hready : m.Ready rank bounded pos bound s.memo)
    (henough : enough → bounded ∧ m.cost largest pos (rank id) rule.body.size ≤ fuel) :
    (m.applyRule eval id rule pos s).Descends m bounded pos
      (m.grammar.isNullable (.linked id)) s.memo enough := by
  unfold applyRule
  split
  · exact .refl _
  · simp only
    split
    · exact .refl _
    · split
      · exact .refl _
      · have henter :=
          enterRule_descends (s := { s with steps := s.steps + 1 }) hm heval hrule hrank
          hready henough
        split
        · exact henter
        · next hget => exact absurd hget (hready.get?_ne ⟨id, pos, s.flags⟩ rfl hrank)
        · split
          · exact .refl _
          · exact henter
        · next stop nodes hget =>
          split
          · obtain ⟨hadv, hstop⟩ := hready.forward _ _ hget stop nodes rfl
            exact ⟨hadv, hstop, .refl _⟩
          · exact henter

/-! ## Terms -/

section

variable {pos : Pos} {bound : Nat} {s : State}

/-- A term right inside another costs less, by as much fuel as a step takes. -/
theorem cost_le_of_child {t c : Term} (hc : c ∈ t.children)
    (henough : bounded ∧ m.cost largest pos bound t.size ≤ fuel + 1) :
    bounded ∧ m.cost largest pos bound c.size ≤ fuel := by
  obtain ⟨hb, hfuel⟩ := henough
  have hsize := Term.size_lt hc
  rw [cost] at hfuel ⊢
  exact ⟨hb, by omega⟩

/-- A term right inside another, evaluated at the same place with the same table. -/
theorem child_descends (heval : m.EvalDescends rank bounded largest fuel eval) {t c : Term}
    (hc : c ∈ t.children) (hallows : t.Every (m.Allows bounded)) (hcalls : m.CallsBelow rank c bound)
    (hready : m.Ready rank bounded pos bound s.memo) :
    (eval c pos s).Descends m bounded pos (c.nullable m.grammar.isNullable) s.memo
      (bounded ∧ m.cost largest pos bound t.size ≤ fuel + 1) :=
  (heval c pos bound s (hallows.child hc) hcalls hready).imp id (.refl _) (cost_le_of_child hc)

/-- A term, and repetitions of it behind it. -/
theorem plus_descends (hm : m.Surveyed rank bounded largest)
    (heval : m.EvalDescends rank bounded largest fuel eval) {body : Term}
    (hallows : (Term.plus body).Every (m.Allows bounded))
    (hcalls : m.CallsBelow rank (.plus body) bound)
    (hready : m.Ready rank bounded pos bound s.memo) :
    (m.step fuel eval (.plus body) pos s).Descends m bounded pos
      (body.nullable m.grammar.isNullable) s.memo
      (bounded ∧ m.cost largest pos bound (Term.plus body).size ≤ fuel + 1) := by
  have hmem : body ∈ (Term.plus body).children := by simp [Term.children]
  have hbody := child_descends heval hmem hallows hcalls hready
  simp only [step]
  cases ho : eval body pos s with
  | matched mid s₁ =>
    rw [ho] at hbody
    obtain ⟨hadv, hmid, hkeeps⟩ := hbody
    obtain ⟨bound', hready', hcalls', hless⟩ := hready.after largest hm.ranking hadv hmid hkeeps
    refine ((repeatFrom_descends hm.ranking heval (hallows.child hmem) fuel mid bound' s₁
      (hcalls' body fun _ => hcalls) hready' fun he => ?_).after hadv hkeeps id).imp
      (fun h => by simpa using h) (.refl _) id
    have hfuel := (hless he.1 _).trans (cost_le_of_child hmem he).2
    exact ⟨he.1, hfuel, remaining_lt_of_cost_le hfuel⟩
  | failed s₁ =>
    rw [ho] at hbody
    exact hbody
  | fault f =>
    rw [ho] at hbody
    exact hbody

/-- A reference to a rule. -/
theorem ref_descends (hm : m.Surveyed rank bounded largest)
    (heval : m.EvalDescends rank bounded largest fuel eval) {r : RuleRef}
    (hallows : (Term.ref r).Every (m.Allows bounded))
    (hcalls : m.CallsBelow rank (.ref r) bound)
    (hready : m.Ready rank bounded pos bound s.memo) :
    (m.step fuel eval (.ref r) pos s).Descends m bounded pos (m.grammar.isNullable r) s.memo
      (bounded ∧ m.cost largest pos bound (Term.ref r).size ≤ fuel + 1) := by
  simp only [step]
  cases hid : m.grammar.resolve? r with
  | none => exact .refl _
  | some id =>
    simp only
    cases hrule : m.grammar.rules[id]? with
    | none =>
      refine ⟨rfl, fun he => ?_⟩
      have hlt : id < m.grammar.rules.size := by
        simpa [Grammar.isSteady, hid] using hallows.self.steady he.1
      rw [Array.getElem?_eq_getElem hlt] at hrule
      cases hrule
    | some rule =>
      have hlt := (Array.getElem?_eq_some_iff.mp hrule).1
      have hrank : rank id < bound := hcalls r (by simp [Term.leftCalls]) id hid hlt
      refine (applyRule_descends hm heval hrule hrank hready fun he => ⟨he.1, ?_⟩).imp
        (fun hnull => ?_) (.refl _) fun he => he
      · exact Nat.le_of_lt_succ ((cost_body_lt hrank (hm.size_le id rule hrule)).trans_le he.2)
      · rwa [Grammar.isNullable_eq_linked hid]

/-- The rounds of a fold, behind its operand. -/
theorem fold_descends (hm : m.Surveyed rank bounded largest)
    (heval : m.EvalDescends rank bounded largest fuel eval) {operand : Term}
    {tails : List (Kind × Term)} {max : Option Nat}
    (hallows : (Term.fold operand tails max).Every (m.Allows bounded))
    (hcalls : m.CallsBelow rank (.fold operand tails max) bound)
    (hready : m.Ready rank bounded pos bound s.memo) :
    (m.step fuel eval (.fold operand tails max) pos s).Descends m bounded pos
      (operand.nullable m.grammar.isNullable) s.memo
      (bounded ∧ m.cost largest pos bound (Term.fold operand tails max).size ≤ fuel + 1) := by
  have hmem : operand ∈ (Term.fold operand tails max).children := by simp [Term.children]
  have htail : ∀ tail ∈ tails, tail.2 ∈ (Term.fold operand tails max).children :=
    fun tail h => List.mem_cons_of_mem _ (List.mem_map_of_mem h)
  have hfirst : m.CallsBelow rank operand bound :=
    fun r hr => hcalls r (List.mem_append_left _ hr)
  have hoperand := child_descends heval hmem hallows hfirst hready
  simp only [step]
  cases ho : eval operand pos s with
  | matched mid s₁ =>
    rw [ho] at hoperand
    obtain ⟨hadv, hmid, hkeeps⟩ := hoperand
    obtain ⟨bound', hready', hcalls', hless⟩ := hready.after largest hm.ranking hadv hmid hkeeps
    -- tails behind a nullable operand are left calls too
    have hrest : ∀ tail ∈ tails, m.CallsBelow rank tail.2 bound' := by
      refine fun tail h => hcalls' tail.2 fun hnull r hr => hcalls r (List.mem_append_right _ ?_)
      rw [if_pos hnull]
      exact Term.mem_leftCallsOfTails h hr
    refine ((foldFrom_descends hm.ranking heval (fun tail h => hallows.child (htail tail h)) _ _ 0
      mid bound' s₁ hrest hready' fun he => ?_).after hadv hkeeps id).imp
      (fun h => by simpa using h) (.refl _) id
    refine ⟨he.1, fun tail h => ?_, ?_⟩
    · exact (hless he.1 _).trans (cost_le_of_child (htail tail h) he).2
    · cases max with
      | some limit =>
        have hrounds : limit < 0 + (limit + 1) := by omega
        exact ⟨Nat.zero_le _, hrounds⟩
      | none =>
        have hsteady := hallows.self.steady he.1
        have hfuel := (hless he.1 _).trans (cost_le_of_child hmem he).2
        refine ⟨?_, remaining_lt_of_cost_le hfuel⟩
        simpa [Grammar.isSteady, anyTailNullable] using hsteady
  | failed s₁ =>
    rw [ho] at hoperand
    exact hoperand
  | fault f =>
    rw [ho] at hoperand
    exact hoperand

end

/-- **One step of evaluation descends** when the evaluation of the terms inside does, and
needs one more of fuel. -/
theorem step_descends (hm : m.Surveyed rank bounded largest)
    (heval : m.EvalDescends rank bounded largest fuel eval) :
    m.EvalDescends rank bounded largest (fuel + 1) (m.step fuel eval) := by
  intro t pos bound s hallows hcalls hready
  have hchild : ∀ c ∈ t.children, m.CallsBelow rank c bound → ∀ s' : State, s'.memo = s.memo →
      (eval c pos s').Descends m bounded pos (c.nullable m.grammar.isNullable) s.memo
        (bounded ∧ m.cost largest pos bound t.size ≤ fuel + 1) := by
    intro c hc hcalls s' hs'
    rw [← hs'] at hready ⊢
    exact child_descends heval hc hallows hcalls hready
  cases t with
  | token _ | split _ | word _ | any | ended =>
    exact (m.step_readsAs pos s fuel eval rfl).descends hready.place hallows.self
  | seq items =>
    exact seqFrom_descends hm.ranking heval _ items pos bound s (fun t ht => hallows.child ht)
      hcalls hready fun he => ⟨he.1, fun t ht => (cost_le_of_child ht he).2⟩
  | choice alternatives =>
    exact choiceFrom_descends heval _ alternatives s (fun t ht => hallows.child ht) hcalls hready
      fun he => ⟨he.1, fun t ht => (cost_le_of_child ht he).2⟩
  | opt body =>
    exact .opt hready.place _ (hchild body (List.mem_singleton_self body) hcalls s rfl)
  | star body =>
    have hmem : body ∈ (Term.star body).children := by simp [Term.children]
    refine repeatFrom_descends hm.ranking heval (hallows.child hmem) fuel pos bound s hcalls hready
      fun he => ?_
    obtain ⟨hb, hfuel⟩ := cost_le_of_child hmem he
    exact ⟨hb, hfuel, remaining_lt_of_cost_le hfuel⟩
  | plus body => exact plus_descends hm heval hallows hcalls hready
  | ahead body =>
    exact .ahead hready.place _ (hchild body (List.mem_singleton_self body) hcalls s rfl)
  | notAhead body =>
    exact .notAhead hready.place _ (hchild body (List.mem_singleton_self body) hcalls
      { s with suppress := s.suppress + 1 } rfl)
  | ref r => exact ref_descends hm heval hallows hcalls hready
  | node kind body =>
    exact .node _ kind (hchild body (List.mem_singleton_self body) hcalls s rfl)
  | «scoped» set clear body =>
    exact .withFlags s.flags (hchild body (List.mem_singleton_self body) hcalls
      { s with flags := (s.flags.union set).diff clear } rfl)
  | gate flags whenSet body =>
    simp only [step]
    split
    · exact hchild body (List.mem_singleton_self body) hcalls s rfl
    · exact .refl _
  | fold operand tails max => exact fold_descends hm heval hallows hcalls hready

/-- **Every evaluation descends**, whatever fuel it is given. -/
theorem eval_descends (hm : m.Surveyed rank bounded largest) (fuel : Nat) :
    m.EvalDescends rank bounded largest fuel (m.eval fuel) := by
  induction fuel with
  | zero =>
    refine fun t pos bound s _ _ _ => ⟨rfl, fun he => ?_⟩
    exact Nat.not_lt_zero _ (remaining_lt_of_cost_le he.2)
  | succ fuel ih => exact step_descends hm ih

end Machine
end Peg
end Packrat
