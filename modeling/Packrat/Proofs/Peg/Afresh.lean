/-
# Evaluation comes to an end where there is an answer

A machine without limits finds every answer that the plain meaning gives, from any place and
whether it reuses what it knows or not (`Machine.eval_of_parses`).  The answer is inferred to some
depth (`Machine.answer?`), and as much fuel is enough: what a term comes to is inferred to a smaller
depth, and so is what a loop has left to do behind a round.

While a rule is being evaluated, its body waits for an answer.  That no rule is entered again rests
on depths, too: a body is evaluated as found at the smallest depth, so all that waits is not found
at the depth of what is evaluated (`Machine.Waits`), and what is entered is.
-/

import Mathlib.Data.Nat.Find
import Packrat.Proofs.Peg.Reuse
import Packrat.Proofs.Peg.Tiling

namespace Packrat
namespace Peg

/-- No more rules are being evaluated according to the second table than to the first. -/
def Memo.NoMore (memo memo' : Memo) : Prop :=
  ∀ key, memo'.get? key = some .inProgress → memo.get? key = some .inProgress

theorem Memo.NoMore.refl (memo : Memo) : memo.NoMore memo := fun _ h => h

theorem Memo.NoMore.trans {memo memo' memo'' : Memo} (h : memo.NoMore memo')
    (h' : memo'.NoMore memo'') : memo.NoMore memo'' := fun key hkey => h key (h' key hkey)

namespace Outcome

/-- Work that has begun with a table ends, at a place that a machine has, and no more rules are
being evaluated. -/
def Ends (m : Machine) (memo : Memo) : Outcome → Prop
  | .matched stop s => ¬ m.IsLost stop ∧ memo.NoMore s.memo
  | .failed s => memo.NoMore s.memo
  | .fault _ => False

/-- Work that ends with an answer, in a state that is in order. -/
def Comes (m : Machine) (f : Flags) (n : Nat) (memo : Memo) (a : Answer) : Outcome → Prop
  | .matched stop s => (∃ ns, a = some (ns, stop)) ∧ ¬ m.IsLost stop ∧ m.InOrder f n s ∧
      memo.NoMore s.memo
  | .failed s => a = none ∧ m.InOrder f n s ∧ memo.NoMore s.memo
  | .fault _ => False

variable {m : Machine} {f : Flags} {n : Nat} {memo memo' : Memo} {a : Answer} {o : Outcome}

theorem Ends.after (h : o.Ends m memo') (hmore : memo.NoMore memo') : o.Ends m memo := by
  cases o with
  | matched stop s => exact ⟨h.1, hmore.trans h.2⟩
  | failed s => exact hmore.trans h
  | fault f => exact h

/-- Going on behind work that ends with an answer. -/
theorem Comes.resume {onMatch : Pos → State → Outcome} {onFail : State → Outcome}
    (h : o.Comes m f n memo a)
    (hmatch : ∀ ns stop s, a = some (ns, stop) → ¬ m.IsLost stop → m.InOrder f n s →
      memo.NoMore s.memo → (onMatch stop s).Ends m memo)
    (hfail : ∀ s, a = none → m.InOrder f n s → memo.NoMore s.memo → (onFail s).Ends m memo) :
    (o.resume onMatch onFail).Ends m memo := by
  cases o with
  | matched stop s =>
    obtain ⟨⟨ns, ha⟩, hplace, horder, hmore⟩ := h
    exact hmatch ns stop s ha hplace horder hmore
  | failed s => exact hfail s h.1 h.2.1 h.2.2
  | fault f => exact absurd h id

/-- Work that ends comes to the answer that there is. -/
theorem Ends.comes (h : o.Ends m memo) {s : State} {P : Answer → Prop}
    (hanswers : o.Answers m s s [] P) (hlim : m.IsUnlimited) (hs : m.InOrder f n s)
    (hP : ∀ b, P b → b = a) : o.Comes m f n memo a := by
  have horder := hanswers.inOrder hlim hs
  cases o with
  | matched stop s' =>
    obtain ⟨ms, -, -, hmemo, -⟩ := hanswers
    exact ⟨⟨ms, (hP _ (hmemo horder.1.live hs.memo).2).symm⟩, h.1, horder.1, h.2⟩
  | failed s' =>
    obtain ⟨-, -, hmemo, -⟩ := hanswers
    exact ⟨(hP _ (hmemo horder.1.live hs.memo).2).symm, horder.1, h⟩
  | fault f => exact h

end Outcome

namespace Machine

variable {m : Machine} {f : Flags} {n l k : Nat} {pos : Pos} {s : State} {eval : Evaluator}

/-- A terminal that is read at a place that the machine has leaves one. -/
theorem not_isLost_of_read? {t : Term} {ns : List Match} {stop : Pos} (hpos : ¬ m.IsLost pos)
    (h : m.read? pos t = some (ns, stop)) : ¬ m.IsLost stop := by
  have hleaf : ∀ kind, some (m.leafAt pos kind) = some (ns, stop) → ¬ m.IsLost stop := by
    rintro kind heq ⟨hsplit, -⟩
    cases heq
    simp [Pos.isSplit] at hsplit
  cases t with
  | token kind =>
    simp only [read?] at h
    split at h
    · exact hleaf kind h
    · cases h
  | split kind =>
    simp only [read?] at h
    split at h
    · exact hleaf kind h
    · obtain ⟨spelling, -, h⟩ := Option.bind_eq_some_iff.mp h
      split at h
      · next hbegins =>
        cases h
        rintro ⟨-, hnone⟩
        -- a piece is cut off a token that is there
        have hnone : m.tokens[pos.index]? = none := hnone
        have htext : m.textAt pos = "" := by simp [textAt, hnone]
        have hless := hbegins.1
        rw [htext] at hless
        exact Nat.not_lt_zero _ hless
      · cases h
  | word text =>
    simp only [read?] at h
    split at h
    · exact hleaf .ident h
    · cases h
  | any =>
    simp only [read?] at h
    split at h
    · cases h
    · exact hleaf _ h
  | ended =>
    simp only [read?] at h
    split at h
    · cases h
      exact hpos
    · cases h
  | _ => cases h

/-- No match leaves the places that the machine has. -/
theorem not_isLost_of_parses {t : Term} {ns : List Match} {stop : Pos}
    (h : Parses m f (.term t) pos (some (ns, stop))) (hpos : ¬ m.IsLost pos) :
    ¬ m.IsLost stop := by
  have hspan : IsSpan fun pos _ stop => ¬ m.IsLost pos → ¬ m.IsLost stop :=
    ⟨fun _ hpos => hpos, fun hfirst hrest hpos => hrest (hfirst hpos)⟩
  exact h.spans (P := fun _ => True) hspan
    (fun _ _ _ _ _ hread hpos => not_isLost_of_read? hpos hread)
    (fun _ _ _ _ _ _ => trivial) (fun _ _ _ => trivial) ns stop rfl hpos

/-- The bodies of all rules that are being evaluated wait for answers that are not found to a depth
of `k` inferences. -/
def Waits (m : Machine) (k : Nat) (memo : Memo) : Prop :=
  ∀ key rule, memo.get? key = some .inProgress → m.grammar.rules[key.rule]? = some rule →
    ∀ j ≤ k, m.answer? j key.flags (.term rule.body) key.pos = none

theorem Waits.mono {memo : Memo} (h : m.Waits k memo) {j : Nat} (hle : j ≤ k) : m.Waits j memo :=
  fun key rule hkey hrule i hi => h key rule hkey hrule i (Nat.le_trans hi hle)

theorem Waits.noMore {memo memo' : Memo} (h : m.Waits k memo) (hmore : memo.NoMore memo') :
    m.Waits k memo' := fun key rule hkey hrule => h key rule (hmore key hkey) hrule

/-- An evaluator that comes to all answers that are found to a depth of `n` inferences. -/
def FindsAnswers (m : Machine) (n : Nat) (eval : Evaluator) : Prop :=
  ∀ k < n, ∀ t f l pos s a, m.answer? (k + 1) f (.term t) pos = some a → m.InOrder f l s →
    ¬ m.IsLost pos → m.Waits k s.memo → (eval t pos s).Comes m f l s.memo a

/-- The same, one inference deeper inside. -/
theorem FindsAnswers.inside (h : m.FindsAnswers n eval) (hk : k ≤ n) {t : Term} {a : Answer}
    (ha : m.answer? k f (.term t) pos = some a) (hs : m.InOrder f l s) (hpos : ¬ m.IsLost pos)
    (hwaits : m.Waits k s.memo) : (eval t pos s).Comes m f l s.memo a := by
  cases k with
  | zero => cases ha
  | succ k => exact h k (by omega) t f l pos s a ha hs hpos (hwaits.mono (Nat.le_succ k))

/-! ## Loops -/

section

variable (heval : m.FindsAnswers n eval)
include heval

theorem seqFrom_ends (mark : Nat) (ts : List Term) : ∀ k pos s a, k ≤ n →
    m.answer? (k + 1) f (.term (.seq ts)) pos = some a → m.InOrder f l s → ¬ m.IsLost pos →
    m.Waits k s.memo → (seqFrom eval mark ts pos s).Ends m s.memo := by
  induction ts with
  | nil => exact fun _ _ _ _ _ _ _ hpos _ => ⟨hpos, .refl _⟩
  | cons t ts ih =>
    intro k pos s a hk ha hs hpos hwaits
    rw [seqFrom_cons]
    obtain ⟨b, hb, hmore⟩ := Option.bind_eq_some_iff.mp ha
    refine (heval.inside hk hb hs hpos hwaits).resume (fun ns stop s₁ hmatch hstop hs₁ hkeep => ?_)
      fun s₁ _ _ hkeep => hkeep
    subst hmatch
    obtain ⟨c, hc, -⟩ := Option.map_eq_some_iff.mp hmore
    cases k with
    | zero => cases hc
    | succ k =>
      exact (ih k stop s₁ c (by omega) hc hs₁ hstop
        ((hwaits.mono (Nat.le_succ k)).noMore hkeep)).after hkeep

theorem choiceFrom_ends (mark : Nat) (pos : Pos) (ts : List Term) : ∀ k s a, k ≤ n →
    m.answer? (k + 1) f (.term (.choice ts)) pos = some a → m.InOrder f l s → ¬ m.IsLost pos →
    m.Waits k s.memo → (choiceFrom eval mark pos ts s).Ends m s.memo := by
  induction ts with
  | nil => exact fun _ _ _ _ _ _ _ _ => .refl _
  | cons t ts ih =>
    intro k s a hk ha hs hpos hwaits
    rw [choiceFrom_cons]
    obtain ⟨b, hb, hmore⟩ := Option.bind_eq_some_iff.mp ha
    refine (heval.inside hk hb hs hpos hwaits).resume
      (fun ns stop s₁ _ hstop _ hkeep => ⟨hstop, hkeep⟩) fun s₁ hfail hs₁ hkeep => ?_
    subst hfail
    have hmore : m.answer? k f (.term (.choice ts)) pos = some a := hmore
    cases k with
    | zero => cases hmore
    | succ k =>
      exact (ih k (s₁.truncate mark) a (by omega) hmore (hs₁.of_same rfl rfl rfl rfl) hpos
        ((hwaits.mono (Nat.le_succ k)).noMore hkeep)).after hkeep

theorem repeatFrom_ends (t : Term) (rounds : Nat) : ∀ k pos s a, k ≤ n → k ≤ rounds →
    m.answer? (k + 1) f (.term (.star t)) pos = some a → m.InOrder f l s → ¬ m.IsLost pos →
    m.Waits k s.memo → (repeatFrom eval t rounds pos s).Ends m s.memo := by
  induction rounds with
  | zero =>
    intro k pos s a _ hrounds ha
    obtain ⟨b, hb, -⟩ := Option.bind_eq_some_iff.mp ha
    obtain rfl : k = 0 := by omega
    cases hb
  | succ rounds ih =>
    intro k pos s a hk hrounds ha hs hpos hwaits
    rw [repeatFrom_succ]
    obtain ⟨b, hb, hmore⟩ := Option.bind_eq_some_iff.mp ha
    refine (heval.inside hk hb hs hpos hwaits).resume (fun ns stop s₁ hmatch hstop hs₁ hkeep => ?_)
      fun s₁ _ _ hkeep => ⟨hpos, hkeep⟩
    subst hmatch
    simp only at hmore
    split
    · exact ⟨hpos, hkeep⟩
    · next hne =>
      rw [if_neg hne] at hmore
      obtain ⟨c, hc, -⟩ := Option.map_eq_some_iff.mp hmore
      cases k with
      | zero => cases hc
      | succ k =>
        exact (ih k stop s₁ c (by omega) (by omega) hc hs₁ hstop
          ((hwaits.mono (Nat.le_succ k)).noMore hkeep)).after hkeep

/-- The tails of a fold are found one inference deeper, under their nodes. -/
theorem tailFrom_ends (mark : Nat) (pos : Pos) (tails : List (Kind × Term)) : ∀ k s a, k ≤ n →
    m.answer? (k + 1) f (.term (.ofTails tails)) pos = some a → m.InOrder f l s → ¬ m.IsLost pos →
    m.Waits k s.memo → (tailFrom eval mark pos tails s).Ends m s.memo := by
  induction tails with
  | nil => exact fun _ _ _ _ _ _ _ _ => .refl _
  | cons tail tails ih =>
    intro k s a hk ha hs hpos hwaits
    rw [tailFrom_cons]
    obtain ⟨b, hb, hmore⟩ := Option.bind_eq_some_iff.mp ha
    cases k with
    | zero => cases hb
    | succ k =>
      obtain ⟨c, hc, rfl⟩ := Option.map_eq_some_iff.mp hb
      have hwaits' := hwaits.mono (Nat.le_succ k)
      refine (heval.inside (by omega) hc hs hpos hwaits').resume
        (fun ns stop s₁ _ hstop _ hkeep => ⟨hstop, hkeep⟩) fun s₁ hfail hs₁ hkeep => ?_
      subst hfail
      exact (ih k (s₁.truncate s.out.size) a (by omega) hmore (hs₁.of_same rfl rfl rfl rfl) hpos
        (hwaits'.noMore hkeep)).after hkeep

/-- The rounds of a fold are no more than may be folded, or as many as are found. -/
theorem foldFrom_ends (hfaith : m.IsFaithful eval) (hlim : m.IsUnlimited) {base : State}
    (tails : List (Kind × Term)) (max : Option Nat) (rounds : Nat) : ∀ k folded pos s ns a, k ≤ n →
    (∀ limit, max = some limit → folded ≤ limit ∧ limit < folded + rounds) →
    (max = none → k < rounds) →
    m.answer? (k + 1) f (.rounds tails (max.map (· - folded)) ns) pos = some a →
    base.Extends s ns → m.InOrder f l s → ¬ m.IsLost pos → m.Waits k s.memo →
    (foldFrom eval tails max base.out.size rounds folded pos s).Ends m s.memo := by
  induction rounds with
  | zero =>
    intro k folded pos s ns a _ hsome hnone
    cases max with
    | none => exact absurd (hnone rfl) (Nat.not_lt_zero _)
    | some limit =>
      have hlimit := hsome limit rfl
      omega
  | succ rounds ih =>
    intro k folded pos s ns a hk hsome hnone ha hext hs hpos hwaits
    simp only [foldFrom, any_le_iff_left]
    simp only [answer?, infer] at ha
    by_cases hleft : max.map (· - folded) = some 0
    · rw [if_pos hleft]
      exact ⟨hpos, .refl _⟩
    · rw [if_neg hleft] at ha ⊢
      obtain ⟨b, hb, hmore⟩ := Option.bind_eq_some_iff.mp ha
      have hflags : base.flags = f := hext.flags.symm.trans hs.flags
      have htail := tailFrom_answers hfaith pos tails s hext
      rw [hflags] at htail
      have hparses := answer?_isSound k _ _ _ _ hb
      cases k with
      | zero => cases hb
      | succ k =>
        have hends := tailFrom_ends heval base.out.size pos tails k s b (by omega) hb hs hpos
          (hwaits.mono (Nat.le_succ k))
        cases ho : tailFrom eval base.out.size pos tails s with
        | matched mid s₁ =>
          rw [ho] at htail hends
          obtain ⟨kind, ms, hext₁, -, hmemo, hlive⟩ := htail
          have hlive₁ := hlive hlim hs.live
          obtain ⟨htrue, hmatch⟩ := hmemo hlive₁ hs.memo
          cases hparses.unique hmatch
          have hs₁ : m.InOrder f l s₁ :=
            ⟨hext₁.flags.trans hflags, (hext₁.suppress.trans hext.suppress.symm).trans hs.muted,
              hlive₁, htrue⟩
          have hnext : (max.map (· - folded)).map (· - 1) = max.map (· - (folded + 1)) := by
            simp [Option.map_map, Function.comp_def, Nat.sub_sub]
          simp only [hnext] at hmore
          refine (ih k (folded + 1) mid s₁ _ a (by omega) (fun limit hlimit => ?_)
            (fun hmax => ?_) hmore hext₁ hs₁ hends.1
            ((hwaits.mono (Nat.le_succ k)).noMore hends.2)).after hends.2
          · obtain ⟨hle, hlt⟩ := hsome limit hlimit
            have hne : limit - folded ≠ 0 := by simpa [hlimit] using hleft
            omega
          · have hlt := hnone hmax
            omega
        | failed s₁ =>
          rw [ho] at hends
          exact ⟨hpos, hends⟩
        | fault f =>
          rw [ho] at hends
          exact hends

end

/-! ## Rules and terms -/

/-- A rule's body is evaluated as found at the smallest depth. -/
theorem enterRule_ends (heval : m.FindsAnswers n eval) {id : Nat} {rule : Rule} {a : Answer}
    (hrule : m.grammar.rules[id]? = some rule) (hk : k ≤ n)
    (ha : m.answer? k f (.term rule.body) pos = some a) (hs : m.InOrder f l s)
    (hpos : ¬ m.IsLost pos) (hwaits : m.Waits k s.memo) :
    (enterRule eval rule ⟨id, pos, f⟩ pos s).Ends m s.memo := by
  classical
  have hfound : ∃ j, (m.answer? j f (.term rule.body) pos).isSome := ⟨k, by simp [ha]⟩
  obtain ⟨b, hb⟩ := Option.isSome_iff_exists.mp (Nat.find_spec hfound)
  have hleast : ∀ j, j < Nat.find hfound → m.answer? j f (.term rule.body) pos = none :=
    fun j hj => by simpa using Nat.find_min hfound hj
  have hle : Nat.find hfound ≤ k := Nat.find_min' hfound (by simp [ha])
  generalize Nat.find hfound = d at hb hleast hle
  cases d with
  | zero => cases hb
  | succ d =>
    have hinside : m.Waits d (entering pos s rule ⟨id, pos, f⟩).memo := by
      intro key rule' hkey hrule' j hj
      have hkey : (s.memo.insert ⟨id, pos, f⟩ .inProgress).get? key = some .inProgress := hkey
      rw [Memo.get?_insert] at hkey
      split at hkey
      · next heq =>
        subst heq
        cases hrule.symm.trans hrule'
        exact hleast j (by omega)
      · exact hwaits key rule' hkey hrule' j (by omega)
    have hbody := heval d (by omega) rule.body f l pos (entering pos s rule ⟨id, pos, f⟩) b hb
      (hs.entering rule ⟨id, pos, f⟩) hpos hinside
    -- what the body has left is noted in place of the mark
    have hnoted : ∀ memo' e, (entering pos s rule ⟨id, pos, f⟩).memo.NoMore memo' →
        e ≠ .inProgress → s.memo.NoMore (memo'.insert ⟨id, pos, f⟩ e) := by
      intro memo' e hmore hne key hkey
      rw [Memo.get?_insert] at hkey
      split at hkey
      · cases hkey
        exact absurd rfl hne
      · next hother =>
        have hkey := hmore key hkey
        have hkey : (s.memo.insert ⟨id, pos, f⟩ .inProgress).get? key = some .inProgress := hkey
        rwa [Memo.get?_insert, if_neg hother] at hkey
    rw [enterRule_eq]
    cases ho : eval rule.body pos (entering pos s rule ⟨id, pos, f⟩) with
    | matched stop s₁ =>
      rw [ho] at hbody
      obtain ⟨ns, hmemo⟩ := memo_leavingMatched s s₁ rule ⟨id, pos, f⟩ stop
      refine ⟨hbody.2.1, ?_⟩
      rw [hmemo]
      exact hnoted _ _ hbody.2.2.2 (by simp)
    | failed s₁ =>
      rw [ho] at hbody
      obtain ⟨failure, heq⟩ := leavingFailed_eq pos s rule ⟨id, pos, f⟩ s₁
      change Memo.NoMore _ (leavingFailed pos s rule ⟨id, pos, f⟩ s₁).memo
      rw [heq]
      exact hnoted _ _ hbody.2.2 (by simp)
    | fault f =>
      rw [ho] at hbody
      exact hbody

/-- A rule that waits for an answer is not entered again, and what is known of a rule is an
answer. -/
theorem applyRule_ends (hlim : m.IsUnlimited) (heval : m.FindsAnswers n eval) {id : Nat}
    {rule : Rule} {a : Answer}
    (hrule : m.grammar.rules[id]? = some rule) (hk : k ≤ n)
    (ha : m.answer? k f (.term rule.body) pos = some a) (hs : m.InOrder f l s)
    (hpos : ¬ m.IsLost pos) (hwaits : m.Waits k s.memo) :
    (m.applyRule eval id rule pos s).Ends m s.memo := by
  have henter := enterRule_ends (s := stepped s) heval hrule hk ha (hs.of_same rfl rfl rfl rfl) hpos
    hwaits
  rw [applyRule_of_unlimited hlim hs.live, hs.flags]
  unfold consult
  split
  · next hget =>
    have hnone := hwaits ⟨id, pos, f⟩ rule hget hrule k (Nat.le_refl k)
    rw [ha] at hnone
    cases hnone
  · exact Memo.NoMore.refl s.memo
  · next stop nodes hget _ =>
    obtain ⟨rule', b, -, hparses, heq⟩ := hs.memo _ _ hget
    obtain ⟨⟨ns, stop'⟩, rfl, hstop⟩ := Option.map_eq_some_iff.mp heq.symm
    cases hstop
    exact ⟨not_isLost_of_parses hparses hpos, .refl _⟩
  · exact henter

/-- One step more finds answers one inference deeper. -/
theorem step_findsAnswers (hlim : m.IsUnlimited) (hfaith : m.IsFaithful eval)
    (heval : m.FindsAnswers n eval) :
    m.FindsAnswers (n + 1) (m.step n eval) := by
  intro k hk t f l pos s a ha hs hpos hwaits
  have hk : k ≤ n := by omega
  have hanswers := step_isFaithful hfaith n t pos s
  rw [hs.flags] at hanswers
  refine Outcome.Ends.comes ?_ hanswers hlim hs fun b hb =>
    hb.unique (answer?_isSound (k + 1) _ _ _ _ ha)
  -- what is inside is found at depth `k`
  have hinside : ∀ body s' a l, m.answer? k f (.term body) pos = some a → m.InOrder f l s' →
      s'.memo = s.memo → (eval body pos s').Comes m f l s.memo a := by
    intro body s' a l ha hs' hmemo
    exact hmemo ▸ heval.inside hk ha hs' hpos (hmemo ▸ hwaits)
  cases t with
  | token _ | split _ | word _ | any | ended =>
    have hterminal : ∀ t : Term, t.isTerminal = true → (m.step n eval t pos s).Ends m s.memo := by
      intro t ht
      have hreads := m.step_readsAs pos s n eval ht
      cases ho : m.step n eval t pos s with
      | matched stop s' =>
        rw [ho] at hreads
        obtain ⟨ns, hread, rfl⟩ := hreads
        exact ⟨not_isLost_of_read? hpos hread, .refl _⟩
      | failed s' =>
        rw [ho] at hreads
        obtain ⟨-, failure, rfl⟩ := hreads
        exact Memo.NoMore.refl s.memo
      | fault f =>
        rw [ho] at hreads
        exact hpos hreads.1
    exact hterminal _ rfl
  | seq items => exact seqFrom_ends heval _ items k pos s a hk ha hs hpos hwaits
  | choice items => exact choiceFrom_ends heval _ pos items k s a hk ha hs hpos hwaits
  | opt body =>
    obtain ⟨b, hb, -⟩ := Option.map_eq_some_iff.mp ha
    rw [step_opt]
    exact (hinside body s b l hb hs rfl).resume (fun _ _ _ _ hstop _ hkeep => ⟨hstop, hkeep⟩)
      fun _ _ _ hkeep => ⟨hpos, hkeep⟩
  | star body => exact repeatFrom_ends heval body n k pos s a hk hk ha hs hpos hwaits
  | plus body =>
    obtain ⟨b, hb, hmore⟩ := Option.bind_eq_some_iff.mp ha
    rw [step_plus]
    refine (hinside body s b l hb hs rfl).resume (fun ns stop s₁ hmatch hstop hs₁ hkeep => ?_)
      fun _ _ _ hkeep => hkeep
    subst hmatch
    obtain ⟨c, hc, -⟩ := Option.map_eq_some_iff.mp hmore
    cases k with
    | zero => cases hc
    | succ k =>
      exact (repeatFrom_ends heval body n k stop s₁ c (by omega) (by omega) hc hs₁ hstop
        ((hwaits.mono (Nat.le_succ k)).noMore hkeep)).after hkeep
  | ahead body =>
    obtain ⟨b, hb, -⟩ := Option.map_eq_some_iff.mp ha
    rw [step_ahead]
    exact (hinside body s b l hb hs rfl).resume (fun _ _ _ _ _ _ hkeep => ⟨hpos, hkeep⟩)
      fun _ _ _ hkeep => hkeep
  | notAhead body =>
    obtain ⟨b, hb, -⟩ := Option.map_eq_some_iff.mp ha
    rw [step_notAhead]
    exact (hinside body (muted s) b (l + 1) hb hs.mute rfl).resume
      (fun _ _ _ _ _ _ hkeep => hkeep) fun _ _ _ hkeep => ⟨hpos, hkeep⟩
  | ref r =>
    simp only [answer?, infer] at ha
    cases hid : m.grammar.resolve? r with
    | none =>
      simp only [step, hid]
      exact Memo.NoMore.refl s.memo
    | some id =>
      simp only [hid] at ha
      obtain ⟨rule, hrule, hbody⟩ := Option.bind_eq_some_iff.mp ha
      obtain ⟨b, hb, -⟩ := Option.map_eq_some_iff.mp hbody
      rw [step_ref m eval n pos s hid hrule]
      exact applyRule_ends hlim heval hrule hk hb hs hpos hwaits
  | node kind body =>
    obtain ⟨b, hb, -⟩ := Option.map_eq_some_iff.mp ha
    rw [step_node]
    exact (hinside body s b l hb hs rfl).resume (fun _ _ _ _ hstop _ hkeep => ⟨hstop, hkeep⟩)
      fun _ _ _ hkeep => hkeep
  | «scoped» set clear body =>
    rw [step_scoped, hs.flags]
    exact (heval.inside (s := flagged s ((f.union set).diff clear)) hk ha
      (hs.flagged ((f.union set).diff clear)) hpos hwaits).resume
      (fun _ _ _ _ hstop _ hkeep => ⟨hstop, hkeep⟩) fun _ _ _ hkeep => hkeep
  | gate flags whenSet body =>
    simp only [answer?, infer] at ha
    rw [step_gate, hs.flags]
    split
    · next hopen =>
      rw [if_pos hopen] at ha
      have hbody := hinside body s a l ha hs rfl
      cases ho : eval body pos s with
      | matched stop s' =>
        rw [ho] at hbody
        exact ⟨hbody.2.1, hbody.2.2.2⟩
      | failed s' =>
        rw [ho] at hbody
        exact hbody.2.2
      | fault f =>
        rw [ho] at hbody
        exact hbody
    · exact Memo.NoMore.refl s.memo
  | fold operand tails max =>
    obtain ⟨b, hb, hmore⟩ := Option.bind_eq_some_iff.mp ha
    rw [step_fold]
    have hoperand := hinside operand s b l hb hs rfl
    have hext := hfaith operand pos s
    cases ho : eval operand pos s with
    | matched mid s₁ =>
      rw [ho] at hoperand hext
      obtain ⟨⟨ns, rfl⟩, hstop, hs₁, hkeep⟩ := hoperand
      obtain ⟨ms, hext, -, hmemo, -⟩ := hext
      have hparses := (hmemo hs₁.live hs.memo).2
      rw [hs.flags] at hparses
      cases (answer?_isSound k _ _ _ _ hb).unique hparses
      cases k with
      | zero => cases hb
      | succ k =>
        refine (foldFrom_ends heval hfaith hlim tails max (foldRounds n max) k 0 mid s₁ ns a
          (by omega) (fun limit hlimit => ?_) (fun hnone => ?_) ?_ (by simpa using hext) hs₁ hstop
          ((hwaits.mono (Nat.le_succ k)).noMore hkeep)).after hkeep
        · subst hlimit
          simp [foldRounds]
        · subst hnone
          simp only [foldRounds]
          omega
        · simpa using hmore
    | failed s₁ =>
      rw [ho] at hoperand
      exact hoperand.2.2
    | fault f =>
      rw [ho] at hoperand
      exact hoperand

/-- Every answer that is found to some depth is found with as much fuel. -/
theorem eval_findsAnswers (hlim : m.IsUnlimited) (n : Nat) : m.FindsAnswers n (m.eval n) := by
  induction n with
  | zero => exact fun k hk => absurd hk (Nat.not_lt_zero k)
  | succ n ih => exact step_findsAnswers hlim (m.eval_isFaithful n) ih

/-- **Without limits every answer is found.**  What the plain meaning says of a place, an evaluation
with fuel enough comes to, if no rule is being evaluated and all that is known is so. -/
theorem eval_of_parses (hlim : m.IsUnlimited) {t : Term} {a : Answer}
    (h : Parses m f (.term t) pos a) (hs : m.InOrder f l s) (hpos : ¬ m.IsLost pos)
    (hquiet : ∀ key, s.memo.get? key ≠ some .inProgress) : ∃ enough, ∀ fuel, enough ≤ fuel →
      (∀ ns stop, a = some (ns, stop) →
        ∃ s', m.eval fuel t pos s = .matched stop s' ∧ s.Extends s' ns) ∧
      (a = none → ∃ s', m.eval fuel t pos s = .failed s' ∧ s.Extends s' []) := by
  obtain ⟨n, hn⟩ := h.isFound
  refine ⟨n + 1, fun fuel hfuel => ?_⟩
  obtain ⟨k, rfl⟩ : ∃ k, fuel = k + 1 := ⟨fuel - 1, by omega⟩
  have hcomes := eval_findsAnswers hlim (k + 1) k (Nat.lt_succ_self k) t f l pos s a
    (hn (k + 1) (by omega)) hs hpos fun key rule hkey => absurd hkey (hquiet key)
  have hfaithful := m.eval_isFaithful (k + 1)
  cases ho : m.eval (k + 1) t pos s with
  | matched stop s' =>
    rw [ho] at hcomes
    obtain ⟨⟨ns, rfl⟩, -, horder, -⟩ := hcomes
    obtain ⟨ms, hext, -, hparses⟩ := hfaithful.of_matched hs.memo horder.live ho
    rw [hs.flags] at hparses
    cases h.unique hparses
    refine ⟨fun ns' stop' heq => ?_, by rintro ⟨⟩⟩
    cases heq
    exact ⟨s', rfl, hext⟩
  | failed s' =>
    rw [ho] at hcomes
    obtain ⟨rfl, horder, -⟩ := hcomes
    exact ⟨by rintro _ _ ⟨⟩, fun _ => ⟨s', rfl, (hfaithful.of_failed hs.memo horder.live ho).1⟩⟩
  | fault f =>
    rw [ho] at hcomes
    exact absurd hcomes id

/-- What the plain meaning says of the start of the tokens, a run with fuel enough comes to. -/
theorem exists_fuel_of_parses (hlim : m.IsUnlimited) {root : Term} {a : Answer}
    (h : Parses m {} (.term root) {} a) : ∃ fuel r, m.runWith fuel root {} = .ok r := by
  obtain ⟨enough, heval⟩ := eval_of_parses (s := {}) hlim h ⟨rfl, rfl, rfl, m.memoTrue_empty⟩
    (fun h => by cases h.1) fun key hkey => by simp at hkey
  obtain ⟨hmatched, hfailed⟩ := heval enough (Nat.le_refl enough)
  refine ⟨enough, ?_⟩
  simp only [runWith]
  cases a with
  | none =>
    obtain ⟨s, hs, -⟩ := hfailed rfl
    rw [show m.eval enough root {} { ({} : State) with out := #[] } = .failed s from hs]
    exact ⟨_, rfl⟩
  | some r =>
    obtain ⟨s, hs, -⟩ := hmatched r.1 r.2 rfl
    rw [show m.eval enough root {} { ({} : State) with out := #[] } = .matched r.2 s from hs]
    exact ⟨_, rfl⟩

end Machine
end Peg
end Packrat
