/-
# How far a fold counts

A fold counts the tails that it has folded, to compare the number with its limit.

| fold | tails that it folds |
| --- | --- |
| with a limit | at most so many, so a counter as wide as the limit is enough |
| without one, over tails that consume | at most as many as there are places behind the operand |
| without one | any number: `n` tails over `n + 1` names (`Machine.folded_chain`) |

So no width is enough for a fold without a limit.  There it does not matter what the counter says,
since nothing is compared with it: a counter of 16 bits that comes round to zero gives the same
outcome (`Machine.foldWord_eq`).  One that may not pass its end would cut the fold short.
-/

import Packrat.Proofs.Peg.Folding

namespace Packrat
namespace Peg
namespace Machine

/-! ## The counter -/

/-- The rounds of a fold, with the number of tails folded when they end. -/
def foldCounting (eval : Evaluator) (tails : List (Kind × Term)) (max : Option Nat) (mark : Nat) :
    Nat → Nat → Pos → State → Nat × Outcome
  | 0, folded, _, _ => (folded, .fault .outOfFuel)
  | fuel + 1, folded, pos, s =>
    if max.any (· ≤ folded) then (folded, .matched pos s)
    else
      match tailFrom eval mark pos tails s with
      | .matched stop s => foldCounting eval tails max mark fuel (folded + 1) stop s
      | .failed s => (folded, .matched pos s)
      | .fault f => (folded, .fault f)

/-- The rounds of a fold with a counter of 16 bits, which comes round to zero. -/
def foldWord (eval : Evaluator) (tails : List (Kind × Term)) (max : Option UInt16) (mark : Nat) :
    Nat → UInt16 → Pos → State → Outcome
  | 0, _, _, _ => .fault .outOfFuel
  | fuel + 1, folded, pos, s =>
    if max.any (· ≤ folded) then .matched pos s
    else
      match tailFrom eval mark pos tails s with
      | .matched stop s => foldWord eval tails max mark fuel (folded + 1) stop s
      | .failed s => .matched pos s
      | .fault f => .fault f

variable {m : Machine} {eval : Evaluator} {tails : List (Kind × Term)} {max : Option Nat}
  {mark : Nat} {pos : Pos} {s : State}

/-- Counting changes nothing. -/
theorem snd_foldCounting (fuel : Nat) : ∀ folded pos s,
    (foldCounting eval tails max mark fuel folded pos s).2 =
      foldFrom eval tails max mark fuel folded pos s := by
  induction fuel with
  | zero => exact fun _ _ _ => rfl
  | succ fuel ih =>
    intro folded pos s
    simp only [foldCounting, foldFrom]
    split
    · rfl
    · cases tailFrom eval mark pos tails s with
      | matched stop s₁ => exact ih (folded + 1) stop s₁
      | failed s₁ => rfl
      | fault f => rfl

/-- The tails that the evaluation of a fold folds: none where its operand does not match. -/
def folded (m : Machine) (fuel : Nat) (operand : Term) (tails : List (Kind × Term))
    (max : Option Nat) (pos : Pos) (s : State) : Nat :=
  match m.eval fuel operand pos s with
  | .matched mid s₁ =>
    (foldCounting (m.eval fuel) tails max s.out.size (foldRounds fuel max) 0 mid s₁).1
  | _ => 0

/-- With a limit, no more tails are folded. -/
theorem foldCounting_le {limit : Nat} (fuel : Nat) : ∀ folded pos s, folded ≤ limit →
    (foldCounting eval tails (some limit) mark fuel folded pos s).1 ≤ limit := by
  induction fuel with
  | zero => exact fun _ _ _ h => h
  | succ fuel ih =>
    intro folded pos s h
    simp only [foldCounting, Option.any_some, decide_eq_true_eq]
    split
    · exact h
    · next hmore =>
      cases tailFrom eval mark pos tails s with
      | matched stop s₁ => exact ih (folded + 1) stop s₁ (by omega)
      | failed s₁ => exact h
      | fault f => exact h

/-- **A counter of 16 bits is enough for a limit of 16 bits, and without a limit it does not
matter.** -/
theorem foldWord_eq {limit : Option UInt16} (fuel : Nat) : ∀ folded pos s,
    (∀ n, limit = some n → folded ≤ n.toNat) →
      foldWord eval tails limit mark fuel (.ofNat folded) pos s =
        foldFrom eval tails (limit.map (·.toNat)) mark fuel folded pos s := by
  induction fuel with
  | zero => exact fun _ _ _ _ => rfl
  | succ fuel ih =>
    intro folded pos s hle
    have hany : limit.any (· ≤ UInt16.ofNat folded) =
        (limit.map (·.toNat)).any (· ≤ folded) := by
      cases limit with
      | none => rfl
      | some n =>
        have hn := n.toNat_lt
        have hfolded := hle n rfl
        have hword : (UInt16.ofNat folded).toNat = folded := Nat.mod_eq_of_lt (by omega)
        simp only [Option.any_some, Option.map_some, UInt16.le_iff_toNat_le, hword]
    simp only [foldWord, foldFrom, hany]
    split
    · rfl
    · next hmore =>
      cases tailFrom eval mark pos tails s with
      | matched stop s₁ =>
        rw [show UInt16.ofNat folded + 1 = UInt16.ofNat (folded + 1) by simp]
        refine ih (folded + 1) stop s₁ fun n hn => ?_
        subst hn
        have hlt : folded < n.toNat := by simpa using hmore
        omega
      | failed s₁ => rfl
      | fault f => rfl

/-- **Tails that consume are folded at most as often as there is something left to consume**, by
whatever measure their matches go down. -/
theorem foldCounting_le_measure (hlim : m.IsUnlimited) {base : State} {μ : Pos → Nat}
    (hμ : ∀ tail ∈ tails, ∀ pos ns stop,
      Parses m base.flags (.term tail.2) pos (some (ns, stop)) → μ stop < μ pos) (n fuel : Nat) :
    ∀ folded pos s ns, base.Extends s ns → s.halted = false → m.MemoTrue s.memo →
      (foldCounting (m.eval n) tails max base.out.size fuel folded pos s).1 ≤ folded + μ pos := by
  induction fuel with
  | zero => exact fun folded _ _ _ _ _ _ => Nat.le_add_right folded _
  | succ fuel ih =>
    intro folded pos s ns hs hlive htrue
    simp only [foldCounting]
    split
    · exact Nat.le_add_right folded _
    · have htail := tailFrom_answers (m.eval_isFaithful n) pos tails s hs
      cases hround : tailFrom (m.eval n) base.out.size pos tails s with
      | matched stop s₁ =>
        rw [hround] at htail
        obtain ⟨kind, ms, hext, -, hsound, hnone⟩ := htail
        have hlive₁ := hnone hlim hlive
        obtain ⟨htrue₁, hparses⟩ := hsound hlive₁ htrue
        rcases parses_ofTails.mp hparses with ⟨heq, -⟩ | ⟨kind', ms', mid, heq, hfirst⟩
        · cases heq
        · cases heq
          obtain ⟨tail, htail, ht⟩ := hfirst.exists_mem
          have hless := hμ tail htail pos ms stop ht
          have hrest := ih (folded + 1) stop s₁ _ hext hlive₁ htrue₁
          simp only
          omega
      | failed s₁ => exact Nat.le_add_right folded _
      | fault f => exact Nat.le_add_right folded _

/-- **How far a fold counts.**  With a limit it folds no more tails than that, so that a counter of
16 bits is enough for a limit of 16 bits; without one such a counter may come round to zero, which
changes nothing.  Tails that consume what they match are folded at most as often as places are left
behind the operand, by whatever measure. -/
theorem folded_bounds (m : Machine) (fuel : Nat) (operand : Term) (tails : List (Kind × Term))
    (pos : Pos) (s : State) :
    (∀ limit, m.folded fuel operand tails (some limit) pos s ≤ limit) ∧
    (∀ limit : Option UInt16,
      m.eval (fuel + 1) (.fold operand tails (limit.map (·.toNat))) pos s =
        (m.eval fuel operand pos s).resume
          (fun mid s₁ => foldWord (m.eval fuel) tails limit s.out.size
            (foldRounds fuel (limit.map (·.toNat))) 0 mid s₁) .failed) ∧
    (m.IsUnlimited → s.halted = false → m.MemoTrue s.memo → ∀ μ : Pos → Nat,
      (∀ tail ∈ tails, ∀ pos ns stop,
        Parses m s.flags (.term tail.2) pos (some (ns, stop)) → μ stop < μ pos) →
      ∀ max mid s₁, m.eval fuel operand pos s = .matched mid s₁ →
        m.folded fuel operand tails max pos s ≤ μ mid) := by
  refine ⟨fun limit => ?_, fun limit => ?_, fun hlim hlive htrue μ hμ max mid s₁ hoperand => ?_⟩
  · rw [folded]
    cases m.eval fuel operand pos s with
    | matched mid s₁ => exact foldCounting_le _ _ _ _ (Nat.zero_le _)
    | failed s₁ => exact Nat.zero_le _
    | fault f => exact Nat.zero_le _
  · rw [eval, step_fold]
    cases m.eval fuel operand pos s with
    | matched mid s₁ => exact (foldWord_eq _ 0 mid s₁ fun _ _ => Nat.zero_le _).symm
    | failed s₁ => rfl
    | fault f => rfl
  · obtain ⟨ns, hext, hlive₁, htrue₁, -⟩ := parses_of_eval_matched hlim hlive htrue hoperand
    have hle : (foldCounting (m.eval fuel) tails max s.out.size (foldRounds fuel max) 0 mid s₁).1
        ≤ 0 + μ mid :=
      foldCounting_le_measure hlim hμ fuel _ 0 mid s₁ _ hext hlive₁ htrue₁
    simp only [folded, hoperand]
    omega

/-- The sum of three numbers folds one tail if it may fold one, and without a limit no more than
there are places behind the first number. -/
theorem folded_bounds_sum : sumMachine.folded 8 (.token .intNumber) sumTails (some 1) {} {} ≤ 1 ∧
    sumMachine.folded 8 (.token .intNumber) sumTails none {} {} ≤ sumMachine.remaining ⟨1, 0⟩ := by
  obtain ⟨hlimit, -, hconsumes⟩ := folded_bounds sumMachine 8 (.token .intNumber) sumTails {} {}
  exact ⟨hlimit 1, hconsumes ⟨rfl, rfl⟩ rfl sumMachine.memoTrue_empty sumMachine.remaining
    sumTails_consume none ⟨1, 0⟩ _ rfl⟩

/-! ## Folds that count on -/

/-- Names, each folded onto those before it. -/
def chainTails : List (Kind × Term) := [(.binExpr, .token .ident)]

/-- A machine that reads `n` names. -/
def chainMachine (n : Nat) : Machine :=
  ⟨⟨#[]⟩, (Array.replicate n ⟨.ident, "x"⟩).push ⟨.eof, ""⟩, {}⟩

theorem kindAt_chain {n i : Nat} :
    (chainMachine n).kindAt ⟨i, 0⟩ = if i < n then .ident else .eof := by
  have hsplit : Pos.isSplit ⟨i, 0⟩ = false := rfl
  have hget : (chainMachine n).tokens[i]? =
      if i = n then some ⟨.eof, ""⟩ else if i < n then some ⟨.ident, "x"⟩ else none := by
    simp [chainMachine, Array.getElem?_push, Array.getElem?_replicate]
  simp only [kindAt, hget, hsplit]
  rcases Nat.lt_trichotomy i n with hlt | rfl | hgt
  · simp [hlt, Nat.ne_of_lt hlt]
  · simp
  · simp [Nat.ne_of_gt hgt, Nat.not_lt_of_gt hgt]

/-- One name is read, and behind the last there is none. -/
theorem eval_token_chain (n fuel i : Nat) (s : State) :
    (chainMachine n).eval (fuel + 1) (.token .ident) ⟨i, 0⟩ s =
      if i < n then .matched ⟨i + 1, 0⟩ (s.push (.token i .ident none))
      else .failed (s.expect ⟨i, 0⟩ (.token .ident)) := by
  have hsplit : Pos.isSplit ⟨i, 0⟩ = false := rfl
  simp only [eval, step, readToken, kindAt_chain]
  by_cases hi : i < n
  · simp [hi, leaf, hsplit]
  · simp [hi]

/-- Every name behind the first is a round. -/
theorem foldCounting_chain (n fuel mark rounds : Nat) : ∀ folded i s, i ≤ n → n - i < rounds →
    ∃ s', foldCounting ((chainMachine n).eval (fuel + 1)) chainTails none mark rounds folded ⟨i, 0⟩ s
      = (folded + (n - i), .matched ⟨n, 0⟩ s') := by
  induction rounds with
  | zero => exact fun _ _ _ _ h => absurd h (Nat.not_lt_zero _)
  | succ rounds ih =>
    intro folded i s hi hrounds
    simp only [foldCounting, Option.any_none, chainTails, tailFrom, eval_token_chain]
    by_cases hlast : i = n
    · subst hlast
      simp
    · have hlt : i < n := by omega
      obtain ⟨s', hs'⟩ := ih (folded + 1) (i + 1) ((s.push (.token i .ident none)).wrap mark .binExpr)
        (by omega) (by omega)
      refine ⟨s', ?_⟩
      simp only [if_pos hlt]
      rw [show folded + (n - i) = folded + 1 + (n - (i + 1)) by omega]
      exact hs'

/-- **A fold counts as far as there are tokens.** -/
theorem folded_chain {n fuel : Nat} (hfuel : n < fuel) :
    (chainMachine (n + 1)).folded fuel (.token .ident) chainTails none {} {} = n ∧
      ∃ s', (chainMachine (n + 1)).eval (fuel + 1) (.fold (.token .ident) chainTails none) {} {} =
        .matched ⟨n + 1, 0⟩ s' := by
  obtain ⟨fuel, rfl⟩ := Nat.exists_eq_add_one.mpr (Nat.zero_lt_of_lt hfuel)
  have hoperand : (chainMachine (n + 1)).eval (fuel + 1) (.token .ident) {} {} =
      .matched ⟨1, 0⟩ (State.push {} (.token 0 .ident none)) := by
    rw [show ({} : Pos) = ⟨0, 0⟩ from rfl, eval_token_chain, if_pos (Nat.succ_pos n)]
  obtain ⟨s', hrounds⟩ := foldCounting_chain (n + 1) fuel 0 (fuel + 1) 0 1
    (State.push {} (.token 0 .ident none)) (by omega) (by omega)
  refine ⟨?_, s', ?_⟩
  · simp only [folded, hoperand, foldRounds]
    rw [show (State.out {}).size = 0 from rfl, hrounds]
    simp
  · rw [eval, step_fold, hoperand]
    simp only [Outcome.resume, foldRounds]
    rw [show (State.out {}).size = 0 from rfl, ← snd_foldCounting, hrounds]

/-- **No width is enough**: over 65537 names, a fold folds 65536 tails, one more than a counter of
16 bits can tell. -/
theorem folded_past_word : ¬ (∀ (m : Machine) (fuel : Nat) (operand : Term)
      (tails : List (Kind × Term)) (max : Option Nat) (pos : Pos) (s : State),
      m.folded fuel operand tails max pos s ≤ 65535) ∧
    (chainMachine 65537).folded 65537 (.token .ident) chainTails none {} {} = 65536 ∧
    ∃ s', (chainMachine 65537).eval 65538 (.fold (.token .ident) chainTails none) {} {} =
      .matched ⟨65537, 0⟩ s' := by
  obtain ⟨hcount, hmatch⟩ := @folded_chain 65536 65537 (by decide)
  refine ⟨fun h => ?_, hcount, hmatch⟩
  have hle := h (chainMachine 65537) 65537 (.token .ident) chainTails none {} {}
  rw [hcount] at hle
  exact absurd hle (by decide)

end Machine
end Peg
end Packrat
