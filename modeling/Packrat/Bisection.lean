/-
# Bisection

A test that holds for small numbers and fails for large ones changes once.  Halving an
interval finds the place; `lt_bisect_iff` says that it is the right one.
-/

namespace Packrat

/-- The first number from `lo` on, and below `hi`, that fails a test, or `hi`. -/
def bisect (test : Nat → Bool) (lo hi : Nat) : Nat :=
  if lo < hi then
    let mid := lo + (hi - lo) / 2
    if test mid then bisect test (mid + 1) hi else bisect test lo mid
  else lo
termination_by hi - lo

/-- Bisection stays in its interval. -/
theorem bisect_mem (test : Nat → Bool) (lo hi : Nat) (h : lo ≤ hi) :
    lo ≤ bisect test lo hi ∧ bisect test lo hi ≤ hi := by
  fun_induction bisect test lo hi with
  | case1 lo hi _ mid _ ih => have := ih (by omega); omega
  | case2 lo hi _ mid _ ih => have := ih (by omega); omega
  | case3 lo hi _ => omega

/-- The numbers below the place that bisection finds are those that pass the test. -/
theorem lt_bisect_iff {test : Nat → Bool}
    (mono : ∀ i j, i ≤ j → test j = true → test i = true) {lo hi i : Nat}
    (lower : lo ≤ i) (upper : i < hi) :
    i < bisect test lo hi ↔ test i = true := by
  fun_induction bisect test lo hi with
  | case1 lo hi _ mid pass ih =>
    by_cases h : mid + 1 ≤ i
    · exact ih h upper
    · have := bisect_mem test (mid + 1) hi (by omega)
      exact ⟨fun _ => mono i mid (by omega) pass, fun _ => by omega⟩
  | case2 lo hi _ mid fail ih =>
    by_cases h : i < mid
    · exact ih lower h
    · have := bisect_mem test lo mid (by omega)
      exact ⟨fun _ => by omega, fun pass => absurd (mono mid i (by omega) pass) fail⟩
  | case3 lo hi _ => omega

end Packrat
