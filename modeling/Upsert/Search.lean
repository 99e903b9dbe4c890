/-! # Bisection

`boundary p lo hi` looks for the place from which on a condition fails, when it holds up to some
place between `lo` and `hi` and not after it. The interval is halved until nothing is left of it.
-/

namespace Upsert.Search

/-- The first place from `lo` up to `hi` where the condition fails. -/
def boundary (p : Nat → Bool) (lo hi : Nat) : Nat :=
  if lo < hi then
    let middle := (lo + hi) / 2
    if p middle then boundary p (middle + 1) hi else boundary p lo middle
  else lo
termination_by hi - lo

theorem boundary_le (p : Nat → Bool) {lo hi : Nat} (h : lo ≤ hi) : boundary p lo hi ≤ hi := by
  fun_induction boundary p lo hi with
  | case1 lo hi hlt middle hp ih => exact ih (by omega)
  | case2 lo hi hlt middle hp ih =>
    have hle := ih (by omega)
    omega
  | case3 lo hi hlt => exact h

/-- Where the condition holds on an initial part only, it holds before the boundary. -/
theorem holds_of_lt_boundary {p : Nat → Bool} {lo hi : Nat}
    (hp : ∀ i j, i ≤ j → j < hi → p j = true → p i = true) {i : Nat} (hlo : lo ≤ i)
    (h : i < boundary p lo hi) : p i = true := by
  fun_induction boundary p lo hi with
  | case1 lo hi hlt middle hmiddle ih =>
    rcases Nat.lt_or_ge middle i with hi' | hi'
    · exact ih hp hi' h
    · exact hp i middle hi' (by omega) hmiddle
  | case2 lo hi hlt middle hmiddle ih =>
    exact ih (fun i j hij hj => hp i j hij (by omega)) hlo h
  | case3 lo hi hlt => omega

/-- Where the condition holds on an initial part only, it fails from the boundary on. -/
theorem fails_of_boundary_le {p : Nat → Bool} {lo hi : Nat}
    (hp : ∀ i j, i ≤ j → j < hi → p j = true → p i = true) {i : Nat}
    (h : boundary p lo hi ≤ i) (hhi : i < hi) : p i = false := by
  fun_induction boundary p lo hi with
  | case1 lo hi hlt middle hmiddle ih => exact ih hp h hhi
  | case2 lo hi hlt middle hmiddle ih =>
    rcases Nat.lt_or_ge i middle with hi' | hi'
    · exact ih (fun i j hij hj => hp i j hij (by omega)) h hi'
    · refine Bool.eq_false_iff.mpr fun hi'' => hmiddle ?_
      exact hp middle i hi' hhi hi''
  | case3 lo hi hlt => omega

end Upsert.Search
