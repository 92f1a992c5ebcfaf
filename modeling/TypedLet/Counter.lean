/-!
# The counter of steps

The steps of an evaluation are counted with a 64-bit floating-point number, which holds 53 binary
digits. One step more is exact below `2^53`. There it is half of what the last digit stands for, so the
sum is rounded back to its even neighbour, and the counter stands still.
-/

namespace TypedLet.Counter

/-- The number of binary digits that a counter holds. -/
def digits : Nat := 53

/-- The integer that stands for `n` on a counter: the nearest one with so few digits, and of two that are
equally near the one whose last digit is even. -/
def round (n : Nat) : Nat :=
  let unit := Nat.pow 2 (n.log2 + 1 - digits)
  let whole := n / unit
  let rest := n % unit
  (if 2 * rest < unit ∨ (2 * rest = unit ∧ whole % 2 = 0) then whole else whole + 1) * unit

/-- What a counter shows one step later. -/
def next (n : Nat) : Nat := round (n + 1)

/-- Where a counter stands still. -/
def most : Nat := Nat.pow 2 digits

/-- What a counter shows after this many steps, if it started from zero. -/
def shown (steps : Nat) : Nat := min steps most

theorem most_eq : most = 9007199254740992 := rfl

/-! ## One step more -/

theorem round_of_lt {n : Nat} (h : n < most) : round n = n := by
  have hlog : n.log2 < digits := by
    by_cases hn : n = 0
    · subst hn
      decide
    · exact (Nat.log2_lt hn).2 h
  have hunit : n.log2 + 1 - digits = 0 := by omega
  simp [round, hunit, Nat.mod_one]

theorem round_most : round most = most := by decide +kernel

theorem next_of_lt {n : Nat} (h : n < most) : next n = n + 1 := by
  rcases Nat.lt_or_eq_of_le (Nat.succ_le_of_lt h) with hlt | heq
  · exact round_of_lt hlt
  · rw [next, show n + 1 = most from heq, round_most]

theorem next_most : next most = most := by decide +kernel

/-! ## What a counter shows -/

@[simp] theorem shown_zero : shown 0 = 0 := rfl

/-- A counter goes from what it shows to the next number. -/
theorem shown_succ (n : Nat) : shown (n + 1) = next (shown n) := by
  rcases Nat.lt_or_ge n most with h | h
  · rw [shown, shown, Nat.min_eq_left (Nat.succ_le_of_lt h), Nat.min_eq_left (Nat.le_of_lt h),
      next_of_lt h]
  · rw [shown, shown, Nat.min_eq_right (Nat.le_succ_of_le h), Nat.min_eq_right h, next_most]

theorem shown_of_le {n : Nat} (h : n ≤ most) : shown n = n :=
  Nat.min_eq_left h

theorem shown_le (n : Nat) : shown n ≤ n :=
  Nat.min_le_left ..

theorem shown_le_most (n : Nat) : shown n ≤ most :=
  Nat.min_le_right ..

theorem shown_mono {m n : Nat} (h : m ≤ n) : shown m ≤ shown n := by
  unfold shown
  omega

/-- A counter that goes on from what it shows forgets nothing that it would show later. -/
theorem shown_shown_add (m n : Nat) : shown (shown m + n) = shown (m + n) := by
  unfold shown
  omega

theorem shown_add_shown (m n : Nat) : shown (m + shown n) = shown (m + n) := by
  unfold shown
  omega

/-- A bound below the number where a counter stands still is passed by what is shown when it is passed by
the steps. -/
theorem lt_shown_iff {bound : Int} (h : bound < most) (n : Nat) : bound < shown n ↔ bound < n := by
  unfold shown
  omega

/-- A bound from there on is never passed. -/
theorem not_lt_shown {bound : Int} (h : most ≤ bound) (n : Nat) : ¬ bound < shown n := by
  have := shown_le_most n
  omega

end TypedLet.Counter
