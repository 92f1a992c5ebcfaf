/-!
# Integers of 64 bits

The integers of the language lie between `-2^63` and `2^63 - 1`. An operation computes exactly and
then wraps: the result is the one integer in that range which differs from the exact one by a multiple
of `2^64`.
-/

namespace TypedLet.Word64

/-- The number of integers in the range, `2^64`. -/
def count : Nat := 18446744073709551616

/-- The least integer in the range, `-2^63`. -/
def least : Int := -9223372036854775808

/-- The greatest integer in the range, `2^63 - 1`. -/
def greatest : Int := 9223372036854775807

/-- Whether an integer lies in the range. -/
abbrev Fits (n : Int) : Prop := least ≤ n ∧ n ≤ greatest

/-- The integer in the range that differs from `n` by a multiple of `count`. -/
def wrap (n : Int) : Int := n.bmod count

theorem fits_wrap (n : Int) : Fits (wrap n) := by
  simp only [Fits, least, greatest, wrap, count, Int.bmod]
  omega

theorem wrap_of_fits {n : Int} (h : Fits n) : wrap n = n := by
  simp only [Fits, least, greatest] at h
  simp only [wrap, count, Int.bmod]
  omega

/-- Wrapping at the end is enough for a negation. -/
theorem wrap_neg_wrap (n : Int) : wrap (-wrap n) = wrap (-n) := by
  simp only [wrap, count, Int.bmod]
  omega

/-- Wrapping at the end is enough for a difference. -/
theorem wrap_sub_wrap (m n : Int) : wrap (wrap m - wrap n) = wrap (m - n) := by
  simp only [wrap, count, Int.bmod]
  omega

end TypedLet.Word64
