import Mathlib.Data.List.Basic
import Mathlib.Data.Nat.Digits.Defs
import TypedLet.Proofs.Token.Words

/-!
# Decimal digits

What a text of digits stands for is told place by place, apart from any way to compute it. A numeral
stands for its digits or for their negation, and an integer is written as a numeral that stands for it,
without zeros in front.
-/

namespace TypedLet

namespace Text

/-! ## Digits -/

/-- The number that a text of digits stands for: the digits times the powers of ten, from the right. -/
def decimal (s : String) : Nat :=
  Nat.ofDigits 10 (s.toList.reverse.map fun c => c.toNat - '0'.toNat)

theorem ofDigits_toList (s : String) : Numeral.ofDigits s.toList = decimal s := by
  simp only [decimal, Numeral.ofDigits, Nat.ofDigits_eq_foldr, List.foldr_map, List.foldr_reverse,
    Nat.cast_id, Nat.add_comm]

/-- The text is the number in decimal, without zeros in front. -/
structure IsDecimalOf (s : String) (n : Nat) : Prop where
  isDigits : isDigits s = true
  decimal_eq : decimal s = n
  no_zero_in_front : s.toList.head? = some '0' → s = "0"

theorem head?_toDigits {n : Nat} (h : 0 < n) : (Nat.toDigits 10 n).head? ≠ some '0' := by
  induction n using Nat.strongRecOn with
  | ind n ih =>
      by_cases hlt : n < 10
      · have hdigit : ∀ k < 10, 0 < k → [k.digitChar].head? ≠ some '0' := by decide
        rw [Nat.toDigits_of_lt_base hlt]
        exact hdigit n hlt h
      · have hle : 10 ≤ n := Nat.le_of_not_lt hlt
        have hfront := ih (n / 10) (Nat.div_lt_self h (by decide)) (Nat.div_pos hle (by decide))
        rw [Nat.toDigits_of_base_le (by decide) hle, List.head?_append_of_ne_nil _ Nat.toDigits_ne_nil]
        exact hfront

/-- A number is written in decimal, without zeros in front. -/
theorem isDecimalOf_toString (n : Nat) : IsDecimalOf (toString n) n where
  isDigits := by
    simp only [isDigits, Nat.toString_eq_ofList_toDigits, String.toList_ofList, Bool.and_eq_true,
      Bool.not_eq_true', List.isEmpty_eq_false_iff, List.all_eq_true]
    exact ⟨Nat.toDigits_ne_nil, fun c hc => Nat.isDigit_of_mem_toDigits (by decide) (by decide) hc⟩
  decimal_eq := by
    rw [← ofDigits_toList, Nat.toString_eq_ofList_toDigits, String.toList_ofList]
    exact Nat.ofDigitChars_ten_toDigits
  no_zero_in_front := by
    intro hzero
    rcases Nat.eq_zero_or_pos n with rfl | hn
    · rfl
    · rw [Nat.toString_eq_ofList_toDigits, String.toList_ofList] at hzero
      exact absurd hzero (head?_toDigits hn)

end Text

namespace Numeral

/-! ## Numerals -/

/-- The text is digits, with a minus sign in front or without, and stands for that integer. -/
inductive Denotes : String → Int → Prop where
  | plain {ds : String} : Text.isDigits ds = true → Denotes ds (Text.decimal ds)
  | negated {ds : String} : Text.isDigits ds = true → Denotes ("-" ++ ds) (-Text.decimal ds)

theorem Denotes.isNumeral {text : String} {n : Int} (h : Denotes text n) :
    isNumeral text = true := by
  cases h with
  | plain hds => exact Text.isNumeral_of_isDigits hds
  | negated hds =>
      rw [Numeral.isNumeral, String.toList_append]
      exact hds

theorem Denotes.value_eq {text : String} {n : Int} (h : Denotes text n) : value text = n := by
  cases h with
  | plain hds =>
      rw [value, if_neg (Text.head?_ne_minus_of_isDigits hds), Text.digits_of_isDigits hds,
        Text.ofDigits_toList]
  | @negated ds hds =>
      have hlist : ("-" ++ ds).toList = '-' :: ds.toList := String.toList_append
      rw [value, hlist, List.head?_cons, if_pos rfl, digits, Text.ofDigits_toList]

/-- The numerals are the texts that stand for an integer. -/
theorem isNumeral_iff_denotes {text : String} : isNumeral text = true ↔ ∃ n, Denotes text n := by
  constructor
  · intro h
    by_cases hminus : text.toList.head? = some '-'
    · obtain ⟨cs, hcs⟩ := List.head?_eq_some_iff.1 hminus
      have hsplit : text = "-" ++ String.ofList cs := by
        simp [← String.toList_inj, hcs]
      have hdigits : Text.isDigits (String.ofList cs) = true := by
        rw [isNumeral, hcs] at h
        rw [Text.isDigits, String.toList_ofList]
        exact h
      rw [hsplit]
      exact ⟨_, .negated hdigits⟩
    · rw [isNumeral, Text.digits_of_head?_ne_minus hminus] at h
      exact ⟨_, .plain h⟩
  · rintro ⟨n, h⟩
    exact h.isNumeral

/-- An integer is written as a numeral that stands for it. -/
theorem denotes_toString (n : Int) : Denotes (toString n) n := by
  rw [Int.toString_eq_repr, Int.repr_eq_if]
  by_cases hn : 0 ≤ n
  · have hplain := Text.isDecimalOf_toString n.toNat
    rw [if_pos hn]
    have h := Denotes.plain hplain.isDigits
    rw [hplain.decimal_eq, Int.toNat_of_nonneg hn] at h
    exact h
  · have hplain := Text.isDecimalOf_toString (-n).toNat
    rw [if_neg hn]
    have h := Denotes.negated hplain.isDigits
    rw [hplain.decimal_eq, Int.toNat_of_nonneg (by omega), Int.neg_neg] at h
    exact h

end Numeral

end TypedLet
