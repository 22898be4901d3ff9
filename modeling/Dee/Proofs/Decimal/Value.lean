import Dee.Decimal
import Mathlib.Algebra.Group.Nat.Defs

/-!
# The value of a run of digits

Reading in pieces gives the same number as reading digit by digit. So what is read is bounded by the
number of digits, and the digits of a number read back as the number.
-/

namespace Dee.Decimal

/-! ## Digit by digit -/

theorem foldl_value (ds : List Char) (n : Nat) :
    ds.foldl (fun n c => n * 10 + digitValue c) n = n * 10 ^ ds.length + valueOf ds := by
  unfold valueOf
  induction ds generalizing n with
  | nil => simp
  | cons d ds ih =>
    rw [List.foldl_cons, ih, List.foldl_cons, ih (0 * 10 + digitValue d), List.length_cons,
      Nat.pow_succ]
    simp only [Nat.add_mul, Nat.zero_mul, Nat.zero_add]
    rw [Nat.mul_assoc, Nat.mul_comm 10, Nat.add_assoc]

theorem valueOf_append (ds es : List Char) :
    valueOf (ds ++ es) = valueOf ds * 10 ^ es.length + valueOf es := by
  rw [valueOf, List.foldl_append, foldl_value]
  rfl

theorem valueOf_cons (d : Char) (ds : List Char) :
    valueOf (d :: ds) = digitValue d * 10 ^ ds.length + valueOf ds := by
  rw [valueOf, List.foldl_cons, foldl_value, Nat.zero_mul, Nat.zero_add]

theorem digitValue_lt {c : Char} (h : isDigit c = true) : digitValue c < 10 := by
  unfold isDigit at h
  rw [Bool.and_eq_true, decide_eq_true_iff, decide_eq_true_iff] at h
  have hle : c.toNat ≤ '9'.toNat := h.2
  have hnine : '9'.toNat = '0'.toNat + 9 := rfl
  unfold digitValue
  omega

theorem valueOf_lt {ds : List Char} (h : ds.all isDigit = true) : valueOf ds < 10 ^ ds.length := by
  induction ds with
  | nil => decide
  | cons d ds ih =>
    rw [List.all_cons, Bool.and_eq_true] at h
    have hd := digitValue_lt h.1
    have hds := ih h.2
    rw [valueOf_cons, List.length_cons, Nat.pow_succ]
    calc digitValue d * 10 ^ ds.length + valueOf ds
        < digitValue d * 10 ^ ds.length + 10 ^ ds.length := by omega
      _ = (digitValue d + 1) * 10 ^ ds.length := by rw [Nat.add_mul, Nat.one_mul]
      _ ≤ 10 * 10 ^ ds.length := Nat.mul_le_mul_right _ hd
      _ = 10 ^ ds.length * 10 := Nat.mul_comm _ _

/-! ## In pieces -/

theorem flatten_pieces (ds : List Char) : (pieces ds).flatten = ds := by
  fun_induction pieces ds with
  | case1 ds h => simp
  | case2 ds h ih => rw [List.flatten_cons, ih, List.take_append_drop]

theorem foldl_pieces (ps : List (List Char)) (n : Nat) :
    ps.foldl (fun n piece => n * Nat.pow 10 piece.length + valueOf piece) n =
      n * 10 ^ ps.flatten.length + valueOf ps.flatten := by
  induction ps generalizing n with
  | nil => simp [valueOf]
  | cons p ps ih =>
    rw [List.foldl_cons, ih, List.flatten_cons, valueOf_append, List.length_append, Nat.pow_add,
      Nat.add_mul, Nat.mul_assoc, Nat.add_assoc]
    rfl

/-- Reading in pieces is reading digit by digit. -/
theorem toNat_eq_valueOf (ds : List Char) : toNat ds = valueOf ds := by
  rw [toNat, foldl_pieces, flatten_pieces, Nat.zero_mul, Nat.zero_add]

/-- What is read from at most `k` digits has at most `k` digits. -/
theorem toNat_lt {ds : List Char} (h : ds.all isDigit = true) {k : Nat} (hk : ds.length ≤ k) :
    toNat ds < Nat.pow 10 k := by
  rw [toNat_eq_valueOf]
  exact Nat.lt_of_lt_of_le (valueOf_lt h) (Nat.pow_le_pow_right (by decide) hk)

/-! ## Digits of a number -/

theorem all_isDigit_digits (n : Nat) : (digits n).all isDigit = true := by
  rw [List.all_eq_true]
  intro c hc
  have hdigit := Nat.isDigit_of_mem_toDigits (by decide) (by decide) hc
  rw [Char.isDigit, Bool.and_eq_true, decide_eq_true_iff, decide_eq_true_iff] at hdigit
  rw [isDigit, Bool.and_eq_true, decide_eq_true_iff, decide_eq_true_iff]
  exact hdigit

/-- The digits of a number read back as the number. -/
theorem toNat_digits (n : Nat) : toNat (digits n) = n := by
  have hfold : valueOf (digits n) = Nat.ofDigitChars 10 (Nat.toDigits 10 n) 0 := by
    simp only [valueOf, digits, digitValue, Nat.ofDigitChars, Nat.mul_comm]
  rw [toNat_eq_valueOf, hfold, Nat.ofDigitChars_ten_toDigits]

theorem length_digits_le {n k : Nat} (hk : 0 < k) (h : n < Nat.pow 10 k) : (digits n).length ≤ k :=
  (Nat.length_toDigits_le_iff (by decide) hk).mpr h

end Dee.Decimal
