import Dee.Proofs.Decimal.Value

/-!
# Canonical decimal text

A number has one numeral: digits that have the value of the number by their places, with no zero at
the head of others. Writing a number chunk by chunk gives its numeral, and reading digits piece by
piece gives their value by places. So each undoes the other, up to zeros at the head.

Main statement: `decimal_text_is_exact`.
-/

namespace Dee.Decimal

/-! ## Values by places -/

/-- The value of digits by their places: each digit counts as often as the power of ten for the
number of digits behind it. -/
def placeValue : List Char → Nat
  | [] => 0
  | d :: ds => digitValue d * 10 ^ ds.length + placeValue ds

theorem valueOf_eq_placeValue (ds : List Char) : valueOf ds = placeValue ds := by
  induction ds with
  | nil => rfl
  | cons d ds ih => rw [valueOf_cons, ih, placeValue]

theorem toNat_eq_placeValue (ds : List Char) : toNat ds = placeValue ds :=
  (toNat_eq_valueOf ds).trans (valueOf_eq_placeValue ds)

theorem placeValue_digits (n : Nat) : placeValue (digits n) = n := by
  rw [← toNat_eq_placeValue, toNat_digits]

theorem placeValue_append (ds es : List Char) :
    placeValue (ds ++ es) = placeValue ds * 10 ^ es.length + placeValue es := by
  simp only [← valueOf_eq_placeValue, valueOf_append]

theorem placeValue_lt {ds : List Char} (h : ds.all isDigit = true) :
    placeValue ds < 10 ^ ds.length :=
  valueOf_eq_placeValue ds ▸ valueOf_lt h

/-- A zero at the head adds nothing. -/
theorem placeValue_zero_cons (ds : List Char) : placeValue ('0' :: ds) = placeValue ds := by
  have hzero : digitValue '0' = 0 := rfl
  rw [placeValue, hzero, Nat.zero_mul, Nat.zero_add]

theorem placeValue_replicate_zero (k : Nat) : placeValue (List.replicate k '0') = 0 := by
  induction k with
  | zero => rfl
  | succ k ih => rw [List.replicate_succ, placeValue_zero_cons, ih]

theorem digitValue_inj {c d : Char} (hc : isDigit c = true) (hd : isDigit d = true)
    (h : digitValue c = digitValue d) : c = d := by
  simp only [isDigit, Bool.and_eq_true, decide_eq_true_iff] at hc hd
  have hlow : '0'.toNat ≤ c.toNat ∧ '0'.toNat ≤ d.toNat := ⟨hc.1, hd.1⟩
  unfold digitValue at h
  exact Char.toNat_inj.mp (by omega)

/-- A digit other than zero at the head makes the value too large for the digits behind it. -/
theorem pow_le_placeValue {d : Char} (hd : isDigit d = true) (hne : d ≠ '0') (ds : List Char) :
    10 ^ ds.length ≤ placeValue (d :: ds) := by
  have hzero : digitValue d ≠ 0 := fun h => hne (digitValue_inj hd rfl h)
  calc 10 ^ ds.length = 1 * 10 ^ ds.length := (Nat.one_mul _).symm
    _ ≤ digitValue d * 10 ^ ds.length := Nat.mul_le_mul_right _ (Nat.pos_of_ne_zero hzero)
    _ ≤ placeValue (d :: ds) := Nat.le_add_right _ _

/-- The first digit is the quotient by the power of ten for the number of digits behind it. -/
theorem placeValue_cons_div (d : Char) {ds : List Char} (h : ds.all isDigit = true) :
    placeValue (d :: ds) / 10 ^ ds.length = digitValue d := by
  rw [placeValue, Nat.add_comm, Nat.add_mul_div_right _ _ (Nat.pow_pos (by decide)),
    Nat.div_eq_of_lt (placeValue_lt h), Nat.zero_add]

/-- Runs of digits of one length have different values. -/
theorem placeValue_inj {ds es : List Char} (hds : ds.all isDigit = true)
    (hes : es.all isDigit = true)
    (hlength : ds.length = es.length) (h : placeValue ds = placeValue es) : ds = es := by
  induction ds generalizing es with
  | nil => exact (List.length_eq_zero_iff.mp hlength.symm).symm
  | cons d ds ih =>
    cases es with
    | nil => cases hlength
    | cons e es =>
      rw [List.all_cons, Bool.and_eq_true] at hds hes
      have hlength' : ds.length = es.length := Nat.succ.inj hlength
      have hhead : digitValue d = digitValue e := by
        rw [← placeValue_cons_div d hds.2, ← placeValue_cons_div e hes.2, h, hlength']
      rw [placeValue, placeValue, hhead, hlength'] at h
      rw [digitValue_inj hds.1 hes.1 hhead, ih hds.2 hes.2 hlength' (Nat.add_left_cancel h)]

/-! ## Numerals -/

/-- Digits are the numeral of a number: there is one at least, they have the value of the number,
and no zero stands at the head of others. -/
structure IsNumeral (ds : List Char) (n : Nat) : Prop where
  nonempty : ds ≠ []
  digits : ds.all isDigit = true
  value : placeValue ds = n
  head : ds.head? = some '0' → ds = ['0']

theorem isNumeral_digits (n : Nat) : IsNumeral (digits n) n where
  nonempty := Nat.toDigits_ne_nil
  digits := all_isDigit_digits n
  value := placeValue_digits n
  head := by
    intro hhead
    obtain ⟨ds, hds⟩ := List.head?_eq_some_iff.mp hhead
    have hall := all_isDigit_digits n
    have hvalue := placeValue_digits n
    rw [hds] at hall hvalue ⊢
    rw [List.all_cons, Bool.and_eq_true] at hall
    rw [placeValue_zero_cons] at hvalue
    cases hlength : ds.length with
    | zero => rw [List.length_eq_zero_iff.mp hlength]
    | succ k =>
      -- The digits behind the zero would be enough, but no shorter run has the value.
      have hlt := placeValue_lt hall.2
      rw [hvalue] at hlt
      have hshort := length_digits_le (by omega : 0 < ds.length) hlt
      rw [hds, List.length_cons] at hshort
      omega

/-- No numeral of a number is longer than another. -/
theorem IsNumeral.length_le {ds es : List Char} {n : Nat} (hds : IsNumeral ds n)
    (hes : IsNumeral es n) : ds.length ≤ es.length := by
  obtain ⟨d, ds, rfl⟩ := List.exists_cons_of_ne_nil hds.nonempty
  by_cases hd : d = '0'
  · rw [hds.head (congrArg some hd)]
    exact List.length_pos_iff.mpr hes.nonempty
  · have hdigits := hds.digits
    rw [List.all_cons, Bool.and_eq_true] at hdigits
    have hlow := pow_le_placeValue hdigits.1 hd ds
    have hhigh := placeValue_lt hes.digits
    rw [hds.value] at hlow
    rw [hes.value] at hhigh
    exact (Nat.pow_lt_pow_iff_right (by decide)).mp (Nat.lt_of_le_of_lt hlow hhigh)

/-- A number has one numeral. -/
theorem IsNumeral.unique {ds es : List Char} {n : Nat} (hds : IsNumeral ds n)
    (hes : IsNumeral es n) :
    ds = es :=
  placeValue_inj hds.digits hes.digits (Nat.le_antisymm (hds.length_le hes) (hes.length_le hds))
    (hds.value.trans hes.value.symm)

/-! ## Writing in chunks -/

theorem length_paddedDigits {n : Nat} (h : n < chunkBase) :
    (paddedDigits n).length = chunkDigits := by
  unfold chunkBase at h
  have hlength := length_digits_le (by decide) h
  unfold paddedDigits
  rw [List.length_append, List.length_replicate]
  omega

theorem all_isDigit_paddedDigits (n : Nat) : (paddedDigits n).all isDigit = true := by
  unfold paddedDigits
  rw [List.all_append, all_isDigit_digits, Bool.and_true, List.all_replicate]
  split <;> rfl

theorem placeValue_paddedDigits (n : Nat) : placeValue (paddedDigits n) = n := by
  unfold paddedDigits
  rw [placeValue_append, placeValue_replicate_zero, Nat.zero_mul, Nat.zero_add, placeValue_digits]

/-- A chunk at full width behind a numeral makes a numeral again. -/
theorem IsNumeral.append_paddedDigits {ds : List Char} {n low : Nat} (h : IsNumeral ds n)
    (hn : n ≠ 0) (hlow : low < chunkBase) :
    IsNumeral (ds ++ paddedDigits low) (n * chunkBase + low) where
  nonempty := by simp [h.nonempty]
  digits := by rw [List.all_append, h.digits, all_isDigit_paddedDigits]; rfl
  value := by
    rw [placeValue_append, h.value, placeValue_paddedDigits, length_paddedDigits hlow]
    unfold chunkBase
    rw [Nat.pow_eq]
  head := by
    intro hhead
    -- Only the numeral of zero starts with a zero.
    have hzero : ds.head? = some '0' := by
      rwa [List.head?_append, Option.or_of_isSome (List.isSome_head?.mpr h.nonempty)] at hhead
    have hvalue := h.value
    rw [h.head hzero] at hvalue
    exact absurd hvalue.symm hn

theorem ofChunks_append_singleton {cs : List Nat} (h : cs ≠ []) (low : Nat) :
    ofChunks (cs ++ [low]) = ofChunks cs ++ paddedDigits low := by
  obtain ⟨c, cs, rfl⟩ := List.exists_cons_of_ne_nil h
  simp [ofChunks]

theorem chunks_ne_nil (n : Nat) : chunks n ≠ [] := by
  unfold chunks
  split
  · exact List.cons_ne_nil _ _
  · exact List.cons_ne_nil _ _

theorem isNumeral_ofChunks (n : Nat) : IsNumeral (ofChunks (chunks n).reverse) n := by
  fun_induction chunks n with
  | case1 n hsmall =>
    rw [List.reverse_singleton, ofChunks, List.flatMap_nil, List.append_nil]
    exact isNumeral_digits n
  | case2 n hlarge ih =>
    have hpos : 0 < chunkBase := Nat.lt_trans Nat.zero_lt_one one_lt_chunkBase
    have hquot : n / chunkBase ≠ 0 := Nat.ne_of_gt (Nat.div_pos (Nat.le_of_not_lt hlarge) hpos)
    have hnumeral := ih.append_paddedDigits hquot (Nat.mod_lt n hpos)
    rw [Nat.mul_comm, Nat.div_add_mod] at hnumeral
    rw [List.reverse_cons, ofChunks_append_singleton]
    · exact hnumeral
    · rw [Ne, List.reverse_eq_nil_iff]
      exact chunks_ne_nil _

theorem isNumeral_ofNat (n : Nat) : IsNumeral (ofNat n).toList n := by
  rw [ofNat, String.toList_ofList]
  exact isNumeral_ofChunks n

/-! ## Reading what is written -/

/-- Digits without the zeros at their head. Of nothing but zeros, one is left. -/
def withoutLeadingZeros (ds : List Char) : List Char :=
  match ds.dropWhile (· = '0') with
  | [] => ['0']
  | es => es

theorem placeValue_dropWhile (ds : List Char) :
    placeValue (ds.dropWhile (· = '0')) = placeValue ds := by
  induction ds with
  | nil => rfl
  | cons d ds ih =>
    by_cases hd : d = '0'
    · subst hd
      rw [List.dropWhile_cons_of_pos (by decide), ih, placeValue_zero_cons]
    · rw [List.dropWhile_cons_of_neg (by simpa using hd)]

theorem isNumeral_withoutLeadingZeros {ds : List Char} (h : ds.all isDigit = true) :
    IsNumeral (withoutLeadingZeros ds) (placeValue ds) := by
  have hvalue := placeValue_dropWhile ds
  have hall : (ds.dropWhile (· = '0')).all isDigit = true :=
    List.all_eq_true.mpr fun c hc => List.all_eq_true.mp h c (List.dropWhile_subset _ hc)
  unfold withoutLeadingZeros
  split
  next hnil =>
    rw [hnil] at hvalue
    rw [← hvalue]
    exact ⟨by decide, by decide, by decide, fun _ => rfl⟩
  next hne =>
    refine ⟨hne, hall, hvalue, ?_⟩
    intro hhead
    have := List.head?_dropWhile_not (· = '0') ds
    rw [hhead] at this
    simp at this

/-- A text is the canonical text of an integer: the numeral of its amount, with a minus sign before
it if the integer is negative. -/
def IsTextOf (text : String) (n : Int) : Prop :=
  ∃ ds, IsNumeral ds n.natAbs ∧ text.toList = if n < 0 then '-' :: ds else ds

theorem isTextOf_ofInt (n : Int) : IsTextOf (ofInt n) n := by
  refine ⟨_, isNumeral_ofNat n.natAbs, ?_⟩
  unfold ofInt
  split
  · rw [String.toList_append]
    rfl
  · rfl

theorem IsTextOf.unique {text text' : String} {n : Int} (h : IsTextOf text n)
    (h' : IsTextOf text' n) : text = text' := by
  obtain ⟨ds, hds, htext⟩ := h
  obtain ⟨es, hes, htext'⟩ := h'
  rw [hds.unique hes, ← htext'] at htext
  exact String.toList_inj.mp htext

theorem toList_ofInt_natCast (n : Nat) : (ofInt n).toList = (ofNat n).toList := by
  unfold ofInt
  rw [if_neg (Int.not_lt.mpr (Int.natCast_nonneg n)), Int.natAbs_natCast]

theorem toNat_ofNat (n : Nat) : toNat (ofNat n).toList = n := by
  rw [toNat_eq_placeValue, (isNumeral_ofNat n).value]

/-- Decimal text is exact. An integer is written as its canonical text, and no other text is
canonical for it. Digits, however many and with any zeros at their head, are read as their value by
places. So a number that is not negative is read back from its text, and digits that are read and
written again lose the zeros at their head. -/
theorem decimal_text_is_exact :
    (∀ (n : Int) (text : String), IsTextOf text n ↔ text = ofInt n) ∧
      (∀ text : String, text ≠ "" → text.toList.all isDigit = true →
        toNat text.toList = placeValue text.toList ∧
          (ofInt (toNat text.toList)).toList = withoutLeadingZeros text.toList) ∧
      ∀ n : Int, 0 ≤ n → (toNat (ofInt n).toList : Int) = n := by
  refine ⟨?_, ?_, ?_⟩
  · intro n text
    constructor
    · intro htext
      exact htext.unique (isTextOf_ofInt n)
    · rintro rfl
      exact isTextOf_ofInt n
  · intro text _ hdigits
    refine ⟨toNat_eq_placeValue _, ?_⟩
    rw [toNat_eq_placeValue, toList_ofInt_natCast]
    exact (isNumeral_ofNat _).unique (isNumeral_withoutLeadingZeros hdigits)
  · intro n hn
    obtain ⟨k, rfl⟩ := Int.eq_ofNat_of_zero_le hn
    rw [toList_ofInt_natCast, toNat_ofNat]

/-- Zeros that fill chunks: inside a number, where they stay, and at the head of digits, where they
are lost. -/
theorem decimal_text_is_exact_over_zeros :
    let text := String.ofList (List.replicate 2500 '0' ++ ['1', '2'])
    let n : Nat := 10 ^ 2000 + 5
    IsTextOf (ofInt (-n)) (-n) ∧
      (text ≠ "" ∧ text.toList.all isDigit = true ∧ toNat text.toList = 12 ∧
        (ofInt (toNat text.toList)).toList = ['1', '2']) ∧
      0 ≤ (n : Int) ∧ (toNat (ofInt n).toList : Int) = n := by
  intro text n
  obtain ⟨hwritten, hread, hback⟩ := decimal_text_is_exact
  have hlist : text.toList = List.replicate 2500 '0' ++ ['1', '2'] := String.toList_ofList
  have hdigits : text.toList.all isDigit = true := by
    rw [hlist, List.all_append, List.all_replicate]
    rfl
  have hne : text ≠ "" := by
    intro hempty
    rw [hempty] at hlist
    exact absurd (List.append_eq_nil_iff.mp hlist.symm).2 (List.cons_ne_nil _ _)
  have hvalue : placeValue text.toList = 12 := by
    rw [hlist, placeValue_append, placeValue_replicate_zero]
    rfl
  have hstripped : withoutLeadingZeros text.toList = ['1', '2'] := by
    have hzeros : ∀ c ∈ List.replicate 2500 '0', decide (c = '0') = true :=
      fun c hc => decide_eq_true (List.eq_of_mem_replicate hc)
    rw [withoutLeadingZeros, hlist, List.dropWhile_append_of_pos hzeros]
    rfl
  obtain ⟨htoNat, htext⟩ := hread text hne hdigits
  exact ⟨(hwritten _ _).mpr rfl, ⟨hne, hdigits, htoNat.trans hvalue, htext.trans hstripped⟩,
    Int.natCast_nonneg n, hback n (Int.natCast_nonneg n)⟩

end Dee.Decimal
