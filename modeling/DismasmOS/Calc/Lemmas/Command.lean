import DismasmOS.Calc.Command
import DismasmOS.Calc.Lemmas.Print

/-!
This module contains the numerals that the result of `calc` is printed with: the digits of `itoa`
for the integers it is made for and of `utoa_hex` for all words, and the results on which both
numerals agree.
-/

namespace DismasmOS

section Hex

def hexChar (d : Nat) : UInt8 := (str "0123456789ABCDEF").getD d NUL

theorem hexChar_digit : ∀ d < 16, isHexDigit (hexChar d) ∧ digitValue (hexChar d) = d := by
  decide

theorem utoaHexDigits_eq {fuel : Nat} {n : UInt64} (hn : n.toNat < 16 ^ fuel)
    : utoaHexDigits fuel n = (Nat.digits 16 n.toNat).map hexChar := by
  induction fuel generalizing n with
  | zero =>
    have hzero : n.toNat = 0 := by omega
    rw [hzero, Nat.digits_zero]
    rfl
  | succ fuel ih =>
    rw [Nat.pow_succ] at hn
    rw [utoaHexDigits]
    split
    . next hpos =>
      have hpos : 0 < n.toNat := UInt64.lt_iff_toNat_lt.mp hpos
      have hdigit : (n &&& 0xF).toNat = n.toNat % 16 := by
        rw [UInt64.toNat_and]
        apply Nat.and_two_pow_sub_one_eq_mod (n := 4)
      have hshift : (n >>> 4).toNat = n.toNat / 16 := by
        rw [UInt64.toNat_shiftRight]
        apply Nat.shiftRight_eq_div_pow
      rw [Nat.digits_def' (by decide) hpos, List.map_cons, ← hshift]
      rw [← ih (by omega), hdigit]
      rfl
    . next hzero =>
      have hzero : n.toNat = 0 := by
        rw [gt_iff_lt, UInt64.lt_iff_toNat_lt] at hzero
        exact Nat.eq_zero_of_not_pos hzero
      rw [hzero, Nat.digits_zero]
      rfl

theorem utoaHex_eq {n : UInt64} (hn : n ≠ 0)
    : utoaHex n = (Nat.digits 16 n.toNat).reverse.map hexChar := by
  have hlt : n.toNat < 16 ^ 16 := n.toNat_lt
  unfold utoaHex
  rw [if_neg hn, utoaHexDigits_eq hlt, List.map_reverse]

theorem utoaHex_digits (n : UInt64)
    : utoaHex n ≠ [] ∧ (∀ c ∈ utoaHex n, isHexDigit c) ∧ numeral 16 (utoaHex n) = n.toNat := by
  by_cases hn : n = 0
  . rw [hn]
    exact ⟨by decide, List.all_eq_true.mp (by decide), rfl⟩
  . rw [utoaHex_eq hn]
    refine ⟨?_, ?_, ?_⟩
    . rw [ne_eq, List.map_eq_nil_iff, List.reverse_eq_nil_iff, Nat.digits_eq_nil_iff_eq_zero]
      apply mt UInt64.toNat.inj hn
    . intro c hc
      rw [List.mem_map] at hc
      obtain ⟨d, hd, rfl⟩ := hc
      rw [List.mem_reverse] at hd
      exact (hexChar_digit d (Nat.digits_lt_base (by decide) hd)).1
    . apply numeral_map_digits (by decide)
      intro d hd
      exact (hexChar_digit d hd).2

theorem numeral_zeros (base k : Nat) (digits : List UInt8)
    : numeral base (List.replicate k (chr '0') ++ digits) = numeral base digits := by
  induction k with
  | zero => rfl
  | succ k ih =>
    have hzero : digitValue (chr '0') = 0 := rfl
    rw [List.replicate_succ, List.cons_append, numeral_cons, ih, hzero, Nat.zero_mul, Nat.zero_add]

theorem isHex_printHex (val : UInt64) : IsHex (printHex val) val.toNat := by
  obtain ⟨hne, hhex, hvalue⟩ := utoaHex_digits val
  refine ⟨List.replicate (8 - strlen (utoaHex val)) (chr '0') ++ utoaHex val, ?_, ?_, ?_, ?_⟩
  . exact List.append_ne_nil_of_right_ne_nil _ hne
  . intro c hc
    rw [List.mem_append] at hc
    cases hc with
    | inl hzero =>
      rw [List.eq_of_mem_replicate hzero]
      decide
    | inr hc => exact hhex c hc
  . unfold printHex
    dsimp only
    rw [List.append_assoc]
  . rw [numeral_zeros, hvalue]

end Hex

section Decimal

theorem itoaDigits_natCast {fuel n : Nat} (hn : n < 10 ^ fuel)
    : itoaDigits fuel n = (Nat.digits 10 n).map fun d => chr '0' + UInt8.ofNat d := by
  induction fuel generalizing n with
  | zero =>
    have hzero : n = 0 := by omega
    rw [hzero, Nat.digits_zero]
    rfl
  | succ fuel ih =>
    rw [Nat.pow_succ] at hn
    rw [itoaDigits]
    split
    . next hzero =>
      have hzero : n = 0 := by omega
      rw [hzero, Nat.digits_zero]
      rfl
    . next hpos =>
      have hrem : ((n : Int).tmod 10 + (chr '0').toNat).toNat = (chr '0').toNat + n % 10 := by
        rw [Int.tmod_eq_emod_of_nonneg (by omega)]
        omega
      have hdiv : (n : Int).tdiv 10 = (n / 10 : Nat) := by
        rw [Int.tdiv_eq_ediv_of_nonneg (by omega)]
        omega
      rw [Nat.digits_def' (by decide) (by omega), List.map_cons, hrem, hdiv, ih (by omega)]
      rw [UInt8.ofNat_add, UInt8.ofNat_toNat]

theorem itoa_natCast {n : Nat} (hn : n < 10 ^ 10) : itoa n = CalcExpr.digits n := by
  unfold itoa CalcExpr.digits
  by_cases hzero : n = 0
  . rw [hzero]
    rfl
  . rw [if_neg (by omega), if_neg hzero]
    have hneg : ¬(n : Int) < 0 := by omega
    simp only [hneg, if_false]
    rw [itoaDigits_natCast hn, List.map_reverse]

theorem itoa_neg {n : Int} (hn : n < 0) : ∃ rest, itoa n = chr '-' :: rest := by
  unfold itoa
  rw [if_neg (by omega)]
  simp only [hn, if_true]
  rw [List.reverse_append]
  exact ⟨_, rfl⟩

theorem isDecimal_itoa {n : Nat} (hn : n < 10 ^ 10) : IsDecimal (itoa n) n := by
  refine ⟨CalcExpr.digits n, CalcExpr.digits_ne_nil n, CalcExpr.isDigit_digits n, .inl ⟨?_, ?_⟩⟩
  . exact itoa_natCast hn
  . rw [CalcExpr.numeral_digits]

theorem isDecimal_neg_itoa {n : Nat} (hn : n < 10 ^ 10)
    : IsDecimal (chr '-' :: itoa n) (-n) := by
  refine ⟨CalcExpr.digits n, CalcExpr.digits_ne_nil n, CalcExpr.isDigit_digits n, .inr ⟨?_, ?_⟩⟩
  . rw [itoa_natCast hn]
  . rw [CalcExpr.numeral_digits]

theorem not_isDigit_minus : ¬isDigit (chr '-') := by
  decide

theorem IsDecimal.of_minus {rest : List UInt8} {n : Int} (h : IsDecimal (chr '-' :: rest) n)
    : rest ≠ [] ∧ (∀ c ∈ rest, isDigit c) ∧ n = -numeral 10 rest := by
  obtain ⟨digits, hne, hdigits, ⟨htext, _⟩ | ⟨htext, hn⟩⟩ := h
  . rw [← htext] at hdigits
    exact absurd (hdigits _ (List.mem_cons_self ..)) not_isDigit_minus
  . rw [List.cons.injEq] at htext
    rw [htext.2]
    exact ⟨hne, hdigits, hn⟩

theorem IsDecimal.unique {text : List UInt8} {n m : Int} (hn : IsDecimal text n)
    (hm : IsDecimal text m) : n = m := by
  obtain ⟨digits, hne, hdigits, ⟨rfl, rfl⟩ | ⟨rfl, rfl⟩⟩ := hn
  . obtain ⟨digits', _, _, ⟨rfl, rfl⟩ | ⟨rfl, rfl⟩⟩ := hm
    . rfl
    . exact absurd (hdigits _ (List.mem_cons_self ..)) not_isDigit_minus
  . rw [hm.of_minus.2.2]

end Decimal

section Result

variable {res : Int64}

theorem bmod_int (z : Int)
    : ∃ k, z.bmod (2 ^ 32) = k ∧ (-2 ^ 31 ≤ k ∧ k < 2 ^ 31)
        ∧ (-2 ^ 31 ≤ z ∧ z < 2 ^ 31 → k = z) := by
  refine ⟨_, rfl, ⟨Int.le_bmod (by decide), Int.bmod_lt (by decide)⟩, ?_⟩
  intro hz
  apply Int.bmod_eq_of_le
  . exact hz.1
  . exact hz.2

-- A second sign makes the text no numeral at all.
theorem isDecimal_negative_iff (hres : res < 0)
    : IsDecimal (calcDecimal res) res.toInt ↔ -2 ^ 31 < res.toInt := by
  have hneg : res.toInt < 0 := Int64.lt_iff_toInt_lt.mp hres
  obtain ⟨k, hk, hrange, heq⟩ := bmod_int (-res.toInt)
  unfold calcDecimal
  rw [if_pos hres, Int64.toInt_toInt32, Int64.toInt_neg, Int.bmod_bmod_of_dvd (by decide), hk]
  by_cases hk0 : k < 0
  . obtain ⟨rest, hrest⟩ := itoa_neg hk0
    rw [hrest]
    constructor
    . intro h
      exact absurd (h.of_minus.2.1 _ (List.mem_cons_self ..)) not_isDigit_minus
    . intro hsmall
      have hkeep := heq (by omega)
      omega
  . obtain ⟨n, rfl⟩ := Int.eq_ofNat_of_zero_le (Int.not_lt.mp hk0)
    have hdecimal := isDecimal_neg_itoa (n := n) (by omega)
    constructor
    . intro h
      have hvalue := h.unique hdecimal
      omega
    . intro hsmall
      have hvalue : res.toInt = -(n : Int) := by
        have hkeep := heq (by omega)
        omega
      rw [hvalue]
      exact hdecimal

theorem isDecimal_nonneg_iff (hres : ¬res < 0)
    : IsDecimal (calcDecimal res) res.toInt ↔ res.toInt < 2 ^ 31 := by
  have hnonneg : ¬res.toInt < 0 := fun h => hres (Int64.lt_iff_toInt_lt.mpr h)
  obtain ⟨k, hk, hrange, heq⟩ := bmod_int res.toInt
  unfold calcDecimal
  rw [if_neg hres, Int64.toInt_toInt32, hk]
  by_cases hk0 : k < 0
  . obtain ⟨rest, hrest⟩ := itoa_neg hk0
    rw [hrest]
    constructor
    . intro h
      have hvalue := h.of_minus.2.2
      have hzero : res.toInt = 0 := by omega
      have hkeep := heq (by omega)
      omega
    . intro hsmall
      have hkeep := heq (by omega)
      omega
  . obtain ⟨n, rfl⟩ := Int.eq_ofNat_of_zero_le (Int.not_lt.mp hk0)
    have hdecimal := isDecimal_itoa (n := n) (by omega)
    constructor
    . intro h
      have hvalue := h.unique hdecimal
      omega
    . intro hsmall
      have hvalue : res.toInt = (n : Int) := by
        have hkeep := heq (by omega)
        omega
      rw [hvalue]
      exact hdecimal

theorem formatsAgree_iff (res : Int64)
    : FormatsAgree res ↔ -2 ^ 31 < res.toInt ∧ res.toInt < 2 ^ 31 := by
  unfold FormatsAgree
  rw [and_iff_left (isHex_printHex res.toUInt64)]
  by_cases hres : res < 0
  . have hneg : res.toInt < 0 := Int64.lt_iff_toInt_lt.mp hres
    rw [isDecimal_negative_iff hres]
    omega
  . have hnonneg : ¬res.toInt < 0 := fun h => hres (Int64.lt_iff_toInt_lt.mpr h)
    rw [isDecimal_nonneg_iff hres]
    omega

theorem cmdCalc_not_agree
    : cmdCalc [str "calc", str "4294967296"] = .ok ⟨0, str "Result: 0 (0x100000000)\n"⟩
        ∧ ¬FormatsAgree 4294967296 := by
  refine ⟨by decide +kernel, ?_⟩
  intro hagree
  have hzero : IsDecimal (calcDecimal 4294967296) 0 := ⟨str "0", by decide +kernel⟩
  exact absurd (hagree.1.unique hzero) (by decide)

end Result

end DismasmOS
