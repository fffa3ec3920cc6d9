import Mathlib.Data.Nat.Digits.Lemmas
import DismasmOS.Calc.Lemmas.Command
import DismasmOS.Calc.Lemmas.Parse
import DismasmOS.Str.Number

/-!
This module contains the texts that `itoa` and `utoa_hex` leave in the memory: which numerals they
are, and that `parse_num` reads them back as the numbers they were made from.
-/

namespace DismasmOS

section Hex

theorem hexChar_upper : ∀ d < 16, hexChar d ∈ str "0123456789ABCDEF" := by
  decide

theorem digitValue_lt {c : UInt8} (hc : isHexDigit c) : digitValue c < 16 := by
  rw [isHexDigit_iff] at hc
  obtain hdec | hlower | hupper := hc
  . exact (hexDigitValue_dec hdec).2
  . exact (hexDigitValue_lower hlower).2
  . exact (hexDigitValue_upper hupper).2

theorem numeral_lt_pow {digits : List UInt8} (hdigits : ∀ c ∈ digits, isHexDigit c)
    : numeral 16 digits < 16 ^ digits.length := by
  have hlt : ∀ d ∈ digits.reverse.map digitValue, d < 16 := by
    intro d hd
    rw [List.mem_map] at hd
    obtain ⟨c, hc, rfl⟩ := hd
    exact digitValue_lt (hdigits c (List.mem_reverse.mp hc))
  have hpow := Nat.ofDigits_lt_base_pow_length (by decide) hlt
  rw [List.length_map, List.length_reverse] at hpow
  exact hpow

theorem length_utoaHex {n : UInt64} (hn : n ≠ 0)
    : (utoaHex n).length = (Nat.digits 16 n.toNat).length := by
  rw [utoaHex_eq hn, List.length_map, List.length_reverse]

theorem utoaHex_upper (n : UInt64) : ∀ c ∈ utoaHex n, c ∈ str "0123456789ABCDEF" := by
  intro c hc
  by_cases hn : n = 0
  . rw [hn] at hc
    rw [List.mem_singleton.mp hc]
    decide
  . rw [utoaHex_eq hn, List.mem_map] at hc
    obtain ⟨d, hd, rfl⟩ := hc
    exact hexChar_upper d (Nat.digits_lt_base (by decide) (List.mem_reverse.mp hd))

theorem shortestHex_utoaHex (n : UInt64) : ShortestHex (utoaHex n) n.toNat where
  ne_nil := (utoaHex_digits n).1
  upper := utoaHex_upper n
  value := (utoaHex_digits n).2.2
  shortest := by
    intro other hne hdigits hvalue
    by_cases hn : n = 0
    . rw [hn]
      exact List.length_pos_iff.mpr hne
    . rw [length_utoaHex hn, Nat.digits_length_le_iff (by decide), ← hvalue]
      exact numeral_lt_pow hdigits

theorem length_utoaHex_le (n : UInt64) : (utoaHex n).length ≤ 16 := by
  by_cases hn : n = 0
  . rw [hn]
    decide
  . rw [length_utoaHex hn, Nat.digits_length_le_iff (by decide)]
    exact n.toNat_lt

-- Leading zeros do not change what `parse_num` reads behind the prefix.
theorem parseNum_padded (k : Nat) (n : UInt64)
    : parseNum (str "0x" ++ (List.replicate k (chr '0') ++ utoaHex n)) = n := by
  obtain ⟨_, hhex, hvalue⟩ := utoaHex_digits n
  have hdigits : ∀ c ∈ List.replicate k (chr '0') ++ utoaHex n, isHexDigit c := by
    rw [List.forall_mem_append]
    refine ⟨?_, hhex⟩
    intro c hc
    rw [List.eq_of_mem_replicate hc]
    decide
  have hparse := @parseHex_append _ [] hdigits (by decide) 0
  rw [List.append_nil, Nat.zero_mul, Nat.zero_add, numeral_zeros, hvalue,
    List.headD_nil, if_pos rfl, UInt64.ofNat_toNat] at hparse
  exact hparse

theorem parseNum_utoaHex (n : UInt64) : parseNum (str "0x" ++ utoaHex n) = n :=
  parseNum_padded 0 n

theorem parseNum_printHex (n : UInt64) : parseNum (printHex n) = n := by
  unfold printHex
  dsimp only
  rw [List.append_assoc]
  exact parseNum_padded _ n

end Hex

section Decimal

variable {n : Int}

theorem CalcExpr.head_digits {n : Nat} (hhead : (digits n).head? = some (chr '0'))
    : digits n = [chr '0'] := by
  unfold digits at hhead ⊢
  by_cases hn : n = 0
  . rw [if_pos hn]
  . rw [if_neg hn, List.head?_map, List.head?_reverse,
      List.getLast?_eq_some_getLast (Nat.digits_ne_nil_iff_ne_zero.mpr hn), Option.map_some,
      Option.some.injEq] at hhead
    have hlt := Nat.digits_lt_base (b := 10) (by decide)
      (List.getLast_mem (Nat.digits_ne_nil_iff_ne_zero.mpr hn))
    have hvalue := (digitValue_ofNat _ hlt).2
    rw [hhead] at hvalue
    exact absurd hvalue.symm (Nat.getLast_digit_ne_zero 10 hn)

theorem itoa_of_neg (hlow : -2 ^ 31 < n) (hneg : n < 0)
    : itoa n = chr '-' :: CalcExpr.digits n.natAbs := by
  have habs : (-n : Int) = (n.natAbs : Nat) := by omega
  have hdigits := itoa_natCast (n := n.natAbs) (by omega)
  unfold itoa at hdigits ⊢
  rw [if_neg (by omega)] at hdigits ⊢
  simp only [hneg, if_true, if_false, Int.natCast_nonneg, not_lt_of_ge] at hdigits ⊢
  rw [List.reverse_append, bmod_neg hlow.le hneg, if_neg (by omega), habs, hdigits]
  rfl

theorem canonicalDecimal_itoa (hlow : -2 ^ 31 < n) (hhigh : n < 2 ^ 31) : CanonicalDecimal (itoa n) n := by
  refine ⟨CalcExpr.digits n.natAbs, CalcExpr.digits_ne_nil _, CalcExpr.isDigit_digits _,
    CalcExpr.head_digits, CalcExpr.numeral_digits _, ?_⟩
  by_cases hneg : n < 0
  . rw [if_pos hneg, itoa_of_neg hlow hneg]
  . rw [if_neg hneg, ← itoa_natCast (by omega), Int.natAbs_of_nonneg (by omega)]

-- The least integer stays negative, and its remainders are taken off the character `0`.
theorem itoa_min : itoa (-2 ^ 31) = str "-./,),(-*,(" := by
  decide +kernel

theorem not_canonicalDecimal_itoa_min : ¬CanonicalDecimal (itoa (-2 ^ 31)) (-2 ^ 31) := by
  rintro ⟨digits, _, hdigits, _, _, htext⟩
  rw [itoa_min, if_pos (by decide)] at htext
  have htail := congrArg List.tail htext
  rw [List.tail_cons] at htail
  rw [← htail] at hdigits
  exact absurd (hdigits (chr '.') (List.mem_cons_self ..)) (by decide)

theorem parseNum_itoa {k : Nat} (hk : k < 10 ^ 10) : parseNum (itoa k) = UInt64.ofNat k := by
  have hends : LiteralEnds ([] : List UInt8) := by
    unfold LiteralEnds
    decide
  have hhex := not_isHexPrefix (CalcExpr.digits_ne_nil k) (CalcExpr.isDigit_digits k) hends
  have hparse := parseDec_append (CalcExpr.isDigit_digits k) hends.1 0
  rw [List.append_nil] at hhex hparse
  rw [Nat.zero_mul, Nat.zero_add, CalcExpr.numeral_digits] at hparse
  unfold parseNum
  rw [itoa_natCast hk, if_neg hhex]
  exact hparse

end Decimal

section Texts

theorem int32_toInt_range (n : Int32) : -2 ^ 31 ≤ n.toInt ∧ n.toInt < 2 ^ 31 :=
  ⟨n.le_toInt, n.toInt_lt⟩

theorem itoa_canonical_iff (m : ByteMem) (p : Nat) (n : Int32)
    : (∃ text, StringAt (itoaAt m p n.toInt) p text ∧ CanonicalDecimal text n.toInt)
        ↔ n ≠ Int32.minValue := by
  obtain ⟨hlow, hhigh⟩ := int32_toInt_range n
  have hstring := stringAt_itoaAt m p hlow hhigh
  constructor
  . rintro ⟨text, htext, hcanonical⟩ hmin
    rw [htext.unique hstring, hmin] at hcanonical
    exact not_canonicalDecimal_itoa_min hcanonical
  . intro hmin
    have hne : n.toInt ≠ -2 ^ 31 := fun heq => hmin (Int32.toInt_inj.mp heq)
    exact ⟨itoa n.toInt, hstring, canonicalDecimal_itoa (by omega) hhigh⟩

theorem itoa_min_not_canonical
    : StringAt (itoaAt (fun _ => NUL) 0 (-2147483648 : Int32).toInt) 0 (str "-./,),(-*,(")
        ∧ ¬∃ text, StringAt (itoaAt (fun _ => NUL) 0 (-2147483648 : Int32).toInt) 0 text
          ∧ CanonicalDecimal text (-2147483648 : Int32).toInt := by
  have hstring := stringAt_itoaAt (n := -2 ^ 31) (fun _ => NUL) 0 (by decide) (by decide)
  refine ⟨itoa_min ▸ hstring, ?_⟩
  rintro ⟨text, htext, hcanonical⟩
  rw [htext.unique hstring] at hcanonical
  exact not_canonicalDecimal_itoa_min hcanonical

theorem number_text_round_trip (m : ByteMem) (p : Nat) (n : UInt64)
    : (∃ text, StringAt (utoaHexAt m p n) p text ∧ ShortestHex text n.toNat ∧ text.length ≤ 16
          ∧ parseNum (str "0x" ++ text) = n)
        ∧ IsHex (printHex n) n.toNat ∧ parseNum (printHex n) = n
        ∧ ∀ k : Int32, 0 ≤ k → ∃ text, StringAt (itoaAt m p k.toInt) p text
          ∧ parseNum text = UInt64.ofNat k.toInt.toNat := by
  refine ⟨?_, isHex_printHex n, parseNum_printHex n, ?_⟩
  . exact ⟨utoaHex n, stringAt_utoaHexAt m p n, shortestHex_utoaHex n, length_utoaHex_le n,
      parseNum_utoaHex n⟩
  . intro k hk
    obtain ⟨hlow, hhigh⟩ := int32_toInt_range k
    have hnonneg : 0 ≤ k.toInt := Int32.le_iff_toInt_le.mp hk
    refine ⟨itoa k.toInt, stringAt_itoaAt m p hlow hhigh, ?_⟩
    have hparse := parseNum_itoa (k := k.toInt.toNat) (by omega)
    rw [Int.toNat_of_nonneg hnonneg] at hparse
    exact hparse

theorem number_text_round_trip_max
    : (0 : Int32) ≤ 2147483647
        ∧ (∃ text, StringAt (utoaHexAt (fun _ => NUL) 0 18446744073709551615) 0 text
          ∧ text.length ≤ 16)
        ∧ ∃ text, StringAt (itoaAt (fun _ => NUL) 0 2147483647) 0 text
          ∧ parseNum text = 2147483647 := by
  obtain ⟨⟨text, htext, _, hlen, _⟩, _, _, hdecimal⟩ :=
    number_text_round_trip (fun _ => NUL) 0 18446744073709551615
  exact ⟨by decide, ⟨text, htext, hlen⟩, hdecimal 2147483647 (by decide)⟩

end Texts

end DismasmOS
