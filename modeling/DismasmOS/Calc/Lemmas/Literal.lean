import Mathlib.Data.Nat.ModEq
import Mathlib.Tactic.Ring
import DismasmOS.Calc.Expr
import DismasmOS.Str.Lemmas

/-!
This module contains the conversion of literals: one step of each loop of `parse_num`, the values
both loops return and the literals whose value is that of the digits the cursor passed.
-/

namespace DismasmOS

section Digits

variable {c : UInt8}

theorem isDigit_iff : isDigit c ↔ c ≥ chr '0' ∧ c ≤ chr '9' := by
  unfold isDigit
  rw [Bool.and_eq_true, decide_eq_true_iff, decide_eq_true_iff]

theorem isHexDigit_iff
    : isHexDigit c ↔ (c ≥ chr '0' ∧ c ≤ chr '9') ∨ (c ≥ chr 'a' ∧ c ≤ chr 'f')
        ∨ (c ≥ chr 'A' ∧ c ≤ chr 'F') := by
  unfold isHexDigit
  rw [Bool.or_eq_true, Bool.or_eq_true, isDigit_iff, or_assoc]
  simp only [Bool.and_eq_true, decide_eq_true_iff]

theorem not_isDigit_of_lt (h : 57 < c.toNat) : ¬isDigit c := by
  rw [isDigit_iff]
  intro hdigit
  have hle : c.toNat ≤ 57 := hdigit.2
  omega

theorem hexDigitValue_dec (hc : c ≥ chr '0' ∧ c ≤ chr '9')
    : (c - chr '0').toUInt64 = UInt64.ofNat (digitValue c) ∧ digitValue c < 16 := by
  have hle : c.toNat ≤ 57 := hc.2
  have hzero : (chr '0').toNat = 48 := rfl
  unfold digitValue
  rw [if_pos (isDigit_iff.mpr hc)]
  constructor
  . rw [← UInt8.toNat_sub_of_le _ _ hc.1, UInt64.ofNat_uInt8ToNat]
  . omega

-- A letter adds ten before the byte is widened, which does not overflow.
theorem hexDigitValue_letter {a : UInt8} (ha : a ≤ c) (hle : c.toNat ≤ a.toNat + 5)
    (hvalue : digitValue c = c.toNat - a.toNat + 10)
    : (c - a + 10).toUInt64 = UInt64.ofNat (digitValue c) ∧ digitValue c < 16 := by
  have hten : (10 : UInt8).toNat = 10 := rfl
  rw [hvalue]
  constructor
  . rw [← UInt64.ofNat_uInt8ToNat, UInt8.toNat_add, UInt8.toNat_sub_of_le _ _ ha, hten]
    rw [Nat.mod_eq_of_lt]
    omega
  . omega

theorem hexDigitValue_lower (hc : c ≥ chr 'a' ∧ c ≤ chr 'f')
    : (c - chr 'a' + 10).toUInt64 = UInt64.ofNat (digitValue c) ∧ digitValue c < 16 := by
  have hge : 97 ≤ c.toNat := hc.1
  apply hexDigitValue_letter hc.1 hc.2
  unfold digitValue
  rw [if_neg (not_isDigit_of_lt (by omega)), if_pos hc.1]

theorem hexDigitValue_upper (hc : c ≥ chr 'A' ∧ c ≤ chr 'F')
    : (c - chr 'A' + 10).toUInt64 = UInt64.ofNat (digitValue c) ∧ digitValue c < 16 := by
  have hge : 65 ≤ c.toNat := hc.1
  have hle : c.toNat ≤ 70 := hc.2
  have hlower : ¬c ≥ chr 'a' := by
    intro hlower
    have ha : 97 ≤ c.toNat := hlower
    omega
  apply hexDigitValue_letter hc.1 hc.2
  unfold digitValue
  rw [if_neg (not_isDigit_of_lt (by omega)), if_neg hlower]

theorem numeral_cons (base : Nat) (c : UInt8) (digits : List UInt8)
    : numeral base (c :: digits) = digitValue c * base ^ digits.length + numeral base digits := by
  unfold numeral
  rw [List.reverse_cons, List.map_append, Nat.ofDigits_append]
  simp only [List.map_cons, List.map_nil, Nat.ofDigits_singleton, List.length_map,
    List.length_reverse]
  ring

theorem numeral_round (base v : Nat) (c : UInt8) (digits : List UInt8)
    : (v * base + digitValue c) * base ^ digits.length + numeral base digits
        = v * base ^ (c :: digits).length + numeral base (c :: digits) := by
  rw [numeral_cons, List.length_cons]
  ring

end Digits

section ParseDec

theorem parseDec_digit {c : UInt8} (hc : isDigit c) (v : Nat) (s : List UInt8)
    : parseDec (UInt64.ofNat v) (c :: s) = parseDec (UInt64.ofNat (v * 10 + digitValue c)) s := by
  rw [parseDec, if_pos hc, (hexDigitValue_dec (isDigit_iff.mp hc)).1]
  rw [UInt64.ofNat_add, UInt64.ofNat_mul]
  rfl

theorem parseDec_append {digits rest : List UInt8} (hdigits : ∀ c ∈ digits, isDigit c)
    (hrest : ¬isDigit (rest.headD NUL)) (v : Nat)
    : parseDec (UInt64.ofNat v) (digits ++ rest)
        = UInt64.ofNat (v * 10 ^ digits.length + numeral 10 digits) := by
  induction digits generalizing v with
  | nil =>
    rw [List.nil_append, List.length_nil, Nat.pow_zero, Nat.mul_one]
    cases rest with
    | nil => rfl
    | cons c rest =>
      rw [List.headD_cons] at hrest
      rw [parseDec, if_neg hrest]
      rfl
  | cons c digits ih =>
    rw [List.forall_mem_cons] at hdigits
    rw [List.cons_append, parseDec_digit hdigits.1, ih hdigits.2, numeral_round]

end ParseDec

section ParseHex

theorem shiftLeft_or_eq (v : Nat) {d : Nat} (hd : d < 16)
    : UInt64.ofNat v <<< 4 ||| UInt64.ofNat d = UInt64.ofNat (v * 16 + d) := by
  apply UInt64.toNat.inj
  rw [UInt64.toNat_or, UInt64.toNat_shiftLeft]
  simp only [UInt64.toNat_ofNat']
  have hshift : (v % 2 ^ 64) <<< ((4 : UInt64).toNat % 64) % 2 ^ 64 = (v % 2 ^ 60) <<< 4 := by
    have hfour : (4 : UInt64).toNat % 64 = 4 := rfl
    rw [hfour, Nat.shiftLeft_eq, Nat.shiftLeft_eq]
    omega
  rw [hshift, Nat.mod_eq_of_lt (show d < 2 ^ 64 by omega)]
  rw [← Nat.shiftLeft_add_eq_or_of_lt (show d < 2 ^ 4 from hd), Nat.shiftLeft_eq]
  omega

theorem parseHex_digit {c : UInt8} (hc : isHexDigit c) (v : Nat) (s : List UInt8)
    : parseHex (UInt64.ofNat v) (c :: s) = parseHex (UInt64.ofNat (v * 16 + digitValue c)) s := by
  have hne : c ≠ NUL := by
    rintro rfl
    exact absurd hc (by decide)
  rw [isHexDigit_iff] at hc
  rw [parseHex, if_neg hne]
  dsimp only
  split
  . next hdec =>
    rw [(hexDigitValue_dec hdec).1, shiftLeft_or_eq v (hexDigitValue_dec hdec).2]
  . next hdec =>
    split
    . next hlower =>
      rw [(hexDigitValue_lower hlower).1, shiftLeft_or_eq v (hexDigitValue_lower hlower).2]
    . next hlower =>
      have hupper := (hc.resolve_left hdec).resolve_left hlower
      rw [if_pos hupper, (hexDigitValue_upper hupper).1]
      rw [shiftLeft_or_eq v (hexDigitValue_upper hupper).2]

-- The shift of the round that meets another character stays in the value.
theorem parseHex_end {s : List UInt8} (hs : ¬isHexDigit (s.headD NUL)) (v : Nat)
    : parseHex (UInt64.ofNat v) s
        = UInt64.ofNat (if s.headD NUL = NUL then v else v * 16) := by
  cases s with
  | nil => rfl
  | cons c s =>
    rw [List.headD_cons] at hs ⊢
    rw [isHexDigit_iff, not_or, not_or] at hs
    rw [parseHex]
    dsimp only
    rw [if_neg hs.1, if_neg hs.2.1, if_neg hs.2.2]
    split
    . rfl
    . have hshift := shiftLeft_or_eq v (show 0 < 16 by decide)
      exact UInt64.or_zero.symm.trans hshift

theorem parseHex_append {digits rest : List UInt8} (hdigits : ∀ c ∈ digits, isHexDigit c)
    (hrest : ¬isHexDigit (rest.headD NUL)) (v : Nat)
    : parseHex (UInt64.ofNat v) (digits ++ rest)
        = UInt64.ofNat
            (if rest.headD NUL = NUL then
              v * 16 ^ digits.length + numeral 16 digits
            else
              (v * 16 ^ digits.length + numeral 16 digits) * 16) := by
  induction digits generalizing v with
  | nil =>
    rw [List.nil_append, List.length_nil, Nat.pow_zero, Nat.mul_one]
    exact parseHex_end hrest v
  | cons c digits ih =>
    rw [List.forall_mem_cons] at hdigits
    rw [List.cons_append, parseHex_digit hdigits.1, ih hdigits.2, numeral_round]

end ParseHex

section Literals

theorem isHexPrefix_cons {s : List UInt8} (h : isHexPrefix s)
    : ∃ x t, s = chr '0' :: x :: t ∧ (x = chr 'x' ∨ x = chr 'X') := by
  unfold isHexPrefix at h
  rw [Bool.and_eq_true, Bool.or_eq_true, decide_eq_true_iff, decide_eq_true_iff,
    decide_eq_true_iff] at h
  cases s with
  | nil => exact absurd h.1 (by decide)
  | cons c s =>
    cases s with
    | nil =>
      have hnul : NUL = chr 'x' ∨ NUL = chr 'X' := h.2
      exact absurd hnul (by decide)
    | cons x t =>
      have hzero : c = chr '0' := h.1
      rw [hzero]
      exact ⟨x, t, rfl, h.2⟩

theorem take_sub_length_dropWhile (p : UInt8 → Bool) (s : List UInt8)
    : s.take (s.length - (s.dropWhile p).length) = s.takeWhile p := by
  have hlen := congrArg List.length (s.takeWhile_append_dropWhile (p := p))
  rw [List.length_append] at hlen
  conv_lhs =>
    arg 2
    rw [← s.takeWhile_append_dropWhile (p := p)]
  apply List.take_left'
  omega

theorem literalDigits_dec {text : List UInt8} (h : ¬isHexPrefix text)
    : literalDigits text = text.takeWhile isDigit := by
  unfold literalDigits scanLiteral
  rw [if_neg h, if_neg h, List.drop_zero, take_sub_length_dropWhile]

theorem literalDigits_hex {text : List UInt8} (h : isHexPrefix text)
    : literalDigits text = (text.drop 2).takeWhile isHexDigit := by
  unfold literalDigits scanLiteral
  rw [if_pos h, if_pos h, List.drop_take, ← take_sub_length_dropWhile, List.length_drop]
  congr 1
  omega

theorem headD_dropWhile (p : UInt8 → Bool) (hp : ¬p NUL) (s : List UInt8)
    : ¬p ((s.dropWhile p).headD NUL) := by
  cases hs : s.dropWhile p with
  | nil => exact hp
  | cons c rest =>
    have hhead := List.head_dropWhile_not p (l := s) (by simp [hs])
    simp only [hs, List.head_cons] at hhead
    simp [hhead]

theorem parseNum_dec {text : List UInt8} (h : ¬isHexPrefix text)
    : parseNum text = UInt64.ofNat (literalValue text) := by
  have hdigits : ∀ c ∈ text.takeWhile isDigit, isDigit c := fun _ => List.mem_takeWhile_imp
  have hparse := parseDec_append hdigits (headD_dropWhile isDigit (by decide) text) 0
  rw [List.takeWhile_append_dropWhile, Nat.zero_mul, Nat.zero_add] at hparse
  unfold parseNum literalValue
  rw [if_neg h, if_neg h, literalDigits_dec h]
  exact hparse

theorem parseNum_hex {text : List UInt8} (h : isHexPrefix text)
    : parseNum text
        = UInt64.ofNat
            (if ((text.drop 2).dropWhile isHexDigit).headD NUL = NUL then
              literalValue text
            else
              literalValue text * 16) := by
  have hdigits : ∀ c ∈ (text.drop 2).takeWhile isHexDigit, isHexDigit c :=
    fun _ => List.mem_takeWhile_imp
  have hparse := parseHex_append hdigits (headD_dropWhile isHexDigit (by decide) (text.drop 2)) 0
  rw [List.takeWhile_append_dropWhile, Nat.zero_mul, Nat.zero_add] at hparse
  unfold parseNum literalValue
  rw [if_pos h, if_pos h, literalDigits_hex h]
  exact hparse

theorem ofNat_mul_16_eq_iff (v : Nat)
    : UInt64.ofNat (v * 16) = UInt64.ofNat v ↔ 2 ^ 64 ∣ v := by
  have hcop : Nat.Coprime (2 ^ 64) 15 := by decide
  have hsub : v * 16 - v = v * 15 := by omega
  rw [← UInt64.toNat_inj, UInt64.toNat_ofNat', UInt64.toNat_ofNat', eq_comm]
  rw [← hcop.dvd_mul_right, ← hsub]
  exact Nat.modEq_iff_dvd' (by omega)

theorem parseNum_eq_iff (text : List UInt8)
    : parseNum text = UInt64.ofNat (literalValue text)
        ↔ ¬isHexPrefix text ∨ ((text.drop 2).dropWhile isHexDigit).headD NUL = NUL
          ∨ 2 ^ 64 ∣ literalValue text := by
  by_cases h : isHexPrefix text
  . rw [parseNum_hex h]
    split
    . next hend =>
      exact iff_of_true rfl (.inr (.inl hend))
    . next hend =>
      rw [ofNat_mul_16_eq_iff, or_iff_right (not_not_intro h), or_iff_right hend]
  . exact iff_of_true (parseNum_dec h) (.inl h)

theorem calcParseFactor_literal {text : List UInt8} (h : isDigit (text.headD NUL)) (fuel : Nat)
    (err : CalcErr)
    : calcParseFactor (fuel + 1) ⟨text, err⟩
        = .ok ⟨(parseNum text).toInt64, ⟨scanLiteral text, err⟩⟩ := by
  have hblank : ¬isBlank (text.headD NUL) := by
    rw [isBlank_iff]
    rintro (hc | hc)
    all_goals
      rw [hc] at h
      exact absurd h (by decide)
  have hne : ∀ c, ¬isDigit c → text.headD NUL ≠ c := by
    rintro c hc rfl
    exact hc h
  have hskip : Calc.skip ⟨text, err⟩ = ⟨text, err⟩ := by
    unfold Calc.skip
    dsimp only
    rw [skipBlanks_eq_self hblank]
  rw [calcParseFactor]
  dsimp only
  rw [hskip]
  unfold Calc.peek
  dsimp only
  rw [if_neg (hne _ (by decide)), if_neg (hne _ (by decide)), if_neg (hne _ (by decide))]
  rw [if_pos (by rw [h]; rfl)]

-- The value of the literal at the beginning of `text` is that of the digits the cursor passes.
def LiteralAgrees (text : List UInt8) : Prop :=
  ∀ fuel err, calcParseFactor (fuel + 1) ⟨text, err⟩
    = .ok ⟨Int64.ofNat (literalValue text), ⟨scanLiteral text, err⟩⟩

theorem literalAgrees_iff {text : List UInt8} (h : isDigit (text.headD NUL))
    : LiteralAgrees text
        ↔ ¬isHexPrefix text ∨ ((text.drop 2).dropWhile isHexDigit).headD NUL = NUL
          ∨ 2 ^ 64 ∣ literalValue text := by
  rw [← parseNum_eq_iff]
  unfold LiteralAgrees
  simp only [calcParseFactor_literal h]
  constructor
  . intro hagrees
    have hvalue := hagrees 0 .none
    simp only [Except.ok.injEq, Prod.mk.injEq, and_true] at hvalue
    exact congrArg Int64.toUInt64 hvalue
  . intro hvalue fuel err
    rw [hvalue]
    rfl

-- The sum that the documentation of `calc` computes.
def docSum : List UInt8 := str "0x1000 + 0x200"

theorem literalAgrees_docSum
    : LiteralAgrees docSum
        ↔ ¬isHexPrefix docSum ∨ ((docSum.drop 2).dropWhile isHexDigit).headD NUL = NUL
          ∨ 2 ^ 64 ∣ literalValue docSum :=
  literalAgrees_iff (by decide)

theorem docSum_not_agrees : ¬LiteralAgrees docSum := by
  intro hagrees
  have hvalue := hagrees 0 .none
  rw [calcParseFactor_literal (by decide)] at hvalue
  simp only [Except.ok.injEq, Prod.mk.injEq, and_true] at hvalue
  have hne : (parseNum docSum).toInt64 ≠ Int64.ofNat (literalValue docSum) := by
    decide
  exact hne hvalue

end Literals

end DismasmOS
