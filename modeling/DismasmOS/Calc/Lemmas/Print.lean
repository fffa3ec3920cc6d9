import DismasmOS.Calc.Lemmas.Literal

/-!
This module contains the proof that every expression tree can be written: its printed text, with
parentheses only where a place demands them, is one of its writings at this place.
-/

namespace DismasmOS

theorem digitValue_ofNat : ∀ d < 10, isDigit (chr '0' + UInt8.ofNat d)
    ∧ digitValue (chr '0' + UInt8.ofNat d) = d := by
  decide

theorem numeral_map_digits {base : Nat} {char : Nat → UInt8} (hbase : 1 < base)
    (hchar : ∀ d < base, digitValue (char d) = d) (n : Nat)
    : numeral base ((Nat.digits base n).reverse.map char) = n := by
  unfold numeral
  rw [← List.map_reverse, List.reverse_reverse, List.map_map]
  have hdigits : (Nat.digits base n).map (digitValue ∘ char) = (Nat.digits base n).map id := by
    apply List.map_congr_left
    intro d hd
    exact hchar d (Nat.digits_lt_base hbase hd)
  rw [hdigits, List.map_id, Nat.ofDigits_digits]

namespace CalcExpr

variable (n : Nat)

theorem digits_ne_nil : digits n ≠ [] := by
  unfold digits
  split
  . exact List.cons_ne_nil _ _
  . next h =>
    rw [ne_eq, List.map_eq_nil_iff, List.reverse_eq_nil_iff, Nat.digits_eq_nil_iff_eq_zero]
    exact h

theorem isDigit_digits : ∀ c ∈ digits n, isDigit c := by
  unfold digits
  split
  . intro c hc
    rw [List.mem_singleton] at hc
    rw [hc]
    decide
  . intro c hc
    rw [List.mem_map] at hc
    obtain ⟨d, hd, rfl⟩ := hc
    rw [List.mem_reverse] at hd
    exact (digitValue_ofNat d (Nat.digits_lt_base (by decide) hd)).1

theorem numeral_digits : numeral 10 (digits n) = n := by
  unfold digits
  split
  . next h =>
    rw [h]
    rfl
  . apply numeral_map_digits (by decide)
    intro d hd
    exact (digitValue_ofNat d hd).2

end CalcExpr

namespace Writes

variable {e : CalcExpr} {s : List UInt8}

theorem blanks_nil : Blanks [] := fun _ hc => absurd hc List.not_mem_nil

theorem of_factor (h : Writes .factor e s) (level : CalcLevel) : Writes level e s := by
  cases level with
  | factor => exact h
  | term => exact h.factor
  | expr => exact h.factor.term

theorem of_op {g : CalcOp} (h : Writes g.level e s) : Writes .expr e s := by
  cases g with
  | add | sub => exact h
  | mul | div | mod => exact h.term

theorem text (e : CalcExpr) (level : CalcLevel) : Writes level e (e.text level) := by
  induction e generalizing level with
  | lit n =>
    have hlit := lit blanks_nil (CalcExpr.digits_ne_nil n) (CalcExpr.isDigit_digits n)
    rw [CalcExpr.numeral_digits] at hlit
    exact hlit.of_factor level
  | sign g e ih =>
    have hsign := sign g blanks_nil (ih .factor)
    exact hsign.of_factor level
  | op g lhs rhs ihl ihr =>
    have hop := op g (ihl g.level) blanks_nil (ihr g.rhsLevel)
    rw [CalcExpr.text]
    split
    . next hlevel =>
      cases hlevel with
      | inl hexpr =>
        rw [hexpr]
        exact of_op hop
      | inr hsame =>
        rw [hsame]
        exact hop
    . exact (paren blanks_nil (of_op hop) blanks_nil).of_factor level

end Writes

end DismasmOS
