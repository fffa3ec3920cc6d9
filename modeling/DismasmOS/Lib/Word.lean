import Mathlib.Data.Nat.Bitwise
import Mathlib.Tactic.Ring

/-!
This module contains the arithmetic of 64 bit machine words on natural numbers. Every operation
reduces its result modulo `2 ^ 64`, the lemmas state when no reduction takes place.
-/

namespace Word

def modulus : Nat := 2 ^ 64

def add (a b : Nat) : Nat := (a + b) % modulus

def sub (a b : Nat) : Nat := (a + (modulus - b)) % modulus

def mul (a b : Nat) : Nat := (a * b) % modulus

def not (a : Nat) : Nat := modulus - (a + 1)

theorem modulus_eq : modulus = 18446744073709551616 := rfl

theorem add_lt (a b : Nat) : add a b < modulus := by
  apply Nat.mod_lt
  decide

theorem add_of_lt {a b : Nat} (h : a + b < modulus) : add a b = a + b := by
  apply Nat.mod_eq_of_lt
  exact h

theorem sub_of_le {a b : Nat} (hle : b ≤ a) (ha : a < modulus) : sub a b = a - b := by
  unfold sub
  have : a + (modulus - b) = (a - b) + modulus := by omega
  rw [this]
  rw [Nat.add_mod_right]
  apply Nat.mod_eq_of_lt
  omega

theorem mul_of_lt {a b : Nat} (h : a * b < modulus) : mul a b = a * b := by
  apply Nat.mod_eq_of_lt
  exact h

theorem land_not_two_pow_sub_one (x k : Nat) (hx : x < modulus) (hk : k ≤ 64)
    : x &&& not (2 ^ k - 1) = x / 2 ^ k * 2 ^ k := by
  apply Nat.eq_of_testBit_eq
  intro i
  have hmask : 2 ^ k - 1 < 2 ^ 64 := by
    have := Nat.pow_le_pow_right (n := 2) (by decide) hk
    have := Nat.two_pow_pos k
    omega
  unfold not modulus
  rw [Nat.testBit_and]
  rw [Nat.testBit_two_pow_sub_succ hmask]
  rw [Nat.testBit_two_pow_sub_one]
  rw [Nat.testBit_mul_two_pow]
  rw [Nat.testBit_div_two_pow]
  by_cases hki : k ≤ i
  . rw [Nat.sub_add_cancel hki]
    by_cases hi : i < 64
    . simp [hki, hi]
    . have hbit : x.testBit i = false := by
        apply Nat.testBit_lt_two_pow
        apply Nat.lt_of_lt_of_le hx
        apply Nat.pow_le_pow_right
        . decide
        . omega
      simp [hbit]
  . simp [hki, Nat.lt_of_not_le hki]

end Word
