import Mathlib.Data.Nat.Basic
import Mathlib.Logic.Function.Basic
import Mathlib.Tactic.Ring

/-!
This module contains a flat byte addressed memory together with the little endian word accesses and
the block operations (`fill`, `copy`) a freestanding program performs on it. All reasoning about it
is reduced to the contents of single bytes.
-/

abbrev ByteMem := Nat → UInt8

namespace ByteMem

def setByte (m : ByteMem) (a : Nat) (v : UInt8) : ByteMem :=
  fun x => if x = a then v else m x

/--
The little endian value of the `n` bytes starting at `a`.
-/
def readLE (m : ByteMem) (a : Nat) : Nat → Nat
  | 0 => 0
  | n + 1 => (m a).toNat + 256 * readLE m (a + 1) n

def writeLE (m : ByteMem) (a : Nat) : Nat → Nat → ByteMem
  | 0, _ => m
  | n + 1, v => writeLE (m.setByte a (UInt8.ofNat v)) (a + 1) n (v / 256)

def AgreeOn (m m' : ByteMem) (a n : Nat) : Prop :=
  ∀ x, a ≤ x → x < a + n → m' x = m x

@[simp]
theorem setByte_same (m : ByteMem) (a : Nat) (v : UInt8) : m.setByte a v a = v := by
  simp [setByte]

theorem setByte_ne (m : ByteMem) (a x : Nat) (v : UInt8) (h : x ≠ a) : m.setByte a v x = m x := by
  simp [setByte, h]

theorem AgreeOn.mono {m m' : ByteMem} {a n b k : Nat} (h : AgreeOn m m' a n) (hlo : a ≤ b)
    (hhi : b + k ≤ a + n)
    : AgreeOn m m' b k := by
  intro x hx1 hx2
  apply h
  . omega
  . omega

theorem AgreeOn.trans {m1 m2 m3 : ByteMem} {a n : Nat} (h1 : AgreeOn m1 m2 a n)
    (h2 : AgreeOn m2 m3 a n)
    : AgreeOn m1 m3 a n := by
  intro x hx1 hx2
  rw [h2 x hx1 hx2]
  exact h1 x hx1 hx2

theorem agreeOn_setByte (m : ByteMem) (p : Nat) (v : UInt8) {a n : Nat} (h : p < a ∨ a + n ≤ p)
    : AgreeOn m (m.setByte p v) a n := by
  intro x hx1 hx2
  apply setByte_ne
  omega

theorem readLE_lt (m : ByteMem) (a n : Nat) : readLE m a n < 256 ^ n := by
  induction n generalizing a with
  | zero => simp [readLE]
  | succ n ih =>
    have hbyte : (m a).toNat < 256 := (m a).toNat_lt
    have htail := ih (a + 1)
    simp only [readLE, Nat.pow_succ]
    omega

theorem readLE_congr {m m' : ByteMem} {a n : Nat} (h : AgreeOn m m' a n)
    : readLE m' a n = readLE m a n := by
  induction n generalizing a with
  | zero => rfl
  | succ n ih =>
    simp only [readLE]
    rw [h a (by omega) (by omega)]
    rw [ih (h.mono (by omega) (by omega))]

theorem writeLE_outside (m : ByteMem) (a n v x : Nat) (h : x < a ∨ a + n ≤ x)
    : writeLE m a n v x = m x := by
  induction n generalizing m a v with
  | zero => rfl
  | succ n ih =>
    simp only [writeLE]
    rw [ih]
    . apply setByte_ne
      omega
    . omega

theorem agreeOn_writeLE (m : ByteMem) (p k v : Nat) {a n : Nat} (h : p + k ≤ a ∨ a + n ≤ p)
    : AgreeOn m (writeLE m p k v) a n := by
  intro x hx1 hx2
  apply writeLE_outside
  omega

theorem readLE_writeLE_same (m : ByteMem) (a n v : Nat)
    : readLE (writeLE m a n v) a n = v % 256 ^ n := by
  induction n generalizing m a v with
  | zero => simp [readLE, Nat.mod_one]
  | succ n ih =>
    simp only [writeLE, readLE]
    rw [ih]
    rw [writeLE_outside _ _ _ _ _ (by omega)]
    rw [setByte_same]
    rw [Nat.pow_succ', Nat.mod_mul]
    simp

theorem readLE_writeLE_of_lt (m : ByteMem) (a n v : Nat) (h : v < 256 ^ n)
    : readLE (writeLE m a n v) a n = v := by
  rw [readLE_writeLE_same]
  exact Nat.mod_eq_of_lt h

section Block

variable (wrap : Nat)

def fill (m : ByteMem) (p : Nat) (c : UInt8) : Nat → ByteMem
  | 0 => m
  | n + 1 => fill (m.setByte (p % wrap) c) (p + 1) c n

def copy (m : ByteMem) (dest src : Nat) : Nat → ByteMem
  | 0 => m
  | n + 1 => copy (m.setByte (dest % wrap) (m (src % wrap))) (dest + 1) (src + 1) n

theorem fill_outside (m : ByteMem) (p : Nat) (c : UInt8) (n x : Nat) (hwrap : p + n ≤ wrap)
    (h : x < p ∨ p + n ≤ x)
    : fill wrap m p c n x = m x := by
  induction n generalizing m p with
  | zero => rfl
  | succ n ih =>
    simp only [fill]
    rw [ih _ _ (by omega) (by omega)]
    rw [Nat.mod_eq_of_lt (by omega)]
    apply setByte_ne
    omega

theorem agreeOn_fill (m : ByteMem) (p : Nat) (c : UInt8) (k : Nat) (hwrap : p + k ≤ wrap)
    {a n : Nat} (h : p + k ≤ a ∨ a + n ≤ p)
    : AgreeOn m (fill wrap m p c k) a n := by
  intro x hx1 hx2
  apply fill_outside
  . exact hwrap
  . omega

theorem copy_outside (m : ByteMem) (dest src n x : Nat) (hwrap : dest + n ≤ wrap)
    (h : x < dest ∨ dest + n ≤ x)
    : copy wrap m dest src n x = m x := by
  induction n generalizing m dest src with
  | zero => rfl
  | succ n ih =>
    simp only [copy]
    rw [ih _ _ _ (by omega) (by omega)]
    rw [Nat.mod_eq_of_lt (by omega)]
    apply setByte_ne
    omega

theorem agreeOn_copy (m : ByteMem) (dest src k : Nat) (hwrap : dest + k ≤ wrap)
    {a n : Nat} (h : dest + k ≤ a ∨ a + n ≤ dest)
    : AgreeOn m (copy wrap m dest src k) a n := by
  intro x hx1 hx2
  apply copy_outside
  . exact hwrap
  . omega

-- Source and destination do not overlap.
theorem copy_inside (m : ByteMem) (dest src n i : Nat) (hdest : dest + n ≤ wrap) (hsrc : src + n ≤ wrap)
    (h : dest + n ≤ src ∨ src + n ≤ dest) (hi : i < n)
    : copy wrap m dest src n (dest + i) = m (src + i) := by
  induction n generalizing m dest src i with
  | zero => omega
  | succ n ih =>
    simp only [copy]
    rw [Nat.mod_eq_of_lt (a := dest) (by omega), Nat.mod_eq_of_lt (a := src) (by omega)]
    cases i with
    | zero =>
      rw [copy_outside _ _ _ _ _ _ (by omega) (by omega), Nat.add_zero, setByte_same, Nat.add_zero]
    | succ i =>
      have hstep := ih (m.setByte dest (m src)) (dest + 1) (src + 1) i (by omega) (by omega) (by omega)
        (by omega)
      have hdest : dest + (i + 1) = dest + 1 + i := by omega
      have hsrc : src + (i + 1) = src + 1 + i := by omega
      rw [hdest, hsrc, hstep]
      apply setByte_ne
      omega

end Block

end ByteMem
