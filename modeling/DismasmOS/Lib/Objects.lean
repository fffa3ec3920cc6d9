import Mathlib.Data.List.Basic
import Mathlib.Logic.Function.Basic
import DismasmOS.Lib.ByteMem

/-!
This module contains stores of objects, names that stand for byte strings of their own, and the byte
strings that lie in a memory.
-/

-- A name that is not in use has no object.
abbrev ObjectStore := Nat → Option (List UInt8)

namespace ByteMem

def bytes (m : ByteMem) (a n : Nat) : List UInt8 := (List.range n).map fun i => m (a + i)

variable {m m' : ByteMem} {a n i : Nat}

@[simp]
theorem length_bytes (m : ByteMem) (a n : Nat) : (m.bytes a n).length = n := by
  simp [bytes]

@[simp]
theorem getElem_bytes (h : i < (m.bytes a n).length) : (m.bytes a n)[i] = m (a + i) := by
  simp [bytes]

theorem bytes_eq_iff {l : List UInt8}
    : m.bytes a n = l ↔ l.length = n ∧ ∀ i, (h : i < l.length) → m (a + i) = l[i] := by
  constructor
  . rintro rfl
    exact ⟨length_bytes m a n, fun i h => (getElem_bytes h).symm⟩
  . rintro ⟨hlen, hget⟩
    apply List.ext_getElem
    . rw [length_bytes, hlen]
    . intro i _ hi
      rw [getElem_bytes, hget i hi]

theorem bytes_congr (h : ∀ i < n, m' (a + i) = m (a + i)) : m'.bytes a n = m.bytes a n := by
  rw [bytes_eq_iff]
  refine ⟨length_bytes m a n, ?_⟩
  intro i hi
  rw [getElem_bytes]
  apply h
  rwa [length_bytes] at hi

theorem bytes_setByte (v : UInt8) : (m.setByte (a + i) v).bytes a n = (m.bytes a n).set i v := by
  rw [bytes_eq_iff]
  constructor
  . rw [List.length_set, length_bytes]
  . intro j hj
    rw [List.getElem_set, getElem_bytes]
    by_cases hij : i = j
    . rw [if_pos hij, hij, setByte_same]
    . rw [if_neg hij, setByte_ne]
      omega

theorem take_bytes {k : Nat} (hk : k ≤ n) : (m.bytes a n).take k = m.bytes a k := by
  unfold bytes
  rw [← List.map_take, List.take_range, Nat.min_eq_left hk]

theorem fill_inside {wrap k : Nat} (c : UInt8) (hwrap : a + k ≤ wrap) (hi : i < k)
    : fill wrap m a c k (a + i) = c := by
  induction k generalizing m a i with
  | zero => omega
  | succ k ih =>
    unfold fill
    rw [Nat.mod_eq_of_lt (by omega)]
    cases i with
    | zero =>
      rw [fill_outside _ _ _ _ _ _ (by omega) (by omega), Nat.add_zero, setByte_same]
    | succ i =>
      have hnext : a + (i + 1) = a + 1 + i := by omega
      rw [hnext]
      exact ih (by omega) (by omega)

theorem bytes_fill {wrap : Nat} (c : UInt8) (hwrap : a + n ≤ wrap)
    : (fill wrap m a c n).bytes a n = List.replicate n c := by
  rw [bytes_eq_iff]
  refine ⟨List.length_replicate, ?_⟩
  intro i hi
  rw [List.getElem_replicate]
  apply fill_inside _ hwrap
  rwa [List.length_replicate] at hi

theorem readLE_eq_zero (h : ∀ i < n, m (a + i) = 0) : m.readLE a n = 0 := by
  induction n generalizing a with
  | zero => rfl
  | succ n ih =>
    have hhead := h 0 (Nat.zero_lt_succ n)
    rw [Nat.add_zero] at hhead
    unfold readLE
    rw [hhead, ih]
    . rfl
    . intro i hi
      have hnext := h (i + 1) (Nat.succ_lt_succ hi)
      rwa [Nat.add_comm i 1, ← Nat.add_assoc] at hnext

theorem readLE_add {k : Nat}
    : m.readLE a (n + k) = m.readLE a n + 256 ^ n * m.readLE (a + n) k := by
  induction n generalizing a with
  | zero => simp [readLE]
  | succ n ih =>
    have hlen : n + 1 + k = n + k + 1 := by omega
    have hpos : a + (n + 1) = a + 1 + n := by omega
    rw [hlen, hpos, readLE, readLE, ih, Nat.pow_succ]
    ring

theorem fill_add {wrap p k : Nat} {c : UInt8}
    : m.fill wrap p c (k + n) = (m.fill wrap p c k).fill wrap (p + k) c n := by
  induction k generalizing m p with
  | zero => rw [Nat.zero_add, Nat.add_zero]; rfl
  | succ k ih =>
    have hlen : k + 1 + n = k + n + 1 := by omega
    have hpos : p + (k + 1) = p + 1 + k := by omega
    rw [hlen, hpos]
    exact ih

end ByteMem
