import Mathlib.Data.List.Basic
import Mathlib.Algebra.Order.Ring.Nat

/-!
This module contains ring buffers: `n` slots of which those from `tail` up to `head` hold the pending
elements, oldest first. One slot always stays empty, so that equal indices mean an empty ring.
-/

structure RingBuffer (α : Type) (n : Nat) where
  buffer : Vector α n
  head : Fin n
  tail : Fin n

namespace RingBuffer

variable {α : Type} {n : Nat}

theorem wrap_eq {x : Nat} (h : x < 2 * n) : x % n = if x < n then x else x - n := by
  split
  . next hlt => exact Nat.mod_eq_of_lt hlt
  . next hge =>
    rw [Nat.mod_eq_sub_mod (by omega)]
    apply Nat.mod_eq_of_lt
    omega

def advance (i : Fin n) : Fin n := ⟨(i + 1) % n, Nat.mod_lt _ i.pos⟩

def push (r : RingBuffer α n) (x : α) : Option (RingBuffer α n) :=
  if advance r.head ≠ r.tail then
    some { r with buffer := r.buffer.set r.head x, head := advance r.head }
  else
    none

def front (r : RingBuffer α n) : α := r.buffer[r.tail]

def pop (r : RingBuffer α n) : RingBuffer α n := { r with tail := advance r.tail }

def count (r : RingBuffer α n) : Nat := (r.head + (n - r.tail)) % n

def slot (r : RingBuffer α n) (k : Nat) : Fin n := ⟨(r.tail + k) % n, Nat.mod_lt _ r.tail.pos⟩

def pending (r : RingBuffer α n) : List α := (List.range r.count).map fun k => r.buffer[r.slot k]

variable (r : RingBuffer α n)

theorem advance_val (i : Fin n) : (advance i).val = if i.val + 1 < n then i.val + 1 else 0 := by
  unfold advance
  dsimp only
  rw [wrap_eq (by omega)]
  split
  . rfl
  . omega

theorem count_eq
    : r.count
        =
      if r.tail.val ≤ r.head.val then r.head.val - r.tail.val else r.head.val + n - r.tail.val := by
  have htail := r.tail.isLt
  have hhead := r.head.isLt
  unfold count
  rw [wrap_eq (by omega)]
  split <;> split <;> omega

theorem slot_val {k : Nat} (hk : k ≤ n)
    : (r.slot k).val = if r.tail.val + k < n then r.tail.val + k else r.tail.val + k - n := by
  unfold slot
  dsimp only
  rw [wrap_eq (by omega)]

theorem length_pending : r.pending.length = r.count := by
  unfold pending
  rw [List.length_map, List.length_range]

theorem pending_eq_nil_iff : r.pending = [] ↔ r.head = r.tail := by
  have htail := r.tail.isLt
  have hhead := r.head.isLt
  rw [← List.length_eq_zero_iff, length_pending, count_eq, Fin.ext_iff]
  split <;> omega

theorem slot_eq_head_iff {k : Nat} (hk : k ≤ r.count)
    : (r.slot k).val = r.head.val ↔ k = r.count := by
  have htail := r.tail.isLt
  have hhead := r.head.isLt
  have hcount := r.count_eq
  have hlt : r.count < n := Nat.mod_lt _ r.tail.pos
  rw [slot_val _ (by omega)]
  split at hcount <;> split <;> omega

theorem slot_ne_head {k : Nat} (hk : k < r.count) : (r.slot k).val ≠ r.head.val := by
  rw [ne_eq, r.slot_eq_head_iff (Nat.le_of_lt hk)]
  exact Nat.ne_of_lt hk

theorem slot_count : (r.slot r.count).val = r.head.val :=
  (r.slot_eq_head_iff (Nat.le_refl _)).mpr rfl

variable {r}

theorem pending_push {r' : RingBuffer α n} {x : α} (h : r.push x = some r')
    : r'.pending = r.pending ++ [x] := by
  unfold push at h
  split at h
  . next hroom =>
    simp only [Option.some.injEq] at h
    have htail := r.tail.isLt
    have hhead := r.head.isLt
    have hnext := advance_val r.head
    have hcount : r'.count = r.count + 1 := by
      rw [← h, count_eq, count_eq]
      simp only [hnext, ne_eq, Fin.ext_iff] at *
      grind
    have hslot : ∀ k, r'.slot k = r.slot k := by
      intro k
      rw [← h]
      rfl
    have hbuffer : r'.buffer = r.buffer.set r.head x := by rw [← h]
    unfold pending
    rw [hcount, List.range_succ, List.map_append, List.map_singleton]
    congr 1
    . apply List.map_congr_left
      intro k hk
      rw [List.mem_range] at hk
      have hne := r.slot_ne_head hk
      simp only [hslot, hbuffer, Fin.getElem_fin]
      rw [Vector.getElem_set_ne]
      exact hne.symm
    . simp only [hslot, hbuffer, Fin.getElem_fin]
      rw [Vector.getElem_set, if_pos r.slot_count.symm]
  . simp at h

theorem push_eq_none {x : α} (h : r.push x = none) : r.pending.length + 1 = n := by
  unfold push at h
  split at h
  . simp at h
  . next hfull =>
    have htail := r.tail.isLt
    have hhead := r.head.isLt
    have hnext := advance_val r.head
    rw [length_pending, count_eq]
    simp only [hnext, ne_eq, not_not, Fin.ext_iff] at *
    grind

theorem pending_pop (h : r.head ≠ r.tail) : r.pending = r.front :: r.pop.pending := by
  have htail := r.tail.isLt
  have hhead := r.head.isLt
  have hnext := advance_val r.tail
  have hcount : r.count = r.pop.count + 1 := by
    rw [count_eq, count_eq]
    unfold pop
    simp only [hnext, ne_eq, Fin.ext_iff] at *
    grind
  have hlt : r.count < n := Nat.mod_lt _ r.tail.pos
  unfold pending
  rw [hcount, List.range_succ_eq_map, List.map_cons, List.map_map]
  congr 1
  . unfold front
    congr 1
    rw [Fin.ext_iff, slot_val _ (by omega), if_pos (by omega)]
    rfl
  . apply List.map_congr_left
    intro k hk
    rw [List.mem_range] at hk
    dsimp only [Function.comp, pop]
    congr 1
    rw [Fin.ext_iff, slot_val _ (by omega), slot_val _ (by omega)]
    dsimp only
    rw [hnext]
    split <;> split <;> split <;> omega

end RingBuffer
