import DismasmOS.Lib.BlockList
import DismasmOS.Heap.Impl

/-!
This module contains the theory of a single block header in raw memory: which bytes each field
occupies and what every field write does to the header it is aimed at and to all other memory.
-/

namespace DismasmOS
namespace HeapBlock

structure Header (m : ByteMem) (a : Nat) (b : Block) (nx pv : Nat) : Prop where
  magic : magic m a = HEAP_MAGIC
  size : size m a = b.size
  isFree : isFree m a = if b.free then 1 else 0
  next : next m a = nx
  prev : prev m a = pv

section Congr

variable {m m' : ByteMem} {a : Nat}

theorem magic_congr (h : m.AgreeOn m' a 8) : magic m' a = magic m a :=
  ByteMem.readLE_congr h

theorem size_congr (h : m.AgreeOn m' (a + 8) 8) : size m' a = size m a :=
  ByteMem.readLE_congr h

theorem isFree_congr (h : m.AgreeOn m' (a + 16) 1) : isFree m' a = isFree m a :=
  h (a + 16) (by omega) (by omega)

theorem next_congr (h : m.AgreeOn m' (a + 32) 8) : next m' a = next m a :=
  ByteMem.readLE_congr h

theorem prev_congr (h : m.AgreeOn m' (a + 40) 8) : prev m' a = prev m a :=
  ByteMem.readLE_congr h

end Congr

section Write

variable (m : ByteMem) (p : Nat)

theorem agreeOn_setMagic (v : Nat) {a n : Nat} (h : p + 8 ≤ a ∨ a + n ≤ p)
    : m.AgreeOn (setMagic m p v) a n := by
  apply ByteMem.agreeOn_writeLE
  omega

theorem agreeOn_setSize (v : Nat) {a n : Nat} (h : p + 16 ≤ a ∨ a + n ≤ p + 8)
    : m.AgreeOn (setSize m p v) a n := by
  apply ByteMem.agreeOn_writeLE
  omega

theorem agreeOn_setIsFree (v : UInt8) {a n : Nat} (h : p + 17 ≤ a ∨ a + n ≤ p + 16)
    : m.AgreeOn (setIsFree m p v) a n := by
  apply ByteMem.agreeOn_setByte
  omega

theorem agreeOn_setNext (v : Nat) {a n : Nat} (h : p + 40 ≤ a ∨ a + n ≤ p + 32)
    : m.AgreeOn (setNext m p v) a n := by
  apply ByteMem.agreeOn_writeLE
  omega

theorem agreeOn_setPrev (v : Nat) {a n : Nat} (h : p + 48 ≤ a ∨ a + n ≤ p + 40)
    : m.AgreeOn (setPrev m p v) a n := by
  apply ByteMem.agreeOn_writeLE
  omega

theorem agreeOn_clearPadding {a n : Nat} (hwrap : p + 32 ≤ Word.modulus)
    (h : p + 32 ≤ a ∨ a + n ≤ p + 17)
    : m.AgreeOn (clearPadding m p) a n := by
  apply ByteMem.agreeOn_fill
  . omega
  . omega

variable {v : Nat} (hv : v < Word.modulus)

theorem magic_setMagic (hv : v < Word.modulus) : magic (setMagic m p v) p = v :=
  ByteMem.readLE_writeLE_of_lt _ _ _ _ hv

theorem size_setSize (hv : v < Word.modulus) : size (setSize m p v) p = v :=
  ByteMem.readLE_writeLE_of_lt _ _ _ _ hv

theorem isFree_setIsFree (v : UInt8) : isFree (setIsFree m p v) p = v := by
  simp [isFree, setIsFree]

theorem next_setNext (hv : v < Word.modulus) : next (setNext m p v) p = v :=
  ByteMem.readLE_writeLE_of_lt _ _ _ _ hv

theorem prev_setPrev (hv : v < Word.modulus) : prev (setPrev m p v) p = v :=
  ByteMem.readLE_writeLE_of_lt _ _ _ _ hv

theorem next_lt : next m p < Word.modulus := ByteMem.readLE_lt ..

end Write

namespace Header

variable {m m' : ByteMem} {a : Nat} {b : Block} {nx pv : Nat}

-- Only the first 40 bytes of a header are independent of the block's predecessor.
theorem congr_prev {pv' : Nat} (h : Header m a b nx pv) (hagree : m.AgreeOn m' a 40)
    (hprev : HeapBlock.prev m' a = pv')
    : Header m' a b nx pv' := by
  constructor
  . rw [magic_congr (hagree.mono (by omega) (by omega))]
    exact h.magic
  . rw [size_congr (hagree.mono (by omega) (by omega))]
    exact h.size
  . rw [isFree_congr (hagree.mono (by omega) (by omega))]
    exact h.isFree
  . rw [next_congr (hagree.mono (by omega) (by omega))]
    exact h.next
  . exact hprev

theorem congr (h : Header m a b nx pv) (hagree : m.AgreeOn m' a sizeofHeapBlock)
    : Header m' a b nx pv := by
  unfold sizeofHeapBlock at hagree
  apply h.congr_prev
  . exact hagree.mono (by omega) (by omega)
  . rw [prev_congr (hagree.mono (by omega) (by omega))]
    exact h.prev

theorem setSize (h : Header m a b nx pv) {v : Nat} (hv : v < Word.modulus)
    : Header (setSize m a v) a ⟨v, b.free⟩ nx pv := by
  constructor
  . rw [magic_congr (agreeOn_setSize _ _ _ (by omega))]
    exact h.magic
  . exact size_setSize _ _ hv
  . rw [isFree_congr (agreeOn_setSize _ _ _ (by omega))]
    exact h.isFree
  . rw [next_congr (agreeOn_setSize _ _ _ (by omega))]
    exact h.next
  . rw [prev_congr (agreeOn_setSize _ _ _ (by omega))]
    exact h.prev

theorem setIsFree (h : Header m a b nx pv) (f : Bool)
    : Header (setIsFree m a (if f then 1 else 0)) a ⟨b.size, f⟩ nx pv := by
  constructor
  . rw [magic_congr (agreeOn_setIsFree _ _ _ (by omega))]
    exact h.magic
  . rw [size_congr (agreeOn_setIsFree _ _ _ (by omega))]
    exact h.size
  . apply isFree_setIsFree
  . rw [next_congr (agreeOn_setIsFree _ _ _ (by omega))]
    exact h.next
  . rw [prev_congr (agreeOn_setIsFree _ _ _ (by omega))]
    exact h.prev

theorem setNext (h : Header m a b nx pv) {v : Nat} (hv : v < Word.modulus)
    : Header (setNext m a v) a b v pv := by
  constructor
  . rw [magic_congr (agreeOn_setNext _ _ _ (by omega))]
    exact h.magic
  . rw [size_congr (agreeOn_setNext _ _ _ (by omega))]
    exact h.size
  . rw [isFree_congr (agreeOn_setNext _ _ _ (by omega))]
    exact h.isFree
  . exact next_setNext _ _ hv
  . rw [prev_congr (agreeOn_setNext _ _ _ (by omega))]
    exact h.prev

theorem next_lt (h : Header m a b nx pv) : nx < Word.modulus := by
  rw [← h.next]
  apply HeapBlock.next_lt

theorem isFree_ne_zero_iff (h : Header m a b nx pv) : HeapBlock.isFree m a ≠ 0 ↔ b.free = true := by
  rw [h.isFree]
  cases b.free <;> simp

-- The flag of a header is never the first byte of a magic.
theorem isFree_ne (h : Header m a b nx pv) : HeapBlock.isFree m a ≠ 0x50 := by
  rw [h.isFree]
  cases b.free <;> decide

end Header

-- The six writes with which `heap_init` and `malloc` set up the header of a free block.
def writeFree (m : ByteMem) (p size nx pv : Nat) : ByteMem :=
  let m := setMagic m p HEAP_MAGIC
  let m := setSize m p size
  let m := setIsFree m p 1
  let m := setNext m p nx
  let m := setPrev m p pv
  clearPadding m p

theorem agreeOn_writeFree (m : ByteMem) (p size nx pv : Nat) {a n : Nat}
    (hwrap : p + sizeofHeapBlock ≤ Word.modulus) (h : p + sizeofHeapBlock ≤ a ∨ a + n ≤ p)
    : m.AgreeOn (writeFree m p size nx pv) a n := by
  unfold sizeofHeapBlock at *
  have h1 := agreeOn_setMagic m p HEAP_MAGIC (a := a) (n := n) (by omega)
  have h2 := h1.trans (agreeOn_setSize _ p size (by omega))
  have h3 := h2.trans (agreeOn_setIsFree _ p 1 (by omega))
  have h4 := h3.trans (agreeOn_setNext _ p nx (by omega))
  have h5 := h4.trans (agreeOn_setPrev _ p pv (by omega))
  exact h5.trans (agreeOn_clearPadding _ p (by omega) (by omega))

theorem writeFree_header (m : ByteMem) (p size nx pv : Nat)
    (hwrap : p + sizeofHeapBlock ≤ Word.modulus) (hsize : size < Word.modulus)
    (hnx : nx < Word.modulus) (hpv : pv < Word.modulus)
    : Header (writeFree m p size nx pv) p ⟨size, true⟩ nx pv := by
  unfold sizeofHeapBlock at hwrap
  unfold writeFree
  constructor
  . rw [magic_congr (agreeOn_clearPadding _ _ (by omega) (by omega))]
    rw [magic_congr (agreeOn_setPrev _ _ _ (by omega))]
    rw [magic_congr (agreeOn_setNext _ _ _ (by omega))]
    rw [magic_congr (agreeOn_setIsFree _ _ _ (by omega))]
    rw [magic_congr (agreeOn_setSize _ _ _ (by omega))]
    apply magic_setMagic
    decide
  . rw [size_congr (agreeOn_clearPadding _ _ (by omega) (by omega))]
    rw [size_congr (agreeOn_setPrev _ _ _ (by omega))]
    rw [size_congr (agreeOn_setNext _ _ _ (by omega))]
    rw [size_congr (agreeOn_setIsFree _ _ _ (by omega))]
    exact size_setSize _ _ hsize
  . rw [isFree_congr (agreeOn_clearPadding _ _ (by omega) (by omega))]
    rw [isFree_congr (agreeOn_setPrev _ _ _ (by omega))]
    rw [isFree_congr (agreeOn_setNext _ _ _ (by omega))]
    apply isFree_setIsFree
  . rw [next_congr (agreeOn_clearPadding _ _ (by omega) (by omega))]
    rw [next_congr (agreeOn_setPrev _ _ _ (by omega))]
    exact next_setNext _ _ hnx
  . rw [prev_congr (agreeOn_clearPadding _ _ (by omega) (by omega))]
    exact prev_setPrev _ _ hpv

end HeapBlock
end DismasmOS
