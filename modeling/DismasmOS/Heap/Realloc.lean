import DismasmOS.Heap.Walk

/-!
This module contains what a caller of `realloc` relies on: which pointers the heap holds as allocated
and what a call that resized one of them may have changed.
-/

namespace DismasmOS

open HeapBlock

namespace Heap

def Live (h : Heap) (p : Nat) : Prop :=
  ∃ bs, h.blocks = some bs ∧ ∃ b ∈ bs, p = b + sizeofHeapBlock ∧ isFree h.mem b = 0

def SamePayload (h h' : Heap) (p : Nat) : Prop :=
  payloadSize h' p = payloadSize h p ∧ ∀ i < payloadSize h p, h'.mem (p + i) = h.mem (p + i)

-- `realloc(ptr, size)` returned `q` and left the heap `h'`.
structure Resized (h : Heap) (ptr size q : Nat) (h' : Heap) : Prop where
  live : h'.Live q
  payload : size ≤ payloadSize h' q
  data : ∀ i < min (payloadSize h ptr) size, h'.mem (q + i) = h.mem (ptr + i)
  gone : q ≠ ptr → ¬h'.Live ptr
  others : ∀ p, h.Live p → p ≠ ptr → h'.Live p ∧ h.SamePayload h' p

end Heap

end DismasmOS
