import DismasmOS.Lib.BlockGap
import DismasmOS.Heap.Walk

/-!
This module contains the room that the live allocations leave in the pool, without a look at the list of
blocks: an allocation covers its header and its payload, and what no allocation covers is left.
-/

namespace DismasmOS

def Heap.Covers (h : Heap) (p x : Nat) : Prop := p ≤ x + sizeofHeapBlock ∧ x < p + payloadSize h p

def HeapClient.Uncovered (s : HeapClient) (x : Nat) : Prop :=
  s.heap.heapBase ≤ x ∧ x < s.heap.poolEnd ∧ ∀ p ∈ s.live, ¬s.heap.Covers p x

-- `n` rounded up to a multiple of the alignment, as an integer.
def roundUp (n : Nat) : Nat := (n + (HEAP_ALIGNMENT - 1)) / HEAP_ALIGNMENT * HEAP_ALIGNMENT

end DismasmOS
