import DismasmOS.Heap.Walk

/-!
This module contains what it means that two heaps lie in the pool in the same way, whatever the bytes
of their payloads are.
-/

namespace DismasmOS

open HeapBlock

structure Heap.SameLayout (h h' : Heap) : Prop where
  walk : h'.blocks = h.blocks
  headers : ∀ bs, h.blocks = some bs → ∀ b ∈ bs, magic h'.mem b = magic h.mem b
    ∧ size h'.mem b = size h.mem b ∧ isFree h'.mem b = isFree h.mem b
    ∧ next h'.mem b = next h.mem b ∧ prev h'.mem b = prev h.mem b
  used : h'.heapUsedBytes = h.heapUsedBytes
  count : h'.heapAllocCount = h.heapAllocCount

end DismasmOS
