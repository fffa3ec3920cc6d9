import DismasmOS.Heap.DoubleFree

/-!
This module contains the counters of the heap as its statistics report them, and programs that hand
`free` pointers which were never in the pool besides the ones they got.
-/

namespace DismasmOS

open HeapBlock

namespace Heap

def isUsedBlock (h : Heap) (b : Nat) : Bool := isFree h.mem b = 0

-- The counters against the blocks that following the links finds.
structure Counted (h : Heap) (bs : List Nat) : Prop where
  walk : h.blocks = some bs
  used : h.heapUsedBytes = ((bs.filter h.isUsedBlock).map (size h.mem)).sum
  count : h.heapAllocCount = (bs.filter h.isUsedBlock).length
  conserved : h.heapUsedBytes + ((bs.filter (!h.isUsedBlock ·)).map (size h.mem)).sum
    + sizeofHeapBlock * bs.length = 16 * 1024 * 1024

-- `free` gets past its guards and finds a counter that does not cover the block.
structure Saturates (h : Heap) (ptr : Nat) : Prop where
  base_ne : h.heapBase ≠ NULL
  ge_base : Word.add h.heapBase sizeofHeapBlock ≤ ptr
  lt_end : ptr < Word.add h.heapBase h.heapTotalSize
  magic : magic h.mem (Word.sub ptr sizeofHeapBlock) = HEAP_MAGIC
  isFree : isFree h.mem (Word.sub ptr sizeofHeapBlock) = 0
  short : h.heapUsedBytes < size h.mem (Word.sub ptr sizeofHeapBlock) ∨ h.heapAllocCount = 0

end Heap

inductive StrayStep : HeapClient → HeapCall → HeapClient → Prop where
  | client {s t : HeapClient} {e : HeapCall} (hcall : e.MallocFree) (hstep : HeapStep s e t)
      : StrayStep s e t
  | stray {s : HeapClient} {ptr : Nat} (hptr : s.heap.Outside ptr)
      : StrayStep s (.free ptr) ⟨free s.heap ptr, s.live.erase ptr⟩

end DismasmOS
