import DismasmOS.Heap.Walk

/-!
This module contains users of the heap that lose track of what they freed already: they call `malloc`
and `free` in any order and pass any pointer to `free` they once got, but write into no payload.
-/

namespace DismasmOS

-- `returned` holds every pointer `malloc` ever returned, freed or not.
structure HeapUser extends HeapClient where
  returned : Finset Nat

inductive UserCall where
  | malloc (size : Nat)
  | free (ptr : Nat)

def Heap.Outside (h : Heap) (ptr : Nat) : Prop := ptr < h.heapBase ∨ h.poolEnd ≤ ptr

inductive UserStep : HeapUser → UserCall → HeapUser → Prop where
  | malloc {s : HeapUser} {size p : Nat} {h : Heap} (hsize : size < Word.modulus)
      (hcall : malloc s.heap size = some ⟨p, h⟩)
      : UserStep s (.malloc size) ⟨⟨h, obtained s.live p⟩, obtained s.returned p⟩
  | free {s : HeapUser} {ptr : Nat} (hptr : ptr ∈ s.returned ∨ s.heap.Outside ptr)
      : UserStep s (.free ptr) ⟨⟨free s.heap ptr, s.live.erase ptr⟩, s.returned⟩

def HeapUser.init (kernelEnd : Nat) (mem : ByteMem) : HeapUser where
  toHeapClient := .init kernelEnd mem
  returned := ∅

-- The boot page tables map the first GiB of the address space.
def Heap.Mapped (h : Heap) : Prop := h.poolEnd ≤ 2 ^ 30

end DismasmOS
