import DismasmOS.Heap.Layout

/-!
This module contains the test that the heap runs on itself while everybody else uses it (`heap test`),
with its memory and the code it returns.
-/

namespace DismasmOS

def Heap.memset (h : Heap) (p : Nat) (v : UInt8) (n : Nat) : Heap :=
  { h with mem := h.mem.fill Word.modulus p v n }

-- The loops that compare a payload with what was written into it.
def Heap.differs (h : Heap) (p : Nat) (v : UInt8) (n : Nat) : Bool :=
  (List.range n).any fun i => h.mem (Word.add p i) ≠ v

def Heap.differsWords (h : Heap) (p : Nat) (n : Nat) : Bool :=
  (List.range n).any fun i => h.mem.readLE (Word.add p (4 * i)) 4 ≠ 0

def freeAll (h : Heap) (ps : List Nat) : Heap := ps.foldl free h

-- The last part, `realloc` of the first block.
def selfTestResize (h : Heap) (p1 p2 p3 p4 : Nat) : Option (Int × Heap) := do
  let ⟨p1Expanded, h⟩ ← realloc h p1 128
  if p1Expanded = NULL then
    return ⟨9, freeAll h [p1, p2, p3, p4]⟩
  if h.differs p1Expanded 0xAA 64 then
    return ⟨10, freeAll h [p1Expanded, p2, p3, p4]⟩
  return ⟨0, freeAll h [p1Expanded, p2, p3, p4]⟩

-- The part before it, `calloc` of a fourth block.
def selfTestClear (h : Heap) (p1 p2 p3 : Nat) : Option (Int × Heap) := do
  let ⟨p4, h⟩ ← calloc h 32 4
  if p4 = NULL then
    return ⟨7, freeAll h [p1, p2, p3]⟩
  if h.differsWords p4 32 then
    return ⟨8, freeAll h [p1, p2, p3, p4]⟩
  selfTestResize h p1 p2 p3 p4

def heapSelfTest (h : Heap) : Option (Int × Heap) := do
  let ⟨p1, h⟩ ← malloc h 64
  if p1 = NULL then
    return ⟨1, h⟩
  let ⟨p2, h⟩ ← malloc h 256
  if p2 = NULL then
    return ⟨2, freeAll h [p1]⟩
  let ⟨p3, h⟩ ← malloc h 1024
  if p3 = NULL then
    return ⟨3, freeAll h [p1, p2]⟩
  let h := ((h.memset p1 0xAA 64).memset p2 0xBB 256).memset p3 0xCC 1024
  if h.differs p1 0xAA 64 then
    return ⟨4, freeAll h [p1, p2, p3]⟩
  if h.differs p2 0xBB 256 then
    return ⟨5, freeAll h [p1, p2, p3]⟩
  if h.differs p3 0xCC 1024 then
    return ⟨6, freeAll h [p1, p2, p3]⟩
  selfTestClear h p1 p2 p3

-- A free block of at least `n` bytes.
def Heap.HasRoom (h : Heap) (n : Nat) : Prop :=
  ∃ bs, h.blocks = some bs ∧ ∃ b ∈ bs, HeapBlock.isFree h.mem b ≠ 0 ∧ n ≤ HeapBlock.size h.mem b

-- The codes of success and of an allocation that was refused, and no code of a payload that differs.
def selfTestCodes : List Int := [0, 1, 2, 3, 7, 9]

end DismasmOS
