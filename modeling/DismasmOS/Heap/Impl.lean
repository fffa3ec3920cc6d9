import DismasmOS.Lib.ByteMem
import DismasmOS.Lib.Word

/-!
This module contains the kernel heap of `src/mm/heap.c`: a boundary tagged list of blocks that lives
in raw memory, with first fit allocation, splitting and two sided coalescing.
-/

namespace DismasmOS

def HEAP_MAGIC : Nat := 0x48454150
def HEAP_ALIGNMENT : Nat := 16

/--
`sizeof(struct heap_block)`: `magic` at offset 0, `size` at 8, `is_free` at 16, `padding[15]` at 17,
`next` at 32 and `prev` at 40.
-/
def sizeofHeapBlock : Nat := 48

def NULL : Nat := 0

def heapAlign (sz : Nat) : Nat :=
  Word.add sz (HEAP_ALIGNMENT - 1) &&& Word.not (HEAP_ALIGNMENT - 1)

namespace HeapBlock

def magic (m : ByteMem) (b : Nat) : Nat := m.readLE b 8
def size (m : ByteMem) (b : Nat) : Nat := m.readLE (b + 8) 8
def isFree (m : ByteMem) (b : Nat) : UInt8 := m (b + 16)
def next (m : ByteMem) (b : Nat) : Nat := m.readLE (b + 32) 8
def prev (m : ByteMem) (b : Nat) : Nat := m.readLE (b + 40) 8

def setMagic (m : ByteMem) (b v : Nat) : ByteMem := m.writeLE b 8 v
def setSize (m : ByteMem) (b v : Nat) : ByteMem := m.writeLE (b + 8) 8 v
def setIsFree (m : ByteMem) (b : Nat) (v : UInt8) : ByteMem := m.setByte (b + 16) v
def setNext (m : ByteMem) (b v : Nat) : ByteMem := m.writeLE (b + 32) 8 v
def setPrev (m : ByteMem) (b v : Nat) : ByteMem := m.writeLE (b + 40) 8 v

def clearPadding (m : ByteMem) (b : Nat) : ByteMem := m.fill Word.modulus (b + 17) 0 15

end HeapBlock

open HeapBlock

structure Heap where
  mem : ByteMem
  heapBase : Nat
  heapTotalSize : Nat
  heapUsedBytes : Nat
  heapAllocCount : Nat
  heapHead : Nat

def heapInit (kernelEnd : Nat) (mem : ByteMem) : Heap :=
  let start := Word.add (Word.add kernelEnd 0x10000) 0xFFF &&& Word.not 0xFFF
  let totalSize := 16 * 1024 * 1024
  let mem := setMagic mem start HEAP_MAGIC
  let mem := setSize mem start (Word.sub totalSize sizeofHeapBlock)
  let mem := setIsFree mem start 1
  let mem := setNext mem start NULL
  let mem := setPrev mem start NULL
  let mem := clearPadding mem start
  {
    mem := mem
    heapBase := start
    heapTotalSize := totalSize
    heapUsedBytes := 0
    heapAllocCount := 0
    heapHead := start
  }

def splitBlock (m : ByteMem) (curr size : Nat) : ByteMem :=
  let rem := Word.add (Word.add curr sizeofHeapBlock) size
  let m := setMagic m rem HEAP_MAGIC
  let m := setSize m rem (Word.sub (Word.sub (HeapBlock.size m curr) size) sizeofHeapBlock)
  let m := setIsFree m rem 1
  let m := setNext m rem (next m curr)
  let m := setPrev m rem curr
  let m := clearPadding m rem
  let m := if next m rem ≠ NULL then setPrev m (next m rem) rem else m
  let m := setNext m curr rem
  setSize m curr size

def takeBlock (h : Heap) (curr size : Nat) : Nat × Heap :=
  let mem :=
    if HeapBlock.size h.mem curr ≥ Word.add (Word.add size sizeofHeapBlock) HEAP_ALIGNMENT then
      splitBlock h.mem curr size
    else
      h.mem
  let mem := setIsFree mem curr 0
  ⟨
    Word.add curr sizeofHeapBlock,
    { h with
        mem := mem
        heapUsedBytes := Word.add h.heapUsedBytes (HeapBlock.size mem curr)
        heapAllocCount := Word.add h.heapAllocCount 1 }
  ⟩

def mallocLoop (h : Heap) (size : Nat) (fuel : Nat) (curr : Nat) : Option (Nat × Heap) :=
  match fuel with
  | 0 => none
  | fuel + 1 =>
    if curr = NULL then
      some ⟨NULL, h⟩
    else if isFree h.mem curr ≠ 0 ∧ HeapBlock.size h.mem curr ≥ size then
      some (takeBlock h curr size)
    else
      mallocLoop h size fuel (next h.mem curr)

def malloc (h : Heap) (size : Nat) : Option (Nat × Heap) :=
  if h.heapHead = NULL ∨ size = 0 then
    some ⟨NULL, h⟩
  else
    mallocLoop h (heapAlign size) (h.heapTotalSize + 1) h.heapHead

def mergeNext (m : ByteMem) (block : Nat) : ByteMem :=
  if next m block ≠ NULL ∧ isFree m (next m block) ≠ 0 then
    let m := setSize m block
      (Word.add (HeapBlock.size m block)
        (Word.add sizeofHeapBlock (HeapBlock.size m (next m block))))
    let m := setNext m block (next m (next m block))
    if next m block ≠ NULL then setPrev m (next m block) block else m
  else
    m

def mergePrev (m : ByteMem) (block : Nat) : ByteMem :=
  if prev m block ≠ NULL ∧ isFree m (prev m block) ≠ 0 then
    let m := setSize m (prev m block)
      (Word.add (HeapBlock.size m (prev m block))
        (Word.add sizeofHeapBlock (HeapBlock.size m block)))
    let m := setNext m (prev m block) (next m block)
    if next m block ≠ NULL then setPrev m (next m block) (prev m block) else m
  else
    m

def free (h : Heap) (ptr : Nat) : Heap :=
  if ptr = NULL ∨ h.heapBase = NULL then
    h
  else if ptr < Word.add h.heapBase sizeofHeapBlock
      ∨ ptr ≥ Word.add h.heapBase h.heapTotalSize then
    h
  else
    let block := Word.sub ptr sizeofHeapBlock
    if magic h.mem block ≠ HEAP_MAGIC ∨ isFree h.mem block ≠ 0 then
      h
    else
      let mem := setIsFree h.mem block 1
      let size := HeapBlock.size mem block
      let used := if h.heapUsedBytes ≥ size then Word.sub h.heapUsedBytes size else 0
      let count := if h.heapAllocCount > 0 then Word.sub h.heapAllocCount 1 else h.heapAllocCount
      { h with
          mem := mergePrev (mergeNext mem block) block
          heapUsedBytes := used
          heapAllocCount := count }

def calloc (h : Heap) (nmemb size : Nat) : Option (Nat × Heap) :=
  if nmemb ≠ 0 ∧ size > (Word.modulus - 1) / nmemb then
    some ⟨NULL, h⟩
  else
    let total := Word.mul nmemb size
    match malloc h total with
    | none => none
    | some ⟨ptr, h⟩ =>
      if ptr ≠ NULL then
        some ⟨ptr, { h with mem := h.mem.fill Word.modulus ptr 0 total }⟩
      else
        some ⟨ptr, h⟩

def realloc (h : Heap) (ptr size : Nat) : Option (Nat × Heap) :=
  if ptr = NULL then
    malloc h size
  else if size = 0 then
    some ⟨NULL, free h ptr⟩
  else
    let block := Word.sub ptr sizeofHeapBlock
    if magic h.mem block ≠ HEAP_MAGIC then
      some ⟨NULL, h⟩
    else if HeapBlock.size h.mem block ≥ size then
      some ⟨ptr, h⟩
    else
      match malloc h size with
      | none => none
      | some ⟨newPtr, h⟩ =>
        if newPtr = NULL then
          some ⟨NULL, h⟩
        else
          let blockSize := HeapBlock.size h.mem block
          let copyBytes := if blockSize < size then blockSize else size
          let h := { h with mem := h.mem.copy Word.modulus newPtr ptr copyBytes }
          some ⟨newPtr, free h ptr⟩

end DismasmOS
