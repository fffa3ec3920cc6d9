import Mathlib.Data.List.Chain
import DismasmOS.Heap.Client

/-!
This module contains what the heap looks like from outside: the blocks its list links reach and what
it means for the list to tile the pool, to be coalesced and for a request to be granted.
-/

namespace DismasmOS

open HeapBlock

def blockWalk (m : ByteMem) (fuel : Nat) (curr : Nat) : Option (List Nat) :=
  match fuel with
  | 0 => none
  | fuel + 1 =>
    if curr = NULL then
      some []
    else
      match blockWalk m fuel (next m curr) with
      | none => none
      | some blocks => some (curr :: blocks)

namespace Heap

def blocks (h : Heap) : Option (List Nat) := blockWalk h.mem (h.heapTotalSize + 1) h.heapHead

def HasFree (h : Heap) : Prop := ∃ bs, h.blocks = some bs ∧ ∃ b ∈ bs, isFree h.mem b ≠ 0

def blockEnd (h : Heap) (b : Nat) : Nat := b + sizeofHeapBlock + size h.mem b

def poolEnd (h : Heap) : Nat := h.heapBase + h.heapTotalSize

structure Tiled (h : Heap) (bs : List Nat) : Prop where
  walk : h.blocks = some bs
  head : bs.head? = some h.heapBase
  magic : ∀ b ∈ bs, magic h.mem b = HEAP_MAGIC
  aligned : ∀ b ∈ bs, HEAP_ALIGNMENT ∣ size h.mem b
  inPool : ∀ b ∈ bs, h.blockEnd b ≤ h.poolEnd
  next : ∀ b ∈ bs, next h.mem b = if h.blockEnd b = h.poolEnd then NULL else h.blockEnd b
  prev : bs.map (prev h.mem) = (NULL :: bs).dropLast

-- Of two neighbours at most one is free.
def Coalesced (h : Heap) : Prop :=
  ∃ bs, h.blocks = some bs ∧ bs.IsChain (fun a b => isFree h.mem a = 0 ∨ isFree h.mem b = 0)

-- One free block over the whole pool and counters that say so, as after `heap_init`.
structure Pristine (h : Heap) : Prop where
  walk : h.blocks = some [h.heapBase]
  magic : magic h.mem h.heapBase = HEAP_MAGIC
  size : size h.mem h.heapBase = 16 * 1024 * 1024 - sizeofHeapBlock
  isFree : isFree h.mem h.heapBase = 1
  next : next h.mem h.heapBase = NULL
  prev : prev h.mem h.heapBase = NULL
  used : h.heapUsedBytes = 0
  count : h.heapAllocCount = 0

end Heap

-- A program that neither clears nor resizes what it gets.
def HeapCall.MallocFree : HeapCall → Prop
  | .malloc _ | .free _ | .store _ _ => True
  | .calloc _ _ | .realloc _ _ => False

inductive HeapRequest where
  | malloc (size : Nat)
  | calloc (nmemb size : Nat)

namespace HeapRequest

-- The number of bytes asked for as an integer, not modulo `2 ^ 64`.
def bytes : HeapRequest → Nat
  | malloc size => size
  | calloc nmemb size => nmemb * size

def Valid : HeapRequest → Prop
  | malloc size => 0 < size ∧ size < Word.modulus
  | calloc nmemb size => 0 < nmemb * size ∧ nmemb < Word.modulus ∧ size < Word.modulus

def call (h : Heap) : HeapRequest → Option (Nat × Heap)
  | malloc size => DismasmOS.malloc h size
  | calloc nmemb size => DismasmOS.calloc h nmemb size

end HeapRequest

structure HeapClient.Granted (s : HeapClient) (p n : Nat) : Prop where
  aligned : HEAP_ALIGNMENT ∣ p
  payload : n ≤ payloadSize s.heap p
  inPool : s.heap.heapBase ≤ p ∧ p + n ≤ s.heap.poolEnd
  headers : ∃ bs, s.heap.blocks = some bs ∧ ∀ b ∈ bs, p + n ≤ b ∨ b + sizeofHeapBlock ≤ p
  others : ∀ q ∈ s.live, q ≠ p → p + n ≤ q ∨ q + payloadSize s.heap q ≤ p

-- Whatever a request returns is granted, unless it is `NULL`.
def HeapRequest.Honoured (s : HeapClient) (r : HeapRequest) : Prop :=
  ∃ p h, r.call s.heap = some ⟨p, h⟩
    ∧ (p ≠ NULL → HeapClient.Granted ⟨h, insert p s.live⟩ p r.bytes)

end DismasmOS
