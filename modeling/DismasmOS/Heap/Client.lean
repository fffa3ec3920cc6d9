import Mathlib.Data.Finset.Basic
import DismasmOS.Lib.Run
import DismasmOS.Heap.Impl

/-!
This module contains the users of the heap: code that calls `malloc`, `calloc`, `realloc` and `free`
in any order, frees nothing but live pointers and writes nowhere but into live payloads.
-/

namespace DismasmOS

structure HeapClient where
  heap : Heap
  live : Finset Nat

inductive HeapCall where
  | malloc (size : Nat)
  | calloc (nmemb size : Nat)
  | realloc (ptr size : Nat)
  | free (ptr : Nat)
  | store (addr : Nat) (v : UInt8)

def payloadSize (h : Heap) (p : Nat) : Nat := HeapBlock.size h.mem (p - sizeofHeapBlock)

def obtained (live : Finset Nat) (p : Nat) : Finset Nat :=
  if p = NULL then live else insert p live

-- `realloc(ptr, 0)` frees `ptr`, any other call that returns `NULL` leaves it alone.
def reallocated (live : Finset Nat) (ptr size q : Nat) : Finset Nat :=
  if q ≠ NULL then
    insert q (live.erase ptr)
  else if size = 0 then
    live.erase ptr
  else
    live

inductive HeapStep : HeapClient → HeapCall → HeapClient → Prop where
  | malloc {s : HeapClient} {size p : Nat} {h : Heap} (hsize : size < Word.modulus)
      (hcall : malloc s.heap size = some ⟨p, h⟩)
      : HeapStep s (.malloc size) ⟨h, obtained s.live p⟩
  | calloc {s : HeapClient} {nmemb size p : Nat} {h : Heap} (hnmemb : nmemb < Word.modulus)
      (hsize : size < Word.modulus) (hcall : calloc s.heap nmemb size = some ⟨p, h⟩)
      : HeapStep s (.calloc nmemb size) ⟨h, obtained s.live p⟩
  | realloc {s : HeapClient} {ptr size q : Nat} {h : Heap} (hsize : size < Word.modulus)
      (hptr : ptr = NULL ∨ ptr ∈ s.live) (hcall : realloc s.heap ptr size = some ⟨q, h⟩)
      : HeapStep s (.realloc ptr size) ⟨h, reallocated s.live ptr size q⟩
  | free {s : HeapClient} {ptr : Nat} (hptr : ptr = NULL ∨ ptr ∈ s.live)
      : HeapStep s (.free ptr) ⟨free s.heap ptr, s.live.erase ptr⟩
  | store {s : HeapClient} {p addr : Nat} {v : UInt8} (hlive : p ∈ s.live) (hlo : p ≤ addr)
      (hhi : addr < p + payloadSize s.heap p)
      : HeapStep s (.store addr v) ⟨{ s.heap with mem := s.heap.mem.setByte addr v }, s.live⟩

def HeapClient.init (kernelEnd : Nat) (mem : ByteMem) : HeapClient where
  heap := heapInit kernelEnd mem
  live := ∅

-- The pool `heap_init` sets up behind the kernel image ends below the end of the address space.
def PoolFits (kernelEnd : Nat) : Prop := kernelEnd + 0x10FFF + 16 * 1024 * 1024 < Word.modulus

-- `calloc` and `realloc` touch the payload they asked for, up to `2 ^ 64 - 16` bytes are honoured.
def HeapCall.InRange : HeapCall → Prop
  | .calloc nmemb size =>
    nmemb * size + HEAP_ALIGNMENT ≤ Word.modulus ∨ Word.modulus ≤ nmemb * size
  | .realloc _ size => size + HEAP_ALIGNMENT ≤ Word.modulus
  | .malloc _ | .free _ | .store _ _ => True

end DismasmOS
