import DismasmOS.Lib.Objects
import DismasmOS.Heap.Client

/-!
This module contains what the heap is for: objects of bytes that come and go and change by nothing but
the stores into them, wherever they lie in the pool.
-/

namespace DismasmOS

def HeapClient.objects (s : HeapClient) : ObjectStore := fun p =>
  if p ∈ s.live then some (s.heap.mem.bytes p (payloadSize s.heap p)) else none

-- The calls that may be refused for want of room.
def HeapCall.Allocates : HeapCall → Prop
  | .malloc _ | .calloc _ _ => True
  | .realloc _ size => size ≠ 0
  | .free _ | .store _ _ => False

open Function in
inductive ObjectStep : ObjectStore → HeapCall → ObjectStore → Prop where
  | refused {o : ObjectStore} {e : HeapCall} (halloc : e.Allocates) : ObjectStep o e o
  | malloc {o : ObjectStore} {size p : Nat} {l : List UInt8} (hfresh : o p = none)
      (hlen : size + HEAP_ALIGNMENT ≤ Word.modulus → size ≤ l.length)
      : ObjectStep o (.malloc size) (update o p (some l))
  | calloc {o : ObjectStore} {nmemb size p : Nat} {l : List UInt8} (hfresh : o p = none)
      (hzero : l.take (nmemb * size) = List.replicate (nmemb * size) 0)
      : ObjectStep o (.calloc nmemb size) (update o p (some l))
  | obtain {o : ObjectStore} {size p : Nat} {l : List UInt8} (hfresh : o p = none)
      (hlen : size ≤ l.length)
      : ObjectStep o (.realloc NULL size) (update o p (some l))
  | keep {o : ObjectStore} {ptr size : Nat} {l : List UInt8} (hptr : o ptr = some l)
      (hlen : size ≤ l.length)
      : ObjectStep o (.realloc ptr size) o
  | move {o : ObjectStore} {ptr size q : Nat} {l l' : List UInt8} (hptr : o ptr = some l)
      (hlen : l.length < size) (hfresh : o q = none) (hcopy : l <+: l') (hsize : size ≤ l'.length)
      : ObjectStep o (.realloc ptr size) (update (update o ptr none) q (some l'))
  | giveUp {o : ObjectStore} {ptr : Nat} : ObjectStep o (.realloc ptr 0) (update o ptr none)
  | free {o : ObjectStore} {ptr : Nat} : ObjectStep o (.free ptr) (update o ptr none)
  | store {o : ObjectStore} {p i : Nat} {l : List UInt8} {v : UInt8} (hp : o p = some l)
      (hi : i < l.length)
      : ObjectStep o (.store (p + i) v) (update o p (some (l.set i v)))

end DismasmOS
