import DismasmOS.Heap.Stats
import DismasmOS.Heap.Lemmas.DoubleFree

/-!
This module contains the verification of the heap statistics: the two counters are the sums over the
blocks they stand for, so the saturating branches of `free` are dead and no byte of the pool is lost.
-/

namespace DismasmOS

open HeapBlock
open BlockList

section Sums

variable {h : Heap} {pv a nx : Nat} {bs : List Block}

theorem isUsedBlock_eq {b : Block} (hb : Header h.mem a b nx pv) : h.isUsedBlock a = !b.free := by
  unfold Heap.isUsedBlock
  rw [hb.isFree]
  cases b.free <;> rfl

theorem Segment.sum_used (hseg : Segment h.mem pv a nx bs)
    : (((addrs sizeofHeapBlock a bs).filter h.isUsedBlock).map (size h.mem)).sum = usedBytes bs := by
  induction bs generalizing pv a with
  | nil => rfl
  | cons b bs ih =>
    obtain ⟨hb, hrest⟩ := hseg
    unfold addrs usedBytes
    rw [List.filter_cons, isUsedBlock_eq hb, ← ih hrest]
    cases b.free with
    | true => simp
    | false => simp [hb.size]

theorem Segment.count_used (hseg : Segment h.mem pv a nx bs)
    : ((addrs sizeofHeapBlock a bs).filter h.isUsedBlock).length = usedCount bs := by
  induction bs generalizing pv a with
  | nil => rfl
  | cons b bs ih =>
    obtain ⟨hb, hrest⟩ := hseg
    unfold addrs usedCount
    rw [List.filter_cons, isUsedBlock_eq hb, ← ih hrest]
    cases b.free with
    | true => simp
    | false => simp [Nat.add_comm]

theorem Segment.sum_free (hseg : Segment h.mem pv a nx bs)
    : usedBytes bs
          + (((addrs sizeofHeapBlock a bs).filter (!h.isUsedBlock ·)).map (size h.mem)).sum
          + sizeofHeapBlock * (addrs sizeofHeapBlock a bs).length
        =
      total sizeofHeapBlock bs := by
  induction bs generalizing pv a with
  | nil => rfl
  | cons b bs ih =>
    obtain ⟨hb, hrest⟩ := hseg
    have ih := ih hrest
    unfold addrs usedBytes
    rw [total_cons, List.filter_cons, isUsedBlock_eq hb, ← ih, List.length_cons, Nat.mul_succ]
    cases b.free with
    | true =>
      simp only [Bool.not_true, Bool.not_false, ↓reduceIte, List.map_cons, List.sum_cons, hb.size]
      omega
    | false =>
      simp only [Bool.not_true, Bool.not_false, Bool.false_eq_true, ↓reduceIte]
      omega

theorem Heap.Repr.counted (hr : h.Repr bs) : h.Counted (addrs sizeofHeapBlock h.heapBase bs) := by
  constructor
  . exact hr.walk
  . rw [hr.segment.sum_used]
    exact hr.used
  . rw [hr.segment.count_used]
    exact hr.count
  . rw [hr.used, hr.segment.sum_free, hr.tiles]
    exact hr.totalSize

end Sums

section Saturates

variable {s : HeapClient} {bs : List Block} {ptr : Nat}

theorem HeapClient.ReprBy.not_saturates (h : s.ReprBy bs)
    (hptr : ptr = NULL ∨ ptr ∈ s.live ∨ s.heap.Outside ptr)
    : ¬s.heap.Saturates ptr := by
  intro hsat
  have hfits := h.repr.fits
  have htotal := h.repr.totalSize
  have hge := hsat.ge_base
  have hlt := hsat.lt_end
  rw [Word.add_of_lt (by unfold sizeofHeapBlock; omega)] at hge
  rw [Word.add_of_lt hfits] at hlt
  rcases hptr with hnull | hlive | hout
  . unfold NULL at hnull
    unfold sizeofHeapBlock at hge
    omega
  . obtain ⟨c, hc, hused⟩ := (h.live ptr).mp hlive
    have hheader := h.repr.header_at hused
    obtain ⟨pre, b, post, hbs, hfree, hpos, hsize⟩ := h.repr.block_at hused
    have hshort := hsat.short
    unfold payloadSize at hsize
    rw [Nat.add_sub_cancel] at hsize
    rw [hc, Word.sub_of_le (by omega) (by omega), Nat.add_sub_cancel, hsize, h.repr.used,
      h.repr.count, hbs] at hshort
    simp only [usedBytes_append, usedCount_append, usedBytes, usedCount, hfree, Bool.false_eq_true,
      ↓reduceIte] at hshort
    omega
  . unfold Heap.Outside Heap.poolEnd at hout
    omega

end Saturates

section Runs

theorem StrayStep.inv {s t : HeapClient} {e : HeapCall} (h : StrayStep s e t) (hs : s.Inv) : t.Inv := by
  obtain ⟨bs, hrepr⟩ := hs
  cases h with
  | client hcall hstep =>
    obtain ⟨bs', hrepr', _⟩ := hstep.reprFrom hcall.inRange hrepr
    exact ⟨bs', hrepr'⟩
  | @stray ptr hptr =>
    by_cases hlive : ptr ∈ s.live
    . obtain ⟨bs', hrepr', _⟩ := hrepr.free (.inr hlive)
      exact ⟨bs', hrepr'⟩
    . rw [free_of_outside hrepr.repr hptr, Finset.erase_eq_of_notMem hlive]
      exact ⟨bs, hrepr⟩

theorem heap_counted {kernelEnd : Nat} {mem : ByteMem} {calls : List HeapCall} {s : HeapClient}
    (hpool : PoolFits kernelEnd) (hrun : Run StrayStep (HeapClient.init kernelEnd mem) calls s)
    : (∃ bs, s.heap.Counted bs)
        ∧ ∀ ptr, ptr = NULL ∨ ptr ∈ s.live ∨ s.heap.Outside ptr → ¬s.heap.Saturates ptr := by
  have hinv : s.Inv := by
    apply hrun.invariant HeapClient.Inv
    . intro s e t _ hs hstep
      exact hstep.inv hs
    . exact HeapClient.init_inv mem hpool
  obtain ⟨bs, hrepr⟩ := hinv
  exact ⟨⟨_, hrepr.repr.counted⟩, fun ptr => hrepr.not_saturates⟩

theorem heap_counted_stray
    : ∃ s, Run StrayStep (HeapClient.init 0x200000 (fun _ => 0)) [.malloc 24, .free 0x1000] s
        ∧ ∃ bs, s.heap.Counted bs := by
  have hsome := (HeapClient.init_inv (fun _ => 0) poolFits_first).malloc_isSome 24
  obtain ⟨⟨p, h⟩, hcall⟩ := Option.isSome_iff_exists.mp hsome
  have hout : h.Outside 0x1000 := by
    left
    rw [(malloc_pool hcall).1]
    unfold HeapClient.init
    rw [heapInit_eq _ poolFits_first]
    decide
  have hmalloc : HeapCall.MallocFree (.malloc 24) := trivial
  have hrun := Run.cons (StrayStep.client hmalloc (.malloc (by decide) hcall))
    (Run.cons (StrayStep.stray hout) (Run.nil _))
  exact ⟨_, hrun, (heap_counted poolFits_first hrun).1⟩

end Runs

end DismasmOS
