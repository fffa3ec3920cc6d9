import DismasmOS.Heap.Lemmas.Walk

/-!
This module contains the verification of the two merges of `free` over whole runs: no two neighbours
of the list are ever both free, so with the last live allocation the list shrinks back to the block
`heap_init` made.
-/

namespace DismasmOS

open HeapBlock
open BlockList

theorem Segment.noFreeNeighbours {m : ByteMem} {pv a nx : Nat} {bs : List Block}
    (h : Segment m pv a nx bs) (hbs : NoFreeNeighbours bs)
    : (addrs sizeofHeapBlock a bs).IsChain (fun x y => isFree m x = 0 ∨ isFree m y = 0) := by
  induction bs generalizing pv a with
  | nil => exact List.isChain_nil
  | cons b bs ih =>
    obtain ⟨hb, hrest⟩ := h
    rw [NoFreeNeighbours.cons_iff] at hbs
    have hchain := ih hrest hbs.2
    cases bs with
    | nil => apply List.isChain_singleton
    | cons y ys =>
      apply List.isChain_cons_cons.mpr
      refine ⟨?_, hchain⟩
      rw [hb.isFree, hrest.1.isFree]
      have hseam := hbs.1 y (by simp)
      cases hseam with
      | inl hfree => simp [hfree]
      | inr hfree => simp [hfree]

theorem Heap.Repr.coalesced {h : Heap} {bs : List Block} (hr : h.Repr bs)
    (hbs : NoFreeNeighbours bs)
    : h.Coalesced :=
  ⟨_, hr.walk, hr.segment.noFreeNeighbours hbs⟩

theorem Heap.Repr.pristine {h : Heap} {size : Nat} (hr : h.Repr [⟨size, true⟩]) : h.Pristine := by
  have hheader := Segment.singleton_iff.mp hr.segment
  have hsize : size = 16 * 1024 * 1024 - sizeofHeapBlock := by
    have htiles := hr.tiles
    rw [hr.totalSize] at htiles
    simp only [total_cons, total_nil] at htiles
    omega
  constructor
  . exact hr.walk
  . exact hheader.magic
  . rw [hheader.size]
    exact hsize
  . exact hheader.isFree
  . exact hheader.next
  . exact hheader.prev
  . exact hr.used
  . exact hr.count

theorem HeapClient.ReprBy.free_of_not_live {s : HeapClient} {bs : List Block} (h : s.ReprBy bs)
    (hlive : s.live = ∅)
    : ∀ b ∈ bs, b.free = true := by
  intro b hb
  by_contra hused
  obtain ⟨c, hc⟩ := @usedAt_of_mem sizeofHeapBlock s.heap.heapBase _ _ hb
    (by simpa using hused)
  have hmem := (h.live (c + sizeofHeapBlock)).mpr ⟨c, rfl, hc⟩
  rw [hlive] at hmem
  simp at hmem

theorem malloc_free_coalesced {kernelEnd : Nat} {mem : ByteMem} {calls : List HeapCall}
    {s : HeapClient} (hpool : PoolFits kernelEnd)
    (hrun : Run HeapStep (HeapClient.init kernelEnd mem) calls s)
    (hcalls : ∀ e ∈ calls, e.InRange)
    : s.heap.Coalesced
        ∧ (s.live = ∅ → s.heap.heapBase = (heapInit kernelEnd mem).heapBase ∧ s.heap.Pristine) := by
  obtain ⟨bs, hrepr, hsteps⟩ := HeapStep.run_reprFrom hpool hrun hcalls
  have hbs := (NoFreeNeighbours.singleton _).steps hsteps
  refine ⟨hrepr.repr.coalesced hbs, ?_⟩
  intro hlive
  obtain ⟨size, rfl⟩ := hbs.eq_singleton hrepr.repr.ne_nil (hrepr.free_of_not_live hlive)
  exact ⟨(HeapStep.run_pool hrun).1, hrepr.repr.pristine⟩

theorem malloc_free_coalesced_twice
    : ∃ p s, Run HeapStep (HeapClient.init 0x200000 (fun _ => 0)) [.malloc 24, .free p] s
        ∧ s.heap.Coalesced ∧ s.heap.Pristine := by
  obtain ⟨p, s, hrun, hlive⟩ := HeapStep.run_first
  have hdone := malloc_free_coalesced poolFits_first hrun (by simp [HeapCall.InRange])
  exact ⟨p, s, hrun, hdone.1, (hdone.2 hlive).2⟩

end DismasmOS
