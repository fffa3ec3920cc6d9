import DismasmOS.Lib.BlockUnique
import DismasmOS.Heap.Layout
import DismasmOS.Heap.Lemmas.Realloc

/-!
This module contains the verification that the heap has no memory of its past: where the blocks lie and
what the counters say follows from the live allocations alone.
-/

namespace DismasmOS

open HeapBlock
open BlockList

section Repr

variable {h h' : Heap} {bs : List Block}

theorem Segment.header_at {m : ByteMem} {pv a nx c : Nat} (hseg : Segment m pv a nx bs)
    (hc : c ∈ addrs sizeofHeapBlock a bs)
    : ∃ pre b post, bs = pre ++ b :: post ∧ c = a + total sizeofHeapBlock pre
        ∧ Header m c b (if post = [] then nx else c + (sizeofHeapBlock + b.size))
          (lastAddr sizeofHeapBlock pv a pre) := by
  obtain ⟨pre, b, post, rfl, hpos⟩ := exists_of_mem_addrs _ hc
  refine ⟨pre, b, post, rfl, hpos, ?_⟩
  rw [hpos]
  exact (Segment.append_cons.mp hseg).2.1

theorem Heap.Repr.sameLayout (hr : h.Repr bs) (hr' : h'.Repr bs) (hbase : h'.heapBase = h.heapBase)
    : h.SameLayout h' := by
  have hseg' := hr'.segment
  rw [hbase] at hseg'
  constructor
  . rw [hr.walk, hr'.walk, hbase]
  . intro bs' hwalk c hc
    rw [hr.walk] at hwalk
    cases hwalk
    obtain ⟨pre, b, post, rfl, rfl, hheader⟩ := hr.segment.header_at hc
    have hheader' := (Segment.append_cons.mp hseg').2.1
    refine ⟨?_, ?_, ?_, ?_, ?_⟩
    . rw [hheader.magic, hheader'.magic]
    . rw [hheader.size, hheader'.size]
    . rw [hheader.isFree, hheader'.isFree]
    . rw [hheader.next, hheader'.next]
    . rw [hheader.prev, hheader'.prev]
  . rw [hr.used, hr'.used]
  . rw [hr.count, hr'.count]

-- The first fit search sees nothing but the blocks.
theorem Heap.Repr.malloc_eq (hr : h.Repr bs) (hr' : h'.Repr bs) (hbase : h'.heapBase = h.heapBase)
    (n : Nat)
    : (malloc h' n).map Prod.fst = (malloc h n).map Prod.fst := by
  cases hr.malloc_cases n with
  | inl hnone =>
    cases hr'.malloc_cases n with
    | inl hnone' =>
      rw [hnone.1, hnone'.1]
      rfl
    | inr hsome' =>
      obtain ⟨pre, b, post, _, hn, hbs, hfits, _⟩ := hsome'
      exact absurd hfits (hnone.2.resolve_left hn b (by simp [hbs]))
  | inr hsome =>
    obtain ⟨pre, b, post, _, hn, hbs, hfits, hpre, hcall, _⟩ := hsome
    cases hr'.malloc_cases n with
    | inl hnone' => exact absurd hfits (hnone'.2.resolve_left hn b (by simp [hbs]))
    | inr hsome' =>
      obtain ⟨pre', b', post', _, _, hbs', hfits', hpre', hcall', _⟩ := hsome'
      have hsplit := hbs.symm.trans hbs'
      have hsame : pre = pre' := by
        rcases List.append_eq_append_iff.mp hsplit with ⟨l, hl, hr⟩ | ⟨l, hl, hr⟩
        . cases l with
          | nil => rw [hl, List.append_nil]
          | cons x l =>
            rw [List.cons_append, List.cons.injEq] at hr
            exact absurd hfits (hpre' b (by simp [hl, hr.1]))
        . cases l with
          | nil => rw [hl, List.append_nil]
          | cons x l =>
            rw [List.cons_append, List.cons.injEq] at hr
            exact absurd hfits' (hpre b' (by simp [hl, hr.1]))
      rw [hcall, hcall', hbase, hsame]
      rfl

end Repr

section Client

variable {s t : HeapClient} {bs bs' : List Block}

theorem HeapClient.ReprBy.mem_usedBlocks_iff (h : s.ReprBy bs) {c n : Nat}
    : (⟨c, n⟩ : Nat × Nat) ∈ usedBlocks sizeofHeapBlock s.heap.heapBase bs
        ↔ c + sizeofHeapBlock ∈ s.live ∧ payloadSize s.heap (c + sizeofHeapBlock) = n := by
  rw [BlockList.mem_usedBlocks_iff]
  constructor
  . rintro ⟨pre, b, post, rfl, hfree, heq⟩
    cases heq
    refine ⟨(h.live _).mpr ⟨_, rfl, ?_⟩, h.repr.payloadSize_eq⟩
    exact (usedAt_mid_iff _ (by decide)).mpr hfree
  . rintro ⟨hlive, rfl⟩
    obtain ⟨pre, b, post, rfl, hfree, rfl, hsize⟩ := h.repr.block_at (h.usedAt hlive)
    exact ⟨pre, b, post, rfl, hfree, by rw [hsize]⟩

theorem HeapClient.ReprBy.eq_of_live (h : s.ReprBy bs) (h' : t.ReprBy bs')
    (hbs : NoFreeNeighbours bs) (hbs' : NoFreeNeighbours bs')
    (hbase : t.heap.heapBase = s.heap.heapBase) (hlive : t.live = s.live)
    (hsize : ∀ p ∈ s.live, payloadSize t.heap p = payloadSize s.heap p)
    : bs' = bs := by
  have hhdr : 0 < sizeofHeapBlock := by decide
  apply hbs'.eq_of_usedBlocks (a := s.heap.heapBase) hhdr hbs
  . rw [h.repr.tiles, h'.repr.tiles, h.repr.totalSize, h'.repr.totalSize]
  . rintro ⟨c, n⟩
    have hmem' := h'.mem_usedBlocks_iff (c := c) (n := n)
    rw [hbase, hlive] at hmem'
    rw [hmem', h.mem_usedBlocks_iff]
    apply and_congr_right
    intro hc
    rw [hsize _ hc]

end Client

-- Two programs, two pasts, the same allocations.
theorem heap_layout_unique {kernelEnd : Nat} {mem mem' : ByteMem} {calls calls' : List HeapCall}
    {s t : HeapClient} (hpool : PoolFits kernelEnd)
    (hrun : Run HeapStep (HeapClient.init kernelEnd mem) calls s)
    (hcalls : ∀ e ∈ calls, e.InRange)
    (hrun' : Run HeapStep (HeapClient.init kernelEnd mem') calls' t)
    (hcalls' : ∀ e ∈ calls', e.InRange) (hlive : t.live = s.live)
    (hsize : ∀ p ∈ s.live, payloadSize t.heap p = payloadSize s.heap p)
    : s.heap.SameLayout t.heap
        ∧ ∀ n, (malloc t.heap n).map Prod.fst = (malloc s.heap n).map Prod.fst := by
  obtain ⟨bs, hrepr, hsteps⟩ := HeapStep.run_reprFrom hpool hrun hcalls
  obtain ⟨bs', hrepr', hsteps'⟩ := HeapStep.run_reprFrom hpool hrun' hcalls'
  have hbase : t.heap.heapBase = s.heap.heapBase := by
    rw [(HeapStep.run_pool hrun).1, (HeapStep.run_pool hrun').1]
    unfold HeapClient.init
    dsimp only
    rw [heapInit_eq _ hpool, heapInit_eq _ hpool]
  have hone := NoFreeNeighbours.singleton ⟨16 * 1024 * 1024 - sizeofHeapBlock, true⟩
  have heq := hrepr.eq_of_live hrepr' (hone.steps hsteps) (hone.steps hsteps') hbase hlive hsize
  rw [heq] at hrepr'
  exact ⟨hrepr.repr.sameLayout hrepr'.repr hbase, hrepr.repr.malloc_eq hrepr'.repr hbase⟩

theorem heap_layout_unique_twice
    : ∃ p s, Run HeapStep (HeapClient.init 0x200000 (fun _ => 0)) [.malloc 24, .free p] s
        ∧ (HeapClient.init 0x200000 (fun _ => 7)).heap.SameLayout s.heap := by
  obtain ⟨p, s, hrun, hlive⟩ := HeapStep.run_first
  have hcalls : ∀ e ∈ [HeapCall.malloc 24, HeapCall.free p], e.InRange := by simp [HeapCall.InRange]
  have hnil : Run HeapStep (HeapClient.init 0x200000 (fun _ => 7)) [] _ := Run.nil _
  have hsame := heap_layout_unique poolFits_first hnil (by simp) hrun hcalls hlive (by simp [HeapClient.init])
  exact ⟨p, s, hrun, hsame.1⟩

end DismasmOS
