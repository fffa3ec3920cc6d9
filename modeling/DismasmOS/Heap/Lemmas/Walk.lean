import DismasmOS.Heap.Lemmas.Client
import DismasmOS.Heap.Walk

/-!
This module contains the consequences of the heap invariant for everybody who follows the links:
the blocks tile the pool and requests are granted exactly as long as `HEAP_ALIGN` does not wrap.
-/

namespace DismasmOS

open HeapBlock
open BlockList

namespace Segment

theorem blockWalk {m : ByteMem} (fuel : Nat) {pv a : Nat} {bs : List Block} (h : Segment m pv a NULL bs)
    (hfuel : bs.length < fuel) (ha : NULL < a)
    : blockWalk m fuel (if bs = [] then NULL else a) = some (addrs sizeofHeapBlock a bs) := by
  induction bs generalizing fuel pv a with
  | nil =>
    cases fuel with
    | zero => simp at hfuel
    | succ fuel => simp [DismasmOS.blockWalk, addrs]
  | cons b bs ih =>
    cases fuel with
    | zero => simp at hfuel
    | succ fuel =>
      obtain ⟨hb, hrest⟩ := h
      unfold DismasmOS.blockWalk
      simp only [reduceCtorEq, ↓reduceIte]
      rw [if_neg (by omega), hb.next]
      rw [ih _ hrest (by simpa using hfuel) (by omega)]
      rfl

theorem prevs {m : ByteMem} {pv a nx : Nat} {bs : List Block} (h : Segment m pv a nx bs)
    : (addrs sizeofHeapBlock a bs).map (prev m) = (pv :: addrs sizeofHeapBlock a bs).dropLast := by
  induction bs generalizing pv a with
  | nil => rfl
  | cons b bs ih =>
    obtain ⟨hb, hrest⟩ := h
    simp only [addrs, List.map_cons]
    rw [ih hrest, hb.prev, List.dropLast_cons_cons]

theorem header_of_mem {m : ByteMem} {pv a nx : Nat} {bs : List Block} (h : Segment m pv a nx bs)
    {c : Nat} (hc : c ∈ addrs sizeofHeapBlock a bs)
    : ∃ b ∈ bs, magic m c = HEAP_MAGIC ∧ size m c = b.size
        ∧ (isFree m c = if b.free then 1 else 0)
        ∧ c + sizeofHeapBlock + size m c ≤ a + total sizeofHeapBlock bs
        ∧ next m c
          = if c + sizeofHeapBlock + size m c = a + total sizeofHeapBlock bs then nx
            else c + sizeofHeapBlock + size m c := by
  obtain ⟨pre, b, post, hbs, hpos⟩ := exists_of_mem_addrs _ hc
  rw [hbs, append_cons] at h
  obtain ⟨-, hb, -⟩ := h
  rw [← hpos] at hb
  refine ⟨b, by simp [hbs], hb.magic, hb.size, hb.isFree, ?_, ?_⟩
  . rw [hb.size, hbs, hpos]
    simp only [total_append, total_cons]
    omega
  . rw [hb.size, hbs, hb.next, hpos]
    simp only [total_append, total_cons]
    cases post with
    | nil =>
      rw [if_pos rfl, if_pos]
      simp only [total_nil]
      omega
    | cons y ys =>
      rw [if_neg (by simp), if_neg]
      . omega
      . simp only [total_cons]
        unfold sizeofHeapBlock
        omega

theorem exists_free_iff {m : ByteMem} {pv a nx : Nat} {bs : List Block} (h : Segment m pv a nx bs)
    : (∃ c ∈ addrs sizeofHeapBlock a bs, isFree m c ≠ 0) ↔ ∃ b ∈ bs, b.free = true := by
  induction bs generalizing pv a with
  | nil => simp [addrs]
  | cons b bs ih =>
    obtain ⟨hb, hrest⟩ := h
    simp only [addrs, List.mem_cons, exists_eq_or_imp]
    rw [ih hrest, hb.isFree_ne_zero_iff]

theorem usedAt_iff {m : ByteMem} {pv a nx : Nat} {bs : List Block} (h : Segment m pv a nx bs)
    (c : Nat)
    : UsedAt sizeofHeapBlock a bs c ↔ c ∈ addrs sizeofHeapBlock a bs ∧ isFree m c = 0 := by
  induction bs generalizing pv a with
  | nil => simp [addrs, UsedAt]
  | cons b bs ih =>
    obtain ⟨hb, hrest⟩ := h
    simp only [addrs, UsedAt, List.mem_cons]
    rw [ih hrest]
    have hfree : isFree m a = 0 ↔ b.free = false := by
      rw [hb.isFree]
      cases b.free <;> simp
    grind

end Segment

section Tiled

theorem Heap.Repr.ne_nil {h : Heap} {bs : List Block} (hr : h.Repr bs) : bs ≠ [] := by
  intro hnil
  have htiles := hr.tiles
  rw [hnil, hr.totalSize] at htiles
  simp at htiles

theorem Heap.Repr.walk {h : Heap} {bs : List Block} (hr : h.Repr bs)
    : h.blocks = some (addrs sizeofHeapBlock h.heapBase bs) := by
  have hlen := length_le_total sizeofHeapBlock bs (by decide)
  have hbase : 0 < h.heapBase := Nat.lt_of_lt_of_le (by decide) hr.base_ge
  rw [hr.tiles] at hlen
  unfold Heap.blocks
  rw [hr.head]
  have hwalk := hr.segment.blockWalk (h.heapTotalSize + 1) (by omega) hbase
  rw [if_neg hr.ne_nil] at hwalk
  exact hwalk

theorem Heap.Repr.tiled {h : Heap} {bs : List Block} (hr : h.Repr bs)
    : h.Tiled (addrs sizeofHeapBlock h.heapBase bs) := by
  constructor
  . exact hr.walk
  . cases bs with
    | nil => exact absurd rfl hr.ne_nil
    | cons b bs => rfl
  . intro c hc
    obtain ⟨b, _, hmagic, _⟩ := hr.segment.header_of_mem hc
    exact hmagic
  . intro c hc
    obtain ⟨b, hb, _, hsize, _⟩ := hr.segment.header_of_mem hc
    rw [hsize]
    exact hr.aligned b hb
  . intro c hc
    obtain ⟨b, _, _, _, _, hend, _⟩ := hr.segment.header_of_mem hc
    unfold Heap.blockEnd Heap.poolEnd
    rw [← hr.tiles]
    exact hend
  . intro c hc
    obtain ⟨b, _, _, _, _, _, hnext⟩ := hr.segment.header_of_mem hc
    unfold Heap.blockEnd Heap.poolEnd
    rw [← hr.tiles]
    exact hnext
  . exact hr.segment.prevs

theorem Heap.Repr.hasFree_iff {h : Heap} {bs : List Block} (hr : h.Repr bs)
    : h.HasFree ↔ ∃ b ∈ bs, b.free = true := by
  unfold Heap.HasFree
  rw [← hr.segment.exists_free_iff, hr.walk]
  simp

theorem HeapClient.ReprBy.live_iff {s : HeapClient} {bs : List Block} (h : s.ReprBy bs) (p : Nat)
    : p ∈ s.live
        ↔ ∃ b ∈ addrs sizeofHeapBlock s.heap.heapBase bs,
          p = b + sizeofHeapBlock ∧ isFree s.heap.mem b = 0 := by
  rw [h.live]
  constructor
  . rintro ⟨c, hp, hc⟩
    rw [h.repr.segment.usedAt_iff] at hc
    exact ⟨c, hc.1, hp, hc.2⟩
  . rintro ⟨c, hc, hp, hfree⟩
    refine ⟨c, hp, ?_⟩
    rw [h.repr.segment.usedAt_iff]
    exact ⟨hc, hfree⟩

theorem HeapClient.Inv.malloc_isSome {s : HeapClient} (h : s.Inv) (n : Nat)
    : (DismasmOS.malloc s.heap n).isSome := by
  obtain ⟨bs, hrepr⟩ := h
  cases hrepr.malloc_cases n with
  | inl hnone => rw [hnone.1, Option.isSome_some]
  | inr hsome =>
    obtain ⟨_, _, _, _, _, hcall, _⟩ := hsome
    rw [hcall, Option.isSome_some]

theorem HeapStep.run_first
    : ∃ p s, Run HeapStep (HeapClient.init 0x200000 (fun _ => 0)) [.malloc 24, .free p] s
        ∧ s.live = ∅ := by
  have hsome := (HeapClient.init_inv (fun _ => 0) poolFits_first).malloc_isSome 24
  obtain ⟨⟨p, h⟩, hcall⟩ := Option.isSome_iff_exists.mp hsome
  have hp : (p = NULL ∨ p ∈ obtained ∅ p) ∧ (obtained ∅ p).erase p = ∅ := by
    unfold obtained
    split <;> simp_all
  exact ⟨p, _, Run.cons (HeapStep.malloc (by decide) hcall)
    (Run.cons (HeapStep.free hp.1) (Run.nil _)), hp.2⟩

theorem HeapClient.Inv.tiled {s : HeapClient} (h : s.Inv)
    : ∃ bs, s.heap.Tiled bs
        ∧ ∀ p, p ∈ s.live ↔ ∃ b ∈ bs, p = b + sizeofHeapBlock ∧ isFree s.heap.mem b = 0 := by
  obtain ⟨bs, hrepr⟩ := h
  exact ⟨_, hrepr.repr.tiled, hrepr.live_iff⟩

theorem mallocLoop_pool {h h' : Heap} {size fuel curr p : Nat}
    (hcall : mallocLoop h size fuel curr = some ⟨p, h'⟩)
    : h'.heapBase = h.heapBase ∧ h'.heapTotalSize = h.heapTotalSize := by
  induction fuel generalizing curr with
  | zero => simp [mallocLoop] at hcall
  | succ fuel ih =>
    unfold mallocLoop at hcall
    split at hcall
    . simp only [Option.some.injEq, Prod.mk.injEq] at hcall
      simp [← hcall.2]
    . split at hcall
      . simp only [Option.some.injEq] at hcall
        unfold takeBlock at hcall
        simp only [Prod.mk.injEq] at hcall
        simp [← hcall.2]
      . exact ih hcall

theorem malloc_pool {h h' : Heap} {n p : Nat} (hcall : malloc h n = some ⟨p, h'⟩)
    : h'.heapBase = h.heapBase ∧ h'.heapTotalSize = h.heapTotalSize := by
  unfold malloc at hcall
  split at hcall
  . simp only [Option.some.injEq, Prod.mk.injEq] at hcall
    simp [← hcall.2]
  . exact mallocLoop_pool hcall

theorem free_pool (h : Heap) (ptr : Nat)
    : (free h ptr).heapBase = h.heapBase ∧ (free h ptr).heapTotalSize = h.heapTotalSize := by
  unfold free
  dsimp only
  split
  . simp
  . split
    . simp
    . split <;> simp

theorem calloc_pool {h h' : Heap} {nmemb size p : Nat}
    (hcall : calloc h nmemb size = some ⟨p, h'⟩)
    : h'.heapBase = h.heapBase ∧ h'.heapTotalSize = h.heapTotalSize := by
  by_cases hover : Word.modulus ≤ nmemb * size
  . rw [calloc_of_overflow _ hover] at hcall
    simp only [Option.some.injEq, Prod.mk.injEq] at hcall
    simp [← hcall.2]
  . rw [calloc_of_lt _ (by omega), Option.map_eq_some_iff] at hcall
    obtain ⟨⟨q, hq⟩, hmalloc, hres⟩ := hcall
    have hpool := malloc_pool hmalloc
    dsimp only at hres
    split at hres
    . simp only [Prod.mk.injEq] at hres
      rw [← hres.2]
      exact hpool
    . simp only [Prod.mk.injEq] at hres
      rw [← hres.2]
      exact hpool

theorem realloc_pool {h h' : Heap} {ptr size q : Nat}
    (hcall : realloc h ptr size = some ⟨q, h'⟩)
    : h'.heapBase = h.heapBase ∧ h'.heapTotalSize = h.heapTotalSize := by
  cases realloc_cases hcall with
  | fresh _ hmalloc | full _ _ hmalloc => exact malloc_pool hmalloc
  | freed => exact free_pool h ptr
  | refused | kept => exact ⟨rfl, rfl⟩
  | moved _ _ hmalloc _ _ =>
    have hpool := malloc_pool hmalloc
    rw [(free_pool _ _).1, (free_pool _ _).2]
    exact hpool

-- No call moves or resizes the pool.
theorem HeapStep.pool {s t : HeapClient} {e : HeapCall} (h : HeapStep s e t)
    : t.heap.heapBase = s.heap.heapBase ∧ t.heap.heapTotalSize = s.heap.heapTotalSize := by
  cases h with
  | malloc _ hcall => exact malloc_pool hcall
  | calloc _ _ hcall => exact calloc_pool hcall
  | realloc _ _ hcall => exact realloc_pool hcall
  | free _ => exact free_pool _ _
  | store _ _ _ => exact ⟨rfl, rfl⟩

theorem HeapStep.run_pool {s t : HeapClient} {calls : List HeapCall} (hrun : Run HeapStep s calls t)
    : t.heap.heapBase = s.heap.heapBase ∧ t.heap.heapTotalSize = s.heap.heapTotalSize := by
  induction hrun with
  | nil => exact ⟨rfl, rfl⟩
  | cons head tail ih =>
    rw [ih.1, ih.2]
    exact head.pool

theorem HeapCall.MallocFree.inRange {e : HeapCall} (h : e.MallocFree) : e.InRange := by
  cases e with
  | malloc _ | free _ | store _ _ => trivial
  | calloc _ _ | realloc _ _ => exact h.elim

theorem malloc_free_tiled {kernelEnd : Nat} {mem : ByteMem} {calls : List HeapCall} {s : HeapClient}
    (hpool : PoolFits kernelEnd) (hrun : Run HeapStep (HeapClient.init kernelEnd mem) calls s)
    (hcalls : ∀ e ∈ calls, e.MallocFree)
    : s.heap.heapBase = (heapInit kernelEnd mem).heapBase
        ∧ s.heap.heapTotalSize = 16 * 1024 * 1024
        ∧ s.heap.heapHead = s.heap.heapBase
        ∧ (∃ bs, s.heap.Tiled bs
          ∧ ∀ p, p ∈ s.live ↔ ∃ b ∈ bs, p = b + sizeofHeapBlock ∧ isFree s.heap.mem b = 0)
        ∧ ∀ n, (malloc s.heap n).isSome := by
  have hinv := HeapStep.run_inv hpool hrun fun e he => (hcalls e he).inRange
  have hfixed := HeapStep.run_pool hrun
  refine ⟨hfixed.1, hfixed.2, ?_, hinv.tiled, hinv.malloc_isSome⟩
  obtain ⟨bs, hrepr⟩ := hinv
  exact hrepr.repr.head

theorem malloc_free_tiled_twice
    : ∃ p s, Run HeapStep (HeapClient.init 0x200000 (fun _ => 0)) [.malloc 24, .free p] s
        ∧ ∃ bs, s.heap.Tiled bs := by
  obtain ⟨p, s, hrun, _⟩ := HeapStep.run_first
  have htiled := malloc_free_tiled poolFits_first hrun (by simp [HeapCall.MallocFree])
  obtain ⟨bs, hbs, _⟩ := htiled.2.2.2.1
  exact ⟨p, s, hrun, bs, hbs⟩

end Tiled

end DismasmOS
