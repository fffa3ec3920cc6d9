import DismasmOS.Heap.Lemmas.Walk

/-!
This module contains what callers of `malloc` and `calloc` get: a request is granted in every
reachable heap unless `HEAP_ALIGN` wraps around. The overflow check of `calloc` does not cover that.
-/

namespace DismasmOS

open HeapBlock
open BlockList

theorem HeapClient.ReprBy.granted {s : HeapClient} {pre : List Block} {b : Block}
    {post : List Block} (h : s.ReprBy (pre ++ b :: post)) {p n : Nat}
    (hp : p = s.heap.heapBase + total sizeofHeapBlock pre + sizeofHeapBlock) (hn : n ≤ b.size)
    : s.Granted p n := by
  rw [hp]
  have htiles := h.repr.tiles
  have hseg := h.repr.segment
  have haligned := h.repr.aligned
  rw [Segment.append_cons] at hseg
  obtain ⟨hpre, hb, hpost⟩ := hseg
  simp only [total_append, total_cons] at htiles
  constructor
  . simp only [List.mem_append, or_imp, forall_and] at haligned
    apply Nat.dvd_add
    . exact Nat.dvd_add h.repr.base_aligned (dvd_total dvd_sizeofHeapBlock haligned.1)
    . exact dvd_sizeofHeapBlock
  . unfold payloadSize
    rw [Nat.add_sub_cancel, hb.size]
    exact hn
  . unfold Heap.poolEnd
    omega
  . refine ⟨_, h.repr.walk, ?_⟩
    intro c hc
    have hside := apart_of_mem_addrs _ hc
    omega
  . intro q hq hne
    obtain ⟨c, hqc, hc⟩ := (h.live q).mp hq
    rw [usedAt_append, UsedAt] at hc
    unfold payloadSize
    rw [hqc, Nat.add_sub_cancel]
    rcases hc with hc | hc | hc
    . obtain ⟨_, _, _, _, _, hend, _⟩ := hpre.header_of_mem (hc.mem_addrs _)
      omega
    . omega
    . have := hc.bounds
      omega

namespace HeapRequest

theorem Valid.bytes_pos {r : HeapRequest} (h : r.Valid) : r.bytes ≠ 0 := by
  cases r with
  | malloc size => exact Nat.ne_of_gt h.1
  | calloc nmemb size => exact Nat.ne_of_gt h.1

theorem call_of_overflow {r : HeapRequest} (hr : r.Valid) (h : Heap)
    (hover : Word.modulus ≤ r.bytes)
    : r.call h = some ⟨NULL, h⟩ := by
  cases r with
  | malloc size =>
    have := hr.2
    unfold bytes at hover
    dsimp only at hover
    omega
  | calloc nmemb size => exact calloc_of_overflow h hover

-- Without overflow a request is one `malloc` of its bytes and a change of nothing but the payload.
theorem call_of_lt (r : HeapRequest) (h : Heap) (hlt : r.bytes < Word.modulus)
    : ∃ g : Nat → Heap → ByteMem,
      r.call h
          = (DismasmOS.malloc h r.bytes).map
            (fun x => ⟨x.1, if x.1 ≠ NULL then { x.2 with mem := g x.1 x.2 } else x.2⟩)
        ∧ ∀ (p : Nat) (h' : Heap) (a n : Nat), p + r.bytes ≤ Word.modulus
          → p + r.bytes ≤ a ∨ a + n ≤ p
          → h'.mem.AgreeOn (g p h') a n := by
  cases r with
  | malloc size =>
    refine ⟨fun _ h => h.mem, ?_, ?_⟩
    . simp [call, bytes]
    . intro p h' a n _ _ x _ _
      rfl
  | calloc nmemb size =>
    refine ⟨fun p h => h.mem.fill Word.modulus p 0 (nmemb * size), ?_, ?_⟩
    . change DismasmOS.calloc h nmemb size = _
      rw [calloc_of_lt h hlt]
      congr 1
      funext x
      dsimp only
      split <;> rfl
    . intro p h' a n hwrap hout
      exact ByteMem.agreeOn_fill _ _ _ _ _ hwrap hout

theorem call_of_malloc {r : HeapRequest} {h h' : Heap} {g : Nat → Heap → ByteMem} {a : Nat}
    (hmalloc : DismasmOS.malloc h r.bytes = some ⟨a + sizeofHeapBlock, h'⟩)
    (hcall : r.call h = (DismasmOS.malloc h r.bytes).map
      (fun x => ⟨x.1, if x.1 ≠ NULL then { x.2 with mem := g x.1 x.2 } else x.2⟩))
    : a + sizeofHeapBlock ≠ NULL
        ∧ r.call h = some ⟨a + sizeofHeapBlock, { h' with mem := g (a + sizeofHeapBlock) h' }⟩ := by
  have hne : a + sizeofHeapBlock ≠ NULL := by
    unfold NULL sizeofHeapBlock
    omega
  rw [hmalloc, Option.map_some] at hcall
  dsimp only at hcall
  rw [if_pos hne] at hcall
  exact ⟨hne, hcall⟩

theorem honoured_of_null {s : HeapClient} {r : HeapRequest} {h : Heap}
    (hcall : r.call s.heap = some ⟨NULL, h⟩)
    : r.Honoured s :=
  ⟨NULL, h, hcall, fun hne => absurd rfl hne⟩

theorem honoured_of_lt {s : HeapClient} {r : HeapRequest} (hs : s.Inv)
    (hlt : r.bytes + HEAP_ALIGNMENT ≤ Word.modulus)
    : r.Honoured s := by
  have hal : 0 < HEAP_ALIGNMENT := by decide
  obtain ⟨bs, hrepr⟩ := hs
  obtain ⟨g, hcall, hframe⟩ := call_of_lt r s.heap (by omega)
  cases hrepr.malloc_cases r.bytes with
  | inl hnone =>
    rw [hnone.1] at hcall
    exact honoured_of_null hcall
  | inr hsome =>
    obtain ⟨pre, x, post, h', hpos, hmalloc, hbase, hx, _, hnew, _, hrepr'⟩ := hsome
    obtain ⟨_, hcall⟩ := call_of_malloc hmalloc hcall
    refine ⟨_, _, hcall, fun _ => ?_⟩
    have hle := le_heapAlign hlt
    have htiles := hrepr'.repr.tiles
    have hfits := hrepr'.repr.fits
    simp only [total_append, total_cons] at htiles
    dsimp only at hfits
    rw [hbase] at hfits
    generalize hp : s.heap.heapBase + total sizeofHeapBlock pre + sizeofHeapBlock = p at *
    have hwritten := hrepr'.writePayload (m := g p h') fun {a n} hout => by
      apply hframe p
      . omega
      . dsimp only at hout
        rw [hbase] at hout
        omega
    apply hwritten.granted
    . dsimp only
      rw [hbase, hp]
    . omega

-- A request that makes `HEAP_ALIGN` wrap gets the first free block, however small that is.
theorem not_honoured_of_wrap {s : HeapClient} {r : HeapRequest} (hs : s.Inv) (hr : r.Valid)
    (hlt : r.bytes < Word.modulus) (hwrap : Word.modulus < r.bytes + HEAP_ALIGNMENT)
    (hfree : s.heap.HasFree)
    : ¬r.Honoured s := by
  obtain ⟨bs, hrepr⟩ := hs
  obtain ⟨g, hcall, _⟩ := call_of_lt r s.heap hlt
  cases hrepr.malloc_cases r.bytes with
  | inl hnone =>
    obtain ⟨b, hb, hbfree⟩ := hrepr.repr.hasFree_iff.mp hfree
    have hfits := hnone.2.resolve_left hr.bytes_pos b hb
    rw [heapAlign_eq_zero hwrap hlt] at hfits
    exact absurd ⟨hbfree, Nat.zero_le _⟩ hfits
  | inr hsome =>
    obtain ⟨pre, x, post, h', _, hmalloc, hbase, _, _, _, _, hrepr'⟩ := hsome
    obtain ⟨hne, hcall⟩ := call_of_malloc hmalloc hcall
    rintro ⟨p, h, hcall', hgranted⟩
    rw [hcall] at hcall'
    simp only [Option.some.injEq, Prod.mk.injEq] at hcall'
    obtain ⟨rfl, rfl⟩ := hcall'
    have hend := (hgranted hne).inPool.2
    have hfits := hrepr'.repr.fits
    unfold Heap.poolEnd at hend
    dsimp only at hend hfits
    unfold HEAP_ALIGNMENT at hwrap
    unfold sizeofHeapBlock at hend
    omega

theorem honoured_of_full {s : HeapClient} {r : HeapRequest} (hs : s.Inv)
    (hlt : r.bytes < Word.modulus) (hfull : ¬s.heap.HasFree)
    : r.Honoured s := by
  obtain ⟨bs, hrepr⟩ := hs
  obtain ⟨g, hcall, _⟩ := call_of_lt r s.heap hlt
  cases hrepr.repr.malloc_cases r.bytes with
  | inl hnone =>
    rw [hnone.1] at hcall
    exact honoured_of_null hcall
  | inr hsome =>
    obtain ⟨pre, b, post, _, _, hbs, hfits, _⟩ := hsome
    rw [hrepr.repr.hasFree_iff] at hfull
    exact absurd ⟨b, by simp [hbs], hfits.1⟩ hfull

theorem honoured_iff {s : HeapClient} {r : HeapRequest} (hs : s.Inv) (hr : r.Valid)
    : r.Honoured s
        ↔ r.bytes + HEAP_ALIGNMENT ≤ Word.modulus ∨ Word.modulus ≤ r.bytes
          ∨ ¬s.heap.HasFree := by
  constructor
  . intro h
    by_contra hcon
    simp only [not_or, Nat.not_le, not_not] at hcon
    exact not_honoured_of_wrap hs hr hcon.2.1 hcon.1 hcon.2.2 h
  . rintro (hlt | hover | hfull)
    . exact honoured_of_lt hs hlt
    . exact honoured_of_null (call_of_overflow hr s.heap hover)
    . by_cases hlt : r.bytes < Word.modulus
      . exact honoured_of_full hs hlt hfull
      . exact honoured_of_null (call_of_overflow hr s.heap (by omega))

end HeapRequest

theorem request_honoured_iff {kernelEnd : Nat} {mem : ByteMem} {calls : List HeapCall}
    {s : HeapClient} (hpool : PoolFits kernelEnd)
    (hrun : Run HeapStep (HeapClient.init kernelEnd mem) calls s)
    (hcalls : ∀ e ∈ calls, e.InRange) {r : HeapRequest} (hr : r.Valid)
    : r.Honoured s
        ↔ r.bytes + HEAP_ALIGNMENT ≤ Word.modulus ∨ Word.modulus ≤ r.bytes
          ∨ ¬s.heap.HasFree :=
  HeapRequest.honoured_iff (HeapStep.run_inv hpool hrun hcalls) hr

theorem request_honoured_first
    : (HeapRequest.calloc 3 40).Honoured (HeapClient.init 0x200000 (fun _ => 0)) := by
  rw [request_honoured_iff poolFits_first (Run.nil _) (by simp)
    (by unfold HeapRequest.Valid; decide)]
  left
  decide

-- `malloc(SIZE_MAX)` and `calloc(1, SIZE_MAX)` on the fresh heap succeed with an empty payload.
theorem malloc_size_max_not_honoured
    : ¬(HeapRequest.malloc (2 ^ 64 - 1)).Honoured (HeapClient.init 0x200000 (fun _ => 0))
        ∧ ¬(HeapRequest.calloc 1 (2 ^ 64 - 1)).Honoured
            (HeapClient.init 0x200000 (fun _ => 0)) := by
  have hinv := HeapClient.init_inv (fun _ => 0) poolFits_first
  have hfree : (HeapClient.init 0x200000 (fun _ => 0)).heap.HasFree := by
    change (heapInit 0x200000 (fun _ => 0)).HasFree
    rw [(heapInit_repr (fun _ => 0) poolFits_first).hasFree_iff]
    simp
  constructor
  all_goals
    apply HeapRequest.not_honoured_of_wrap hinv
    . unfold HeapRequest.Valid
      decide
    . unfold HeapRequest.bytes
      decide
    . unfold HeapRequest.bytes
      decide
    . exact hfree

end DismasmOS
