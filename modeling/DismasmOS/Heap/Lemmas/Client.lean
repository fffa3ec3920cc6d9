import DismasmOS.Lib.BlockStep
import DismasmOS.Heap.Lemmas.Repr
import DismasmOS.Heap.Client

/-!
This module contains the invariant of everything the users of the heap can do: the heap stays
represented by a list of blocks, the used ones among them are the live allocations and every call
takes the list through steps of `BlockList.Step`.
-/

namespace DismasmOS

open HeapBlock
open BlockList

structure HeapClient.ReprBy (s : HeapClient) (bs : List Block) : Prop where
  repr : s.heap.Repr bs
  live : ∀ p, p ∈ s.live
    ↔ ∃ c, p = c + sizeofHeapBlock ∧ UsedAt sizeofHeapBlock s.heap.heapBase bs c

def HeapClient.Inv (s : HeapClient) : Prop := ∃ bs, s.ReprBy bs

def HeapClient.ReprFrom (s : HeapClient) (bs : List Block) : Prop :=
  ∃ bs', s.ReprBy bs' ∧ Steps sizeofHeapBlock HEAP_ALIGNMENT bs bs'

theorem HeapClient.ReprBy.reprFrom {s : HeapClient} {bs : List Block} (h : s.ReprBy bs)
    : s.ReprFrom bs :=
  ⟨bs, h, .refl⟩

theorem HeapClient.ReprFrom.trans {s : HeapClient} {bs bs' : List Block} (h : s.ReprFrom bs')
    (hsteps : Steps sizeofHeapBlock HEAP_ALIGNMENT bs bs')
    : s.ReprFrom bs := by
  obtain ⟨bs'', hrepr, hsteps'⟩ := h
  exact ⟨bs'', hrepr, hsteps.trans hsteps'⟩

section Init

theorem heapStart_eq {kernelEnd : Nat} (h : PoolFits kernelEnd)
    : Word.add (Word.add kernelEnd 0x10000) 0xFFF &&& Word.not 0xFFF
        =
      (kernelEnd + 0x10FFF) / 0x1000 * 0x1000 := by
  unfold PoolFits at h
  rw [Word.add_of_lt (a := kernelEnd) (by omega), Word.add_of_lt (by omega)]
  have hmask := Word.land_not_two_pow_sub_one (kernelEnd + 0x10000 + 0xFFF) 12 (by omega)
    (by decide)
  simpa [Nat.add_assoc] using hmask

theorem heapInit_eq {kernelEnd : Nat} (mem : ByteMem) (h : PoolFits kernelEnd)
    : heapInit kernelEnd mem
        =
      {
        mem := writeFree mem ((kernelEnd + 0x10FFF) / 0x1000 * 0x1000)
          (16 * 1024 * 1024 - sizeofHeapBlock) NULL NULL
        heapBase := (kernelEnd + 0x10FFF) / 0x1000 * 0x1000
        heapTotalSize := 16 * 1024 * 1024
        heapUsedBytes := 0
        heapAllocCount := 0
        heapHead := (kernelEnd + 0x10FFF) / 0x1000 * 0x1000
      } := by
  unfold heapInit
  rw [heapStart_eq h]
  rfl

theorem heapInit_repr {kernelEnd : Nat} (mem : ByteMem) (h : PoolFits kernelEnd)
    : (heapInit kernelEnd mem).Repr [⟨16 * 1024 * 1024 - sizeofHeapBlock, true⟩] := by
  rw [heapInit_eq mem h]
  unfold PoolFits at h
  have hmod := Word.modulus_eq
  have hheader := writeFree_header mem ((kernelEnd + 0x10FFF) / 0x1000 * 0x1000)
    (16 * 1024 * 1024 - sizeofHeapBlock) NULL NULL
    (by unfold sizeofHeapBlock; omega) (by decide) (by decide) (by decide)
  constructor
  . rfl
  . rfl
  . unfold HEAP_ALIGNMENT
    dsimp only
    omega
  . unfold HEAP_ALIGNMENT
    dsimp only
    omega
  . dsimp only
    omega
  . exact Segment.singleton_iff.mpr hheader
  . rfl
  . simp only [List.mem_singleton, forall_eq]
    decide
  . rw [lastAtLeast_singleton]
    decide
  . rfl
  . rfl

-- A kernel that ends at 2 MiB.
theorem poolFits_first : PoolFits 0x200000 := by
  unfold PoolFits
  decide

theorem HeapClient.init_reprBy {kernelEnd : Nat} (mem : ByteMem) (h : PoolFits kernelEnd)
    : (HeapClient.init kernelEnd mem).ReprBy [⟨16 * 1024 * 1024 - sizeofHeapBlock, true⟩] := by
  refine ⟨heapInit_repr mem h, ?_⟩
  intro p
  simp [HeapClient.init, UsedAt]

theorem HeapClient.init_inv {kernelEnd : Nat} (mem : ByteMem) (h : PoolFits kernelEnd)
    : (HeapClient.init kernelEnd mem).Inv :=
  ⟨_, HeapClient.init_reprBy mem h⟩

end Init

section Payload

theorem Heap.Repr.block_at {h : Heap} {bs : List Block} (hr : h.Repr bs) {c : Nat}
    (hc : UsedAt sizeofHeapBlock h.heapBase bs c)
    : ∃ pre b post, bs = pre ++ b :: post ∧ b.free = false
        ∧ c = h.heapBase + total sizeofHeapBlock pre
        ∧ payloadSize h (c + sizeofHeapBlock) = b.size := by
  obtain ⟨pre, b, post, hbs, hpos, hfree⟩ := hc.exists
  refine ⟨pre, b, post, hbs, hfree, hpos, ?_⟩
  have hseg := hr.segment
  rw [hbs, Segment.append_cons] at hseg
  unfold payloadSize
  rw [Nat.add_sub_cancel, hpos]
  exact hseg.2.1.size

theorem Heap.Repr.header_at {h : Heap} {bs : List Block} (hr : h.Repr bs) {c : Nat}
    (hc : UsedAt sizeofHeapBlock h.heapBase bs c)
    : magic h.mem c = HEAP_MAGIC ∧ c + sizeofHeapBlock < Word.modulus := by
  obtain ⟨pre, b, post, hbs, hpos, hfree⟩ := hc.exists
  have hseg := hr.segment
  have hbounds := hc.bounds
  have htiles := hr.tiles
  have hfits := hr.fits
  rw [hbs, Segment.append_cons] at hseg
  rw [hpos]
  constructor
  . exact hseg.2.1.magic
  . omega

theorem Heap.Repr.writePayload {h : Heap} {pre : List Block} {b : Block} {post : List Block}
    (hr : h.Repr (pre ++ b :: post)) {m : ByteMem}
    (hagree : ∀ {a n : Nat},
      a + n ≤ h.heapBase + total sizeofHeapBlock pre + sizeofHeapBlock
          ∨ h.heapBase + total sizeofHeapBlock pre + (sizeofHeapBlock + b.size) ≤ a
        → h.mem.AgreeOn m a n)
    : { h with mem := m }.Repr (pre ++ b :: post) := by
  constructor
  . exact hr.head
  . exact hr.totalSize
  . exact hr.base_ge
  . exact hr.base_aligned
  . exact hr.fits
  . apply hr.segment.congr
    intro c hc
    have hside := apart_of_mem_addrs _ hc
    apply hagree
    omega
  . exact hr.tiles
  . exact hr.aligned
  . exact hr.last
  . exact hr.used
  . exact hr.count

end Payload

section Step

theorem HeapClient.ReprBy.pos {s : HeapClient} {bs : List Block} (h : s.ReprBy bs) {p : Nat}
    (hp : p ∈ s.live)
    : p ≠ NULL := by
  obtain ⟨c, hc, _⟩ := (h.live p).mp hp
  unfold NULL
  unfold sizeofHeapBlock at hc
  omega

theorem carve_eq_cons {s : Nat} {b : Block} (hfits : Fits s b)
    : ∃ x xs, carve sizeofHeapBlock HEAP_ALIGNMENT s b = x :: xs ∧ s ≤ x.size
        ∧ x.free = false := by
  unfold carve
  split
  . exact ⟨_, _, rfl, Nat.le_refl _, rfl⟩
  . exact ⟨_, _, rfl, hfits.2, rfl⟩

theorem HeapClient.ReprBy.malloc_cases {s : HeapClient} {bs : List Block} (h : s.ReprBy bs)
    (n : Nat)
    : (malloc s.heap n = some ⟨NULL, s.heap⟩ ∧ (n = 0 ∨ ∀ b ∈ bs, ¬Fits (heapAlign n) b))
        ∨ ∃ pre x post h',
          n ≠ 0
            ∧ malloc s.heap n
              = some ⟨s.heap.heapBase + total sizeofHeapBlock pre + sizeofHeapBlock, h'⟩
            ∧ h'.heapBase = s.heap.heapBase
            ∧ heapAlign n ≤ x.size
            ∧ x.free = false
            ∧ s.heap.heapBase + total sizeofHeapBlock pre + sizeofHeapBlock ∉ s.live
            ∧ Step sizeofHeapBlock HEAP_ALIGNMENT bs (pre ++ x :: post)
            ∧ HeapClient.ReprBy
                ⟨h', insert (s.heap.heapBase + total sizeofHeapBlock pre + sizeofHeapBlock) s.live⟩
                (pre ++ x :: post) := by
  cases h.repr.malloc_cases n with
  | inl hnone => exact .inl hnone
  | inr hsome =>
    obtain ⟨pre, b, post, h', hn, hbs, hfits, _, hcall, hh', hrepr⟩ := hsome
    obtain ⟨x, xs, hcarve, hx, hxfree⟩ := carve_eq_cons hfits
    have hbase : h'.heapBase = s.heap.heapBase := by
      rw [hh']
      rfl
    have hused : ∀ c, UsedAt sizeofHeapBlock s.heap.heapBase (pre ++ x :: (xs ++ post)) c
        ↔ c = s.heap.heapBase + total sizeofHeapBlock pre
          ∨ UsedAt sizeofHeapBlock s.heap.heapBase bs c := by
      intro c
      rw [hbs, ← usedAt_taken _ _ HEAP_ALIGNMENT (heapAlign n) _ _ _ _ hfits.1, hcarve]
      rfl
    refine .inr ⟨pre, x, xs ++ post, h', hn, hcall, hbase, hx, hxfree, ?_, ?_, ?_, ?_⟩
    . rw [h.live, hbs]
      rintro ⟨c, hc, hat⟩
      obtain rfl : s.heap.heapBase + total sizeofHeapBlock pre = c := by omega
      rw [usedAt_mid_iff _ (by decide), hfits.1] at hat
      cases hat
    . have hstep : Step sizeofHeapBlock HEAP_ALIGNMENT (pre ++ b :: post)
          (pre ++ (carve sizeofHeapBlock HEAP_ALIGNMENT (heapAlign n) b ++ post)) :=
        .take _ hfits.1
      rw [hcarve] at hstep
      rw [hbs]
      exact hstep
    . rw [hcarve] at hrepr
      exact hrepr
    . intro p
      simp only [Finset.mem_insert, hbase, hused, h.live]
      constructor
      . rintro (hp | ⟨c, hp, hc⟩)
        . exact ⟨_, hp, .inl rfl⟩
        . exact ⟨c, hp, .inr hc⟩
      . rintro ⟨c, hp, hc | hc⟩
        . exact .inl (by rw [hp, hc])
        . exact .inr ⟨c, hp, hc⟩

theorem HeapClient.ReprBy.free {s : HeapClient} {bs : List Block} (h : s.ReprBy bs) {ptr : Nat}
    (hptr : ptr = NULL ∨ ptr ∈ s.live)
    : HeapClient.ReprFrom ⟨DismasmOS.free s.heap ptr, s.live.erase ptr⟩ bs := by
  cases hptr with
  | inl hnull =>
    rw [hnull, Heap.Repr.free_null, Finset.erase_eq_of_notMem]
    . exact h.reprFrom
    . intro hmem
      exact h.pos hmem rfl
  | inr hmem =>
    obtain ⟨c, rfl, hc⟩ := (h.live ptr).mp hmem
    obtain ⟨pre, b, post, rfl, hfree, rfl, _⟩ := h.repr.block_at hc
    refine ⟨_, ⟨h.repr.free hfree, ?_⟩, .single (.giveBack hfree)⟩
    intro p
    rw [h.repr.free_eq hfree]
    simp only [Finset.mem_erase, h.live, usedAt_release _ _ _ _ _ _ (by decide : 0 < sizeofHeapBlock)]
    constructor
    . rintro ⟨hne, c, hp, hc⟩
      exact ⟨c, hp, hc, by omega⟩
    . rintro ⟨c, hp, hc, hne⟩
      exact ⟨by omega, c, hp, hc⟩

theorem calloc_overflow_iff {nmemb size : Nat}
    : (nmemb ≠ 0 ∧ size > (Word.modulus - 1) / nmemb) ↔ Word.modulus ≤ nmemb * size := by
  have hmod : 0 < Word.modulus := by decide
  by_cases hn : nmemb = 0
  . simp [hn, Word.modulus]
  . rw [gt_iff_lt, Nat.div_lt_iff_lt_mul (by omega), Nat.mul_comm]
    omega

theorem calloc_of_overflow (h : Heap) {nmemb size : Nat} (hover : Word.modulus ≤ nmemb * size)
    : calloc h nmemb size = some ⟨NULL, h⟩ := by
  unfold calloc
  rw [if_pos (calloc_overflow_iff.mpr hover)]

theorem calloc_of_lt (h : Heap) {nmemb size : Nat} (hlt : nmemb * size < Word.modulus)
    : calloc h nmemb size
        =
      (malloc h (nmemb * size)).map fun r =>
        if r.1 ≠ NULL then
          ⟨r.1, { r.2 with mem := r.2.mem.fill Word.modulus r.1 0 (nmemb * size) }⟩
        else
          r := by
  unfold calloc
  rw [if_neg (by rw [calloc_overflow_iff]; omega), Word.mul_of_lt hlt]
  dsimp only
  cases malloc h (nmemb * size) with
  | none => rfl
  | some r =>
    dsimp only [Option.map_some]
    split <;> rfl

theorem HeapClient.ReprBy.malloc_some {s : HeapClient} {bs : List Block} (h : s.ReprBy bs) {n p : Nat}
    {h' : Heap} (hcall : malloc s.heap n = some ⟨p, h'⟩) (hp : p ≠ NULL)
    : ∃ pre x post, p = s.heap.heapBase + total sizeofHeapBlock pre + sizeofHeapBlock
        ∧ h'.heapBase = s.heap.heapBase
        ∧ heapAlign n ≤ x.size
        ∧ p ∉ s.live
        ∧ Step sizeofHeapBlock HEAP_ALIGNMENT bs (pre ++ x :: post)
        ∧ HeapClient.ReprBy ⟨h', insert p s.live⟩ (pre ++ x :: post) := by
  cases h.malloc_cases n with
  | inl hnone =>
    rw [hnone.1] at hcall
    simp only [Option.some.injEq, Prod.mk.injEq] at hcall
    exact absurd hcall.1.symm hp
  | inr hsome =>
    obtain ⟨pre, x, post, h'', _, hcall', hbase, hx, _, hnew, hstep, hrepr⟩ := hsome
    rw [hcall'] at hcall
    simp only [Option.some.injEq, Prod.mk.injEq] at hcall
    obtain ⟨rfl, rfl⟩ := hcall
    exact ⟨pre, x, post, rfl, hbase, hx, hnew, hstep, hrepr⟩

theorem HeapClient.ReprBy.malloc_null {s : HeapClient} {bs : List Block} (h : s.ReprBy bs) {n : Nat}
    {h' : Heap} (hcall : malloc s.heap n = some ⟨NULL, h'⟩)
    : h' = s.heap := by
  cases h.malloc_cases n with
  | inl hnone =>
    rw [hnone.1] at hcall
    simpa using hcall.symm
  | inr hsome =>
    obtain ⟨pre, x, post, h'', _, hcall', _⟩ := hsome
    rw [hcall'] at hcall
    simp [NULL, sizeofHeapBlock] at hcall

theorem HeapClient.ReprBy.writePayload {s : HeapClient} {pre : List Block} {b : Block}
    {post : List Block} (h : s.ReprBy (pre ++ b :: post)) {m : ByteMem}
    (hagree : ∀ {a n : Nat},
      a + n ≤ s.heap.heapBase + total sizeofHeapBlock pre + sizeofHeapBlock
          ∨ s.heap.heapBase + total sizeofHeapBlock pre + (sizeofHeapBlock + b.size) ≤ a
        → s.heap.mem.AgreeOn m a n)
    : HeapClient.ReprBy ⟨{ s.heap with mem := m }, s.live⟩ (pre ++ b :: post) :=
  ⟨h.repr.writePayload hagree, h.live⟩

theorem HeapClient.ReprBy.malloc {s : HeapClient} {bs : List Block} (h : s.ReprBy bs) {n p : Nat}
    {h' : Heap} (hcall : DismasmOS.malloc s.heap n = some ⟨p, h'⟩)
    : HeapClient.ReprFrom ⟨h', obtained s.live p⟩ bs := by
  unfold obtained
  split
  . next hnull =>
    rw [hnull] at hcall
    rw [h.malloc_null hcall]
    exact h.reprFrom
  . next hne =>
    obtain ⟨pre, x, post, _, _, _, _, hstep, hrepr'⟩ := h.malloc_some hcall hne
    exact ⟨_, hrepr', .single hstep⟩

theorem HeapClient.ReprBy.calloc {s : HeapClient} {bs : List Block} (h : s.ReprBy bs)
    {nmemb size p : Nat} {h' : Heap}
    (hrange : nmemb * size + HEAP_ALIGNMENT ≤ Word.modulus ∨ Word.modulus ≤ nmemb * size)
    (hcall : DismasmOS.calloc s.heap nmemb size = some ⟨p, h'⟩)
    : HeapClient.ReprFrom ⟨h', obtained s.live p⟩ bs := by
  cases hrange with
  | inr hover =>
    rw [calloc_of_overflow _ hover] at hcall
    simp only [Option.some.injEq, Prod.mk.injEq] at hcall
    rw [← hcall.1, ← hcall.2]
    exact h.reprFrom
  | inl hfit =>
    have hal : 0 < HEAP_ALIGNMENT := by decide
    rw [calloc_of_lt _ (by omega), Option.map_eq_some_iff] at hcall
    obtain ⟨⟨q, hq⟩, hmalloc, hres⟩ := hcall
    dsimp only at hres
    split at hres
    . next hne =>
      simp only [Prod.mk.injEq] at hres
      obtain ⟨rfl, rfl⟩ := hres
      obtain ⟨pre, x, post, hp, hbase, hx, _, hstep, hrepr'⟩ := h.malloc_some hmalloc hne
      have hle := le_heapAlign hfit
      have htiles := hrepr'.repr.tiles
      have hfits := hrepr'.repr.fits
      simp only [total_append, total_cons] at htiles
      refine ⟨pre ++ x :: post, ?_, .single hstep⟩
      unfold obtained
      rw [if_neg hne]
      apply hrepr'.writePayload
      intro a n hout
      dsimp only at hout hfits
      rw [hbase] at hout hfits
      apply ByteMem.agreeOn_fill
      . omega
      . omega
    . simp only [Prod.mk.injEq] at hres
      obtain ⟨rfl, rfl⟩ := hres
      exact h.malloc hmalloc

theorem HeapClient.ReprBy.malloc_copy {s : HeapClient} {bs : List Block} (h : s.ReprBy bs)
    {size q : Nat} {h1 : Heap} (hcall : DismasmOS.malloc s.heap size = some ⟨q, h1⟩) (hq : q ≠ NULL)
    (hrange : size + HEAP_ALIGNMENT ≤ Word.modulus) (src : Nat) {n : Nat} (hn : n ≤ size)
    : ∃ pre x post, q = s.heap.heapBase + total sizeofHeapBlock pre + sizeofHeapBlock
        ∧ h1.heapBase = s.heap.heapBase
        ∧ size ≤ x.size
        ∧ q ∉ s.live
        ∧ Step sizeofHeapBlock HEAP_ALIGNMENT bs (pre ++ x :: post)
        ∧ HeapClient.ReprBy ⟨h1, insert q s.live⟩ (pre ++ x :: post)
        ∧ HeapClient.ReprBy ⟨{ h1 with mem := h1.mem.copy Word.modulus q src n }, insert q s.live⟩
            (pre ++ x :: post) := by
  obtain ⟨pre, x, post, hp, hbase, hx, hfresh, hstep, hrepr⟩ := h.malloc_some hcall hq
  have hle := le_heapAlign hrange
  have htiles := hrepr.repr.tiles
  have hfits := hrepr.repr.fits
  simp only [total_append, total_cons] at htiles
  refine ⟨pre, x, post, hp, hbase, by omega, hfresh, hstep, hrepr, ?_⟩
  apply hrepr.writePayload
  intro a n hout
  dsimp only at hout hfits
  rw [hbase] at hout hfits
  apply ByteMem.agreeOn_copy
  . omega
  . omega

theorem reallocated_null {live : Finset Nat} (h : NULL ∉ live) (size q : Nat)
    : reallocated live NULL size q = obtained live q := by
  unfold reallocated obtained
  rw [Finset.erase_eq_of_notMem h]
  split <;> simp_all

inductive ReallocCase (h : Heap) (ptr size : Nat) : Nat → Heap → Prop
  | fresh {q : Nat} {h' : Heap} (hptr : ptr = NULL) (hmalloc : malloc h size = some ⟨q, h'⟩)
      : ReallocCase h ptr size q h'
  | freed (hptr : ptr ≠ NULL) (hsize : size = 0) : ReallocCase h ptr size NULL (free h ptr)
  | refused (hptr : ptr ≠ NULL) (hsize : size ≠ 0)
      (hmagic : magic h.mem (Word.sub ptr sizeofHeapBlock) ≠ HEAP_MAGIC)
      : ReallocCase h ptr size NULL h
  | kept (hptr : ptr ≠ NULL) (hsize : size ≠ 0) : ReallocCase h ptr size ptr h
  | full {h' : Heap} (hptr : ptr ≠ NULL) (hsize : size ≠ 0)
      (hmalloc : malloc h size = some ⟨NULL, h'⟩)
      : ReallocCase h ptr size NULL h'
  | moved {q n : Nat} {h1 : Heap} (hptr : ptr ≠ NULL) (hsize : size ≠ 0)
      (hmalloc : malloc h size = some ⟨q, h1⟩) (hq : q ≠ NULL) (hn : n ≤ size)
      : ReallocCase h ptr size q
          (free { h1 with mem := h1.mem.copy Word.modulus q ptr n } ptr)

theorem realloc_cases {h h' : Heap} {ptr size q : Nat}
    (hcall : realloc h ptr size = some ⟨q, h'⟩)
    : ReallocCase h ptr size q h' := by
  unfold realloc at hcall
  dsimp only at hcall
  split at hcall
  . next hptr => exact .fresh hptr hcall
  . next hptr =>
    split at hcall
    . next hsize =>
      cases hcall
      exact .freed hptr hsize
    . next hsize =>
      split at hcall
      . next hmagic =>
        cases hcall
        exact .refused hptr hsize hmagic
      . split at hcall
        . cases hcall
          exact .kept hptr hsize
        . cases hmalloc : malloc h size with
          | none =>
            rw [hmalloc] at hcall
            cases hcall
          | some r =>
            obtain ⟨newPtr, h1⟩ := r
            rw [hmalloc] at hcall
            dsimp only at hcall
            split at hcall
            . next hnew =>
              cases hcall
              rw [hnew] at hmalloc
              exact .full hptr hsize hmalloc
            . next hnew =>
              cases hcall
              apply ReallocCase.moved hptr hsize hmalloc hnew
              split <;> omega

theorem HeapClient.ReprBy.realloc {s : HeapClient} {bs : List Block} (hrepr : s.ReprBy bs)
    {ptr size q : Nat} {h' : Heap} (hptr : ptr = NULL ∨ ptr ∈ s.live)
    (hrange : size + HEAP_ALIGNMENT ≤ Word.modulus)
    (hcall : DismasmOS.realloc s.heap ptr size = some ⟨q, h'⟩)
    : HeapClient.ReprFrom ⟨h', reallocated s.live ptr size q⟩ bs := by
  have hmem (hne : ptr ≠ NULL) : ptr ∈ s.live := hptr.resolve_left hne
  cases realloc_cases hcall with
  | fresh hnull hmalloc =>
    have hdead : NULL ∉ s.live := fun hmem => hrepr.pos hmem rfl
    rw [hnull, reallocated_null hdead]
    exact hrepr.malloc hmalloc
  | freed _ hsize =>
    simp only [reallocated, ne_eq, not_true_eq_false, ↓reduceIte, hsize]
    exact hrepr.free hptr
  | refused hne _ hmagic =>
    -- the header in front of a live pointer is intact
    obtain ⟨c, hc, hused⟩ := (hrepr.live ptr).mp (hmem hne)
    have hheader := hrepr.repr.header_at hused
    rw [hc, Word.sub_of_le (by omega) (by omega), Nat.add_sub_cancel] at hmagic
    exact absurd hheader.1 hmagic
  | kept hne _ =>
    unfold reallocated
    rw [if_pos hne, Finset.insert_erase (hmem hne)]
    exact hrepr.reprFrom
  | full _ hsize hmalloc =>
    rw [hrepr.malloc_null hmalloc]
    simp only [reallocated, ne_eq, not_true_eq_false, ↓reduceIte, hsize]
    exact hrepr.reprFrom
  | moved hne _ hmalloc hnew hn =>
    obtain ⟨pre, x, post, _, _, _, hfresh, hstep, _, hrepr'⟩ :=
      hrepr.malloc_copy hmalloc hnew hrange ptr hn
    unfold reallocated
    rw [if_pos hnew, ← Finset.erase_insert_of_ne (by rintro rfl; exact hfresh (hmem hne))]
    apply HeapClient.ReprFrom.trans _ (.single hstep)
    apply hrepr'.free
    right
    exact Finset.mem_insert_of_mem (hmem hne)

theorem HeapClient.ReprBy.store {s : HeapClient} {bs : List Block} (h : s.ReprBy bs) {p addr : Nat}
    (v : UInt8) (hlive : p ∈ s.live) (hlo : p ≤ addr) (hhi : addr < p + payloadSize s.heap p)
    : HeapClient.ReprBy ⟨{ s.heap with mem := s.heap.mem.setByte addr v }, s.live⟩ bs := by
  obtain ⟨c, rfl, hused⟩ := (h.live p).mp hlive
  obtain ⟨pre, b, post, rfl, _, rfl, hsize⟩ := h.repr.block_at hused
  rw [hsize] at hhi
  apply h.writePayload
  intro a n hout
  apply ByteMem.agreeOn_setByte
  omega

theorem HeapStep.reprFrom {s t : HeapClient} {e : HeapCall} (h : HeapStep s e t)
    (hrange : e.InRange) {bs : List Block} (hs : s.ReprBy bs)
    : t.ReprFrom bs := by
  cases h with
  | malloc _ hcall => exact hs.malloc hcall
  | calloc _ _ hcall => exact hs.calloc hrange hcall
  | realloc _ hptr hcall => exact hs.realloc hptr hrange hcall
  | free hptr => exact hs.free hptr
  | store hlive hlo hhi => exact (hs.store _ hlive hlo hhi).reprFrom

-- Whatever the users of the heap do, its list of blocks is on a run of `BlockList.Step`.
theorem HeapStep.run_reprFrom {kernelEnd : Nat} {mem : ByteMem} {calls : List HeapCall}
    {s : HeapClient} (hpool : PoolFits kernelEnd)
    (hrun : Run HeapStep (HeapClient.init kernelEnd mem) calls s)
    (hrange : ∀ e ∈ calls, e.InRange)
    : s.ReprFrom [⟨16 * 1024 * 1024 - sizeofHeapBlock, true⟩] := by
  apply hrun.invariant
  . intro s e t he hs hstep
    obtain ⟨bs, hrepr, hsteps⟩ := hs
    exact (hstep.reprFrom (hrange e he) hrepr).trans hsteps
  . exact (HeapClient.init_reprBy mem hpool).reprFrom

theorem HeapStep.run_inv {kernelEnd : Nat} {mem : ByteMem} {calls : List HeapCall} {s : HeapClient}
    (hpool : PoolFits kernelEnd) (hrun : Run HeapStep (HeapClient.init kernelEnd mem) calls s)
    (hrange : ∀ e ∈ calls, e.InRange)
    : s.Inv := by
  obtain ⟨bs, hrepr, _⟩ := HeapStep.run_reprFrom hpool hrun hrange
  exact ⟨bs, hrepr⟩

end Step

end DismasmOS
