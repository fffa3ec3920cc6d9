import DismasmOS.Heap.Realloc
import DismasmOS.Heap.Lemmas.Keep
import DismasmOS.Heap.Lemmas.Space

/-!
This module contains the verification of `realloc`: the data are copied before anything can overwrite
them, the other allocations are left alone and a call that fails changes nothing.
-/

namespace DismasmOS

open HeapBlock
open BlockList

section Live

variable {s : HeapClient} {bs : List Block} {p : Nat}

theorem HeapClient.ReprBy.heapLive_iff (h : s.ReprBy bs) : s.heap.Live p ↔ p ∈ s.live := by
  unfold Heap.Live
  rw [h.live_iff, h.repr.walk]
  simp

theorem Keeps.samePayload {h h' : Heap} {c : Nat} (hkeeps : Keeps h.mem h'.mem c)
    : h.SamePayload h' (c + sizeofHeapBlock) := by
  unfold Heap.SamePayload payloadSize
  rw [Nat.add_sub_cancel]
  refine ⟨hkeeps.size_eq, ?_⟩
  intro i hi
  apply hkeeps.payload
  . omega
  . omega

end Live

section Calls

variable {h : Heap} {bs : List Block} {d : Nat}

theorem Heap.Repr.malloc_keeps (hr : h.Repr bs) {n p : Nat} {h' : Heap}
    (hcall : malloc h n = some ⟨p, h'⟩) (hd : UsedAt sizeofHeapBlock h.heapBase bs d)
    : Keeps h.mem h'.mem d := by
  have hfits := hr.fits
  rw [← hr.tiles] at hfits
  cases hr.malloc_cases n with
  | inl hnone =>
    rw [hnone.1] at hcall
    cases hcall
    exact Keeps.refl _ d
  | inr hsome =>
    obtain ⟨pre, b, post, h'', _, rfl, hb, _, hcall', rfl, _⟩ := hsome
    rw [hcall'] at hcall
    cases hcall
    rw [takeBlock_eq]
    exact takeMem_keeps hr.segment hb.2 hr.base_ge hfits hd hb.1

theorem Heap.Repr.free_keeps {pre : List Block} {b : Block} {post : List Block}
    (hr : h.Repr (pre ++ b :: post)) (hb : b.free = false)
    (hd : UsedAt sizeofHeapBlock h.heapBase (pre ++ b :: post) d)
    (hne : h.heapBase + total sizeofHeapBlock pre ≠ d)
    : Keeps h.mem
        (DismasmOS.free h (h.heapBase + total sizeofHeapBlock pre + sizeofHeapBlock)).mem d := by
  have hnull : NULL < HEAP_ALIGNMENT := by decide
  have hbase := hr.base_ge
  have hfits := hr.fits
  rw [← hr.tiles] at hfits
  rw [hr.free_eq hb]
  dsimp only
  exact DismasmOS.free_keeps hr.segment (by omega) hfits hd hne

theorem Heap.Repr.copy_keeps {pre : List Block} {x : Block} {post : List Block}
    (hr : h.Repr (pre ++ x :: post)) (src : Nat) {n : Nat} (hn : n ≤ x.size)
    (hd : UsedAt sizeofHeapBlock h.heapBase (pre ++ x :: post) d)
    (hne : h.heapBase + total sizeofHeapBlock pre ≠ d)
    : Keeps h.mem
        (h.mem.copy Word.modulus (h.heapBase + total sizeofHeapBlock pre + sizeofHeapBlock) src n)
        d := by
  have hfits := hr.fits
  have htiles := hr.tiles
  rw [total_append, total_cons] at htiles
  have hside := apart_of_mem_addrs _ hd.mem_addrs
  have happ := hr.segment.apart hd (mem_addrs_mid _)
  unfold Apart at happ
  constructor
  . apply ByteMem.agreeOn_copy
    . omega
    . unfold sizeofHeapBlock at *
      omega
  . apply ByteMem.agreeOn_copy
    . omega
    . omega

end Calls

section Realloc

variable {s : HeapClient} {bs : List Block} {ptr size : Nat}

-- The guards of `realloc` let every live pointer pass.
theorem realloc_live (h : s.ReprBy bs) (hptr : ptr ∈ s.live) (hpos : 0 < size)
    : realloc s.heap ptr size
        =
      if size ≤ payloadSize s.heap ptr then
        some ⟨ptr, s.heap⟩
      else
        (malloc s.heap size).map fun r =>
          if r.1 = NULL then
            ⟨NULL, r.2⟩
          else
            ⟨r.1, free { r.2 with
              mem := r.2.mem.copy Word.modulus r.1 ptr (payloadSize s.heap ptr) } ptr⟩ := by
  have hne := h.pos hptr
  obtain ⟨c, rfl, hused⟩ := (h.live ptr).mp hptr
  have hheader := h.repr.header_at hused
  have hsub : Word.sub (c + sizeofHeapBlock) sizeofHeapBlock = c := by
    rw [Word.sub_of_le (by omega) (by omega), Nat.add_sub_cancel]
  unfold realloc payloadSize
  rw [if_neg hne, if_neg (by omega), hsub, Nat.add_sub_cancel]
  dsimp only
  rw [if_neg (by rw [hheader.1]; simp)]
  split
  . rfl
  . next hlt =>
    cases hmalloc : malloc s.heap size with
    | none => rfl
    | some r =>
      have hkeeps := h.repr.malloc_keeps hmalloc hused
      have hshort : HeapBlock.size s.heap.mem c < size := Nat.lt_of_not_ge hlt
      dsimp only [Option.map_some]
      rw [hkeeps.size_eq, if_pos hshort]
      split <;> rfl

end Realloc

section Moved

variable {s : HeapClient} {bs : List Block} {ptr size q : Nat} {h1 h' : Heap}

-- What the three calls of a `realloc` that moves its block did to the heap.
structure Moves (h : Heap) (live : Finset Nat) (ptr size q : Nat) (h' : Heap) : Prop where
  fresh : q ∉ live
  payload : size ≤ payloadSize h' q
  data : ∀ i < payloadSize h ptr, h'.mem (q + i) = h.mem (ptr + i)
  others : ∀ p ∈ live, p ≠ ptr → h.SamePayload h' p

theorem Heap.Repr.free_keeps_at {h : Heap} (hr : h.Repr bs) {c d : Nat}
    (hc : UsedAt sizeofHeapBlock h.heapBase bs c) (hd : UsedAt sizeofHeapBlock h.heapBase bs d)
    (hne : c ≠ d)
    : Keeps h.mem (DismasmOS.free h (c + sizeofHeapBlock)).mem d := by
  obtain ⟨pre, b, post, rfl, hfree, rfl, _⟩ := hr.block_at hc
  exact hr.free_keeps hfree hd hne

theorem Heap.Repr.payload_le {h : Heap} (hr : h.Repr bs) {c : Nat}
    (hc : UsedAt sizeofHeapBlock h.heapBase bs c)
    : c + sizeofHeapBlock + payloadSize h (c + sizeofHeapBlock) < Word.modulus := by
  obtain ⟨pre, b, post, rfl, _, rfl, hsize⟩ := hr.block_at hc
  have hfits := hr.fits
  have htiles := hr.tiles
  rw [total_append, total_cons] at htiles
  rw [hsize]
  omega

theorem HeapClient.ReprBy.usedAt (h : s.ReprBy bs) {c : Nat} (hc : c + sizeofHeapBlock ∈ s.live)
    : UsedAt sizeofHeapBlock s.heap.heapBase bs c := by
  obtain ⟨d, hd, hused⟩ := (h.live _).mp hc
  rw [Nat.add_right_cancel hd]
  exact hused

-- The copied bytes are the old ones, none of them lies in the new block.
theorem HeapClient.ReprBy.copy_data (h : s.ReprBy bs) {c : Nat} {pre : List Block} {x : Block}
    {post : List Block} (hused : UsedAt sizeofHeapBlock s.heap.heapBase bs c)
    (hmalloc : DismasmOS.malloc s.heap size = some ⟨q, h1⟩) (hr : h1.Repr (pre ++ x :: post))
    (hq : q = h1.heapBase + total sizeofHeapBlock pre + sizeofHeapBlock)
    (hused1 : UsedAt sizeofHeapBlock h1.heapBase (pre ++ x :: post) c)
    (hne : h1.heapBase + total sizeofHeapBlock pre ≠ c)
    (hx : payloadSize s.heap (c + sizeofHeapBlock) ≤ x.size) {i : Nat}
    (hi : i < payloadSize s.heap (c + sizeofHeapBlock))
    : (h1.mem.copy Word.modulus q (c + sizeofHeapBlock)
          (payloadSize s.heap (c + sizeofHeapBlock))) (q + i)
        = s.heap.mem (c + sizeofHeapBlock + i) := by
  have hkeeps := h.repr.malloc_keeps hmalloc hused
  have hkept := hkeeps.payload (c + sizeofHeapBlock + i) (by omega)
  have hold := hkeeps.size_eq
  have hfits := hr.fits
  have htiles := hr.tiles
  have hside := apart_of_mem_addrs _ hused1.mem_addrs
  have happ := hr.segment.apart hused1 (mem_addrs_mid _)
  have hend := h.repr.payload_le hused
  unfold Apart at happ
  unfold payloadSize at *
  rw [Nat.add_sub_cancel] at *
  rw [total_append, total_cons] at htiles
  rw [ByteMem.copy_inside _ _ _ _ _ _ (by omega) (by omega) (by omega) hi]
  apply hkept
  omega

theorem HeapClient.ReprBy.moves (h : s.ReprBy bs) (hptr : ptr ∈ s.live)
    (hrange : size + HEAP_ALIGNMENT ≤ Word.modulus) (hlt : payloadSize s.heap ptr < size)
    (hmalloc : DismasmOS.malloc s.heap size = some ⟨q, h1⟩) (hq : q ≠ NULL)
    : Moves s.heap s.live ptr size q
        (DismasmOS.free
          { h1 with mem := h1.mem.copy Word.modulus q ptr (payloadSize s.heap ptr) } ptr) := by
  obtain ⟨pre, x, post, hcq, hbase, hx, hfresh, _, hr1, hr2⟩ :=
    h.malloc_copy hmalloc hq hrange ptr (Nat.le_of_lt hlt)
  obtain ⟨c, rfl, hused⟩ := (h.live ptr).mp hptr
  rw [← hbase] at hcq
  have hused2 : UsedAt sizeofHeapBlock h1.heapBase (pre ++ x :: post) c :=
    hr2.usedAt (Finset.mem_insert_of_mem hptr)
  have husedq : UsedAt sizeofHeapBlock h1.heapBase (pre ++ x :: post)
      (h1.heapBase + total sizeofHeapBlock pre) := by
    apply hr2.usedAt
    rw [← hcq]
    exact Finset.mem_insert_self q s.live
  have hne : ∀ d, d + sizeofHeapBlock ∈ s.live → h1.heapBase + total sizeofHeapBlock pre ≠ d := by
    rintro d hd rfl
    rw [← hcq] at hd
    exact hfresh hd
  have hqpayload := hr2.repr.payloadSize_eq
  dsimp only at hqpayload
  rw [← hcq] at hqpayload
  have hsame := (hr2.repr.free_keeps_at hused2 husedq (hne c hptr).symm).samePayload
  rw [← hcq] at hsame
  constructor
  . exact hfresh
  . rw [hsame.1, hqpayload]
    exact hx
  . intro i hi
    rw [hsame.2 i (by rw [hqpayload]; omega)]
    have hold : payloadSize s.heap (c + sizeofHeapBlock) ≤ x.size := by omega
    dsimp only
    exact h.copy_data hused hmalloc hr1.repr hcq hused2 (hne c hptr) hold hi
  . intro p hp hpne
    obtain ⟨d, rfl, hd⟩ := (h.live p).mp hp
    have hd1 : UsedAt sizeofHeapBlock h1.heapBase (pre ++ x :: post) d :=
      hr2.usedAt (Finset.mem_insert_of_mem hp)
    have hcopy := hr1.repr.copy_keeps (c + sizeofHeapBlock)
      (n := payloadSize s.heap (c + sizeofHeapBlock)) (by omega) hd1 (hne d hp)
    rw [← hcq] at hcopy
    have hlast := hr2.repr.free_keeps_at hused2 hd1 (by omega)
    dsimp only at hlast
    apply Keeps.samePayload
    exact ((h.repr.malloc_keeps hmalloc hd).trans hcopy).trans hlast

theorem HeapClient.ReprBy.resized (h : s.ReprBy bs) (hptr : ptr ∈ s.live)
    (hrange : size + HEAP_ALIGNMENT ≤ Word.modulus)
    (hcall : DismasmOS.realloc s.heap ptr size = some ⟨q, h'⟩) (hq : q ≠ NULL)
    (hmoves : Moves s.heap s.live ptr size q h')
    : s.heap.Resized ptr size q h' := by
  obtain ⟨bs', hrepr, _⟩ := h.realloc (.inr hptr) hrange hcall
  have hlive : ∀ p, h'.Live p ↔ p = q ∨ p ≠ ptr ∧ p ∈ s.live := by
    intro p
    rw [hrepr.heapLive_iff]
    unfold reallocated
    rw [if_pos hq, Finset.mem_insert, Finset.mem_erase]
  constructor
  . rw [hlive]
    exact .inl rfl
  . exact hmoves.payload
  . intro i hi
    apply hmoves.data
    omega
  . intro hne
    rw [hlive]
    rintro (heq | hdead)
    . exact hne heq.symm
    . exact hdead.1 rfl
  . intro p hp hne
    rw [h.heapLive_iff] at hp
    exact ⟨(hlive p).mpr (.inr ⟨hne, hp⟩), hmoves.others p hp hne⟩

end Moved

theorem Heap.Resized.refl {h : Heap} {ptr size : Nat} (hptr : h.Live ptr) (hfit : size ≤ payloadSize h ptr)
    : h.Resized ptr size ptr h := by
  constructor
  . exact hptr
  . exact hfit
  . intro i _
    rfl
  . intro hne
    exact absurd rfl hne
  . intro p hp _
    exact ⟨hp, rfl, fun _ _ => rfl⟩

theorem realloc_preserves {kernelEnd : Nat} {mem : ByteMem} {calls : List HeapCall} {s : HeapClient}
    (hpool : PoolFits kernelEnd) (hrun : Run HeapStep (HeapClient.init kernelEnd mem) calls s)
    (hcalls : ∀ e ∈ calls, e.InRange) {ptr size : Nat} (hptr : s.heap.Live ptr) (hpos : 0 < size)
    (hsize : size + HEAP_ALIGNMENT ≤ Word.modulus)
    : ∃ q h, realloc s.heap ptr size = some ⟨q, h⟩
        ∧ ((q = NULL ∧ h = s.heap) ∨ (q ≠ NULL ∧ s.heap.Resized ptr size q h)) := by
  have hinv := HeapStep.run_inv hpool hrun hcalls
  obtain ⟨⟨q, h1⟩, hmalloc⟩ := Option.isSome_iff_exists.mp (hinv.malloc_isSome size)
  obtain ⟨bs, hrepr⟩ := hinv
  have hlive := hrepr.heapLive_iff.mp hptr
  have heq := realloc_live hrepr hlive hpos
  split at heq
  . next hfit => exact ⟨ptr, s.heap, heq, .inr ⟨hrepr.pos hlive, .refl hptr hfit⟩⟩
  . next hfit =>
    rw [hmalloc, Option.map_some] at heq
    dsimp only at heq
    split at heq
    . next hnull =>
      rw [hnull] at hmalloc
      exact ⟨NULL, h1, heq, .inl ⟨rfl, hrepr.malloc_null hmalloc⟩⟩
    . next hq =>
      have hmoves := hrepr.moves hlive hsize (Nat.lt_of_not_le hfit) hmalloc hq
      exact ⟨q, _, heq, .inr ⟨hq, hrepr.resized hlive hsize heq hq hmoves⟩⟩

theorem HeapStep.run_malloc
    : ∃ p s, Run HeapStep (HeapClient.init 0x200000 (fun _ => 0)) [.malloc 24] s ∧ s.heap.Live p := by
  have hrepr := HeapClient.init_reprBy (fun _ => 0) poolFits_first
  cases hrepr.malloc_cases 24 with
  | inl hnone =>
    have hfits := hnone.2.resolve_left (by decide) _ (List.mem_singleton_self _)
    exact absurd (by unfold Fits; decide) hfits
  | inr hsome =>
    obtain ⟨pre, x, post, h, _, hcall, _, _, _, _, _, hrepr'⟩ := hsome
    have hne := hrepr'.pos (Finset.mem_insert_self _ _)
    have hstep := HeapStep.malloc (by decide) hcall
    unfold obtained at hstep
    rw [if_neg hne] at hstep
    exact ⟨_, _, Run.cons hstep (Run.nil _), hrepr'.heapLive_iff.mpr (Finset.mem_insert_self _ _)⟩

theorem realloc_preserves_first
    : ∃ p s, Run HeapStep (HeapClient.init 0x200000 (fun _ => 0)) [.malloc 24] s
        ∧ ∃ q h, realloc s.heap p 4096 = some ⟨q, h⟩
          ∧ ((q = NULL ∧ h = s.heap) ∨ (q ≠ NULL ∧ s.heap.Resized p 4096 q h)) := by
  obtain ⟨p, s, hrun, hlive⟩ := HeapStep.run_malloc
  have hcalls : ∀ e ∈ [HeapCall.malloc 24], e.InRange := by simp [HeapCall.InRange]
  exact ⟨p, s, hrun, realloc_preserves poolFits_first hrun hcalls hlive (by decide) (by decide)⟩

end DismasmOS
