import DismasmOS.Heap.Objects
import DismasmOS.Heap.Lemmas.Realloc

/-!
This module contains the refinement of the heap to a store of objects: every call has the effect on
the objects it should have, and none on the others.
-/

namespace DismasmOS

open HeapBlock
open BlockList
open Function

section Objects

variable {s t : HeapClient} {bs : List Block} {p : Nat}

theorem HeapClient.objects_of_mem (hp : p ∈ s.live)
    : s.objects p = some (s.heap.mem.bytes p (payloadSize s.heap p)) :=
  if_pos hp

theorem HeapClient.objects_eq_none_iff : s.objects p = none ↔ p ∉ s.live := by
  unfold HeapClient.objects
  split
  . next hp => simp [hp]
  . next hp => simp [hp]

theorem Heap.SamePayload.bytes {h h' : Heap} (hsame : h.SamePayload h' p)
    : h'.mem.bytes p (payloadSize h' p) = h.mem.bytes p (payloadSize h p) := by
  rw [hsame.1]
  exact ByteMem.bytes_congr hsame.2

theorem Heap.SamePayload.trans {h h' h'' : Heap} (hsame : h.SamePayload h' p)
    (hsame' : h'.SamePayload h'' p)
    : h.SamePayload h'' p := by
  refine ⟨hsame'.1.trans hsame.1, ?_⟩
  intro i hi
  rw [hsame'.2 i (by rwa [hsame.1]), hsame.2 i hi]

-- Two states that agree on all objects but one.
theorem HeapClient.objects_eq_update (hlive : ∀ q, q ≠ p → (q ∈ t.live ↔ q ∈ s.live))
    (hsame : ∀ q ∈ s.live, q ≠ p → s.heap.SamePayload t.heap q)
    : t.objects = update s.objects p (t.objects p) := by
  funext q
  by_cases hq : q = p
  . rw [hq, update_self]
  . rw [update_of_ne hq]
    by_cases hmem : q ∈ s.live
    . rw [objects_of_mem hmem, objects_of_mem ((hlive q hq).mpr hmem), (hsame q hmem hq).bytes]
    . rw [objects_eq_none_iff.mpr hmem, objects_eq_none_iff, hlive q hq]
      exact hmem

theorem HeapClient.ReprBy.objects_null (h : s.ReprBy bs) : s.objects NULL = none := by
  rw [objects_eq_none_iff]
  intro hmem
  exact h.pos hmem rfl

end Objects

section Malloc

variable {s : HeapClient} {bs : List Block} {n p : Nat} {h' : Heap}

theorem HeapClient.ReprBy.malloc_same (h : s.ReprBy bs)
    (hcall : DismasmOS.malloc s.heap n = some ⟨p, h'⟩) {q : Nat} (hq : q ∈ s.live)
    : s.heap.SamePayload h' q := by
  obtain ⟨c, rfl, hused⟩ := (h.live q).mp hq
  exact (h.repr.malloc_keeps hcall hused).samePayload

theorem HeapClient.ReprBy.malloc_payload (h : s.ReprBy bs)
    (hcall : DismasmOS.malloc s.heap n = some ⟨p, h'⟩) (hp : p ≠ NULL)
    : heapAlign n ≤ payloadSize h' p := by
  obtain ⟨pre, x, post, rfl, hbase, hx, _, _, hrepr⟩ := h.malloc_some hcall hp
  rw [← hbase]
  have hsize := hrepr.repr.payloadSize_eq
  dsimp only at hsize
  rw [hsize]
  exact hx

theorem HeapClient.ReprBy.malloc_objects (h : s.ReprBy bs)
    (hcall : DismasmOS.malloc s.heap n = some ⟨p, h'⟩) (hp : p ≠ NULL)
    : p ∉ s.live
        ∧ HeapClient.objects ⟨h', insert p s.live⟩
          = update s.objects p (some (h'.mem.bytes p (payloadSize h' p))) := by
  obtain ⟨_, _, _, _, _, _, hfresh, _, _⟩ := h.malloc_some hcall hp
  refine ⟨hfresh, ?_⟩
  rw [HeapClient.objects_eq_update (s := s) (p := p)]
  . rw [HeapClient.objects_of_mem (Finset.mem_insert_self _ _)]
  . intro q hq
    simp [hq]
  . intro q hmem _
    exact h.malloc_same hcall hmem

theorem HeapClient.ReprBy.malloc_step (h : s.ReprBy bs)
    (hcall : DismasmOS.malloc s.heap n = some ⟨p, h'⟩)
    : ObjectStep s.objects (.malloc n) (HeapClient.objects ⟨h', obtained s.live p⟩) := by
  unfold obtained
  split
  . next hnull =>
    rw [hnull] at hcall
    rw [h.malloc_null hcall]
    exact .refused trivial
  . next hp =>
    obtain ⟨hfresh, hobjects⟩ := h.malloc_objects hcall hp
    have hsize := h.malloc_payload hcall hp
    rw [hobjects]
    apply ObjectStep.malloc (HeapClient.objects_eq_none_iff.mpr hfresh)
    intro hn
    rw [ByteMem.length_bytes]
    exact Nat.le_trans (le_heapAlign hn) hsize

end Malloc

section Payload

variable {s : HeapClient} {bs : List Block} {p : Nat} {m : ByteMem}

-- A write into the payload of one object leaves the others alone.
theorem HeapClient.ReprBy.write_same (h : s.ReprBy bs) (hp : p ∈ s.live)
    (hagree : ∀ {a n : Nat}, a + n ≤ p ∨ p + payloadSize s.heap p ≤ a → s.heap.mem.AgreeOn m a n)
    {q : Nat} (hq : q ∈ s.live) (hne : q ≠ p)
    : s.heap.SamePayload { s.heap with mem := m } q := by
  obtain ⟨c, rfl, hc⟩ := (h.live p).mp hp
  obtain ⟨d, rfl, hd⟩ := (h.live q).mp hq
  obtain ⟨pre, b, post, rfl, _, rfl, hsize⟩ := h.repr.block_at hc
  have hfits := h.repr.fits
  have hside := apart_of_mem_addrs _ hd.mem_addrs
  have happ := h.repr.segment.apart hd (mem_addrs_mid _)
  unfold Apart at happ
  rw [hsize] at hagree
  apply Keeps.samePayload
  constructor
  . apply hagree
    unfold sizeofHeapBlock at *
    omega
  . apply hagree
    omega

theorem HeapClient.ReprBy.write_payloadSize (h : s.ReprBy bs) (hp : p ∈ s.live)
    (hagree : ∀ {a n : Nat}, a + n ≤ p ∨ p + payloadSize s.heap p ≤ a → s.heap.mem.AgreeOn m a n)
    : payloadSize { s.heap with mem := m } p = payloadSize s.heap p := by
  obtain ⟨c, rfl, _⟩ := (h.live p).mp hp
  unfold payloadSize
  rw [Nat.add_sub_cancel]
  apply size_congr
  apply hagree
  unfold sizeofHeapBlock
  omega

theorem HeapClient.ReprBy.write_objects (h : s.ReprBy bs) (hp : p ∈ s.live)
    (hagree : ∀ {a n : Nat}, a + n ≤ p ∨ p + payloadSize s.heap p ≤ a → s.heap.mem.AgreeOn m a n)
    : HeapClient.objects ⟨{ s.heap with mem := m }, s.live⟩
        = update s.objects p (some (m.bytes p (payloadSize s.heap p))) := by
  have hmem : p ∈ (HeapClient.mk { s.heap with mem := m } s.live).live := hp
  rw [HeapClient.objects_eq_update (s := s) (p := p)]
  . rw [HeapClient.objects_of_mem hmem, h.write_payloadSize hp hagree]
  . intro q _
    rfl
  . intro q hq hne
    exact h.write_same hp hagree hq hne

theorem HeapClient.ReprBy.store_step (h : s.ReprBy bs) {addr : Nat} (v : UInt8) (hp : p ∈ s.live)
    (hlo : p ≤ addr) (hhi : addr < p + payloadSize s.heap p)
    : ObjectStep s.objects (.store addr v)
        (HeapClient.objects ⟨{ s.heap with mem := s.heap.mem.setByte addr v }, s.live⟩) := by
  obtain ⟨i, rfl⟩ := Nat.exists_eq_add_of_le hlo
  have hobjects := h.write_objects (m := s.heap.mem.setByte (p + i) v) hp (by
    intro a n hout
    apply ByteMem.agreeOn_setByte
    omega)
  rw [hobjects, ByteMem.bytes_setByte]
  apply ObjectStep.store (HeapClient.objects_of_mem hp)
  rw [ByteMem.length_bytes]
  omega

end Payload

section Calloc

variable {s : HeapClient} {bs : List Block} {nmemb size p : Nat} {h' : Heap}

theorem HeapClient.ReprBy.payload_lt (h : s.ReprBy bs) (hp : p ∈ s.live)
    : p + payloadSize s.heap p < Word.modulus := by
  obtain ⟨c, rfl, hused⟩ := (h.live p).mp hp
  exact h.repr.payload_le hused

theorem HeapClient.ReprBy.calloc_step (h : s.ReprBy bs)
    (hrange : nmemb * size + HEAP_ALIGNMENT ≤ Word.modulus ∨ Word.modulus ≤ nmemb * size)
    (hcall : DismasmOS.calloc s.heap nmemb size = some ⟨p, h'⟩)
    : ObjectStep s.objects (.calloc nmemb size) (HeapClient.objects ⟨h', obtained s.live p⟩) := by
  cases hrange with
  | inr hover =>
    rw [calloc_of_overflow _ hover] at hcall
    cases hcall
    exact .refused trivial
  | inl hfit =>
    have hal : 0 < HEAP_ALIGNMENT := by decide
    rw [calloc_of_lt _ (by omega), Option.map_eq_some_iff] at hcall
    obtain ⟨⟨q, h1⟩, hmalloc, hres⟩ := hcall
    dsimp only at hres
    split at hres
    . next hp =>
      cases hres
      unfold obtained
      rw [if_neg hp]
      obtain ⟨hfresh, hobjects⟩ := h.malloc_objects hmalloc hp
      have hsize := Nat.le_trans (le_heapAlign hfit) (h.malloc_payload hmalloc hp)
      obtain ⟨_, _, _, _, _, _, _, _, hrepr⟩ := h.malloc_some hmalloc hp
      have hmem := Finset.mem_insert_self p s.live
      have hlt := hrepr.payload_lt hmem
      dsimp only at hlt
      rw [hrepr.write_objects hmem, hobjects, update_idem]
      . apply ObjectStep.calloc (HeapClient.objects_eq_none_iff.mpr hfresh)
        rw [ByteMem.take_bytes hsize, ByteMem.bytes_fill]
        omega
      . intro a n hout
        dsimp only at hout
        apply ByteMem.agreeOn_fill
        . omega
        . omega
    . next hnull =>
      rw [not_not] at hnull
      rw [hnull] at hmalloc hres
      cases hres
      rw [h.malloc_null hmalloc]
      exact .refused trivial

end Calloc

section Free

variable {s : HeapClient} {bs : List Block} {ptr : Nat}

theorem HeapClient.ReprBy.free_objects (h : s.ReprBy bs) (hptr : ptr = NULL ∨ ptr ∈ s.live)
    : HeapClient.objects ⟨DismasmOS.free s.heap ptr, s.live.erase ptr⟩
        = update s.objects ptr none := by
  rw [HeapClient.objects_eq_update (s := s) (p := ptr)]
  . congr 1
    rw [HeapClient.objects_eq_none_iff]
    exact Finset.notMem_erase ptr s.live
  . intro q hq
    simp [hq]
  . intro q hq hne
    cases hptr with
    | inl hnull =>
      rw [hnull, Heap.Repr.free_null]
      exact ⟨rfl, fun _ _ => rfl⟩
    | inr hmem =>
      obtain ⟨c, rfl, hc⟩ := (h.live ptr).mp hmem
      obtain ⟨d, rfl, hd⟩ := (h.live q).mp hq
      exact (h.repr.free_keeps_at hc hd (by omega)).samePayload

end Free

section Realloc

variable {s : HeapClient} {bs : List Block} {ptr size q : Nat} {h' : Heap}

theorem HeapClient.ReprBy.realloc_null_step (h : s.ReprBy bs)
    (hrange : size + HEAP_ALIGNMENT ≤ Word.modulus)
    (hcall : DismasmOS.malloc s.heap size = some ⟨q, h'⟩)
    : ObjectStep s.objects (.realloc NULL size) (HeapClient.objects ⟨h', obtained s.live q⟩) := by
  unfold obtained
  split
  . next hnull =>
    rw [hnull] at hcall
    rw [h.malloc_null hcall]
    by_cases hsize : size = 0
    . have hstep := @ObjectStep.giveUp s.objects NULL
      rw [update_eq_self_iff.mpr h.objects_null.symm] at hstep
      rw [hsize]
      exact hstep
    . exact .refused hsize
  . next hq =>
    obtain ⟨hfresh, hobjects⟩ := h.malloc_objects hcall hq
    rw [hobjects]
    apply ObjectStep.obtain (HeapClient.objects_eq_none_iff.mpr hfresh)
    rw [ByteMem.length_bytes]
    exact Nat.le_trans (le_heapAlign hrange) (h.malloc_payload hcall hq)

theorem Moves.objects (h : Moves s.heap s.live ptr size q h')
    : HeapClient.objects ⟨h', insert q (s.live.erase ptr)⟩
        = update (update s.objects ptr none) q (some (h'.mem.bytes q (payloadSize h' q))) := by
  have hq := h.fresh
  funext p
  by_cases hpq : p = q
  . rw [hpq, update_self, HeapClient.objects_of_mem (Finset.mem_insert_self _ _)]
  . rw [update_of_ne hpq]
    by_cases hptr : p = ptr
    . rw [hptr, update_self, HeapClient.objects_eq_none_iff]
      rw [hptr] at hpq
      simp [hpq]
    . rw [update_of_ne hptr]
      by_cases hmem : p ∈ s.live
      . rw [HeapClient.objects_of_mem hmem, HeapClient.objects_of_mem (by simp [hptr, hmem]),
          (h.others p hmem hptr).bytes]
      . rw [HeapClient.objects_eq_none_iff.mpr hmem, HeapClient.objects_eq_none_iff]
        simp [hpq, hmem]

theorem Moves.prefix (h : Moves s.heap s.live ptr size q h') (hlt : payloadSize s.heap ptr < size)
    : s.heap.mem.bytes ptr (payloadSize s.heap ptr) <+: h'.mem.bytes q (payloadSize h' q) := by
  have hle : payloadSize s.heap ptr ≤ payloadSize h' q :=
    Nat.le_trans (Nat.le_of_lt hlt) h.payload
  have hcopy : h'.mem.bytes q (payloadSize s.heap ptr)
      = s.heap.mem.bytes ptr (payloadSize s.heap ptr) := by
    rw [ByteMem.bytes_eq_iff]
    refine ⟨ByteMem.length_bytes _ _ _, ?_⟩
    intro i hi
    rw [ByteMem.getElem_bytes]
    apply h.data
    rwa [ByteMem.length_bytes] at hi
  rw [← hcopy, ← ByteMem.take_bytes hle]
  exact List.take_prefix _ _

theorem HeapClient.ReprBy.realloc_step (h : s.ReprBy bs) (hptr : ptr = NULL ∨ ptr ∈ s.live)
    (hrange : size + HEAP_ALIGNMENT ≤ Word.modulus)
    (hcall : DismasmOS.realloc s.heap ptr size = some ⟨q, h'⟩)
    : ObjectStep s.objects (.realloc ptr size)
        (HeapClient.objects ⟨h', reallocated s.live ptr size q⟩) := by
  by_cases hnull : ptr = NULL
  . rw [hnull] at hcall ⊢
    rw [reallocated_null (fun hmem => h.pos hmem rfl)]
    exact h.realloc_null_step hrange hcall
  . have hmem := hptr.resolve_left hnull
    by_cases hsize : size = 0
    . unfold DismasmOS.realloc at hcall
      rw [if_neg hnull, if_pos hsize] at hcall
      cases hcall
      rw [hsize]
      simp only [reallocated, ne_eq, not_true_eq_false, ↓reduceIte]
      rw [h.free_objects hptr]
      exact .giveUp
    . rw [realloc_live h hmem (Nat.pos_of_ne_zero hsize)] at hcall
      split at hcall
      . next hfit =>
        cases hcall
        unfold reallocated
        rw [if_pos hnull, Finset.insert_erase hmem]
        apply ObjectStep.keep (HeapClient.objects_of_mem hmem)
        rwa [ByteMem.length_bytes]
      . next hfit =>
        obtain ⟨⟨r, h1⟩, hmalloc, hres⟩ := Option.map_eq_some_iff.mp hcall
        dsimp only at hres
        split at hres
        . next hr =>
          cases hres
          rw [hr] at hmalloc
          simp only [reallocated, ne_eq, not_true_eq_false, ↓reduceIte, hsize]
          rw [h.malloc_null hmalloc]
          exact .refused hsize
        . next hr =>
          cases hres
          have hlt := Nat.lt_of_not_le hfit
          have hmoves := h.moves hmem hrange hlt hmalloc hr
          unfold reallocated
          rw [if_pos hr, hmoves.objects]
          apply ObjectStep.move (HeapClient.objects_of_mem hmem)
          . rwa [ByteMem.length_bytes]
          . exact HeapClient.objects_eq_none_iff.mpr hmoves.fresh
          . exact hmoves.prefix hlt
          . rw [ByteMem.length_bytes]
            exact hmoves.payload

end Realloc

theorem HeapStep.objectStep {s t : HeapClient} {e : HeapCall} (h : HeapStep s e t)
    (hrange : e.InRange) (hs : s.Inv)
    : ObjectStep s.objects e t.objects := by
  obtain ⟨bs, hrepr⟩ := hs
  cases h with
  | malloc _ hcall => exact hrepr.malloc_step hcall
  | calloc _ _ hcall => exact hrepr.calloc_step hrange hcall
  | realloc _ hptr hcall => exact hrepr.realloc_step hptr hrange hcall
  | free hptr =>
    rw [hrepr.free_objects hptr]
    exact .free
  | store hlive hlo hhi => exact hrepr.store_step _ hlive hlo hhi

theorem heap_refines_objects {kernelEnd : Nat} {mem : ByteMem} {calls : List HeapCall}
    {s : HeapClient} (hpool : PoolFits kernelEnd)
    (hrun : Run HeapStep (HeapClient.init kernelEnd mem) calls s)
    (hcalls : ∀ e ∈ calls, e.InRange)
    : Run ObjectStep (fun _ => none) calls s.objects := by
  have hinit : (HeapClient.init kernelEnd mem).objects = fun _ => none := rfl
  rw [← hinit]
  apply hrun.map HeapClient.Inv
  . intro s e t he hs hstep
    refine ⟨?_, hstep.objectStep (hcalls e he) hs⟩
    obtain ⟨bs, hrepr⟩ := hs
    obtain ⟨bs', hrepr', _⟩ := hstep.reprFrom (hcalls e he) hrepr
    exact ⟨bs', hrepr'⟩
  . exact HeapClient.init_inv mem hpool

theorem heap_refines_objects_first
    : ∃ p s, Run HeapStep (HeapClient.init 0x200000 (fun _ => 0)) [.malloc 24] s
        ∧ s.heap.Live p ∧ Run ObjectStep (fun _ => none) [.malloc 24] s.objects := by
  obtain ⟨p, s, hrun, hlive⟩ := HeapStep.run_malloc
  have hcalls : ∀ e ∈ [HeapCall.malloc 24], e.InRange := by simp [HeapCall.InRange]
  exact ⟨p, s, hrun, hlive, heap_refines_objects poolFits_first hrun hcalls⟩

end DismasmOS
