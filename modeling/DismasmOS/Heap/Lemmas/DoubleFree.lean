import DismasmOS.Heap.Lemmas.Quiet
import DismasmOS.Heap.Lemmas.Walk
import DismasmOS.Heap.DoubleFree

/-!
This module contains the verification of the double free check: over every run of `malloc` and
`free`, repeated frees included, the headers of all pointers that are not live stay quiet.
-/

namespace DismasmOS

open HeapBlock
open BlockList

theorem free_of_outside {h : Heap} {bs : List Block} (hr : h.Repr bs) {ptr : Nat}
    (hptr : h.Outside ptr)
    : free h ptr = h := by
  have hfits := hr.fits
  have hsize := hr.totalSize
  unfold Heap.Outside Heap.poolEnd at hptr
  unfold free
  split
  . rfl
  . rw [if_pos]
    rw [Word.add_of_lt (by unfold sizeofHeapBlock; omega), Word.add_of_lt (by omega)]
    omega

-- The two tests on the header reject a quiet address, wherever it lies.
theorem free_of_quiet {h : Heap} {a : Nat} (hlow : Low a) (hq : Quiet h.mem a)
    : free h (a + sizeofHeapBlock) = h := by
  have hmod : 2 ^ 30 + sizeofHeapBlock < Word.modulus := by decide
  have hlt := hlow.2
  unfold Quiet at hq
  unfold free
  split
  . rfl
  . split
    . rfl
    . rw [Word.sub_of_le (by omega) (by omega), Nat.add_sub_cancel]
      dsimp only
      rw [if_pos hq]

theorem Heap.Repr.lowSegment {h : Heap} {bs : List Block} (hr : h.Repr bs) (hmapped : h.Mapped)
    : LowSegment h.mem NULL h.heapBase bs := by
  constructor
  . exact hr.segment
  . exact Nat.lt_of_lt_of_le (by decide) hr.base_ge
  . exact hr.base_aligned
  . exact hr.aligned
  . rw [hr.tiles]
    exact hmapped

section Calls

variable {h : Heap} {bs : List Block} {a : Nat}

theorem Heap.Repr.quiet_free {pre : List Block} {b : Block} {post : List Block}
    (hr : h.Repr (pre ++ b :: post)) (hmapped : h.Mapped) (hused : b.free = false)
    (ha : HEAP_ALIGNMENT ∣ a)
    (hq : Quiet h.mem a ∨ a = h.heapBase + total sizeofHeapBlock pre)
    : Quiet (DismasmOS.free h (h.heapBase + total sizeofHeapBlock pre + sizeofHeapBlock)).mem a := by
  have hlow := hr.lowSegment hmapped
  obtain ⟨hfreed, hmerged⟩ := hlow.freed
  have hset : Quiet (setIsFree h.mem (h.heapBase + total sizeofHeapBlock pre) 1) a := by
    cases hq with
    | inl hq => exact hq.setIsFree ha hlow.split.start (by decide) (.inr (by decide))
    | inr heq =>
      right
      rw [heq, isFree_setIsFree]
      decide
  have hnext := hset.mergeNext ha hfreed
  rw [hr.free_eq hused]
  dsimp only
  obtain ⟨y, ys, habsorb, _⟩ := absorb_eq_cons sizeofHeapBlock ⟨b.size, true⟩ post
  rw [habsorb] at hmerged
  exact hnext.mergePrev ha hmerged

theorem Heap.Repr.quiet_malloc {n p : Nat} {h' : Heap} (hr : h.Repr bs) (hmapped : h.Mapped)
    (hcall : malloc h n = some ⟨p, h'⟩) (ha : HEAP_ALIGNMENT ∣ a) (hq : Quiet h.mem a)
    (hne : p ≠ a + sizeofHeapBlock)
    : Quiet h'.mem a := by
  cases hr.malloc_cases n with
  | inl hnone =>
    rw [hnone.1] at hcall
    simp only [Option.some.injEq, Prod.mk.injEq] at hcall
    rw [← hcall.2]
    exact hq
  | inr hsome =>
    obtain ⟨pre, b, post, h'', _, rfl, hfits, _, hcall', htake, _⟩ := hsome
    rw [hcall'] at hcall
    simp only [Option.some.injEq, Prod.mk.injEq] at hcall
    obtain ⟨rfl, rfl⟩ := hcall
    rw [htake, takeBlock_eq]
    apply hq.takeMem ha (hr.lowSegment hmapped).split (dvd_heapAlign n) hfits.2
    omega

theorem Heap.Repr.malloc_low {n p : Nat} {h' : Heap} (hr : h.Repr bs) (hmapped : h.Mapped)
    (hcall : malloc h n = some ⟨p, h'⟩) (hne : p ≠ NULL)
    : ∃ c, Low c ∧ p = c + sizeofHeapBlock := by
  cases hr.malloc_cases n with
  | inl hnone =>
    rw [hnone.1] at hcall
    simp only [Option.some.injEq, Prod.mk.injEq] at hcall
    exact absurd hcall.1.symm hne
  | inr hsome =>
    obtain ⟨pre, b, post, h'', _, rfl, _, _, hcall', _⟩ := hsome
    rw [hcall'] at hcall
    simp only [Option.some.injEq, Prod.mk.injEq] at hcall
    exact ⟨_, (hr.lowSegment hmapped).split.low, hcall.1.symm⟩

end Calls

structure HeapUser.Inv (s : HeapUser) : Prop where
  client : s.toHeapClient.Inv
  mapped : s.heap.Mapped
  returned : ∀ p ∈ s.returned, ∃ a, Low a ∧ p = a + sizeofHeapBlock
    ∧ (p ∈ s.live ∨ Quiet s.heap.mem a)

namespace HeapUser.Inv

theorem init {kernelEnd : Nat} {mem : ByteMem} (hpool : PoolFits kernelEnd)
    (hmapped : (heapInit kernelEnd mem).Mapped)
    : (HeapUser.init kernelEnd mem).Inv := by
  constructor
  . exact HeapClient.init_inv mem hpool
  . exact hmapped
  . simp [HeapUser.init]

theorem free_dead {s : HeapUser} (h : s.Inv) {p : Nat} (hret : p ∈ s.returned) (hdead : p ∉ s.live)
    : DismasmOS.free s.heap p = s.heap := by
  obtain ⟨a, hlow, rfl, hquiet⟩ := h.returned p hret
  exact free_of_quiet hlow (hquiet.resolve_left hdead)

theorem malloc {s : HeapUser} (hs : s.Inv) {n p : Nat} {h : Heap}
    (hcall : DismasmOS.malloc s.heap n = some ⟨p, h⟩)
    : HeapUser.Inv ⟨⟨h, obtained s.live p⟩, obtained s.returned p⟩ := by
  obtain ⟨bs, hrepr⟩ := hs.client
  have hpool := malloc_pool hcall
  constructor
  . obtain ⟨bs', hrepr', _⟩ := hrepr.malloc hcall
    exact ⟨bs', hrepr'⟩
  . have hmapped := hs.mapped
    unfold Heap.Mapped Heap.poolEnd at *
    rw [hpool.1, hpool.2]
    exact hmapped
  . have hold : ∀ q ∈ s.returned, ∃ a, Low a ∧ q = a + sizeofHeapBlock
        ∧ (q ∈ obtained s.live p ∨ Quiet h.mem a) := by
      intro q hq
      obtain ⟨a, hlow, rfl, hor⟩ := hs.returned q hq
      refine ⟨a, hlow, rfl, ?_⟩
      unfold obtained
      by_cases heq : p = a + sizeofHeapBlock
      . left
        rw [if_neg (by unfold NULL sizeofHeapBlock at *; omega), heq]
        apply Finset.mem_insert_self
      . cases hor with
        | inl hlive =>
          left
          split
          . exact hlive
          . exact Finset.mem_insert_of_mem hlive
        | inr hquiet => exact .inr (hrepr.repr.quiet_malloc hs.mapped hcall hlow.1 hquiet heq)
    intro q hq
    dsimp only at hq ⊢
    by_cases hnull : p = NULL
    . rw [obtained, if_pos hnull] at hq
      exact hold q hq
    . rw [obtained, if_neg hnull, Finset.mem_insert] at hq
      cases hq with
      | inl heq =>
        obtain ⟨c, hlow, hp⟩ := hrepr.repr.malloc_low hs.mapped hcall hnull
        rw [heq]
        refine ⟨c, hlow, hp, .inl ?_⟩
        rw [obtained, if_neg hnull]
        apply Finset.mem_insert_self
      | inr hmem => exact hold q hmem

theorem free {s : HeapUser} (hs : s.Inv) {ptr : Nat} (hptr : ptr ∈ s.returned ∨ s.heap.Outside ptr)
    : HeapUser.Inv ⟨⟨DismasmOS.free s.heap ptr, s.live.erase ptr⟩, s.returned⟩ := by
  obtain ⟨bs, hrepr⟩ := hs.client
  by_cases hlive : ptr ∈ s.live
  . -- the first `free` of an allocation
    have hpool := free_pool s.heap ptr
    constructor
    . obtain ⟨bs', hrepr', _⟩ := hrepr.free (.inr hlive)
      exact ⟨bs', hrepr'⟩
    . have hmapped := hs.mapped
      unfold Heap.Mapped Heap.poolEnd at *
      rw [hpool.1, hpool.2]
      exact hmapped
    . obtain ⟨c, rfl, hc⟩ := (hrepr.live ptr).mp hlive
      obtain ⟨pre, b, post, rfl, hused, rfl, _⟩ := hrepr.repr.block_at hc
      intro q hq
      obtain ⟨a, hlow, rfl, hor⟩ := hs.returned q hq
      refine ⟨a, hlow, rfl, ?_⟩
      have hquiet := @Heap.Repr.quiet_free s.heap a _ _ _ hrepr.repr hs.mapped hused hlow.1
      by_cases heq : a = s.heap.heapBase + total sizeofHeapBlock pre
      . exact .inr (hquiet (.inr heq))
      . cases hor with
        | inl hmem =>
          left
          rw [Finset.mem_erase]
          exact ⟨by omega, hmem⟩
        | inr hq => exact .inr (hquiet (.inl hq))
  . -- a repeated one, or one of a pointer that never came from here
    have hsame : DismasmOS.free s.heap ptr = s.heap := by
      cases hptr with
      | inl hret => exact hs.free_dead hret hlive
      | inr hout => exact free_of_outside hrepr.repr hout
    rw [hsame, Finset.erase_eq_of_notMem hlive]
    exact hs

theorem step {s t : HeapUser} {e : UserCall} (hs : s.Inv) (h : UserStep s e t) : t.Inv := by
  cases h with
  | malloc _ hcall => exact hs.malloc hcall
  | free hptr => exact hs.free hptr

end HeapUser.Inv

theorem double_free_harmless {kernelEnd : Nat} {mem : ByteMem} {calls : List UserCall}
    {s : HeapUser} (hpool : PoolFits kernelEnd) (hmapped : (heapInit kernelEnd mem).Mapped)
    (hrun : Run UserStep (HeapUser.init kernelEnd mem) calls s) {p : Nat} (hret : p ∈ s.returned)
    (hdead : p ∉ s.live)
    : free s.heap p = s.heap := by
  have hinv : s.Inv := by
    apply hrun.invariant
    . intro s e t _ hs hstep
      exact hs.step hstep
    . exact .init hpool hmapped
  exact hinv.free_dead hret hdead

theorem double_free_harmless_twice
    : ∃ p s, Run UserStep (HeapUser.init 0x200000 (fun _ => 0)) [.malloc 24, .free p] s
        ∧ free s.heap p = s.heap := by
  have hpool := poolFits_first
  have hmapped : (heapInit 0x200000 (fun _ => 0)).Mapped := by
    rw [heapInit_eq _ hpool]
    unfold Heap.Mapped Heap.poolEnd
    decide
  cases (heapInit_repr (fun _ => 0) hpool).malloc_cases 24 with
  | inl hnone =>
    have hfull := hnone.2.resolve_left (by decide) _ (List.mem_singleton_self _)
    exact absurd ⟨rfl, by decide⟩ hfull
  | inr hsome =>
    obtain ⟨pre, b, post, h, _, _, _, _, hcall, _⟩ := hsome
    generalize hp : (heapInit 0x200000 (fun _ => 0)).heapBase + total sizeofHeapBlock pre
      + sizeofHeapBlock = p at hcall
    have hmem : p ∈ obtained ∅ p := by
      rw [obtained, if_neg (by unfold NULL; unfold sizeofHeapBlock at hp; omega)]
      apply Finset.mem_insert_self
    have hrun : Run UserStep (HeapUser.init 0x200000 (fun _ => 0)) [.malloc 24, .free p] _ :=
      Run.cons (UserStep.malloc (by decide) hcall) (Run.cons (UserStep.free (.inl hmem)) (Run.nil _))
    exact ⟨p, _, hrun, double_free_harmless hpool hmapped hrun hmem (by simp)⟩

end DismasmOS
