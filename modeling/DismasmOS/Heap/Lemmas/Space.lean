import DismasmOS.Heap.Space
import DismasmOS.Heap.Lemmas.Coalesce

/-!
This module contains the verification that `malloc` gives up only when it has to: the free blocks of the
list are the maximal intervals of the pool that no live allocation covers, so the first fit search misses
no room.
-/

namespace DismasmOS

open HeapBlock
open BlockList

theorem heapAlign_eq_roundUp {n : Nat} (h : n + HEAP_ALIGNMENT ≤ Word.modulus)
    : heapAlign n = roundUp n := by
  rw [heapAlign_eq]
  unfold roundUp
  rw [Word.add_of_lt]
  unfold HEAP_ALIGNMENT at *
  omega

section Covers

theorem Heap.Repr.payloadSize_eq {h : Heap} {pre : List Block} {b : Block} {post : List Block}
    (hr : h.Repr (pre ++ b :: post))
    : payloadSize h (h.heapBase + total sizeofHeapBlock pre + sizeofHeapBlock) = b.size := by
  have hseg := hr.segment
  rw [Segment.append_cons] at hseg
  unfold payloadSize
  rw [Nat.add_sub_cancel]
  exact hseg.2.1.size

variable {s : HeapClient} {bs : List Block}

theorem HeapClient.ReprBy.covers_iff (h : s.ReprBy bs) (x : Nat)
    : (∃ p ∈ s.live, s.heap.Covers p x) ↔ Within sizeofHeapBlock false s.heap.heapBase bs x := by
  constructor
  . rintro ⟨p, hp, hlo, hhi⟩
    obtain ⟨c, rfl, hused⟩ := (h.live p).mp hp
    obtain ⟨pre, b, post, rfl, hfree, rfl, hsize⟩ := h.repr.block_at hused
    rw [hsize] at hhi
    apply within_mid hfree
    . omega
    . omega
  . intro hwithin
    obtain ⟨pre, b, post, rfl, hfree, hlo, hhi⟩ := hwithin.exists
    have hused : UsedAt sizeofHeapBlock s.heap.heapBase (pre ++ b :: post)
        (s.heap.heapBase + total sizeofHeapBlock pre) := by
      rw [usedAt_append]
      exact .inr (.inl ⟨rfl, hfree⟩)
    refine ⟨_, (h.live _).mpr ⟨_, rfl, hused⟩, ?_, ?_⟩
    . omega
    . rw [h.repr.payloadSize_eq]
      omega

theorem HeapClient.ReprBy.uncovered_iff (h : s.ReprBy bs) (x : Nat)
    : s.Uncovered x ↔ Within sizeofHeapBlock true s.heap.heapBase bs x := by
  rw [within_true_iff, ← h.covers_iff, h.repr.tiles]
  unfold HeapClient.Uncovered Heap.poolEnd
  simp only [not_exists, not_and]

end Covers

theorem malloc_null_iff {kernelEnd : Nat} {mem : ByteMem} {calls : List HeapCall} {s : HeapClient}
    (hpool : PoolFits kernelEnd) (hrun : Run HeapStep (HeapClient.init kernelEnd mem) calls s)
    (hcalls : ∀ e ∈ calls, e.InRange) {n : Nat} (hpos : 0 < n) (hn : n + HEAP_ALIGNMENT ≤ Word.modulus)
    : ∃ p h, malloc s.heap n = some ⟨p, h⟩
        ∧ (p = NULL ↔ ∀ lo hi, Gap s.Uncovered lo hi → hi - lo < sizeofHeapBlock + roundUp n)
        ∧ (p = NULL → h = s.heap) := by
  obtain ⟨bs, hrepr, hsteps⟩ := HeapStep.run_reprFrom hpool hrun hcalls
  have hbs := (NoFreeNeighbours.singleton _).steps hsteps
  have hgaps : (∀ lo hi, Gap s.Uncovered lo hi → hi - lo < sizeofHeapBlock + roundUp n)
      ↔ ∀ b ∈ bs, ¬Fits (heapAlign n) b := by
    have hwithin : s.Uncovered = Within sizeofHeapBlock true s.heap.heapBase bs := by
      funext x
      exact propext (hrepr.uncovered_iff x)
    rw [hwithin, gaps_lt_iff (by decide) hbs, heapAlign_eq_roundUp hn]
    unfold Fits
    simp only [not_and, Nat.not_le]
  rw [hgaps]
  cases hrepr.repr.malloc_cases n with
  | inl hnone =>
    refine ⟨NULL, s.heap, hnone.1, ?_, fun _ => rfl⟩
    simp only [true_iff]
    exact hnone.2.resolve_left (by omega)
  | inr hsome =>
    obtain ⟨pre, b, post, h', _, hsplit, hfits, _, hcall, _, _⟩ := hsome
    have hne : s.heap.heapBase + total sizeofHeapBlock pre + sizeofHeapBlock ≠ NULL := by
      unfold sizeofHeapBlock NULL
      omega
    refine ⟨_, h', hcall, ?_, fun hnull => absurd hnull hne⟩
    simp only [hne, false_iff]
    intro hall
    apply hall b _ hfits
    rw [hsplit]
    simp

theorem malloc_null_iff_first
    : ∃ p s, Run HeapStep (HeapClient.init 0x200000 (fun _ => 0)) [.malloc 24, .free p] s
        ∧ ∃ q h, malloc s.heap 4096 = some ⟨q, h⟩ ∧ (q = NULL → h = s.heap) := by
  obtain ⟨p, s, hrun, _⟩ := HeapStep.run_first
  have hsize : 4096 + HEAP_ALIGNMENT ≤ Word.modulus := by decide
  have hcalls : ∀ e ∈ [HeapCall.malloc 24, HeapCall.free p], e.InRange := by simp [HeapCall.InRange]
  obtain ⟨q, h, hcall, _, hsame⟩ := malloc_null_iff poolFits_first hrun hcalls (by decide) hsize
  exact ⟨p, s, hrun, q, h, hcall, hsame⟩

end DismasmOS
