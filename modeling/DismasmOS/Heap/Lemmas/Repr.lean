import DismasmOS.Heap.Lemmas.Split
import DismasmOS.Heap.Lemmas.Merge

/-!
This module contains the representation invariant of the heap, `Heap.Repr h bs`: the raw memory of
`h` holds exactly the blocks `bs`. `malloc` and `free` are shown to act on `bs` as
`BlockList.carve` and `BlockList.release` do.
-/

namespace DismasmOS

open HeapBlock
open BlockList

structure Heap.Repr (h : Heap) (bs : List Block) : Prop where
  head : h.heapHead = h.heapBase
  totalSize : h.heapTotalSize = 16 * 1024 * 1024
  base_ge : HEAP_ALIGNMENT ≤ h.heapBase
  base_aligned : HEAP_ALIGNMENT ∣ h.heapBase
  fits : h.heapBase + h.heapTotalSize < Word.modulus
  segment : Segment h.mem NULL h.heapBase NULL bs
  tiles : total sizeofHeapBlock bs = h.heapTotalSize
  aligned : ∀ b ∈ bs, HEAP_ALIGNMENT ∣ b.size
  last : LastAtLeast HEAP_ALIGNMENT bs
  used : h.heapUsedBytes = usedBytes bs
  count : h.heapAllocCount = usedCount bs

theorem dvd_sizeofHeapBlock : HEAP_ALIGNMENT ∣ sizeofHeapBlock := by decide

theorem dvd_total {k : Nat} {bs : List Block} (hhdr : k ∣ sizeofHeapBlock)
    (h : ∀ b ∈ bs, k ∣ b.size)
    : k ∣ total sizeofHeapBlock bs := by
  induction bs with
  | nil => simp
  | cons b bs ih =>
    simp only [List.mem_cons, forall_eq_or_imp] at h
    rw [total_cons]
    exact Nat.dvd_add (Nat.dvd_add hhdr h.1) (ih h.2)

section HeapAlign

theorem heapAlign_eq (n : Nat)
    : heapAlign n = Word.add n (HEAP_ALIGNMENT - 1) / HEAP_ALIGNMENT * HEAP_ALIGNMENT :=
  Word.land_not_two_pow_sub_one _ 4 (Word.add_lt _ _) (by decide)

theorem dvd_heapAlign (n : Nat) : HEAP_ALIGNMENT ∣ heapAlign n := by
  rw [heapAlign_eq]
  apply Nat.dvd_mul_left

theorem le_heapAlign {n : Nat} (h : n + HEAP_ALIGNMENT ≤ Word.modulus) : n ≤ heapAlign n := by
  rw [heapAlign_eq]
  unfold HEAP_ALIGNMENT at *
  rw [Word.add_of_lt (by omega)]
  omega

-- The rounding of `HEAP_ALIGN` wraps around for the last 15 sizes.
theorem heapAlign_eq_zero {n : Nat} (h : Word.modulus < n + HEAP_ALIGNMENT) (hn : n < Word.modulus)
    : heapAlign n = 0 := by
  rw [heapAlign_eq]
  unfold Word.add HEAP_ALIGNMENT at *
  rw [Word.modulus_eq] at *
  omega

end HeapAlign

section Malloc

def Fits (s : Nat) (b : Block) : Prop := b.free = true ∧ s ≤ b.size

theorem fits_iff {m : ByteMem} {a nx pv s : Nat} {b : Block} (h : Header m a b nx pv)
    : (isFree m a ≠ 0 ∧ HeapBlock.size m a ≥ s) ↔ Fits s b := by
  rw [h.isFree_ne_zero_iff, h.size]
  rfl

theorem mallocLoop_spec (h : Heap) (s fuel pv a : Nat) (bs : List Block)
    (hseg : Segment h.mem pv a NULL bs) (hfuel : bs.length < fuel) (ha : NULL < a)
    : (mallocLoop h s fuel (if bs = [] then NULL else a) = some ⟨NULL, h⟩
          ∧ ∀ b ∈ bs, ¬Fits s b)
        ∨ ∃ pre b post, bs = pre ++ b :: post ∧ Fits s b ∧ (∀ x ∈ pre, ¬Fits s x)
          ∧ mallocLoop h s fuel (if bs = [] then NULL else a)
            = some (takeBlock h (a + total sizeofHeapBlock pre) s) := by
  induction bs generalizing pv a fuel with
  | nil =>
    cases fuel with
    | zero => omega
    | succ fuel => simp [mallocLoop]
  | cons b bs ih =>
    cases fuel with
    | zero => omega
    | succ fuel =>
      obtain ⟨hb, hrest⟩ := hseg
      simp only [reduceCtorEq, ↓reduceIte]
      unfold mallocLoop
      rw [if_neg (by omega)]
      by_cases hfits : Fits s b
      . rw [if_pos ((fits_iff hb).mpr hfits)]
        exact .inr ⟨[], b, bs, by simp, hfits, by simp, by simp⟩
      . rw [if_neg (mt (fits_iff hb).mp hfits), hb.next]
        have ih := ih fuel a (a + (sizeofHeapBlock + b.size)) hrest
          (by simpa using hfuel) (by omega)
        cases ih with
        | inl hnone => exact .inl ⟨hnone.1, by simpa [hfits] using hnone.2⟩
        | inr hsome =>
          obtain ⟨pre, x, post, hbs, hx, hpre, heq⟩ := hsome
          refine .inr ⟨b :: pre, x, post, by simp [hbs], hx, by simpa [hfits] using hpre, ?_⟩
          rw [heq, total_cons, Nat.add_assoc]

theorem Heap.Repr.takeBlock {h : Heap} {pre : List Block} {b : Block} {post : List Block} {s : Nat}
    (hr : h.Repr (pre ++ b :: post)) (hfits : Fits s b) (hs : HEAP_ALIGNMENT ∣ s)
    : (takeBlock h (h.heapBase + total sizeofHeapBlock pre) s).1
          = h.heapBase + total sizeofHeapBlock pre + sizeofHeapBlock
        ∧ (takeBlock h (h.heapBase + total sizeofHeapBlock pre) s).2.Repr
            (pre ++ (carve sizeofHeapBlock HEAP_ALIGNMENT s b ++ post)) := by
  have htiles := hr.tiles
  have hfit := hr.fits
  have hbase := hr.base_ge
  rw [← htiles] at hfit
  rw [takeBlock_eq]
  have hpost := (Segment.append_cons.mp hr.segment).2
  have hsegment := takeMem_segment_append hr.segment hfits.2 hbase hfit
  rw [total_append] at hfit
  have hsize := takeMem_size hpost hfits.2 (by omega) (by omega)
  constructor
  . apply Word.add_of_lt
    simp only [total_cons] at hfit
    omega
  . constructor
    . exact hr.head
    . exact hr.totalSize
    . exact hr.base_ge
    . exact hr.base_aligned
    . exact hr.fits
    . exact hsegment
    . dsimp only
      rw [← hr.tiles]
      simp only [total_append, total_carve, total_cons]
    . exact dvd_taken _ dvd_sizeofHeapBlock hs hr.aligned
    . exact lastAtLeast_taken _ (Nat.le_refl _) hr.last
    . have hpreBytes := usedBytes_le_total sizeofHeapBlock pre
      have hpostBytes := usedBytes_le_total sizeofHeapBlock post
      have hbytes := usedBytes_carve_le sizeofHeapBlock HEAP_ALIGNMENT hfits.2
      dsimp only
      rw [hsize, hr.used]
      simp only [usedBytes_append, usedBytes, hfits.1, ↓reduceIte, total_cons] at *
      rw [Word.add_of_lt (by omega)]
      omega
    . have hpreCount := usedCount_le_total sizeofHeapBlock pre (by decide)
      have hpostCount := usedCount_le_total sizeofHeapBlock post (by decide)
      have hcount := usedCount_carve sizeofHeapBlock HEAP_ALIGNMENT s b
      have hal : 0 < HEAP_ALIGNMENT := by decide
      dsimp only
      rw [hr.count]
      simp only [usedCount_append, usedCount, hfits.1, ↓reduceIte, total_cons] at *
      rw [Word.add_of_lt (by omega)]
      omega

-- Everything `malloc` can do to a well formed heap.
theorem Heap.Repr.malloc_cases {h : Heap} {bs : List Block} (hr : h.Repr bs) (n : Nat)
    : (malloc h n = some ⟨NULL, h⟩ ∧ (n = 0 ∨ ∀ b ∈ bs, ¬Fits (heapAlign n) b))
        ∨ ∃ pre b post h',
          n ≠ 0
            ∧ bs = pre ++ b :: post
            ∧ Fits (heapAlign n) b
            ∧ (∀ x ∈ pre, ¬Fits (heapAlign n) x)
            ∧ malloc h n = some ⟨h.heapBase + total sizeofHeapBlock pre + sizeofHeapBlock, h'⟩
            ∧ h' = (DismasmOS.takeBlock h (h.heapBase + total sizeofHeapBlock pre) (heapAlign n)).2
            ∧ h'.Repr (pre ++ (carve sizeofHeapBlock HEAP_ALIGNMENT (heapAlign n) b ++ post)) := by
  have hbase : 0 < h.heapBase := Nat.lt_of_lt_of_le (by decide) hr.base_ge
  have hne : bs ≠ [] := by
    intro hnil
    have htiles := hr.tiles
    rw [hnil, hr.totalSize] at htiles
    simp at htiles
  by_cases hn : n = 0
  . exact .inl ⟨by simp [malloc, hn], .inl hn⟩
  . have hlen := length_le_total sizeofHeapBlock bs (by decide)
    rw [hr.tiles] at hlen
    have hloop := mallocLoop_spec h (heapAlign n) (h.heapTotalSize + 1) NULL h.heapBase bs
      hr.segment (by omega) hbase
    have hmalloc : malloc h n = mallocLoop h (heapAlign n) (h.heapTotalSize + 1) h.heapBase := by
      unfold malloc
      rw [hr.head, if_neg]
      unfold NULL
      omega
    rw [if_neg hne, ← hmalloc] at hloop
    cases hloop with
    | inl hnone => exact .inl ⟨hnone.1, .inr hnone.2⟩
    | inr hsome =>
      obtain ⟨pre, b, post, hbs, hb, hpre, heq⟩ := hsome
      rw [hbs] at hr
      have htake := hr.takeBlock hb (dvd_heapAlign n)
      refine .inr ⟨pre, b, post, _, hn, hbs, hb, hpre, ?_, rfl, htake.2⟩
      rw [heq, ← htake.1]

end Malloc

section Free

theorem Heap.Repr.free_null {h : Heap} : free h NULL = h := by
  simp [free]

-- `free` of a live pointer passes every guard of the source and reaches the merges.
theorem Heap.Repr.free_eq {h : Heap} {pre : List Block} {b : Block} {post : List Block}
    (hr : h.Repr (pre ++ b :: post)) (hb : b.free = false)
    : free h (h.heapBase + total sizeofHeapBlock pre + sizeofHeapBlock)
        =
      { h with
          mem :=
            mergePrev
              (mergeNext (setIsFree h.mem (h.heapBase + total sizeofHeapBlock pre) 1)
                (h.heapBase + total sizeofHeapBlock pre))
              (h.heapBase + total sizeofHeapBlock pre)
          heapUsedBytes := h.heapUsedBytes - b.size
          heapAllocCount := h.heapAllocCount - 1 } := by
  have htiles := hr.tiles
  have hfits := hr.fits
  have hbase := hr.base_ge
  have hseg := hr.segment
  have hlast := hr.last
  have hused := hr.used
  have hcount := hr.count
  have hal : 0 < HEAP_ALIGNMENT := by decide
  rw [Segment.append_cons] at hseg
  rw [lastAtLeast_append (by simp)] at hlast
  have hb0 := hseg.2.1
  have hfreed := hb0.setIsFree true
  simp only [total_append, total_cons, usedBytes_append, usedBytes, usedCount_append, usedCount, hb,
    Bool.false_eq_true, ↓reduceIte] at htiles hused hcount
  have hpreBytes := usedBytes_le_total sizeofHeapBlock pre
  have hpostBytes := usedBytes_le_total sizeofHeapBlock post
  have hpreCount := usedCount_le_total sizeofHeapBlock pre (by decide)
  have hpostCount := usedCount_le_total sizeofHeapBlock post (by decide)
  generalize hc : h.heapBase + total sizeofHeapBlock pre = c at *
  -- Only a last block without payload could end at the end of the pool, and there is none.
  have hend : sizeofHeapBlock + b.size + total sizeofHeapBlock post > sizeofHeapBlock := by
    cases post with
    | nil =>
      rw [lastAtLeast_singleton] at hlast
      omega
    | cons y ys =>
      simp only [total_cons]
      unfold sizeofHeapBlock
      omega
  unfold free
  rw [if_neg (by unfold NULL; omega)]
  rw [Word.add_of_lt (a := h.heapBase) (by omega), Word.add_of_lt (by omega)]
  rw [if_neg (by omega)]
  rw [Word.sub_of_le (by omega) (by omega)]
  rw [Nat.add_sub_cancel]
  dsimp only
  rw [if_neg]
  . simp only [↓reduceIte] at hfreed
    rw [hfreed.size]
    dsimp only
    rw [if_pos (by omega), if_pos (by omega)]
    rw [Word.sub_of_le (by omega) (by omega), Word.sub_of_le (by omega) (by omega)]
  . rw [hb0.magic, hb0.isFree_ne_zero_iff]
    simp [hb]

theorem Heap.Repr.free {h : Heap} {pre : List Block} {b : Block} {post : List Block}
    (hr : h.Repr (pre ++ b :: post)) (hb : b.free = false)
    : (free h (h.heapBase + total sizeofHeapBlock pre + sizeofHeapBlock)).Repr
        (release sizeofHeapBlock pre b post) := by
  rw [hr.free_eq hb]
  constructor
  . exact hr.head
  . exact hr.totalSize
  . exact hr.base_ge
  . exact hr.base_aligned
  . exact hr.fits
  . have hnull : NULL < HEAP_ALIGNMENT := by decide
    have hbase := hr.base_ge
    have hfits := hr.fits
    rw [← hr.tiles] at hfits
    dsimp only
    exact free_segment hr.segment (by omega) hfits
  . dsimp only
    rw [total_release]
    exact hr.tiles
  . exact dvd_release _ dvd_sizeofHeapBlock hr.aligned
  . exact lastAtLeast_release _ hr.last
  . have := usedBytes_release sizeofHeapBlock pre b post hb
    dsimp only
    rw [hr.used]
    omega
  . have := usedCount_release sizeofHeapBlock pre b post hb
    dsimp only
    rw [hr.count]
    omega

end Free

end DismasmOS
