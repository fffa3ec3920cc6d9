import DismasmOS.Heap.Lemmas.Segment

/-!
This module contains the verification of the memory writes of `malloc`: handing out a free block
turns the segment that starts with it into the one `BlockList.carve` describes.
-/

namespace DismasmOS

open HeapBlock
open BlockList

theorem splitBlock_eq {m : ByteMem} {c s nx pv : Nat} {b : Block} (h : Header m c b nx pv)
    (hsize : s + sizeofHeapBlock + HEAP_ALIGNMENT ≤ b.size)
    (hfit : c + (sizeofHeapBlock + b.size) < Word.modulus)
    : splitBlock m c s
        =
      let r := c + (sizeofHeapBlock + s)
      let m := writeFree m r (b.size - s - sizeofHeapBlock) nx c
      let m := if nx ≠ NULL then setPrev m nx r else m
      setSize (setNext m c r) c s := by
  have hrem : Word.add (Word.add c sizeofHeapBlock) s = c + (sizeofHeapBlock + s) := by
    rw [Word.add_of_lt (a := c) (by omega)]
    rw [Word.add_of_lt (by omega)]
    omega
  have hleft : Word.sub (Word.sub b.size s) sizeofHeapBlock = b.size - s - sizeofHeapBlock := by
    rw [Word.sub_of_le (a := b.size) (by omega) (by omega)]
    rw [Word.sub_of_le (by omega) (by omega)]
  have hheader := writeFree_header m (c + (sizeofHeapBlock + s))
    (b.size - s - sizeofHeapBlock) nx c
    (by omega) (by omega) h.next_lt (by omega)
  have hr : c + sizeofHeapBlock ≤ c + (sizeofHeapBlock + s) := by omega
  unfold splitBlock
  dsimp only
  rw [hrem]
  generalize c + (sizeofHeapBlock + s) = r at *
  unfold sizeofHeapBlock at hr
  -- The header of `rem` is written inside the payload of `curr`, so `curr` reads as before.
  have hsz : HeapBlock.size (setMagic m r HEAP_MAGIC) c = b.size := by
    rw [size_congr (agreeOn_setMagic _ _ _ (by omega))]
    exact h.size
  rw [hsz]
  rw [hleft]
  generalize hmsz : setSize (setMagic m r HEAP_MAGIC) r (b.size - s - sizeofHeapBlock) = msz
  have hnx : next (setIsFree msz r 1) c = nx := by
    rw [← hmsz]
    rw [next_congr (agreeOn_setIsFree _ _ _ (by omega))]
    rw [next_congr (agreeOn_setSize _ _ _ (by omega))]
    rw [next_congr (agreeOn_setMagic _ _ _ (by omega))]
    exact h.next
  rw [hnx]
  have hwrite : clearPadding (setPrev (setNext (setIsFree msz r 1) r nx) r c) r
      = writeFree m r (b.size - s - sizeofHeapBlock) nx c := by
    rw [← hmsz]
    rfl
  rw [hwrite]
  rw [hheader.next]

theorem agreeOn_splitBlock {m : ByteMem} {c s nx pv : Nat} {b : Block} (h : Header m c b nx pv)
    (hsize : s + sizeofHeapBlock + HEAP_ALIGNMENT ≤ b.size)
    (hfit : c + (sizeofHeapBlock + b.size) < Word.modulus) {a n : Nat}
    (hout : a + n ≤ c ∨ c + (sizeofHeapBlock + b.size) ≤ a)
    (hnx : nx = NULL ∨ nx + 48 ≤ a ∨ a + n ≤ nx + 40)
    : m.AgreeOn (splitBlock m c s) a n := by
  rw [splitBlock_eq h hsize hfit]
  have hwrite := agreeOn_writeFree m (c + (sizeofHeapBlock + s)) (b.size - s - sizeofHeapBlock) nx c
    (a := a) (n := n) (by omega) (by omega)
  dsimp only
  generalize c + (sizeofHeapBlock + s) = r at *
  unfold sizeofHeapBlock at *
  have hlink : m.AgreeOn
      (if nx ≠ NULL then setPrev (writeFree m r (b.size - s - 48) nx c) nx r
        else writeFree m r (b.size - s - 48) nx c) a n := by
    split
    . apply hwrite.trans
      apply agreeOn_setPrev
      omega
    . exact hwrite
  apply (hlink.trans (agreeOn_setNext _ c r _)).trans (agreeOn_setSize _ c s _)
  . omega
  . omega

theorem splitBlock_headers {m : ByteMem} {c s nx pv : Nat} {b : Block} (h : Header m c b nx pv)
    (hsize : s + sizeofHeapBlock + HEAP_ALIGNMENT ≤ b.size)
    (hfit : c + (sizeofHeapBlock + b.size) < Word.modulus)
    (hnx : nx = NULL ∨ c + (sizeofHeapBlock + b.size) ≤ nx)
    : Header (splitBlock m c s) c ⟨s, b.free⟩ (c + (sizeofHeapBlock + s)) pv
        ∧ Header (splitBlock m c s) (c + (sizeofHeapBlock + s))
            ⟨b.size - s - sizeofHeapBlock, true⟩ nx c
        ∧ (nx ≠ NULL → prev (splitBlock m c s) nx = c + (sizeofHeapBlock + s)) := by
  rw [splitBlock_eq h hsize hfit]
  have hcurr := h.congr (agreeOn_writeFree m (c + (sizeofHeapBlock + s))
    (b.size - s - sizeofHeapBlock) nx c (by omega) (by omega))
  have hrem := writeFree_header m (c + (sizeofHeapBlock + s))
    (b.size - s - sizeofHeapBlock) nx c
    (by omega) (by omega) h.next_lt (by omega)
  have hrlt : c + (sizeofHeapBlock + s) < Word.modulus := by omega
  have hr : c + sizeofHeapBlock ≤ c + (sizeofHeapBlock + s) := by omega
  have hrnx : nx = NULL ∨ c + (sizeofHeapBlock + s) + sizeofHeapBlock ≤ nx := by omega
  dsimp only
  generalize c + (sizeofHeapBlock + s) = r at *
  generalize hm1 : writeFree m r (b.size - s - sizeofHeapBlock) nx c = m1 at *
  generalize hm2 : (if nx ≠ NULL then setPrev m1 nx r else m1) = m2
  -- Linking the block after `rem` to it touches neither of the two headers.
  have hframe : ∀ {a : Nat}, a + sizeofHeapBlock ≤ nx ∨ nx = NULL
      → m1.AgreeOn m2 a sizeofHeapBlock := by
    intro a ha
    rw [← hm2]
    split
    . apply agreeOn_setPrev
      omega
    . intro x _ _
      rfl
  refine ⟨?_, ?_, ?_⟩
  . have hcurr := (hcurr.congr (hframe (by omega))).setNext hrlt
    exact hcurr.setSize (by omega)
  . apply hrem.congr
    apply ByteMem.AgreeOn.trans (hframe (by omega))
    unfold sizeofHeapBlock at *
    apply (agreeOn_setNext _ c r _).trans (agreeOn_setSize _ c s _)
    . omega
    . omega
  . intro hne
    unfold sizeofHeapBlock at *
    rw [prev_congr (agreeOn_setSize _ _ _ (by omega))]
    rw [prev_congr (agreeOn_setNext _ _ _ (by omega))]
    rw [← hm2]
    rw [if_pos hne]
    exact prev_setPrev _ _ hrlt

theorem splitBlock_segment {m : ByteMem} {c s pv : Nat} {b : Block} {post : List Block}
    (h : Segment m pv c NULL (b :: post))
    (hsize : s + sizeofHeapBlock + HEAP_ALIGNMENT ≤ b.size)
    (hfit : c + total sizeofHeapBlock (b :: post) < Word.modulus)
    : Segment (splitBlock m c s) pv c NULL
        (⟨s, b.free⟩ :: ⟨b.size - s - sizeofHeapBlock, true⟩ :: post) := by
  simp only [total_cons] at hfit
  obtain ⟨hb, hpost⟩ := h
  have hagree := @agreeOn_splitBlock m c s _ pv b hb hsize (by omega)
  have hend : c + (sizeofHeapBlock + s) + (sizeofHeapBlock + (b.size - s - sizeofHeapBlock))
      = c + (sizeofHeapBlock + b.size) := by omega
  have hheaders := splitBlock_headers hb hsize (by omega) (by split <;> omega)
  obtain ⟨hcurr, hrem, hprev⟩ := hheaders
  refine ⟨by simpa using hcurr, ?_, ?_⟩
  . simpa [hend] using hrem
  . rw [hend]
    cases post with
    | nil => trivial
    | cons y ys =>
      simp only [reduceCtorEq, ↓reduceIte] at hagree hprev
      apply hpost.congr_prev
      . intro _
        apply hprev
        unfold NULL sizeofHeapBlock
        omega
      . apply hagree
        . omega
        . omega
      . unfold sizeofHeapBlock at *
        apply hagree
        . omega
        . omega

-- The memory after `malloc` handed out the block `c`.
def takeMem (m : ByteMem) (c s : Nat) : ByteMem :=
  setIsFree
    (if HeapBlock.size m c ≥ Word.add (Word.add s sizeofHeapBlock) HEAP_ALIGNMENT then
      splitBlock m c s
    else
      m)
    c 0

theorem takeBlock_eq (h : Heap) (c s : Nat)
    : takeBlock h c s
        =
      ⟨Word.add c sizeofHeapBlock,
        { h with
            mem := takeMem h.mem c s
            heapUsedBytes := Word.add h.heapUsedBytes (HeapBlock.size (takeMem h.mem c s) c)
            heapAllocCount := Word.add h.heapAllocCount 1 }⟩ := rfl

section Take

variable {m : ByteMem} {c s pv : Nat} {b : Block} {post : List Block}

theorem splits_iff {nx : Nat} (hb : Header m c b nx pv) (hs : s ≤ b.size)
    (hc : HEAP_ALIGNMENT ≤ c) (hfit : c + (sizeofHeapBlock + b.size) < Word.modulus)
    : HeapBlock.size m c ≥ Word.add (Word.add s sizeofHeapBlock) HEAP_ALIGNMENT
        ↔
      s + sizeofHeapBlock + HEAP_ALIGNMENT ≤ b.size := by
  rw [hb.size]
  rw [Word.add_of_lt (a := s) (by omega)]
  rw [Word.add_of_lt (by omega)]

theorem takeMem_segment (h : Segment m pv c NULL (b :: post)) (hs : s ≤ b.size)
    (hc : HEAP_ALIGNMENT ≤ c) (hfit : c + total sizeofHeapBlock (b :: post) < Word.modulus)
    : Segment (takeMem m c s) pv c NULL (carve sizeofHeapBlock HEAP_ALIGNMENT s b ++ post) := by
  have hfit' := hfit
  simp only [total_cons] at hfit'
  unfold takeMem carve
  simp only [splits_iff h.1 hs hc (by omega)]
  have htail : ∀ (m : ByteMem) {a n : Nat}, c + sizeofHeapBlock ≤ a
      → m.AgreeOn (setIsFree m c 0) a n := by
    unfold sizeofHeapBlock
    intro m a n ha
    apply agreeOn_setIsFree
    omega
  split
  . next hsize =>
    obtain ⟨hb, hpost⟩ := splitBlock_segment h hsize hfit
    constructor
    . simpa using hb.setIsFree false
    . apply hpost.congr_of_agreeOn
      apply htail
      omega
  . obtain ⟨hb, hpost⟩ := h
    constructor
    . simpa using hb.setIsFree false
    . apply hpost.congr_of_agreeOn
      apply htail
      omega

theorem takeMem_size (h : Segment m pv c NULL (b :: post)) (hs : s ≤ b.size) (hc : HEAP_ALIGNMENT ≤ c)
    (hfit : c + total sizeofHeapBlock (b :: post) < Word.modulus)
    : HeapBlock.size (takeMem m c s) c = usedBytes (carve sizeofHeapBlock HEAP_ALIGNMENT s b) := by
  have hsegment := takeMem_segment h hs hc hfit
  unfold carve at *
  split
  . next hsplit =>
    rw [if_pos hsplit] at hsegment
    rw [hsegment.1.size]
    simp [usedBytes]
  . next hsplit =>
    rw [if_neg hsplit] at hsegment
    rw [hsegment.1.size]
    simp [usedBytes]

theorem agreeOn_takeMem (h : Segment m pv c NULL (b :: post)) (hs : s ≤ b.size)
    (hc : HEAP_ALIGNMENT ≤ c) (hfit : c + total sizeofHeapBlock (b :: post) < Word.modulus)
    {a n : Nat} (hout : a + n ≤ c ∨ c + (sizeofHeapBlock + b.size) ≤ a)
    (hnx : post = [] ∨ c + (sizeofHeapBlock + b.size) + 48 ≤ a
      ∨ a + n ≤ c + (sizeofHeapBlock + b.size) + 40)
    : m.AgreeOn (takeMem m c s) a n := by
  simp only [total_cons] at hfit
  unfold takeMem
  simp only [splits_iff h.1 hs hc (by omega)]
  have hfree : ∀ (m : ByteMem), m.AgreeOn (setIsFree m c 0) a n := by
    unfold sizeofHeapBlock at *
    intro m
    apply agreeOn_setIsFree
    omega
  split
  . next hsize =>
    apply ByteMem.AgreeOn.trans _ (hfree _)
    apply agreeOn_splitBlock h.1 hsize (by omega) hout
    by_cases hpost : post = []
    . simp [hpost]
    . simp only [hpost, ↓reduceIte]
      simp only [hpost, false_or] at hnx
      exact .inr hnx
  . apply hfree

theorem takeMem_segment_append {a : Nat} {pre : List Block}
    (h : Segment m NULL a NULL (pre ++ b :: post)) (hs : s ≤ b.size) (ha : HEAP_ALIGNMENT ≤ a)
    (hfit : a + total sizeofHeapBlock (pre ++ b :: post) < Word.modulus)
    : Segment (takeMem m (a + total sizeofHeapBlock pre) s) NULL a NULL
        (pre ++ (carve sizeofHeapBlock HEAP_ALIGNMENT s b ++ post)) := by
  obtain ⟨hpre, hpost⟩ := Segment.append_cons.mp h
  rw [total_append] at hfit
  rw [Segment.append (by simp [carve_ne_nil])]
  constructor
  . apply hpre.congr_of_agreeOn
    apply agreeOn_takeMem hpost hs
    . omega
    . omega
    . omega
    . unfold sizeofHeapBlock at *
      omega
  . apply takeMem_segment hpost hs
    . omega
    . omega

end Take

end DismasmOS
