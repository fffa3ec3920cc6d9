import DismasmOS.Heap.Lemmas.Segment

/-!
This module contains the verification of the memory writes of `free`: both of its merges turn a
segment into the one `BlockList.absorb` describes.
-/

namespace DismasmOS

open HeapBlock
open BlockList

-- The memory after the block `p` took over everything up to `nx`.
def joinMem (m : ByteMem) (p size nx : Nat) : ByteMem :=
  let m := setNext (setSize m p size) p nx
  if nx ≠ NULL then setPrev m nx p else m

section Join

variable {m : ByteMem} {p size nx nx' pv : Nat} {x : Block}

theorem agreeOn_joinMem {a n : Nat} (hp : p + sizeofHeapBlock ≤ a ∨ a + n ≤ p)
    (hnx : nx = NULL ∨ nx + 48 ≤ a ∨ a + n ≤ nx + 40)
    : m.AgreeOn (joinMem m p size nx) a n := by
  unfold sizeofHeapBlock at hp
  have hself : m.AgreeOn (setNext (setSize m p size) p nx) a n := by
    apply (agreeOn_setSize _ _ _ _).trans (agreeOn_setNext _ _ _ _)
    . omega
    . omega
  unfold joinMem
  dsimp only
  split
  . apply hself.trans
    apply agreeOn_setPrev
    omega
  . exact hself

theorem joinMem_header (h : Header m p x nx' pv) (hsize : size < Word.modulus)
    (hlt : nx < Word.modulus) (hnx : nx = NULL ∨ p + sizeofHeapBlock ≤ nx)
    : Header (joinMem m p size nx) p ⟨size, x.free⟩ nx pv := by
  have hself := (h.setSize hsize).setNext hlt
  unfold joinMem
  dsimp only
  split
  . apply hself.congr
    apply agreeOn_setPrev
    omega
  . exact hself

theorem prev_joinMem (hne : nx ≠ NULL) (hp : p < Word.modulus)
    : prev (joinMem m p size nx) nx = p := by
  unfold joinMem
  dsimp only
  rw [if_pos hne]
  exact prev_setPrev _ _ hp

end Join

section Merge

variable {m : ByteMem} {p c nx pv : Nat} {x y : Block}

theorem mergeNext_eq (hx : Header m p x c pv) (hy : Header m c y nx p) (hc : c ≠ NULL)
    (hfree : y.free = true) (hpc : p + sizeofHeapBlock ≤ c)
    (hfit : x.size + (sizeofHeapBlock + y.size) < Word.modulus)
    : mergeNext m p = joinMem m p (x.size + (sizeofHeapBlock + y.size)) nx := by
  have hsum : Word.add x.size (Word.add sizeofHeapBlock y.size)
      = x.size + (sizeofHeapBlock + y.size) := by
    rw [Word.add_of_lt (a := sizeofHeapBlock) (by omega)]
    rw [Word.add_of_lt hfit]
  have hcond : next m p ≠ NULL ∧ isFree m (next m p) ≠ 0 := by
    rw [hx.next]
    exact ⟨hc, hy.isFree_ne_zero_iff.mpr hfree⟩
  unfold mergeNext joinMem
  rw [if_pos hcond]
  dsimp only
  rw [hx.next, hx.size, hy.size, hsum]
  have hx1 := hx.setSize hfit
  have hy1 := hy.congr (agreeOn_setSize m p (x.size + (sizeofHeapBlock + y.size))
    (by unfold sizeofHeapBlock at *; omega))
  generalize setSize m p (x.size + (sizeofHeapBlock + y.size)) = m1 at *
  rw [hx1.next, hy1.next]
  rw [(hx1.setNext hy.next_lt).next]

theorem mergeNext_of_last (hx : Header m p x NULL pv) : mergeNext m p = m := by
  unfold mergeNext
  rw [if_neg]
  rw [hx.next]
  simp

theorem mergeNext_of_used (hx : Header m p x c pv) (hy : Header m c y nx p) (hused : y.free = false)
    : mergeNext m p = m := by
  unfold mergeNext
  rw [if_neg]
  rw [hx.next, hy.isFree_ne_zero_iff]
  simp [hused]

theorem mergePrev_eq (hx : Header m p x c pv) (hy : Header m c y nx p) (hp : p ≠ NULL)
    (hfree : x.free = true) (hpc : p + sizeofHeapBlock ≤ c)
    (hfit : x.size + (sizeofHeapBlock + y.size) < Word.modulus)
    : mergePrev m c = joinMem m p (x.size + (sizeofHeapBlock + y.size)) nx := by
  have hsum : Word.add x.size (Word.add sizeofHeapBlock y.size)
      = x.size + (sizeofHeapBlock + y.size) := by
    rw [Word.add_of_lt (a := sizeofHeapBlock) (by omega)]
    rw [Word.add_of_lt hfit]
  have hcond : prev m c ≠ NULL ∧ isFree m (prev m c) ≠ 0 := by
    rw [hy.prev]
    exact ⟨hp, hx.isFree_ne_zero_iff.mpr hfree⟩
  unfold mergePrev joinMem
  rw [if_pos hcond]
  dsimp only
  rw [hy.prev, hx.size, hy.size, hsum]
  have hy1 := hy.congr (agreeOn_setSize m p (x.size + (sizeofHeapBlock + y.size))
    (by unfold sizeofHeapBlock at *; omega))
  generalize setSize m p (x.size + (sizeofHeapBlock + y.size)) = m1 at *
  rw [hy1.prev, hy1.next]
  have hy2 := hy1.congr (agreeOn_setNext m1 p nx (by unfold sizeofHeapBlock at *; omega))
  generalize setNext m1 p nx = m2 at *
  rw [hy2.prev, hy2.next]

theorem mergePrev_of_first (hy : Header m c y nx NULL) : mergePrev m c = m := by
  unfold mergePrev
  rw [if_neg]
  rw [hy.prev]
  simp

theorem mergePrev_of_used (hx : Header m p x c pv) (hy : Header m c y nx p) (hused : x.free = false)
    : mergePrev m c = m := by
  unfold mergePrev
  rw [if_neg]
  rw [hy.prev, hx.isFree_ne_zero_iff]
  simp [hused]

end Merge

section Segments

variable {m : ByteMem} {c pv : Nat} {b y : Block} {post : List Block}

-- Joining a block with its successor, whichever of the two merges of `free` does it.
theorem joinMem_segment (h : Segment m pv c NULL (b :: y :: post))
    (hfit : c + total sizeofHeapBlock (b :: y :: post) < Word.modulus)
    : Segment
        (joinMem m c (b.size + (sizeofHeapBlock + y.size))
          (if post = [] then NULL
            else c + (sizeofHeapBlock + b.size) + (sizeofHeapBlock + y.size)))
        pv c NULL (⟨b.size + (sizeofHeapBlock + y.size), b.free⟩ :: post) := by
  simp only [total_cons] at hfit
  obtain ⟨hb, hy, hpost⟩ := h
  have hend : c + (sizeofHeapBlock + b.size) + (sizeofHeapBlock + y.size)
      = c + (sizeofHeapBlock + (b.size + (sizeofHeapBlock + y.size))) := by omega
  rw [hend] at hpost ⊢
  constructor
  . apply joinMem_header hb
    . omega
    . split
      . decide
      . omega
    . split
      . simp
      . omega
  . cases post with
    | nil => trivial
    | cons z zs =>
      simp only [reduceCtorEq, ↓reduceIte]
      unfold sizeofHeapBlock at *
      apply hpost.congr_prev
      . intro _
        apply prev_joinMem
        . unfold NULL
          omega
        . omega
      . apply agreeOn_joinMem
        . unfold sizeofHeapBlock
          omega
        . omega
      . apply agreeOn_joinMem
        . unfold sizeofHeapBlock
          omega
        . unfold sizeofHeapBlock
          omega

theorem mergeNext_cases (h : Segment m pv c NULL (b :: post))
    (hfit : c + total sizeofHeapBlock (b :: post) < Word.modulus)
    : (mergeNext m c = m ∧ absorb sizeofHeapBlock b post = b :: post)
        ∨ ∃ y ys, post = y :: ys ∧ y.free = true
          ∧ mergeNext m c
            = joinMem m c (b.size + (sizeofHeapBlock + y.size))
                (if ys = [] then NULL
                  else c + (sizeofHeapBlock + b.size) + (sizeofHeapBlock + y.size)) := by
  cases post with
  | nil => exact .inl ⟨mergeNext_of_last h.1, rfl⟩
  | cons y ys =>
    obtain ⟨hb, hy, _⟩ := h
    simp only [reduceCtorEq, ↓reduceIte] at hb
    simp only [total_cons] at hfit
    by_cases hfree : y.free = true
    . right
      refine ⟨y, ys, rfl, hfree, ?_⟩
      exact mergeNext_eq hb hy (by unfold sizeofHeapBlock NULL; omega) hfree (by omega) (by omega)
    . left
      refine ⟨mergeNext_of_used hb hy (by simpa using hfree), ?_⟩
      simp only [absorb]
      rw [if_neg hfree]

theorem mergeNext_segment (h : Segment m pv c NULL (b :: post))
    (hfit : c + total sizeofHeapBlock (b :: post) < Word.modulus)
    : Segment (mergeNext m c) pv c NULL (absorb sizeofHeapBlock b post) := by
  cases mergeNext_cases h hfit with
  | inl hkept =>
    rw [hkept.1, hkept.2]
    exact h
  | inr hjoined =>
    obtain ⟨y, ys, rfl, hfree, heq⟩ := hjoined
    simp only [absorb]
    rw [heq, if_pos hfree]
    exact joinMem_segment h hfit

theorem agreeOn_mergeNext (h : Segment m pv c NULL (b :: post))
    (hfit : c + total sizeofHeapBlock (b :: post) < Word.modulus) {a n : Nat} (hout : a + n ≤ c)
    : m.AgreeOn (mergeNext m c) a n := by
  cases mergeNext_cases h hfit with
  | inl hkept =>
    rw [hkept.1]
    intro x _ _
    rfl
  | inr hjoined =>
    obtain ⟨y, ys, rfl, _, heq⟩ := hjoined
    rw [heq]
    apply agreeOn_joinMem
    . omega
    . split
      . simp
      . omega

theorem mergeNext_freed {a : Nat} {pre : List Block} (h : Segment m NULL a NULL (pre ++ b :: post))
    (hfit : a + total sizeofHeapBlock (pre ++ b :: post) < Word.modulus)
    : Segment (setIsFree m (a + total sizeofHeapBlock pre) 1)
          (lastAddr sizeofHeapBlock NULL a pre) (a + total sizeofHeapBlock pre) NULL
          (⟨b.size, true⟩ :: post)
        ∧ Segment
            (mergeNext (setIsFree m (a + total sizeofHeapBlock pre) 1)
              (a + total sizeofHeapBlock pre))
            NULL a NULL (pre ++ absorb sizeofHeapBlock ⟨b.size, true⟩ post) := by
  have htail := (Segment.append_cons.mp h).2
  rw [total_append] at hfit
  generalize hc : a + total sizeofHeapBlock pre = c at *
  rw [total_cons] at hfit
  -- `block->is_free = 1`
  have hfreed : Segment (setIsFree m c 1) (lastAddr sizeofHeapBlock NULL a pre) c NULL
      (⟨b.size, true⟩ :: post) := by
    constructor
    . exact htail.1.setIsFree true
    . apply htail.2.congr_of_agreeOn
      apply agreeOn_setIsFree
      unfold sizeofHeapBlock
      omega
  refine ⟨hfreed, ?_⟩
  have hmerged := mergeNext_segment hfreed (by simp only [total_cons]; omega)
  have hagree := (agreeOn_setIsFree m c 1 (a := a) (n := total sizeofHeapBlock pre) (by omega)).trans
    (agreeOn_mergeNext hfreed (by simp only [total_cons]; omega) (by omega))
  apply h.replace_tail
  . simp
  . apply absorb_ne_nil
  . exact hagree
  . rw [hc]
    exact hmerged

theorem mergePrev_cases {a : Nat} {pre : List Block} (h : Segment m NULL a NULL (pre ++ b :: post))
    (ha : NULL < a)
    (hfit : a + total sizeofHeapBlock (pre ++ b :: post) < Word.modulus)
    : (mergePrev m (a + total sizeofHeapBlock pre) = m
          ∧ (pre = [] ∨ ∃ pre' p, pre = pre' ++ [p] ∧ p.free = false))
        ∨ ∃ pre' p, pre = pre' ++ [p] ∧ p.free = true
          ∧ Segment m (lastAddr sizeofHeapBlock NULL a pre') (a + total sizeofHeapBlock pre') NULL
              (p :: b :: post)
          ∧ mergePrev m (a + total sizeofHeapBlock pre)
            = joinMem m (a + total sizeofHeapBlock pre') (p.size + (sizeofHeapBlock + b.size))
                (if post = [] then NULL
                  else a + total sizeofHeapBlock (pre ++ [b])) := by
  cases pre.eq_nil_or_concat' with
  | inl hnil =>
    rw [hnil] at h ⊢
    simp only [total_nil, Nat.add_zero]
    exact .inl ⟨mergePrev_of_first h.1, .inl trivial⟩
  | inr hconcat =>
    obtain ⟨pre', p, rfl⟩ := hconcat
    rw [List.append_assoc, List.singleton_append] at h
    have hseg := (Segment.append_cons.mp h).2
    obtain ⟨hp, hb, _⟩ := hseg
    simp only [total_append, total_cons, total_nil, reduceCtorEq, ↓reduceIte] at *
    have hend : a + total sizeofHeapBlock pre' + (sizeofHeapBlock + p.size)
        = a + (total sizeofHeapBlock pre' + (sizeofHeapBlock + p.size + 0)) := by omega
    rw [hend] at hp hb
    by_cases hfree : p.free = true
    . right
      refine ⟨pre', p, rfl, hfree, (Segment.append_cons.mp h).2, ?_⟩
      rw [mergePrev_eq hp hb (by omega) hfree (by omega) (by omega)]
      congr 2
      omega
    . left
      refine ⟨mergePrev_of_used hp hb (by simpa using hfree), .inr ⟨pre', p, rfl, ?_⟩⟩
      simpa using hfree

theorem free_segment {a : Nat} {pre : List Block} (h : Segment m NULL a NULL (pre ++ b :: post))
    (ha : NULL < a)
    (hfit : a + total sizeofHeapBlock (pre ++ b :: post) < Word.modulus)
    : Segment
        (mergePrev
          (mergeNext (setIsFree m (a + total sizeofHeapBlock pre) 1)
            (a + total sizeofHeapBlock pre))
          (a + total sizeofHeapBlock pre))
        NULL a NULL (release sizeofHeapBlock pre b post) := by
  obtain ⟨-, hnext⟩ := mergeNext_freed h hfit
  have htotal := total_absorb sizeofHeapBlock ⟨b.size, true⟩ post
  obtain ⟨y, ys, habsorb, hyfree⟩ := absorb_eq_cons sizeofHeapBlock ⟨b.size, true⟩ post
  rw [habsorb] at hnext htotal
  simp only [total_append, total_cons] at htotal hfit
  generalize mergeNext (setIsFree m (a + total sizeofHeapBlock pre) 1)
    (a + total sizeofHeapBlock pre) = m2 at *
  have hcases := mergePrev_cases hnext ha (by simp only [total_append, total_cons]; omega)
  cases hcases with
  | inl hkept =>
    obtain ⟨heq, hpre⟩ := hkept
    rw [heq]
    cases hpre with
    | inl hnil =>
      rw [hnil, release_nil, habsorb]
      rw [hnil] at hnext
      exact hnext
    | inr hused =>
      obtain ⟨pre', p, rfl, hp⟩ := hused
      rw [release_concat, habsorb, if_neg (by simp [hp])]
      rw [List.append_assoc, List.singleton_append] at hnext
      exact hnext
  | inr hjoined =>
    obtain ⟨pre', p, rfl, hfree, hseg, heq⟩ := hjoined
    have habs : absorb sizeofHeapBlock p (y :: ys)
        = ⟨p.size + (sizeofHeapBlock + y.size), p.free⟩ :: ys := by
      simp [absorb, hyfree]
    simp only [total_append, total_cons, total_nil] at hfit heq
    have hend : a + (total sizeofHeapBlock pre' + (sizeofHeapBlock + p.size + 0)
          + (sizeofHeapBlock + y.size + 0))
        = a + total sizeofHeapBlock pre' + (sizeofHeapBlock + p.size) + (sizeofHeapBlock + y.size) := by
      omega
    rw [hend] at heq
    rw [release_concat, habsorb, if_pos hfree, habs, total_append, total_cons, total_nil, heq]
    rw [List.append_assoc, List.singleton_append] at hnext
    apply hnext.replace_tail
    . simp
    . simp
    . apply agreeOn_joinMem
      . omega
      . split
        . simp
        . omega
    . exact joinMem_segment hseg (by simp only [total_cons]; omega)

end Segments

end DismasmOS
