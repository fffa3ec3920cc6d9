import DismasmOS.Heap.Lemmas.Header

/-!
This module relates the raw memory of the heap to lists of blocks: `Segment` says that consecutive
headers in memory describe a `List Block`, linked in both directions.
-/

namespace DismasmOS

open HeapBlock

/--
The blocks `bs` start at `a`. The first one's predecessor is `pv`, the last one's successor `nx`.
-/
def Segment (m : ByteMem) (pv a nx : Nat) : List Block → Prop
  | [] => True
  | b :: bs =>
    Header m a b (if bs = [] then nx else a + (sizeofHeapBlock + b.size)) pv
      ∧ Segment m a (a + (sizeofHeapBlock + b.size)) nx bs

namespace Segment

open BlockList

theorem congr {m m' : ByteMem} {pv a nx : Nat} {bs : List Block} (h : Segment m pv a nx bs)
    (hagree : ∀ c ∈ addrs sizeofHeapBlock a bs, m.AgreeOn m' c sizeofHeapBlock)
    : Segment m' pv a nx bs := by
  induction bs generalizing pv a with
  | nil => trivial
  | cons b bs ih =>
    constructor
    . apply h.1.congr
      apply hagree
      simp [addrs]
    . apply ih h.2
      intro c hc
      apply hagree
      simp [addrs, hc]

theorem congr_of_agreeOn {m m' : ByteMem} {pv a nx : Nat} {bs : List Block}
    (h : Segment m pv a nx bs) (hagree : m.AgreeOn m' a (total sizeofHeapBlock bs))
    : Segment m' pv a nx bs := by
  apply h.congr
  intro c hc
  have := mem_addrs_bounds _ hc
  exact hagree.mono (by omega) (by omega)

-- A write to the `prev` field of the first block is the only one a segment allows for.
theorem congr_prev {m m' : ByteMem} {pv pv' a nx : Nat} {bs : List Block}
    (h : Segment m pv a nx bs) (hprev : bs ≠ [] → prev m' a = pv')
    (hhead : m.AgreeOn m' a 40) (htail : m.AgreeOn m' (a + sizeofHeapBlock) (total sizeofHeapBlock bs))
    : Segment m' pv' a nx bs := by
  cases bs with
  | nil => trivial
  | cons b bs =>
    constructor
    . apply h.1.congr_prev hhead
      apply hprev
      simp
    . apply h.2.congr_of_agreeOn
      unfold sizeofHeapBlock at *
      apply htail.mono
      . omega
      . simp only [total_cons]
        omega

theorem append_cons {m : ByteMem} {pv a nx : Nat} {xs ys : List Block} {y : Block}
    : Segment m pv a nx (xs ++ y :: ys)
        ↔
      Segment m pv a (a + total sizeofHeapBlock xs) xs
        ∧ Segment m (lastAddr sizeofHeapBlock pv a xs) (a + total sizeofHeapBlock xs) nx (y :: ys) := by
  induction xs generalizing pv a with
  | nil => simp [Segment, lastAddr]
  | cons x xs ih =>
    simp only [List.cons_append]
    rw [Segment]
    rw [ih]
    simp only [Segment, lastAddr, total_cons]
    have hne : xs ++ y :: ys ≠ [] := by simp
    rw [if_neg hne]
    have hsum : a + (sizeofHeapBlock + x.size + total sizeofHeapBlock xs)
        = a + (sizeofHeapBlock + x.size) + total sizeofHeapBlock xs := by omega
    rw [hsum]
    rw [and_assoc]
    by_cases hxs : xs = []
    . simp [hxs]
    . simp [hxs]

theorem append {m : ByteMem} {pv a nx : Nat} {xs ys : List Block} (hne : ys ≠ [])
    : Segment m pv a nx (xs ++ ys)
        ↔
      Segment m pv a (a + total sizeofHeapBlock xs) xs
        ∧ Segment m (lastAddr sizeofHeapBlock pv a xs) (a + total sizeofHeapBlock xs) nx ys := by
  cases ys with
  | nil => simp at hne
  | cons y ys => exact append_cons

-- Memory changes behind a prefix of the blocks leave that prefix as it is.
theorem replace_tail {m m' : ByteMem} {pv a nx : Nat} {xs ys zs : List Block}
    (h : Segment m pv a nx (xs ++ ys)) (hys : ys ≠ []) (hzs : zs ≠ [])
    (hagree : m.AgreeOn m' a (total sizeofHeapBlock xs))
    (htail : Segment m' (lastAddr sizeofHeapBlock pv a xs) (a + total sizeofHeapBlock xs) nx zs)
    : Segment m' pv a nx (xs ++ zs) := by
  rw [append hys] at h
  rw [append hzs]
  exact ⟨h.1.congr_of_agreeOn hagree, htail⟩

theorem singleton_iff {m : ByteMem} {pv a nx : Nat} {b : Block}
    : Segment m pv a nx [b] ↔ Header m a b nx pv := by
  simp [Segment]

end Segment

end DismasmOS
