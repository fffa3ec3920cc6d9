import DismasmOS.Heap.Lemmas.Repr

/-!
This module contains what `malloc` and `free` leave alone: every allocated block but the one `free` is
called for keeps its payload and its header, up to the link to its predecessor.
-/

namespace DismasmOS

open HeapBlock
open BlockList

structure Keeps (m m' : ByteMem) (d : Nat) : Prop where
  header : m.AgreeOn m' d 40
  payload : m.AgreeOn m' (d + sizeofHeapBlock) (size m d)

-- A header at `e` is the one of the block at `d` or lies outside of that block.
def Apart (m : ByteMem) (d e : Nat) : Prop :=
  e = d ∨ e + sizeofHeapBlock ≤ d ∨ d + (sizeofHeapBlock + size m d) ≤ e

namespace Keeps

variable {m m' m'' : ByteMem} {d : Nat}

theorem size_eq (h : Keeps m m' d) : size m' d = size m d :=
  size_congr (h.header.mono (by omega) (by omega))

theorem trans (h : Keeps m m' d) (h' : Keeps m' m'' d) : Keeps m m'' d := by
  have hpayload := h'.payload
  rw [h.size_eq] at hpayload
  exact ⟨h.header.trans h'.header, h.payload.trans hpayload⟩

theorem refl (m : ByteMem) (d : Nat) : Keeps m m d := ⟨fun _ _ _ => rfl, fun _ _ _ => rfl⟩

theorem apart (h : Keeps m m' d) {e : Nat} (happ : Apart m d e) : Apart m' d e := by
  unfold Apart
  rw [h.size_eq]
  exact happ

variable {p : Nat}

theorem setIsFree (happ : Apart m d p) (hne : p ≠ d) (v : UInt8) : Keeps m (setIsFree m p v) d := by
  unfold Apart sizeofHeapBlock at happ
  constructor
  . apply agreeOn_setIsFree
    omega
  . apply agreeOn_setIsFree
    unfold sizeofHeapBlock
    omega

theorem joinMem {sz nx : Nat} (happ : Apart m d p) (hne : p ≠ d) (hnx : nx = NULL ∨ Apart m d nx)
    : Keeps m (joinMem m p sz nx) d := by
  unfold Apart sizeofHeapBlock at *
  constructor
  . apply agreeOn_joinMem
    . unfold sizeofHeapBlock
      omega
    . omega
  . apply agreeOn_joinMem
    . unfold sizeofHeapBlock
      omega
    . unfold sizeofHeapBlock
      omega

end Keeps

section Merge

variable {m : ByteMem} {a c d pv nx : Nat} {b : Block} {bs pre post : List Block}

theorem Segment.apart (h : Segment m pv a nx bs) (hd : UsedAt sizeofHeapBlock a bs d) {e : Nat}
    (he : e ∈ addrs sizeofHeapBlock a bs)
    : Apart m d e := by
  obtain ⟨pre, b, post, rfl, rfl, _⟩ := hd.exists
  have hsize := (Segment.append_cons.mp h).2.1.size
  unfold Apart
  rw [hsize]
  exact apart_of_mem_addrs _ he

theorem mergeNext_keeps (h : Segment m pv c NULL (b :: post))
    (hfit : c + total sizeofHeapBlock (b :: post) < Word.modulus)
    (happ : ∀ e ∈ addrs sizeofHeapBlock c (b :: post), Apart m d e) (hne : c ≠ d)
    : Keeps m (mergeNext m c) d := by
  cases mergeNext_cases h hfit with
  | inl hkept =>
    rw [hkept.1]
    exact Keeps.refl m d
  | inr hjoined =>
    obtain ⟨y, ys, rfl, _, heq⟩ := hjoined
    rw [heq]
    apply Keeps.joinMem
    . apply happ
      simp [addrs]
    . exact hne
    . cases ys with
      | nil => exact .inl rfl
      | cons z zs =>
        right
        apply happ
        simp [addrs]

theorem mergePrev_keeps (h : Segment m NULL a NULL (pre ++ b :: post)) (ha : NULL < a)
    (hfit : a + total sizeofHeapBlock (pre ++ b :: post) < Word.modulus)
    (hd : UsedAt sizeofHeapBlock a (pre ++ b :: post) d)
    : Keeps m (mergePrev m (a + total sizeofHeapBlock pre)) d := by
  have happ := fun e => h.apart hd (e := e)
  cases mergePrev_cases h ha hfit with
  | inl hkept =>
    rw [hkept.1]
    exact Keeps.refl m d
  | inr hjoined =>
    obtain ⟨pre', p, rfl, hfree, _, heq⟩ := hjoined
    rw [heq]
    apply Keeps.joinMem
    . apply happ
      rw [List.append_assoc]
      exact mem_addrs_mid _
    . rintro rfl
      rw [List.append_assoc, List.singleton_append, usedAt_mid_iff _ (by decide), hfree] at hd
      cases hd
    . cases post with
      | nil => exact .inl rfl
      | cons y ys =>
        right
        apply happ
        rw [if_neg (List.cons_ne_nil y ys), List.append_cons (pre' ++ [p])]
        exact mem_addrs_mid _

theorem free_keeps (h : Segment m NULL a NULL (pre ++ b :: post)) (ha : NULL < a)
    (hfit : a + total sizeofHeapBlock (pre ++ b :: post) < Word.modulus)
    (hd : UsedAt sizeofHeapBlock a (pre ++ b :: post) d) (hne : a + total sizeofHeapBlock pre ≠ d)
    : Keeps m
        (mergePrev
          (mergeNext (setIsFree m (a + total sizeofHeapBlock pre) 1)
            (a + total sizeofHeapBlock pre))
          (a + total sizeofHeapBlock pre))
        d := by
  have happ := fun e => h.apart hd (e := e)
  obtain ⟨htail, hmerged⟩ := mergeNext_freed h hfit
  have hfirst := Keeps.setIsFree (happ _ (mem_addrs_mid _)) hne 1
  have hnext : Keeps (setIsFree m (a + total sizeofHeapBlock pre) 1)
      (mergeNext (setIsFree m (a + total sizeofHeapBlock pre) 1) (a + total sizeofHeapBlock pre))
      d := by
    apply mergeNext_keeps htail
    . simp only [total_append, total_cons] at *
      omega
    . intro e he
      apply hfirst.apart
      apply happ
      rw [addrs_append]
      exact List.mem_append_right _ he
    . exact hne
  have hlive : UsedAt sizeofHeapBlock a (pre ++ absorb sizeofHeapBlock ⟨b.size, true⟩ post) d := by
    rw [usedAt_append] at hd ⊢
    rw [usedAt_absorb]
    rcases hd with hpre | hb | hpost
    . exact .inl hpre
    . exact absurd hb.1.symm hne
    . exact .inr (.inr hpost)
  have htotal := total_absorb sizeofHeapBlock ⟨b.size, true⟩ post
  obtain ⟨y, ys, habsorb, _⟩ := absorb_eq_cons sizeofHeapBlock ⟨b.size, true⟩ post
  rw [habsorb] at hmerged hlive htotal
  apply (hfirst.trans hnext).trans
  apply mergePrev_keeps hmerged ha _ hlive
  rw [total_append, htotal]
  simp only [total_append, total_cons] at *
  exact hfit

theorem takeMem_keeps {s : Nat} (h : Segment m NULL a NULL (pre ++ b :: post)) (hs : s ≤ b.size)
    (ha : HEAP_ALIGNMENT ≤ a) (hfit : a + total sizeofHeapBlock (pre ++ b :: post) < Word.modulus)
    (hd : UsedAt sizeofHeapBlock a (pre ++ b :: post) d) (hfree : b.free = true)
    : Keeps m (takeMem m (a + total sizeofHeapBlock pre) s) d := by
  have happ := h.apart hd (mem_addrs_mid _)
  have hne : a + total sizeofHeapBlock pre ≠ d := by
    rintro rfl
    rw [usedAt_mid_iff _ (by decide), hfree] at hd
    cases hd
  have htail := (Segment.append_cons.mp h).2
  rw [total_append, total_cons] at hfit
  -- the block at `d` ends in front of `b` or starts behind it
  have hside : d + (sizeofHeapBlock + size m d) ≤ a + total sizeofHeapBlock pre
      ∨ a + total sizeofHeapBlock pre + (sizeofHeapBlock + b.size) ≤ d := by
    have hmem := apart_of_mem_addrs _ hd.mem_addrs
    unfold Apart at happ
    omega
  have hnext : post = [] ∨ Apart m d (a + total sizeofHeapBlock pre + (sizeofHeapBlock + b.size)) := by
    cases post with
    | nil => exact .inl rfl
    | cons y ys =>
      right
      apply h.apart hd
      rw [addrs_append]
      simp [addrs]
  have hagree : ∀ x n, (d ≤ x ∧ x + n ≤ d + 40 ∨ d + sizeofHeapBlock ≤ x)
      → x + n ≤ d + (sizeofHeapBlock + size m d)
      → m.AgreeOn (takeMem m (a + total sizeofHeapBlock pre) s) x n := by
    intro x n hin hle
    apply agreeOn_takeMem htail hs
    . omega
    . rw [total_cons]
      omega
    . omega
    . apply hnext.imp_right
      unfold Apart sizeofHeapBlock at *
      omega
  constructor
  . apply hagree
    . omega
    . unfold sizeofHeapBlock
      omega
  . apply hagree
    . omega
    . omega

end Merge

end DismasmOS
