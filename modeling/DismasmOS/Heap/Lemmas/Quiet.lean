import DismasmOS.Heap.Lemmas.Repr

/-!
This module contains the theory of stale headers: an address is quiet if `free` finds no allocated
block there. The writes of `malloc` and `free` keep every address quiet but the one `malloc` hands
out, whatever part of an old header they hit.
-/

namespace DismasmOS

open HeapBlock
open BlockList

def Quiet (m : ByteMem) (a : Nat) : Prop := magic m a ≠ HEAP_MAGIC ∨ isFree m a ≠ 0

-- What can stand in a link field of a header: `NULL` or the address of a block.
def Low (p : Nat) : Prop := HEAP_ALIGNMENT ∣ p ∧ p < 2 ^ 30

theorem low_null : Low NULL := by
  unfold Low
  decide

theorem magic_byte {m : ByteMem} {a : Nat} (h : magic m a = HEAP_MAGIC) : m a = 0x50 := by
  unfold magic HEAP_MAGIC at h
  rw [ByteMem.readLE] at h
  generalize m.readLE (a + 1) 7 = rest at h
  have hbyte := (m a).toNat_lt
  apply UInt8.toNat_inj.mp
  change (m a).toNat = 80
  omega

namespace Quiet

variable {m m' : ByteMem} {a r v : Nat}

theorem of_byte (h : m a ≠ 0x50) : Quiet m a := .inl (mt magic_byte h)

theorem of_link (h : next m r = v) (hv : v < 2 ^ 30) (ha : a = r + 32) : Quiet m a := by
  left
  rw [ha]
  unfold next at h
  unfold magic HEAP_MAGIC
  omega

theorem congr (h : Quiet m a) (hmagic : m.AgreeOn m' a 8) (hfree : m.AgreeOn m' (a + 16) 1)
    : Quiet m' a := by
  unfold Quiet
  rw [magic_congr hmagic, isFree_congr hfree]
  exact h

variable (ha : HEAP_ALIGNMENT ∣ a) (hr : HEAP_ALIGNMENT ∣ r)

include ha hr

theorem setSize (h : Quiet m a) : Quiet (setSize m r v) a := by
  unfold HEAP_ALIGNMENT at *
  apply h.congr
  . apply agreeOn_setSize
    omega
  . apply agreeOn_setSize
    omega

theorem setPrev (h : Quiet m a) : Quiet (setPrev m r v) a := by
  unfold HEAP_ALIGNMENT at *
  apply h.congr
  . apply agreeOn_setPrev
    omega
  . apply agreeOn_setPrev
    omega

-- A link written over an old magic is too small to be one, and an old `is_free` byte it hits belongs
-- to a header whose magic has given way to the flag of this block.
theorem setNext (h : Quiet m a) (hflag : isFree m r ≠ 0x50) (hv : v < 2 ^ 30)
    : Quiet (setNext m r v) a := by
  unfold HEAP_ALIGNMENT at *
  by_cases hlink : a = r + 32
  . apply of_link _ hv hlink
    apply next_setNext
    unfold Word.modulus
    omega
  . by_cases hover : a = r + 16
    . apply of_byte
      rw [hover]
      have hbyte := isFree_congr (agreeOn_setNext m r v (a := r + 16) (n := 1) (by omega))
      rw [isFree] at hbyte
      rw [hbyte]
      exact hflag
    . apply h.congr
      . apply agreeOn_setNext
        omega
      . apply agreeOn_setNext
        omega

theorem setIsFree {f : UInt8} (h : Quiet m a) (hflag : f ≠ 0x50) (hne : a ≠ r ∨ f ≠ 0)
    : Quiet (setIsFree m r f) a := by
  unfold HEAP_ALIGNMENT at *
  have hself := isFree_setIsFree m r f
  by_cases heq : a = r
  . right
    rw [heq, hself]
    exact hne.resolve_left (by simp [heq])
  . by_cases hover : a = r + 16
    . apply of_byte
      rw [hover]
      unfold isFree at hself
      rw [hself]
      exact hflag
    . apply h.congr
      . apply agreeOn_setIsFree
        omega
      . apply agreeOn_setIsFree
        omega

-- The header of a new free block makes the old headers it overlaps unrecognisable.
theorem writeFree {size nx pv : Nat} (h : Quiet m a) (hwrap : r + sizeofHeapBlock ≤ Word.modulus)
    (hsize : size < Word.modulus) (hnx : nx < 2 ^ 30) (hpv : pv < Word.modulus)
    : Quiet (writeFree m r size nx pv) a := by
  have hheader := writeFree_header m r size nx pv hwrap hsize (by unfold Word.modulus; omega) hpv
  have hflag := hheader.isFree
  have hframe := @agreeOn_writeFree m r size nx pv
  unfold HEAP_ALIGNMENT at *
  simp only [↓reduceIte] at hflag
  by_cases heq : a = r
  . right
    rw [heq, hflag]
    decide
  . by_cases hover : a = r + 16
    . apply of_byte
      rw [hover]
      unfold isFree at hflag
      rw [hflag]
      decide
    . by_cases hlink : a = r + 32
      . exact of_link hheader.next hnx hlink
      . by_cases hbefore : a + 16 = r
        . right
          unfold isFree
          rw [hbefore, magic_byte hheader.magic]
          decide
        . unfold sizeofHeapBlock at *
          apply h.congr
          . apply hframe hwrap
            omega
          . apply hframe hwrap
            omega

end Quiet

-- The blocks from `a` on, all of them at addresses a link can hold.
structure LowSegment (m : ByteMem) (pv a : Nat) (bs : List Block) : Prop where
  segment : Segment m pv a NULL bs
  pos : NULL < a
  start : HEAP_ALIGNMENT ∣ a
  aligned : ∀ b ∈ bs, HEAP_ALIGNMENT ∣ b.size
  fits : a + total sizeofHeapBlock bs ≤ 2 ^ 30

namespace LowSegment

variable {m : ByteMem} {pv c : Nat} {b y : Block} {post : List Block}

theorem low (h : LowSegment m pv c (b :: post)) : Low c := by
  have hfits := h.fits
  refine ⟨h.start, ?_⟩
  simp only [total_cons] at hfits
  unfold sizeofHeapBlock at hfits
  omega

theorem tail (h : LowSegment m pv c (b :: post))
    : LowSegment m c (c + (sizeofHeapBlock + b.size)) post := by
  constructor
  . exact h.segment.2
  . have := h.pos
    omega
  . apply Nat.dvd_add h.start
    apply Nat.dvd_add dvd_sizeofHeapBlock
    apply h.aligned
    simp
  . intro x hx
    apply h.aligned
    simp [hx]
  . have := h.fits
    simp only [total_cons] at this
    omega

theorem low_next (h : LowSegment m pv c post) : Low (if post = [] then NULL else c) := by
  cases post with
  | nil => exact low_null
  | cons y ys => exact h.low

theorem split {pre : List Block} (h : LowSegment m NULL c (pre ++ b :: post))
    : LowSegment m (lastAddr sizeofHeapBlock NULL c pre) (c + total sizeofHeapBlock pre)
        (b :: post) := by
  have haligned := h.aligned
  have hfits := h.fits
  simp only [List.mem_append, or_imp, forall_and] at haligned
  rw [total_append] at hfits
  constructor
  . exact (Segment.append_cons.mp h.segment).2
  . have := h.pos
    omega
  . apply Nat.dvd_add h.start
    exact dvd_total dvd_sizeofHeapBlock haligned.1
  . exact haligned.2
  . omega

theorem freed {pre : List Block} (h : LowSegment m NULL c (pre ++ b :: post))
    : LowSegment (setIsFree m (c + total sizeofHeapBlock pre) 1)
          (lastAddr sizeofHeapBlock NULL c pre) (c + total sizeofHeapBlock pre)
          (⟨b.size, true⟩ :: post)
        ∧ LowSegment
            (mergeNext (setIsFree m (c + total sizeofHeapBlock pre) 1)
              (c + total sizeofHeapBlock pre))
            NULL c (pre ++ absorb sizeofHeapBlock ⟨b.size, true⟩ post) := by
  have hfits := h.fits
  have htail := h.split
  have haligned := h.aligned
  obtain ⟨hfreed, hmerged⟩ := mergeNext_freed h.segment (by unfold Word.modulus; omega)
  have hdvd : ∀ x ∈ (⟨b.size, true⟩ : Block) :: post, HEAP_ALIGNMENT ∣ x.size := by
    have := htail.aligned
    simp only [List.mem_cons, forall_eq_or_imp] at *
    exact this
  constructor
  . exact ⟨hfreed, htail.pos, htail.start, hdvd, htail.fits⟩
  . refine ⟨hmerged, h.pos, h.start, ?_, ?_⟩
    . simp only [List.mem_append, or_imp, forall_and] at haligned ⊢
      exact ⟨haligned.1, dvd_absorb _ dvd_sizeofHeapBlock hdvd⟩
    . simp only [total_append, total_absorb, total_cons] at hfits ⊢
      exact hfits

end LowSegment

namespace Quiet

variable {m : ByteMem} {a c pv : Nat} {b : Block} {post : List Block}

theorem joinMem {p size nx : Nat} (h : Quiet m a) (ha : HEAP_ALIGNMENT ∣ a)
    (hp : HEAP_ALIGNMENT ∣ p) (hflag : isFree m p ≠ 0x50) (hnx : Low nx)
    : Quiet (joinMem m p size nx) a := by
  have hself : Quiet (HeapBlock.setNext (HeapBlock.setSize m p size) p nx) a := by
    apply (h.setSize ha hp).setNext ha hp _ hnx.2
    rw [isFree_congr (agreeOn_setSize _ _ _ (by omega))]
    exact hflag
  unfold DismasmOS.joinMem
  dsimp only
  split
  . exact hself.setPrev ha hnx.1
  . exact hself

theorem mergeNext (h : Quiet m a) (ha : HEAP_ALIGNMENT ∣ a) (hseg : LowSegment m pv c (b :: post))
    : Quiet (mergeNext m c) a := by
  have hfits := hseg.fits
  cases mergeNext_cases hseg.segment (by unfold Word.modulus; omega) with
  | inl hkept =>
    rw [hkept.1]
    exact h
  | inr hjoined =>
    obtain ⟨y, ys, rfl, _, heq⟩ := hjoined
    rw [heq]
    exact h.joinMem ha hseg.start hseg.segment.1.isFree_ne hseg.tail.tail.low_next

theorem mergePrev {pre : List Block} (h : Quiet m a) (ha : HEAP_ALIGNMENT ∣ a)
    (hseg : LowSegment m NULL c (pre ++ b :: post))
    : Quiet (mergePrev m (c + total sizeofHeapBlock pre)) a := by
  have hfits := hseg.fits
  have hcases := mergePrev_cases hseg.segment hseg.pos (by unfold Word.modulus; omega)
  cases hcases with
  | inl hkept =>
    rw [hkept.1]
    exact h
  | inr hjoined =>
    obtain ⟨pre', p, rfl, hfree, _, heq⟩ := hjoined
    rw [List.append_assoc, List.singleton_append] at hseg
    rw [heq]
    apply h.joinMem ha hseg.split.start hseg.split.segment.1.isFree_ne
    have hnext := hseg.split.tail.tail.low_next
    simp only [total_append, total_cons, total_nil]
    have hend : c + (total sizeofHeapBlock pre' + (sizeofHeapBlock + p.size + 0)
          + (sizeofHeapBlock + b.size + 0))
        = c + total sizeofHeapBlock pre' + (sizeofHeapBlock + p.size)
          + (sizeofHeapBlock + b.size) := by
      omega
    rw [hend]
    exact hnext

theorem splitBlock {s : Nat} (h : Quiet m a) (ha : HEAP_ALIGNMENT ∣ a)
    (hseg : LowSegment m pv c (b :: post)) (hs : HEAP_ALIGNMENT ∣ s)
    (hsize : s + sizeofHeapBlock + HEAP_ALIGNMENT ≤ b.size)
    : Quiet (splitBlock m c s) a := by
  have hb := hseg.segment.1
  have hfits := hseg.fits
  have hnx := hseg.tail.low_next
  have hc := hseg.start
  simp only [total_cons] at hfits
  have hr : Low (c + (sizeofHeapBlock + s)) := by
    refine ⟨Nat.dvd_add hc (Nat.dvd_add dvd_sizeofHeapBlock hs), ?_⟩
    unfold HEAP_ALIGNMENT at hsize
    omega
  have hmod : (2 : Nat) ^ 30 < Word.modulus := by decide
  rw [splitBlock_eq hb hsize (by omega)]
  have hflag := (hb.congr (agreeOn_writeFree m (c + (sizeofHeapBlock + s))
    (b.size - s - sizeofHeapBlock) (if post = [] then NULL else c + (sizeofHeapBlock + b.size)) c
    (by omega) (by omega))).isFree_ne
  have hrem : Quiet (HeapBlock.writeFree m (c + (sizeofHeapBlock + s))
      (b.size - s - sizeofHeapBlock) (if post = [] then NULL else c + (sizeofHeapBlock + b.size)) c)
      a := by
    apply h.writeFree ha hr.1 _ _ hnx.2
    . omega
    . omega
    . omega
  dsimp only
  generalize HeapBlock.writeFree m (c + (sizeofHeapBlock + s)) (b.size - s - sizeofHeapBlock)
    (if post = [] then NULL else c + (sizeofHeapBlock + b.size)) c = m1 at *
  have hafter : (if post = [] then NULL else c + (sizeofHeapBlock + b.size)) = NULL
      ∨ c + sizeofHeapBlock ≤ if post = [] then NULL else c + (sizeofHeapBlock + b.size) := by
    split
    . simp
    . omega
  generalize (if post = [] then NULL else c + (sizeofHeapBlock + b.size)) = nx at *
  apply Quiet.setSize ha hc
  split
  . next hne =>
    apply (hrem.setPrev ha hnx.1).setNext ha hc _ hr.2
    have hbefore := hafter.resolve_left hne
    unfold sizeofHeapBlock at hbefore
    rw [isFree_congr (agreeOn_setPrev _ _ _ (by omega))]
    exact hflag
  . exact hrem.setNext ha hc hflag hr.2

-- `malloc` wakes up nothing but the block it hands out.
theorem takeMem {s : Nat} (h : Quiet m a) (ha : HEAP_ALIGNMENT ∣ a)
    (hseg : LowSegment m pv c (b :: post)) (hs : HEAP_ALIGNMENT ∣ s) (hle : s ≤ b.size)
    (hne : a ≠ c)
    : Quiet (takeMem m c s) a := by
  have hfits := hseg.fits
  have hc := Nat.le_of_dvd hseg.pos hseg.start
  simp only [total_cons] at hfits
  unfold DismasmOS.takeMem
  simp only [splits_iff hseg.segment.1 hle hc (by unfold Word.modulus; omega)]
  split
  . next hsize =>
    exact (h.splitBlock ha hseg hs hsize).setIsFree ha hseg.start (by decide) (.inl hne)
  . exact h.setIsFree ha hseg.start (by decide) (.inl hne)

end Quiet

end DismasmOS
