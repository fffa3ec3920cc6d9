import DismasmOS.Lib.ByteMem

/-!
This module contains texts in a byte addressed memory: what single stores make of them, and the loop
that turns a part of the memory around in place.
-/

namespace ByteMem

variable {m m' : ByteMem} {p : Nat} {s t : List UInt8} {c : UInt8}

/-- The bytes `s` stand in the memory from address `p` on. -/
def Holds (m : ByteMem) (p : Nat) (s : List UInt8) : Prop :=
  ∀ i, (h : i < s.length) → m (p + i) = s[i]

theorem holds_nil : Holds m p [] := by
  intro i hi
  exact absurd hi (Nat.not_lt_zero i)

theorem holds_cons_iff : Holds m p (c :: s) ↔ m p = c ∧ Holds m (p + 1) s := by
  constructor
  . intro h
    refine ⟨h 0 (Nat.zero_lt_succ _), ?_⟩
    intro i hi
    have hnext := h (i + 1) (Nat.succ_lt_succ hi)
    rw [List.getElem_cons_succ] at hnext
    rw [← hnext, Nat.add_assoc, Nat.add_comm 1 i]
  . rintro ⟨hhead, htail⟩ i hi
    cases i with
    | zero => exact hhead
    | succ i =>
      rw [List.getElem_cons_succ, ← htail i (Nat.lt_of_succ_lt_succ hi), Nat.add_assoc,
        Nat.add_comm 1 i]

theorem Holds.congr (h : Holds m p s) (hagree : AgreeOn m m' p s.length) : Holds m' p s := by
  intro i hi
  rw [hagree (p + i) (Nat.le_add_right p i) (by omega)]
  exact h i hi

theorem holds_append_iff : Holds m p (s ++ t) ↔ Holds m p s ∧ Holds m (p + s.length) t := by
  induction s generalizing p with
  | nil => exact (and_iff_right holds_nil).symm
  | cons c s ih =>
    rw [List.cons_append, holds_cons_iff, holds_cons_iff, ih, List.length_cons, and_assoc, Nat.add_assoc,
      Nat.add_comm 1 s.length]

theorem Holds.snoc (h : Holds m p s) (c : UInt8)
    : Holds (m.setByte (p + s.length) c) p (s ++ [c]) := by
  rw [holds_append_iff, holds_cons_iff]
  refine ⟨h.congr (agreeOn_setByte _ _ _ (by omega)), ?_, holds_nil⟩
  apply setByte_same

-- `while (start < stop)`, with both ends moving inwards.
def reverse (m : ByteMem) (start stop : Nat) : ByteMem :=
  if start < stop then
    reverse ((m.setByte start (m stop)).setByte stop (m start)) (start + 1) (stop - 1)
  else
    m
termination_by stop - start

theorem reverse_apply (m : ByteMem) (start stop x : Nat)
    : m.reverse start stop x
        = if start ≤ x ∧ x ≤ stop then m (start + stop - x) else m x := by
  fun_induction reverse m start stop with
  | case1 m start stop hlt ih =>
    have hsum : start + 1 + (stop - 1) - x = start + stop - x := by omega
    have hinner : (start ≤ x ∧ x ≤ stop) ↔ (start + 1 ≤ x ∧ x ≤ stop - 1) ∨ x = start ∨ x = stop := by
      omega
    rw [ih, hsum]
    by_cases hin : start + 1 ≤ x ∧ x ≤ stop - 1
    . rw [if_pos hin, if_pos (hinner.mpr (.inl hin)), setByte_ne _ _ _ _ (by omega),
        setByte_ne _ _ _ _ (by omega)]
    . rw [if_neg hin]
      by_cases hstart : x = start
      . rw [if_pos (by omega), hstart, setByte_ne _ _ _ _ (by omega), setByte_same,
          Nat.add_sub_cancel_left]
      . by_cases hstop : x = stop
        . rw [if_pos (by omega), hstop, setByte_same, Nat.add_sub_cancel]
        . rw [if_neg (by omega), setByte_ne _ _ _ _ hstop, setByte_ne _ _ _ _ hstart]
  | case2 m start stop hge =>
    split
    . next hin =>
      have hx : start + stop - x = x := by omega
      rw [hx]
    . rfl

theorem Holds.reverse (h : Holds m p s) : Holds (m.reverse p (p + s.length - 1)) p s.reverse := by
  intro i hi
  rw [List.length_reverse] at hi
  have hpos : p + (p + s.length - 1) - (p + i) = p + (s.length - 1 - i) := by omega
  rw [reverse_apply, if_pos (by omega), hpos, h _ (by omega), List.getElem_reverse]

theorem reverse_outside (m : ByteMem) {start stop x : Nat} (h : x < start ∨ stop < x)
    : m.reverse start stop x = m x := by
  rw [reverse_apply, if_neg (by omega)]

theorem Holds.reverse_append (h : Holds m p (s ++ t)) (hne : s ≠ [])
    : Holds (m.reverse p (p + (s.length - 1))) p (s.reverse ++ t) := by
  have hpos := List.length_pos_iff.mpr hne
  have hstop : p + (s.length - 1) = p + s.length - 1 := by omega
  rw [holds_append_iff] at h
  rw [holds_append_iff, hstop, List.length_reverse]
  refine ⟨h.1.reverse, h.2.congr ?_⟩
  intro x hx _
  exact m.reverse_outside (by omega)

theorem Holds.snoc_reverse (h : Holds m p s) (hne : s ≠ []) (c : UInt8)
    : Holds ((m.setByte (p + s.length) c).reverse p (p + (s.length - 1))) p (s.reverse ++ [c]) :=
  (h.snoc c).reverse_append hne

end ByteMem
