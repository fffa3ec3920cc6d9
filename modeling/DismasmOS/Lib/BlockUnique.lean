import DismasmOS.Lib.BlockStep

/-!
This module contains the uniqueness of coalesced lists of blocks: what the free blocks look like follows
from the used ones.
-/

namespace BlockList

variable (hdr : Nat)

-- The used blocks with their addresses and sizes.
def usedBlocks (a : Nat) : List Block → List (Nat × Nat)
  | [] => []
  | b :: bs =>
    if b.free then
      usedBlocks (a + (hdr + b.size)) bs
    else
      ⟨a, b.size⟩ :: usedBlocks (a + (hdr + b.size)) bs

variable {hdr} {a : Nat} {b b' : Block} {bs bs' : List Block}

theorem mem_usedBlocks_iff {x : Nat × Nat}
    : x ∈ usedBlocks hdr a bs
        ↔ ∃ pre b post, bs = pre ++ b :: post ∧ b.free = false
          ∧ x = ⟨a + total hdr pre, b.size⟩ := by
  induction bs generalizing a with
  | nil =>
    refine iff_of_false List.not_mem_nil ?_
    rintro ⟨pre, b, post, hbs, _⟩
    simp at hbs
  | cons y ys ih =>
    unfold usedBlocks
    have hrest : x ∈ usedBlocks hdr (a + (hdr + y.size)) ys
        ↔ ∃ pre b post, ys = pre ++ b :: post ∧ b.free = false
          ∧ x = ⟨a + total hdr (y :: pre), b.size⟩ := by
      rw [ih]
      simp only [total_cons, Nat.add_assoc]
    constructor
    . intro hx
      split at hx
      . obtain ⟨pre, b, post, rfl, hb, hx⟩ := hrest.mp hx
        exact ⟨y :: pre, b, post, rfl, hb, hx⟩
      . next hy =>
        rw [List.mem_cons] at hx
        cases hx with
        | inl heq => exact ⟨[], y, ys, rfl, by simpa using hy, heq⟩
        | inr hmem =>
          obtain ⟨pre, b, post, rfl, hb, hx⟩ := hrest.mp hmem
          exact ⟨y :: pre, b, post, rfl, hb, hx⟩
    . rintro ⟨pre, b, post, hbs, hb, hx⟩
      cases pre with
      | nil =>
        rw [List.nil_append, List.cons.injEq] at hbs
        rw [hbs.1, if_neg (by simp [hb]), hx]
        exact List.mem_cons_self
      | cons z pre =>
        rw [List.cons_append, List.cons.injEq] at hbs
        obtain ⟨rfl, rfl⟩ := hbs
        have hmem := hrest.mpr ⟨pre, b, post, rfl, hb, hx⟩
        split
        . exact hmem
        . exact List.mem_cons_of_mem _ hmem

theorem le_of_mem_usedBlocks {x : Nat × Nat} (h : x ∈ usedBlocks hdr a bs) : a ≤ x.1 := by
  obtain ⟨pre, b, post, _, _, rfl⟩ := mem_usedBlocks_iff.mp h
  exact Nat.le_add_right _ _

theorem usedBlocks_cons_of_free (h : b.free = true)
    : usedBlocks hdr a (b :: bs) = usedBlocks hdr (a + (hdr + b.size)) bs :=
  if_pos h

theorem mem_usedBlocks_cons {x : Nat × Nat} (h : b.free = false)
    : x ∈ usedBlocks hdr a (b :: bs)
        ↔ x = ⟨a, b.size⟩ ∨ x ∈ usedBlocks hdr (a + (hdr + b.size)) bs := by
  have hcons : usedBlocks hdr a (b :: bs)
      = ⟨a, b.size⟩ :: usedBlocks hdr (a + (hdr + b.size)) bs :=
    if_neg (by simp [h])
  rw [hcons, List.mem_cons]

-- A free block reaches up to the first used one.
theorem NoFreeNeighbours.size_le (h : NoFreeNeighbours (b :: bs)) (hb : b.free = true)
    (hb' : b'.free = true) (htotal : total hdr (b :: bs) = total hdr (b' :: bs'))
    (hmem : ∀ x ∈ usedBlocks hdr a (b :: bs), x ∈ usedBlocks hdr a (b' :: bs'))
    : b'.size ≤ b.size := by
  rw [usedBlocks_cons_of_free hb, usedBlocks_cons_of_free hb'] at hmem
  cases bs with
  | nil =>
    simp only [total_cons, total_nil] at htotal
    omega
  | cons y ys =>
    have hy : y.free = false := by
      have hseam := (cons_iff.mp h).1 y (by simp)
      rw [hb] at hseam
      exact hseam.resolve_left (by simp)
    have hle := le_of_mem_usedBlocks (hmem _ ((mem_usedBlocks_cons hy).mpr (.inl rfl)))
    dsimp only at hle
    omega

-- A used block at the front is in front of all others.
theorem head_eq (hhdr : 0 < hdr) (hb : b.free = false)
    (hmem : ⟨a, b.size⟩ ∈ usedBlocks hdr a (b' :: bs'))
    : b' = b := by
  cases hb' : b'.free with
  | true =>
    rw [usedBlocks_cons_of_free hb'] at hmem
    have := le_of_mem_usedBlocks hmem
    dsimp only at this
    omega
  | false =>
    rw [mem_usedBlocks_cons hb'] at hmem
    cases hmem with
    | inl heq =>
      simp only [Prod.mk.injEq, true_and] at heq
      obtain ⟨size, free⟩ := b
      obtain ⟨size', free'⟩ := b'
      dsimp only at *
      rw [heq, hb, hb']
    | inr hrest =>
      have := le_of_mem_usedBlocks hrest
      dsimp only at this
      omega

theorem NoFreeNeighbours.eq_of_usedBlocks (hhdr : 0 < hdr) (h : NoFreeNeighbours bs)
    (h' : NoFreeNeighbours bs') (htotal : total hdr bs = total hdr bs')
    (hmem : ∀ x, x ∈ usedBlocks hdr a bs ↔ x ∈ usedBlocks hdr a bs')
    : bs = bs' := by
  induction bs generalizing a bs' with
  | nil =>
    cases bs' with
    | nil => rfl
    | cons b' bs' =>
      simp only [total_nil, total_cons] at htotal
      omega
  | cons b bs ih =>
    cases bs' with
    | nil =>
      simp only [total_nil, total_cons] at htotal
      omega
    | cons b' bs' =>
      have hhead : b = b' := by
        cases hb : b.free with
        | false =>
          symm
          apply head_eq hhdr hb
          rw [← hmem, mem_usedBlocks_cons hb]
          exact .inl rfl
        | true =>
          cases hb' : b'.free with
          | false =>
            apply head_eq hhdr hb'
            rw [hmem, mem_usedBlocks_cons hb']
            exact .inl rfl
          | true =>
            have hle := h.size_le hb hb' htotal (fun x => (hmem x).mp)
            have hge := h'.size_le hb' hb htotal.symm (fun x => (hmem x).mpr)
            obtain ⟨size, free⟩ := b
            obtain ⟨size', free'⟩ := b'
            dsimp only at *
            rw [hb, hb', Nat.le_antisymm hge hle]
      subst hhead
      rw [total_cons, total_cons, Nat.add_left_cancel_iff] at htotal
      congr 1
      apply ih (cons_iff.mp h).2 (cons_iff.mp h').2 htotal
      intro x
      have hx := hmem x
      cases hb : b.free with
      | true =>
        rw [usedBlocks_cons_of_free hb, usedBlocks_cons_of_free hb] at hx
        exact hx
      | false =>
        rw [mem_usedBlocks_cons hb, mem_usedBlocks_cons hb] at hx
        -- the block at the front is none of the rest
        have hne : ∀ {ys}, x ∈ usedBlocks hdr (a + (hdr + b.size)) ys → x ≠ ⟨a, b.size⟩ := by
          rintro ys hys rfl
          have := le_of_mem_usedBlocks hys
          dsimp only at this
          omega
        constructor
        . intro hys
          exact (hx.mp (.inr hys)).resolve_left (hne hys)
        . intro hys
          exact (hx.mpr (.inr hys)).resolve_left (hne hys)

end BlockList
