import DismasmOS.Lib.BlockStep

/-!
This module contains the gaps of a list of blocks: the maximal intervals of addresses that lie in its
free blocks. Without free neighbours every gap is the extent of a single block.
-/

namespace BlockList

-- `P` holds from `lo` up to `hi` and neither before nor behind that.
structure Gap (P : Nat → Prop) (lo hi : Nat) : Prop where
  lt : lo < hi
  inside : ∀ x, lo ≤ x → x < hi → P x
  below : ∀ x, x + 1 = lo → ¬P x
  above : ¬P hi

variable (hdr : Nat)

-- Header and payload of a block belong to it.
def Within (free : Bool) (a : Nat) (bs : List Block) (x : Nat) : Prop :=
  match bs with
  | [] => False
  | b :: bs =>
    (b.free = free ∧ a ≤ x ∧ x < a + (hdr + b.size)) ∨ Within free (a + (hdr + b.size)) bs x

variable {hdr} {free : Bool} {a x : Nat} {b : Block} {bs pre post : List Block}

theorem within_nil : ¬Within hdr free a [] x := id

theorem within_cons
    : Within hdr free a (b :: bs) x
        ↔ (b.free = free ∧ a ≤ x ∧ x < a + (hdr + b.size))
          ∨ Within hdr free (a + (hdr + b.size)) bs x :=
  Iff.rfl

theorem within_append {xs ys : List Block}
    : Within hdr free a (xs ++ ys) x
        ↔ Within hdr free a xs x ∨ Within hdr free (a + total hdr xs) ys x := by
  induction xs generalizing a with
  | nil => simp [Within]
  | cons y xs ih =>
    rw [List.cons_append, within_cons, ih, within_cons, or_assoc, total_cons, Nat.add_assoc]

theorem Within.exists (h : Within hdr free a bs x)
    : ∃ pre b post, bs = pre ++ b :: post ∧ b.free = free
        ∧ a + total hdr pre ≤ x ∧ x < a + total hdr pre + (hdr + b.size) := by
  induction bs generalizing a with
  | nil => exact h.elim
  | cons b bs ih =>
    cases h with
    | inl hb => exact ⟨[], b, bs, rfl, hb.1, hb.2.1, hb.2.2⟩
    | inr hrest =>
      obtain ⟨pre, y, post, hbs, hy, hlo, hhi⟩ := ih hrest
      refine ⟨b :: pre, y, post, by rw [hbs, List.cons_append], hy, ?_, ?_⟩
      . rw [total_cons]
        omega
      . rw [total_cons]
        omega

theorem Within.bounds (h : Within hdr free a bs x) : a ≤ x ∧ x < a + total hdr bs := by
  obtain ⟨pre, b, post, hbs, _, hlo, hhi⟩ := h.exists
  rw [hbs, total_append, total_cons]
  omega

theorem within_mid (h : b.free = free) (hlo : a + total hdr pre ≤ x)
    (hhi : x < a + total hdr pre + (hdr + b.size))
    : Within hdr free a (pre ++ b :: post) x := by
  rw [within_append]
  exact .inr (.inl ⟨h, hlo, hhi⟩)

theorem within_true_iff
    : Within hdr true a bs x ↔ a ≤ x ∧ x < a + total hdr bs ∧ ¬Within hdr false a bs x := by
  induction bs generalizing a with
  | nil =>
    rw [total_nil, Nat.add_zero]
    constructor
    . exact fun h => absurd h within_nil
    . omega
  | cons b bs ih =>
    rw [within_cons, within_cons, ih, total_cons]
    cases b.free with
    | true =>
      have hbounds := fun h : Within hdr false (a + (hdr + b.size)) bs x => h.bounds
      simp only [true_and, Bool.true_eq_false, false_and, false_or]
      constructor
      . rintro (h | h)
        . refine ⟨by omega, by omega, ?_⟩
          intro hw
          have := hbounds hw
          omega
        . exact ⟨by omega, by omega, h.2.2⟩
      . intro h
        by_cases hx : x < a + (hdr + b.size)
        . exact .inl ⟨h.1, hx⟩
        . exact .inr ⟨by omega, by omega, h.2.2⟩
    | false =>
      simp only [Bool.false_eq_true, false_and, false_or, true_and, not_or]
      constructor
      . intro h
        exact ⟨by omega, by omega, by omega, h.2.2⟩
      . intro h
        exact ⟨by omega, by omega, h.2.2.2⟩

theorem not_within_end (hhdr : 0 < hdr) (h : NoFreeNeighbours (pre ++ b :: post))
    (hfree : b.free = true)
    : ¬Within hdr true a (pre ++ b :: post) (a + total hdr pre + (hdr + b.size)) := by
  have hseam := (NoFreeNeighbours.cons_iff.mp (NoFreeNeighbours.append_iff.mp h).2.1).1
  rw [within_append, within_cons]
  rintro (hpre | hb | hpost)
  . have := hpre.bounds
    omega
  . omega
  . cases post with
    | nil => exact hpost.elim
    | cons y ys =>
      have hy := hseam y rfl
      rw [hfree] at hy
      cases hpost with
      | inl hin => simp [hin.1] at hy
      | inr hrest =>
        have := hrest.bounds
        omega

theorem not_within_before (hhdr : 0 < hdr) (h : NoFreeNeighbours (pre ++ b :: post))
    (hfree : b.free = true) (hx : x + 1 = a + total hdr pre)
    : ¬Within hdr true a (pre ++ b :: post) x := by
  have hseam := (NoFreeNeighbours.append_iff.mp h).2.2
  rw [within_append]
  rintro (hpre | hpost)
  . cases pre.eq_nil_or_concat' with
    | inl hnil =>
      rw [hnil] at hpre
      exact hpre.elim
    | inr hconcat =>
      obtain ⟨init, p, rfl⟩ := hconcat
      have hp := hseam p (by simp) b rfl
      rw [hfree] at hp
      simp only [total_append, total_cons, total_nil] at hx
      rw [within_append, within_cons] at hpre
      rcases hpre with hinit | hin | hnone
      . have := hinit.bounds
        omega
      . simp [hin.1] at hp
      . exact hnone.elim
  . have := hpost.bounds
    omega

theorem gap_of_free (hhdr : 0 < hdr) (h : NoFreeNeighbours (pre ++ b :: post)) (hfree : b.free = true)
    : Gap (Within hdr true a (pre ++ b :: post)) (a + total hdr pre)
        (a + total hdr pre + (hdr + b.size)) := by
  constructor
  . omega
  . intro x hlo hhi
    exact within_mid hfree hlo hhi
  . intro x hx
    exact not_within_before hhdr h hfree hx
  . exact not_within_end hhdr h hfree

theorem Gap.le_free {lo hi : Nat} (hgap : Gap (Within hdr true a bs) lo hi) (hhdr : 0 < hdr)
    (h : NoFreeNeighbours bs)
    : ∃ b ∈ bs, b.free = true ∧ hi - lo ≤ hdr + b.size := by
  have hfirst := hgap.inside lo (Nat.le_refl lo) hgap.lt
  obtain ⟨pre, b, post, rfl, hfree, hlo, hhi⟩ := hfirst.exists
  refine ⟨b, by simp, hfree, ?_⟩
  by_contra hlong
  apply not_within_end (a := a) hhdr h hfree
  apply hgap.inside
  . omega
  . omega

theorem gaps_lt_iff {k : Nat} (hhdr : 0 < hdr) (h : NoFreeNeighbours bs)
    : (∀ lo hi, Gap (Within hdr true a bs) lo hi → hi - lo < hdr + k)
        ↔ ∀ b ∈ bs, b.free = true → b.size < k := by
  constructor
  . intro hgaps b hb hfree
    obtain ⟨pre, post, rfl⟩ := List.append_of_mem hb
    have hlt := hgaps _ _ (gap_of_free hhdr h hfree)
    omega
  . intro hsizes lo hi hgap
    obtain ⟨b, hb, hfree, hle⟩ := hgap.le_free hhdr h
    have hlt := hsizes b hb hfree
    omega

end BlockList
