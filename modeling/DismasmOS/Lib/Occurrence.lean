import Mathlib.Data.List.Infix

/-!
This module contains the first occurrence of a pattern in a text: how it moves with the head of the
text, and that there is one exactly if the pattern occurs at all.
-/

section Occurrence

variable {α : Type}

/-- `pattern` occurs in `text` at position `i`, and nowhere to the left of it. -/
structure FirstAt (pattern text : List α) (i : Nat) : Prop where
  here : pattern <+: text.drop i
  first : ∀ j < i, ¬pattern <+: text.drop j

variable {pattern text : List α} {x : α} {i j : Nat}

theorem firstAt_zero_iff : FirstAt pattern text 0 ↔ pattern <+: text := by
  constructor
  . intro h
    exact h.here
  . intro h
    constructor
    . exact h
    . intro j hj
      exact absurd hj (Nat.not_lt_zero j)

theorem firstAt_succ_iff
    : FirstAt pattern (x :: text) (i + 1) ↔ ¬pattern <+: x :: text ∧ FirstAt pattern text i := by
  constructor
  . intro h
    refine ⟨h.first 0 (Nat.zero_lt_succ i), h.here, ?_⟩
    intro j hj
    exact h.first (j + 1) (Nat.succ_lt_succ hj)
  . rintro ⟨hhead, htail⟩
    constructor
    . exact htail.here
    . intro j hj
      cases j with
      | zero => exact hhead
      | succ j => exact htail.first j (Nat.lt_of_succ_lt_succ hj)

theorem not_firstAt_nil (hne : pattern ≠ []) : ¬FirstAt pattern [] i := by
  intro h
  have hhere := h.here
  rw [List.drop_nil, List.prefix_nil] at hhere
  exact hne hhere

theorem FirstAt.unique (hi : FirstAt pattern text i) (hj : FirstAt pattern text j) : i = j := by
  cases Nat.lt_trichotomy i j with
  | inl hlt => exact absurd hi.here (hj.first i hlt)
  | inr hge =>
    cases hge with
    | inl heq => exact heq
    | inr hgt => exact absurd hj.here (hi.first j hgt)

theorem exists_firstAt_iff : (∃ i, FirstAt pattern text i) ↔ pattern <:+: text := by
  induction text with
  | nil =>
    rw [List.infix_nil]
    constructor
    . rintro ⟨i, h⟩
      by_contra hne
      exact not_firstAt_nil hne h
    . intro hnil
      rw [hnil]
      exact ⟨0, firstAt_zero_iff.mpr List.nil_prefix⟩
  | cons x text ih =>
    rw [List.infix_cons_iff, ← ih]
    constructor
    . rintro ⟨i, h⟩
      cases i with
      | zero => exact .inl (firstAt_zero_iff.mp h)
      | succ i => exact .inr ⟨i, (firstAt_succ_iff.mp h).2⟩
    . intro hor
      by_cases hhead : pattern <+: x :: text
      . exact ⟨0, firstAt_zero_iff.mpr hhead⟩
      . obtain ⟨i, h⟩ := hor.resolve_left hhead
        exact ⟨i + 1, firstAt_succ_iff.mpr ⟨hhead, h⟩⟩

end Occurrence
