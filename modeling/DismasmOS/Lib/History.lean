import Mathlib.Data.List.Destutter
import Mathlib.Data.List.DropRight

/-!
This module contains histories of lines: of all lines that were submitted, the last ones are kept
without the empty lines and without repetitions, and keys move a position in them. The lines may be
held in slots that are used again and again.
-/

section Collapse

variable {α : Type} [DecidableEq α]

theorem getLast?_destutter' (a : α) (l : List α)
    : (l.destutter' (· ≠ ·) a).getLast? = (a :: l).getLast? := by
  induction l generalizing a with
  | nil => rfl
  | cons b l ih =>
    by_cases hne : a ≠ b
    . rw [List.destutter'_cons_pos _ hne, List.getLast?_cons, ih, List.getLast?_cons_cons,
        List.getLast?_cons]
      rfl
    . rw [List.destutter'_cons_neg _ hne, ih, not_not.mp hne, List.getLast?_cons_cons]

theorem destutter'_concat (a : α) (l : List α) (x : α)
    : (l ++ [x]).destutter' (· ≠ ·) a
        =
      if (a :: l).getLast? = some x then
        l.destutter' (· ≠ ·) a
      else
        l.destutter' (· ≠ ·) a ++ [x] := by
  induction l generalizing a with
  | nil =>
    rw [List.nil_append, List.destutter'_singleton]
    by_cases hne : a = x <;> simp [hne]
  | cons b l ih =>
    rw [List.cons_append, List.getLast?_cons_cons]
    by_cases hne : a ≠ b
    . rw [List.destutter'_cons_pos _ hne, List.destutter'_cons_pos _ hne, ih]
      split <;> rfl
    . rw [List.destutter'_cons_neg _ hne, List.destutter'_cons_neg _ hne, ih, not_not.mp hne]

theorem getLast?_destutter (l : List α) : (l.destutter (· ≠ ·)).getLast? = l.getLast? := by
  cases l with
  | nil => rfl
  | cons a l => exact getLast?_destutter' a l

theorem destutter_concat (l : List α) (x : α)
    : (l ++ [x]).destutter (· ≠ ·)
        =
      if l.getLast? = some x then l.destutter (· ≠ ·) else l.destutter (· ≠ ·) ++ [x] := by
  cases l with
  | nil => rfl
  | cons a l => exact destutter'_concat a l x

end Collapse

section Slots

variable {α : Type} {n : Nat} {slot slot' : Nat → α} {l : List α}

-- The last `n` elements stand in `n` slots. Element `i` has slot `i % n`, in which `slot i` stands.
def HoldsLast (n : Nat) (slot : Nat → α) (l : List α) : Prop :=
  ∀ i (h : i < l.length), l.length ≤ i + n → slot i = l[i]

theorem holdsLast_nil (slot : Nat → α) : HoldsLast n slot [] := by
  intro i h
  cases h

theorem HoldsLast.push (h : HoldsLast n slot l) (x : α)
    (hslot : ∀ i, slot' i = if l.length % n = i % n then x else slot i)
    : HoldsLast n slot' (l ++ [x]) := by
  intro i hi hlast
  rw [List.length_append, List.length_singleton] at hi hlast
  rw [hslot]
  by_cases hnew : i = l.length
  . subst hnew
    rw [if_pos rfl, List.getElem_concat_length rfl]
  . -- The element that loses its slot is `n` places behind the new one.
    have hother : l.length % n ≠ i % n := by
      intro heq
      have hmod : (l.length - i) % n = 0 := Nat.sub_mod_eq_zero_of_mod_eq heq
      rw [Nat.mod_eq_of_lt (by omega)] at hmod
      omega
    rw [if_neg hother, List.getElem_append_left (by omega)]
    exact h i (by omega) (by omega)

end Slots

-- `back` tells how many lines behind the newest the recalled one is.
structure History (α : Type) where
  submitted : List (List α)
  back : Option Nat

namespace History

variable {α : Type} [DecidableEq α] {n : Nat} {h : History α}

def empty : History α := ⟨[], none⟩

def collapsed (h : History α) : List (List α) := (h.submitted.filter (· ≠ [])).destutter (· ≠ ·)

def kept (n : Nat) (h : History α) : List (List α) := h.collapsed.rtake n

def recalled (n : Nat) (h : History α) : List α :=
  match h.back with
  | none => []
  | some k => (h.kept n).reverse.getD k []

def submit (h : History α) (line : List α) : History α := ⟨h.submitted ++ [line], none⟩

def older (n : Nat) (h : History α) : History α :=
  match h.back with
  | none => if h.kept n = [] then h else { h with back := some 0 }
  | some k => if k + 1 < (h.kept n).length then { h with back := some (k + 1) } else h

def newer (h : History α) : History α :=
  match h.back with
  | none | some 0 => { h with back := none }
  | some (k + 1) => { h with back := some k }

def Valid (n : Nat) (h : History α) : Prop := ∀ k, h.back = some k → k < (h.kept n).length

theorem length_kept : (h.kept n).length = min n h.collapsed.length := by
  unfold kept
  rw [List.rtake_eq_reverse_take_reverse, List.length_reverse, List.length_take,
    List.length_reverse]

theorem collapsed_submit (h : History α) (line : List α)
    : (h.submit line).collapsed
        =
      if line = [] ∨ h.collapsed.getLast? = some line then h.collapsed else h.collapsed ++ [line] := by
  unfold collapsed submit
  dsimp only
  rw [List.filter_append, getLast?_destutter]
  by_cases hline : line = []
  . simp [hline]
  . have hfilter : [line].filter (· ≠ []) = [line] := by simp [hline]
    rw [hfilter, destutter_concat]
    simp only [hline, false_or]

theorem submitted_older (n : Nat) (h : History α) : (h.older n).submitted = h.submitted := by
  unfold older
  split <;> split <;> rfl

omit [DecidableEq α] in
theorem submitted_newer (h : History α) : h.newer.submitted = h.submitted := by
  unfold newer
  split <;> rfl

theorem length_collapsed_le (h : History α) : h.collapsed.length ≤ h.submitted.length :=
  ((List.destutter_sublist _ _).trans List.filter_sublist).length_le

theorem valid_empty : empty.Valid (α := α) n := by
  intro k hk
  cases hk

theorem valid_submit (h : History α) (line : List α) : (h.submit line).Valid n := by
  intro k hk
  cases hk

theorem Valid.older (hvalid : h.Valid n) : (h.older n).Valid n := by
  unfold History.older
  cases hback : h.back with
  | none =>
    dsimp only
    split
    . exact hvalid
    . next hne =>
      intro k hk
      cases hk
      exact List.length_pos_of_ne_nil hne
  | some k =>
    dsimp only
    split
    . next hlt =>
      intro k' hk
      cases hk
      exact hlt
    . exact hvalid

theorem Valid.newer (hvalid : h.Valid n) : h.newer.Valid n := by
  unfold History.newer
  split
  . intro k hk
    cases hk
  . intro k hk
    cases hk
  . next k hback =>
    intro k' hk
    cases hk
    exact Nat.lt_of_succ_lt (hvalid _ hback)

theorem recalled_some {k : Nat} (hback : h.back = some k) (hk : k < (h.kept n).length)
    : h.recalled n = h.collapsed.getD (h.collapsed.length - 1 - k) [] := by
  have hlen := hk
  rw [length_kept] at hlen
  have hreverse : (h.kept n).reverse = h.collapsed.reverse.take n := by
    unfold kept
    rw [List.rtake_eq_reverse_take_reverse, List.reverse_reverse]
  unfold recalled
  rw [hback, hreverse]
  dsimp only
  rw [List.getD_eq_getElem?_getD, List.getElem?_take_of_lt (by omega),
    List.getElem?_reverse (by omega), List.getD_eq_getElem?_getD]

end History
