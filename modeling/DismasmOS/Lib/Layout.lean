import Mathlib.Algebra.Order.Ring.Nat
import Mathlib.Data.List.Basic

/-!
This module contains the layout of a text on a grid: rows of a fixed width, where a newline and the end of
a row both lead to the start of the next one.
-/

structure Place where
  row : Nat
  col : Nat
  deriving DecidableEq

namespace Place

def newline (p : Place) : Place := ⟨p.row + 1, 0⟩

def advance (width : Nat) (p : Place) : Place :=
  if p.col + 1 ≥ width then p.newline else ⟨p.row, p.col + 1⟩

-- The places in reading order.
def index (width : Nat) (p : Place) : Nat := p.row * width + p.col

section Along

variable {α : Type} [DecidableEq α] (nl : α) (width : Nat)

def step (p : Place) (c : α) : Place := if c = nl then p.newline else p.advance width

-- The place behind the text.
def along (p : Place) (text : List α) : Place := text.foldl (step nl width) p

theorem along_cons (p : Place) (c : α) (text : List α)
    : p.along nl width (c :: text) = (p.step nl width c).along nl width text :=
  rfl

theorem along_append (p : Place) (text text' : List α)
    : p.along nl width (text ++ text') = (p.along nl width text).along nl width text' :=
  List.foldl_append

variable {nl width} {p : Place}

theorem step_col_lt (hwidth : 0 < width) (c : α) : (p.step nl width c).col < width := by
  unfold step advance newline
  split
  . exact hwidth
  . split
    . exact hwidth
    . next hlt => exact Nat.lt_of_not_ge hlt

theorem along_col_lt (hwidth : 0 < width) (hp : p.col < width) (text : List α)
    : (p.along nl width text).col < width := by
  induction text generalizing p with
  | nil => exact hp
  | cons c text ih => exact ih (step_col_lt hwidth c)

theorem row_le_step (c : α) : p.row ≤ (p.step nl width c).row := by
  unfold step advance newline
  split
  . exact Nat.le_succ _
  . split
    . exact Nat.le_succ _
    . exact Nat.le_refl _

theorem row_le_along (text : List α) : p.row ≤ (p.along nl width text).row := by
  induction text generalizing p with
  | nil => exact Nat.le_refl _
  | cons c text ih => exact (row_le_step c).trans ih

theorem row_step_le (c : α) : (p.step nl width c).row ≤ p.row + 1 := by
  unfold step advance newline
  split
  . exact Nat.le_refl _
  . split
    . exact Nat.le_refl _
    . exact Nat.le_succ _

theorem row_along_le (text : List α) : (p.along nl width text).row ≤ p.row + text.length := by
  induction text generalizing p with
  | nil => exact Nat.le_refl _
  | cons c text ih =>
    have hstep : (p.step nl width c).row ≤ p.row + 1 := row_step_le c
    apply ih.trans
    rw [List.length_cons]
    omega

theorem index_lt_step (hp : p.col < width) (c : α)
    : p.index width < (p.step nl width c).index width := by
  have hnewline : p.index width < p.newline.index width := by
    unfold index newline
    rw [Nat.add_one_mul]
    omega
  unfold step advance
  split
  . exact hnewline
  . split
    . exact hnewline
    . exact Nat.lt_succ_self _

theorem index_le_along (hp : p.col < width) (text : List α)
    : p.index width ≤ (p.along nl width text).index width := by
  induction text generalizing p with
  | nil => exact Nat.le_refl _
  | cons c text ih =>
    have hwidth := Nat.zero_lt_of_lt hp
    exact (index_lt_step hp c).le.trans (ih (step_col_lt hwidth c))

theorem index_lt_along_step (hp : p.col < width) (c : α) (text : List α)
    : p.index width < ((p.step nl width c).along nl width text).index width :=
  (index_lt_step hp c).trans_le (index_le_along (step_col_lt (Nat.zero_lt_of_lt hp) c) text)

-- Every character moves on, so that no two positions of a text share their place.
theorem index_lt_along (hp : p.col < width) {text : List α} {i j : Nat} (hij : i < j)
    (hj : j ≤ text.length)
    : (p.along nl width (text.take i)).index width < (p.along nl width (text.take j)).index width := by
  have hwidth := Nat.zero_lt_of_lt hp
  have hsplit : text.take j = text.take i ++ text[i] :: (text.take j).drop (i + 1) := by
    have htake : text.take i = (text.take j).take i := by
      rw [List.take_take, Nat.min_eq_left hij.le]
    have hlt : i < (text.take j).length := by
      rw [List.length_take]
      omega
    have hget : text[i] = (text.take j)[i] := by
      rw [List.getElem_take]
    rw [htake, hget, ← List.drop_eq_getElem_cons, List.take_append_drop]
  rw [hsplit, along_append, along_cons]
  apply index_lt_along_step (along_col_lt hwidth hp _)

end Along

section Position

variable {α : Type} [DecidableEq α] (nl : α) (width : Nat)

-- Where the character at position `i` of a text is shown.
def ofPosition (text : List α) (i : Nat) : Place := along nl width ⟨0, 0⟩ (text.take i)

variable {nl width} {text rest : List α} {i j : Nat}

theorem ofPosition_add {part : List α} (h : text.drop i = part ++ rest)
    : ofPosition nl width text (i + part.length)
        = (ofPosition nl width text i).along nl width part := by
  unfold ofPosition
  rw [List.take_add, along_append, h, List.take_left' rfl]

theorem ofPosition_succ {c : α} (h : text.drop i = c :: rest)
    : ofPosition nl width text (i + 1) = (ofPosition nl width text i).step nl width c := by
  have hpart : text.drop i = [c] ++ rest := h
  exact ofPosition_add hpart

theorem ofPosition_col_lt (hwidth : 0 < width) (text : List α) (i : Nat)
    : (ofPosition nl width text i).col < width :=
  along_col_lt hwidth hwidth _

theorem ofPosition_row_mono (hij : i ≤ j)
    : (ofPosition nl width text i).row ≤ (ofPosition nl width text j).row := by
  have hsplit : text.take j = text.take i ++ (text.drop i).take (j - i) := by
    rw [← List.take_add, Nat.add_sub_cancel' hij]
  unfold ofPosition
  rw [hsplit, along_append]
  exact row_le_along _

theorem ofPosition_index_lt (hwidth : 0 < width) (hij : i < j) (hj : j ≤ text.length)
    : (ofPosition nl width text i).index width < (ofPosition nl width text j).index width :=
  index_lt_along (p := ⟨0, 0⟩) hwidth hij hj

theorem ofPosition_inj (hwidth : 0 < width) (hi : i ≤ text.length) (hj : j ≤ text.length)
    (h : ofPosition nl width text i = ofPosition nl width text j)
    : i = j := by
  apply Nat.le_antisymm
  . apply Nat.le_of_not_lt
    intro hlt
    apply (ofPosition_index_lt hwidth hlt hi).ne
    exact congrArg (index width) h.symm
  . apply Nat.le_of_not_lt
    intro hlt
    apply (ofPosition_index_lt hwidth hlt hj).ne
    exact congrArg (index width) h

end Position

section Matches

-- The same place, or both behind the first `rows` rows.
def Matches (p : Place) (rows : Nat) (q : Place) : Prop := p = q ∨ rows ≤ p.row ∧ rows ≤ q.row

variable {rows : Nat} {p q : Place}

theorem Matches.eq (h : p.Matches rows q) (hrow : p.row < rows) : p = q := by
  cases h with
  | inl heq => exact heq
  | inr hbehind => omega

theorem Matches.behind (h : p.Matches rows q) (hrow : ¬p.row < rows) : rows ≤ q.row := by
  cases h with
  | inl heq =>
    rw [← heq]
    omega
  | inr hbehind => exact hbehind.2

end Matches

end Place

section Paint

variable {α : Type} [DecidableEq α] (nl : α) (width rows : Nat)

-- The characters of the text at their places, as far as these are in the first `rows` rows.
def paint (p : Place) (text : List α) (grid : Nat → Nat → α) : Nat → Nat → α :=
  match text with
  | [] => grid
  | c :: text =>
    if p.row < rows then
      paint (p.step nl width c) text
        (if c = nl then grid else fun y x => if y = p.row ∧ x = p.col then c else grid y x)
    else
      grid

variable {nl width rows} {p : Place} {text : List α} {grid : Nat → Nat → α} {y x : Nat}

theorem paint_of_ge (h : rows ≤ p.row) (text : List α) (grid : Nat → Nat → α)
    : paint nl width rows p text grid = grid := by
  unfold paint
  cases text with
  | nil => rfl
  | cons c text => exact if_neg (Nat.not_lt.mpr h)

theorem paint_append (text text' : List α)
    : paint nl width rows p (text ++ text') grid
        = paint nl width rows (p.along nl width text) text' (paint nl width rows p text grid) := by
  induction text generalizing p grid with
  | nil => rfl
  | cons c text ih =>
    by_cases hrow : p.row < rows
    . rw [List.cons_append, paint, if_pos hrow, paint, if_pos hrow, ih]
      rfl
    . have hge := Nat.le_of_not_lt hrow
      rw [paint_of_ge hge, paint_of_ge hge, paint_of_ge (hge.trans (Place.row_le_along _))]

theorem paint_congr {grid' : Nat → Nat → α} (h : grid y x = grid' y x)
    : paint nl width rows p text grid y x = paint nl width rows p text grid' y x := by
  induction text generalizing p grid grid' with
  | nil => exact h
  | cons c text ih =>
    rw [paint, paint]
    split
    . apply ih
      split
      . exact h
      . dsimp only
        rw [h]
    . exact h

-- A cell which the text does not use keeps what it shows.
theorem paint_keeps
    (h : ∀ i, (hi : i < text.length) → text[i] ≠ nl → p.along nl width (text.take i) ≠ ⟨y, x⟩)
    : paint nl width rows p text grid y x = grid y x := by
  induction text generalizing p grid with
  | nil => rfl
  | cons c text ih =>
    rw [paint]
    split
    . rw [ih]
      . have hhead := h 0 (Nat.zero_lt_succ _)
        split
        . rfl
        . next hc =>
          dsimp only
          rw [if_neg]
          intro heq
          apply hhead hc
          rw [heq.1, heq.2]
          rfl
      . intro i hi hne
        exact h (i + 1) (Nat.succ_lt_succ hi) hne
    . rfl

theorem paint_shows (hp : p.col < width) {i : Nat} (hi : i < text.length) (hne : text[i] ≠ nl)
    (hrow : (p.along nl width (text.take i)).row < rows)
    (hplace : p.along nl width (text.take i) = ⟨y, x⟩)
    : paint nl width rows p text grid y x = text[i] := by
  have hwidth := Nat.zero_lt_of_lt hp
  induction text generalizing p grid i with
  | nil => exact absurd hi (Nat.not_lt_zero _)
  | cons c text ih =>
    have hfirst : p.row < rows := (Place.row_le_along _).trans_lt hrow
    rw [paint, if_pos hfirst]
    cases i with
    | zero =>
      change p = ⟨y, x⟩ at hplace
      change c ≠ nl at hne
      rw [if_neg hne, paint_keeps]
      . rw [hplace]
        exact if_pos ⟨rfl, rfl⟩
      . -- What follows is behind this place.
        intro j hj _ heq
        apply (Place.index_lt_along_step hp c (text.take j)).ne
        rw [heq, hplace]
    | succ i =>
      exact ih (Place.step_col_lt hwidth c) (Nat.lt_of_succ_lt_succ hi) hne hrow hplace

end Paint
