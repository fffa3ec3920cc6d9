import Mathlib.Algebra.GroupWithZero.Nat
import Mathlib.Data.Fin.Basic

/-!
This module contains a character terminal that never forgets: rows of a fixed width are appended
below for ever, the cursor is always in the last one. What a screen of bounded height shows of it are
its last rows.
-/

structure Terminal (α : Type) (w : Nat) where
  above : List (Vector α w)
  line : Vector α w
  col : Fin w

namespace Terminal

variable {α : Type} {w : Nat} [NeZero w] (blank : α)

def cleared : Terminal α w where
  above := []
  line := .replicate w blank
  col := 0

def rows (t : Terminal α w) : List (Vector α w) := t.above ++ [t.line]

def newline (t : Terminal α w) : Terminal α w where
  above := t.rows
  line := .replicate w blank
  col := 0

def carriageReturn (t : Terminal α w) : Terminal α w := { t with col := 0 }

-- Every column behind the last one is the start of the next row.
def moveTo (t : Terminal α w) (col : Nat) : Terminal α w :=
  if h : col < w then { t with col := ⟨col, h⟩ } else t.newline blank

def tab (stop : Nat) (t : Terminal α w) : Terminal α w :=
  t.moveTo blank ((t.col / stop + 1) * stop)

def put (t : Terminal α w) (c : α) : Terminal α w :=
  moveTo blank { t with line := t.line.set t.col c } (t.col + 1)

def backspace (t : Terminal α w) : Terminal α w :=
  if t.col = 0 then
    t
  else
    let col : Fin w := ⟨t.col - 1, by omega⟩
    { t with line := t.line.set col blank, col := col }

def lastRows (t : Terminal α w) (height : Nat) : List (Vector α w) :=
  t.rows.drop (t.rows.length - height)

/-- The character a screen of the given height shows in row `y` and column `x`. -/
def screen (t : Terminal α w) (height y x : Nat) : α :=
  ((t.lastRows height)[y]?.bind (·[x]?)).getD blank

section Lemmas

variable {blank : α} (t : Terminal α w) {height y : Nat} (x : Nat)

omit [NeZero w] in
theorem length_rows : t.rows.length = t.above.length + 1 := by simp [rows]

omit [NeZero w] in
theorem length_lastRows : (t.lastRows height).length = min (t.above.length + 1) height := by
  unfold lastRows
  rw [List.length_drop, length_rows]
  omega

theorem length_rows_newline : (t.newline blank).rows.length = t.rows.length + 1 := by
  rw [length_rows]
  rfl

omit [NeZero w] in
theorem screen_eq
    : t.screen blank height y x
        =
      (t.rows[t.rows.length - height + y]?.bind (·[x]?)).getD blank := by
  unfold screen lastRows
  rw [List.getElem?_drop]

theorem rows_newline_of_lt {i : Nat} (h : i < t.rows.length)
    : (t.newline blank).rows[i]? = t.rows[i]? :=
  List.getElem?_append_left h

theorem rows_newline_of_le {i : Nat} (h : t.rows.length ≤ i)
    : (((t.newline blank).rows[i]?).bind (·[x]?)).getD blank = blank := by
  have hrows : (t.newline blank).rows = t.rows ++ [.replicate w blank] := rfl
  rw [hrows, List.getElem?_append_right h]
  cases i - t.rows.length with
  | zero =>
    simp only [List.getElem?_cons_zero, Option.bind_some, Vector.getElem?_replicate]
    split <;> rfl
  | succ k => simp

theorem screen_newline_of_lt (h : t.rows.length < height)
    : (t.newline blank).screen blank height y x = t.screen blank height y x := by
  rw [screen_eq, screen_eq, length_rows_newline, Nat.sub_eq_zero_of_le (by omega),
    Nat.sub_eq_zero_of_le (by omega), Nat.zero_add]
  by_cases hy : y < t.rows.length
  . rw [rows_newline_of_lt t hy]
  . rw [rows_newline_of_le t x (by omega), List.getElem?_eq_none (by omega)]
    rfl

theorem screen_newline_of_le (h : height ≤ t.rows.length) (hy : y < height)
    : (t.newline blank).screen blank height y x
        =
      if y + 1 < height then t.screen blank height (y + 1) x else blank := by
  rw [screen_eq, screen_eq, length_rows_newline]
  split
  . rw [rows_newline_of_lt t (by omega)]
    have hrow : t.rows.length + 1 - height + y = t.rows.length - height + (y + 1) := by omega
    rw [hrow]
  . rw [rows_newline_of_le t x (by omega)]

theorem screen_cleared : (cleared blank : Terminal α w).screen blank height y x = blank := by
  rw [screen_eq, length_rows]
  simp only [rows, cleared, List.nil_append]
  cases [].length + 1 - height + y with
  | zero =>
    simp only [List.getElem?_cons_zero, Option.bind_some, Vector.getElem?_replicate]
    split <;> rfl
  | succ k => simp

omit [NeZero w] in
theorem screen_set (i : Fin w) (c : α) (col : Fin w)
    : screen blank { t with line := t.line.set i c, col := col } height y x
        =
      if y + 1 = (t.lastRows height).length ∧ x = i then c else t.screen blank height y x := by
  rw [screen_eq, screen_eq]
  simp only [length_rows, length_lastRows]
  unfold rows
  dsimp only
  by_cases hlt : t.above.length + 1 - height + y < t.above.length
  . rw [List.getElem?_append_left hlt, List.getElem?_append_left hlt, if_neg (by omega)]
  . rw [List.getElem?_append_right (by omega), List.getElem?_append_right (by omega)]
    by_cases hlast : t.above.length + 1 - height + y = t.above.length
    . have hrow : y + 1 = min (t.above.length + 1) height := by omega
      simp only [hlast, Nat.sub_self, List.getElem?_cons_zero, Option.bind_some, hrow, true_and]
      rw [Vector.getElem?_set]
      split
      . next heq => simp [heq]
      . next hne => rw [if_neg (by omega)]
    . rw [List.getElem?_eq_none (by simp; omega), List.getElem?_eq_none (by simp; omega),
        if_neg (by omega)]

end Lemmas

end Terminal
