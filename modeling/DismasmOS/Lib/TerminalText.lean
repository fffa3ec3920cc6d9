import DismasmOS.Lib.Terminal

/-!
This module contains the text on a terminal: its cells are counted through all rows, and the text
from a cell on is what stands between this cell and the cursor. Characters are written at its end,
and taken away there as long as the cursor does not have to leave its row.
-/

namespace Terminal

variable {α : Type} {w : Nat} (blank : α) (t : Terminal α w) (c : α) {i n : Nat}

def cursor : Nat := t.above.length * w + t.col

def cell (i : Nat) : α := ((t.rows[i / w]?).bind (·[i % w]?)).getD blank

def text (i : Nat) : List α := (List.range' i (t.cursor - i)).map (t.cell blank)

theorem col_eq : t.col = t.cursor % w := by
  unfold cursor
  rw [Nat.mul_add_mod', Nat.mod_eq_of_lt t.col.isLt]

theorem col_le_cursor : t.col ≤ t.cursor := by
  unfold cursor
  omega

theorem length_text : (t.text blank i).length = t.cursor - i := by
  unfold text
  rw [List.length_map, List.length_range']

theorem cell_set (k col : Fin w) (j : Nat)
    : cell blank { t with line := t.line.set k c k.isLt, col := col } j
        = if j = t.above.length * w + k then c else t.cell blank j := by
  have hj := Nat.div_add_mod j w
  have hlt : j % w < w := by
    apply Nat.mod_lt
    have hk := k.isLt
    omega
  unfold cell rows
  dsimp only
  generalize j / w = y at hj
  generalize j % w = x at hj hlt
  rw [Nat.mul_comm] at hj
  by_cases habove : y < t.above.length
  . have hne : j ≠ t.above.length * w + k := by
      have hrow : (y + 1) * w ≤ t.above.length * w := Nat.mul_le_mul_right w habove
      rw [Nat.succ_mul] at hrow
      omega
    rw [List.getElem?_append_left habove, List.getElem?_append_left habove, if_neg hne]
  . rw [List.getElem?_append_right (by omega), List.getElem?_append_right (by omega)]
    by_cases hline : y = t.above.length
    . rw [hline] at hj ⊢
      rw [Nat.sub_self, List.getElem?_cons_zero, List.getElem?_cons_zero]
      rw [Option.bind_some, Option.bind_some, Vector.getElem?_set]
      by_cases hx : k = x
      . rw [if_pos hx, if_pos (by omega)]
        rfl
      . rw [if_neg hx, if_neg (by omega)]
    . have hne : j ≠ t.above.length * w + k := by
        have hbelow : t.above.length + 1 ≤ y := by omega
        have hrow : (t.above.length + 1) * w ≤ y * w := Nat.mul_le_mul_right w hbelow
        have hk := k.isLt
        rw [Nat.succ_mul] at hrow
        omega
      rw [List.getElem?_eq_none (by rw [List.length_singleton]; omega)]
      rw [List.getElem?_eq_none (by rw [List.length_singleton]; omega), if_neg hne]

section Moves

variable [NeZero w]

def puts (cs : List α) : Terminal α w := cs.foldl (fun t c => t.put blank c) t

def backspaces (n : Nat) : Terminal α w := (backspace blank)^[n] t

theorem cell_newline : (t.newline blank).cell blank = t.cell blank := by
  funext j
  unfold cell
  by_cases h : j / w < t.rows.length
  . rw [rows_newline_of_lt t h]
  . rw [rows_newline_of_le t _ (Nat.not_lt.mp h), List.getElem?_eq_none (Nat.not_lt.mp h)]
    rfl

theorem cell_moveTo (col : Nat) : (t.moveTo blank col).cell blank = t.cell blank := by
  unfold moveTo
  split
  . rfl
  . exact cell_newline blank t

theorem cursor_moveTo {col : Nat} (hcol : col ≤ w)
    : (t.moveTo blank col).cursor = t.above.length * w + col := by
  unfold moveTo cursor
  split
  . rfl
  . next h =>
    have heq : col = w := by omega
    have hlen : (t.newline blank).above.length = t.above.length + 1 := length_rows t
    have hzero : ((t.newline blank).col : Nat) = 0 := rfl
    rw [hlen, hzero, heq, Nat.succ_mul]
    rfl

theorem cursor_put : (t.put blank c).cursor = t.cursor + 1 := by
  unfold put
  rw [cursor_moveTo]
  . rfl
  . exact t.col.isLt

theorem cell_put (j : Nat)
    : (t.put blank c).cell blank j = if j = t.cursor then c else t.cell blank j := by
  unfold put
  rw [cell_moveTo]
  exact cell_set blank t c t.col t.col j

theorem text_put (hi : i ≤ t.cursor)
    : (t.put blank c).text blank i = t.text blank i ++ [c] := by
  have hlen : t.cursor + 1 - i = (t.cursor - i) + 1 := by omega
  have hend : i + (t.cursor - i) = t.cursor := by omega
  unfold text
  rw [cursor_put, hlen, List.range'_1_concat, List.map_append, List.map_singleton, hend]
  rw [cell_put, if_pos rfl]
  congr 1
  apply List.map_congr_left
  intro j hj
  rw [List.mem_range'_1] at hj
  rw [cell_put, if_neg (by omega)]

theorem cursor_backspace : (t.backspace blank).cursor = t.cursor - min 1 (t.col : Nat) := by
  unfold backspace
  split
  . next hzero =>
    have hcol : (t.col : Nat) = 0 := Fin.ext_iff.mp hzero
    rw [hcol]
    rfl
  . next hpos =>
    have hcol : (t.col : Nat) ≠ 0 := fun h => hpos (Fin.ext h)
    unfold cursor
    dsimp only
    omega

theorem col_backspace : ((t.backspace blank).col : Nat) = t.col - 1 := by
  unfold backspace
  split
  . next hzero =>
    have hcol : (t.col : Nat) = 0 := Fin.ext_iff.mp hzero
    omega
  . rfl

theorem cell_backspace {j : Nat} (hj : j + 1 < t.cursor)
    : (t.backspace blank).cell blank j = t.cell blank j := by
  unfold backspace
  split
  . rfl
  . next hpos =>
    have hcol : (t.col : Nat) ≠ 0 := fun h => hpos (Fin.ext h)
    unfold cursor at hj
    rw [cell_set, if_neg]
    dsimp only
    omega

theorem text_backspace (hcol : 0 < (t.col : Nat)) (hi : i < t.cursor)
    : (t.backspace blank).text blank i = (t.text blank i).take (t.cursor - i - 1) := by
  unfold text
  rw [cursor_backspace, ← List.map_take, List.take_range'_of_length_ge (by omega)]
  have hlen : t.cursor - min 1 (t.col : Nat) - i = t.cursor - i - 1 := by omega
  rw [hlen]
  apply List.map_congr_left
  intro j hj
  rw [List.mem_range'_1] at hj
  apply cell_backspace
  omega

-- The cursor stops at the beginning of its row.
theorem cursor_backspaces (n : Nat)
    : (t.backspaces blank n).cursor = t.cursor - min n (t.col : Nat) := by
  unfold backspaces
  induction n generalizing t with
  | zero =>
    rw [Function.iterate_zero_apply, Nat.zero_min]
    rfl
  | succ n ih =>
    rw [Function.iterate_succ_apply, ih, cursor_backspace, col_backspace]
    omega

theorem text_backspaces (hn : n ≤ (t.col : Nat)) (hi : i + n ≤ t.cursor)
    : (t.backspaces blank n).text blank i = (t.text blank i).take (t.cursor - i - n) := by
  unfold backspaces
  induction n generalizing t with
  | zero =>
    rw [Function.iterate_zero_apply, List.take_of_length_le]
    rw [length_text]
    omega
  | succ n ih =>
    have hcursor := cursor_backspace blank t
    rw [Function.iterate_succ_apply, ih]
    . rw [text_backspace blank t (by omega) (by omega), List.take_take]
      congr 1
      omega
    . rw [col_backspace]
      omega
    . omega

theorem cursor_puts (cs : List α) : (t.puts blank cs).cursor = t.cursor + cs.length := by
  unfold puts
  induction cs generalizing t with
  | nil => rfl
  | cons c cs ih =>
    rw [List.foldl_cons, ih, cursor_put, List.length_cons]
    omega

theorem text_puts (cs : List α) (hi : i ≤ t.cursor)
    : (t.puts blank cs).text blank i = t.text blank i ++ cs := by
  unfold puts
  induction cs generalizing t with
  | nil => rw [List.foldl_nil, List.append_nil]
  | cons c cs ih =>
    have hcursor := cursor_put blank t c
    rw [List.foldl_cons, ih _ (by omega), text_put blank t c hi, List.append_assoc]
    rfl

end Moves

end Terminal
