import DismasmOS.Vga.Lemmas.Screen

/-!
This module contains the simulation of the terminal by the console: the 25 rows of the screen are a
window that slides down with the last row of the terminal.
-/

namespace DismasmOS

open Terminal

theorem vgaScroll_of_lt {v : Vga} (hrow : v.row < VGA_HEIGHT) : vgaScroll v = some v := by
  unfold vgaScroll
  rw [if_neg (by omega)]

theorem Vga.charAt_updateCursor (v : Vga) (x y : Nat) : (vgaUpdateCursor v x y).charAt = v.charAt := rfl

namespace vgaPutchar

theorem finish_of_lt {v w : Vga} (hcol : v.col < VGA_WIDTH) (hscroll : vgaScroll v = some w)
    : finish v = some (vgaUpdateCursor w w.col w.row) := by
  unfold finish
  rw [if_neg (by omega)]
  dsimp only
  rw [hscroll]
  rfl

theorem finish_of_le {v : Vga} (hcol : VGA_WIDTH ≤ v.col)
    : finish v = finish { v with col := 0, row := Word.add v.row 1 } := by
  unfold finish
  rw [if_pos hcol]
  rfl

end vgaPutchar

namespace Vga.Window

variable {v : Vga} {t : Console}

theorem row_lt (h : v.Window t) : v.row < VGA_HEIGHT := by
  have hrow := h.row
  rw [length_lastRows] at hrow
  omega

theorem row_eq (h : v.Window t) : v.row = min t.above.length (VGA_HEIGHT - 1) := by
  have hrow := h.row
  rw [length_lastRows] at hrow
  unfold VGA_HEIGHT at *
  omega

theorem grid (h : v.Window t) : v.Grid (t.screen (chr ' ') VGA_HEIGHT) := h.chars

-- `vga_row++` may leave the screen, `vga_scroll` brings it back.
theorem newline (h : v.Window t)
    : ∃ w, vgaPutchar.finish { v with col := 0, row := Word.add v.row 1 } = some w
        ∧ w.Shows (t.newline (chr ' ')) := by
  have hlt := h.row_lt
  have hrow := h.row_eq
  have hrows := t.length_rows
  have hlen : ((t.newline (chr ' ')).lastRows VGA_HEIGHT).length = _ := length_lastRows _
  rw [← length_rows, length_rows_newline, hrows] at hlen
  have hnext : Word.add v.row 1 = v.row + 1 := by
    apply Word.add_of_lt
    unfold VGA_HEIGHT at hlt
    unfold Word.modulus
    omega
  have hcol : 0 < VGA_WIDTH := by decide
  rw [hnext]
  by_cases hroom : v.row + 1 < VGA_HEIGHT
  . refine ⟨_, vgaPutchar.finish_of_lt hcol (vgaScroll_of_lt hroom), ⟨?_, ?_⟩, rfl⟩
    . rw [hlen]
      dsimp only [vgaUpdateCursor]
      omega
    . intro y x hy hx
      rw [screen_newline_of_lt _ _ (by omega)]
      exact h.chars y x hy hx
  . obtain ⟨b, hscroll, hgrid⟩ := Vga.Grid.scroll (v := { v with col := 0, row := v.row + 1 })
      h.grid (by dsimp only; omega)
    refine ⟨_, vgaPutchar.finish_of_lt hcol hscroll, ⟨?_, ?_⟩, rfl⟩
    . rw [hlen]
      dsimp only [vgaUpdateCursor]
      omega
    . intro y x hy hx
      have hcell := hgrid y x hy hx
      rw [screen_newline_of_le _ _ (by omega) hy, charAt_updateCursor]
      exact hcell

theorem finish (h : v.Window t)
    : ∃ w, vgaPutchar.finish v = some w ∧ w.Shows (t.moveTo (chr ' ') v.col) := by
  have hlt := h.row_lt
  unfold moveTo
  split
  . next hcol =>
    exact ⟨_, vgaPutchar.finish_of_lt hcol (vgaScroll_of_lt hlt), ⟨h.row, h.chars⟩, rfl⟩
  . next hcol =>
    obtain ⟨w, hw, hshows⟩ := h.newline
    refine ⟨w, ?_, hshows⟩
    rw [vgaPutchar.finish_of_le (by omega)]
    exact hw

theorem write (h : v.Window t) {x : Nat} (hx : x < VGA_WIDTH) (c : UInt8) (col : Fin VGA_WIDTH)
    : ∃ b, v.write (vgaIndex v.row x) (vgaCell c v.attrib) = some { v with buffer := b }
        ∧ { v with buffer := b }.Window { t with line := t.line.set x c, col := col } := by
  obtain ⟨b, hb, hgrid⟩ := h.grid.write h.row_lt hx (vgaCell c v.attrib)
  have hrow := h.row
  refine ⟨b, hb, ?_, ?_⟩
  . rw [length_lastRows] at *
    exact hrow
  intro y x' hy hx'
  rw [hgrid y x' hy hx', toUInt8_vgaCell]
  rw [screen_set t x' ⟨x, hx⟩ c col]
  have hiff : y = v.row ↔ y + 1 = (t.lastRows VGA_HEIGHT).length := by omega
  simp only [hiff]

end Vga.Window

namespace Vga.Shows

variable {v : Vga} {t : Console}

theorem col_lt (h : v.Shows t) : v.col < VGA_WIDTH := by
  rw [h.col]
  exact t.col.isLt

theorem word_add_col (h : v.Shows t) {k : Nat} (hk : k ≤ 4) : Word.add v.col k = v.col + k := by
  have hlt := h.col_lt
  apply Word.add_of_lt
  unfold VGA_WIDTH at hlt
  unfold Word.modulus
  omega

theorem backspace (h : v.Shows t)
    : ∃ w, vgaBackspace v = some w ∧ w.Shows (t.backspace (chr ' ')) := by
  have hlt := h.col_lt
  have hcol := h.col
  have hzero : t.col = 0 ↔ (t.col : Nat) = 0 := Fin.ext_iff
  unfold vgaBackspace Terminal.backspace
  by_cases hstart : v.col = 0
  . rw [if_neg (by omega), if_pos (by omega)]
    exact ⟨v, rfl, h⟩
  . have hprev : Word.sub v.col 1 = t.col - 1 := by
      rw [← hcol]
      apply Word.sub_of_le
      . omega
      . unfold VGA_WIDTH at hlt
        unfold Word.modulus
        omega
    rw [if_pos (by omega), if_neg (by omega), hprev]
    obtain ⟨b, hb, hwindow⟩ := Vga.Window.write (v := { v with col := t.col - 1 }) ⟨h.row, h.chars⟩
      (x := t.col - 1) (by omega) (chr ' ') ⟨t.col - 1, by omega⟩
    dsimp only at hb ⊢
    rw [hb]
    exact ⟨_, rfl, ⟨hwindow.row, hwindow.chars⟩, rfl⟩

theorem putchar (h : v.Shows t) (c : UInt8)
    : ∃ w, vgaPutchar v c = some w ∧ w.Shows (t.putchar c) := by
  unfold vgaPutchar Console.putchar
  split
  . exact h.newline
  . split
    . -- the column of the terminal does not matter to the window
      have hwindow : { v with col := 0 }.Window t := ⟨h.row, h.chars⟩
      exact hwindow.finish
    . split
      . exact h.backspace
      . split
        . have hstop : Word.add v.col 4 &&& Word.not 3 = (t.col / 4 + 1) * 4 := by
            rw [← h.col]
            have hmask := Word.land_not_two_pow_sub_one (Word.add v.col 4) 2 (Word.add_lt _ _)
              (by decide)
            rw [h.word_add_col (Nat.le_refl _)] at *
            simp only [Nat.reducePow, Nat.add_one_sub_one] at hmask
            rw [hmask]
            omega
          have hwindow : { v with col := (t.col / 4 + 1) * 4 }.Window t := ⟨h.row, h.chars⟩
          rw [hstop]
          exact hwindow.finish
        . have hlt := h.col_lt
          have hcol := h.col
          obtain ⟨b, hb, hwindow⟩ := h.write hlt c t.col
          have hmoved : { v with buffer := b, col := t.col + 1 }.Window
              { t with line := t.line.set t.col c } := by
            simp only [hcol] at hwindow
            exact ⟨hwindow.row, hwindow.chars⟩
          rw [hb, Option.bind_eq_bind, Option.bind_some, h.word_add_col (by omega), hcol]
          exact hmoved.finish

theorem setColor (h : v.Shows t) (fg bg : UInt8) : (vgaSetColor v fg bg).Shows t :=
  ⟨⟨h.row, h.chars⟩, h.col⟩

theorem cleared (v : Vga) : ∃ w, vgaClear v = some w ∧ w.Shows (.cleared (chr ' ')) := by
  obtain ⟨f, hf⟩ := Vga.Grid.exists_of v
  obtain ⟨w, hw, hgrid, hrow, hcol⟩ := hf.clear
  refine ⟨w, hw, ⟨?_, ?_⟩, ?_⟩
  . rw [hrow]
    rfl
  . intro y x hy hx
    rw [hgrid y x hy hx, screen_cleared]
  . rw [hcol]
    rfl

theorem exec (h : v.Shows t) (call : VgaCall)
    : ∃ w, call.exec v = some w ∧ w.Shows (call.apply t) := by
  cases call with
  | putchar c => exact h.putchar c
  | backspace => exact h.backspace
  | setColor fg bg => exact ⟨_, rfl, h.setColor fg bg⟩

theorem run (h : v.Shows t) (calls : List VgaCall)
    : ∃ w, vgaRun v calls = some w ∧ w.Shows (calls.foldl VgaCall.apply t) := by
  induction calls generalizing v t with
  | nil => exact ⟨v, rfl, h⟩
  | cons call calls ih =>
    obtain ⟨w, hw, hshows⟩ := h.exec call
    obtain ⟨w', hw', hshows'⟩ := ih hshows
    refine ⟨w', ?_, hshows'⟩
    unfold vgaRun at *
    rw [List.foldlM_cons, hw, Option.bind_eq_bind, Option.bind_some]
    exact hw'

end Vga.Shows

-- Every access of every call is one to a cell of the screen, otherwise there would be no `w`.
theorem vga_refines (v : Vga) (calls : List VgaCall)
    : ∃ w, (vgaClear v).bind (vgaRun · calls) = some w
        ∧ w.Shows (calls.foldl VgaCall.apply (.cleared (chr ' ')))
        ∧ w.row < VGA_HEIGHT
        ∧ w.col < VGA_WIDTH := by
  obtain ⟨v', hclear, hcleared⟩ := Vga.Shows.cleared v
  obtain ⟨w, hw, hshows⟩ := hcleared.run calls
  rw [hclear, Option.bind_some]
  exact ⟨w, hw, hshows, hshows.row_lt, hshows.col_lt⟩

end DismasmOS
