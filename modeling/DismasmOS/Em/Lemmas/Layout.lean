import DismasmOS.Em.Lemmas.Render

/-!
This module contains the agreement of the cursor with the text on the screen: the position of the cursor
is shown where the editor says, and all other cells are blank.
-/

namespace DismasmOS

section Cells

variable {e : Em} {i : Nat}

theorem get_of_lt (hlen : e.bufLen < EM_BUF_SIZE) (hi : i < e.bufLen)
    : ∃ h : i < e.text.length, e.text[i] = e.buffer.get i := by
  have hbuffer := e.buffer.length_chars
  have hlt : i < e.text.length := by
    unfold Em.text
    rw [List.length_take, hbuffer]
    omega
  refine ⟨hlt, (List.getElem_eq_iff hlt).mpr ?_⟩
  unfold Em.text CharArray.get
  rw [List.getElem?_take_of_lt hi, List.getD_eq_getElem?_getD, List.getElem?_eq_getElem (by omega),
    Option.getD_some]

theorem Vga.ShowsText.charAt {v : Vga} {g : Nat → Nat → UInt8} (h : v.ShowsText g) {y x : Nat}
    (hy : y < EM_TEXT_ROWS) (hx : x < VGA_WIDTH)
    : v.charAt y x = some (g y x) := by
  obtain ⟨f, hgrid, hf⟩ := h
  rw [hgrid y x (hy.trans (by decide)) hx, hf y x hy]

theorem emRender_layout {e : Em} (hlen : e.bufLen < EM_BUF_SIZE) (hcmd : e.cmdLen ≤ 31) (v : Vga)
    : ∃ w words, emRender e v = some ⟨w, words⟩
        ∧ (∀ i, ∃ p, getCursorRowCol { e with cursorPos := i } = some p ∧ p.col < VGA_WIDTH
          ∧ (p.row < EM_TEXT_ROWS → i < e.bufLen → e.buffer.get i ≠ newline
            → w.charAt p.row p.col = some (e.buffer.get i)))
        ∧ (∀ i j, i ≤ e.bufLen → j ≤ e.bufLen → i ≠ j
          → getCursorRowCol { e with cursorPos := i } ≠ getCursorRowCol { e with cursorPos := j })
        ∧ (∀ y x, y < EM_TEXT_ROWS → x < VGA_WIDTH
          → (∀ i ≤ e.bufLen, getCursorRowCol { e with cursorPos := i } ≠ some ⟨y, x⟩)
          → w.charAt y x = some (chr ' ')) := by
  have hplace : ∀ i, getCursorRowCol { e with cursorPos := i } = some (placeOf e.text i) :=
    fun i => getCursorRowCol_eq (e := { e with cursorPos := i }) hlen.le
  have hlength : e.text.length = e.bufLen := by
    unfold Em.text
    rw [List.length_take, e.buffer.length_chars]
    omega
  obtain ⟨w, hrender, hw⟩ := emRender_spec hlen.le (hcmd.trans (by decide)) v
  refine ⟨w, _, hrender, ?_, ?_, ?_⟩
  . intro i
    refine ⟨placeOf e.text i, hplace i, placeOf_col_lt e.text i, ?_⟩
    intro hrow hi hne
    obtain ⟨hlt, hget⟩ := get_of_lt hlen hi
    rw [← hget] at hne ⊢
    rw [hw.charAt hrow (placeOf_col_lt e.text i)]
    exact congrArg some (paint_shows (by decide) hlt hne hrow rfl)
  . intro i j hi hj hne heq
    rw [hplace, hplace, Option.some_inj] at heq
    apply hne
    exact Place.ofPosition_inj (by decide) (hi.trans_eq hlength.symm) (hj.trans_eq hlength.symm) heq
  . intro y x hy hx hnone
    rw [hw.charAt hy hx]
    apply congrArg some
    apply paint_keeps
    intro i hi _ heq
    apply hnone i (by omega)
    rw [hplace]
    exact congrArg some heq

def twoLines : Em :=
  { Em.zero with buffer := (CharArray.zero EM_BUF_SIZE).assign (str "ab\nc"), bufLen := 4 }

theorem emRender_twoLines
    : ∃ w words, emRender twoLines vgaZero = some ⟨w, words⟩
        ∧ w.charAt 1 0 = some (chr 'c') ∧ w.charAt 2 0 = some (chr ' ') := by
  obtain ⟨w, words, hrender, hshown, _, hblank⟩ :=
    emRender_layout (e := twoLines) (by decide) (by decide) vgaZero
  have hplace : getCursorRowCol { twoLines with cursorPos := 3 } = some ⟨1, 0⟩ := rfl
  have hchar : twoLines.buffer.get 3 = chr 'c' := rfl
  refine ⟨w, words, hrender, ?_, ?_⟩
  . obtain ⟨p, hp, _, hcell⟩ := hshown 3
    rw [hplace, Option.some_inj] at hp
    rw [hchar, ← hp] at hcell
    exact hcell (by decide) (by decide) (by decide)
  . apply hblank 2 0 (by decide) (by decide)
    decide

end Cells

end DismasmOS
