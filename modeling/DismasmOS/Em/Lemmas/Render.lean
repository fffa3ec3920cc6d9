import DismasmOS.Em.Lemmas.Words
import DismasmOS.Em.Render
import DismasmOS.Vga.Lemmas.Screen

/-!
This module contains what the drawing loops of the editor leave on the screen: a text that is laid out
character by character, although the loop over it goes by whole words.
-/

namespace DismasmOS

-- Where position `i` of the text is shown.
def placeOf (text : List UInt8) (i : Nat) : Place := Place.ofPosition newline VGA_WIDTH text i

theorem placeOf_col_lt (text : List UInt8) (i : Nat) : (placeOf text i).col < VGA_WIDTH :=
  Place.ofPosition_col_lt (by decide) text i

theorem getCursorRowCol_eq {e : Em} (hlen : e.bufLen ≤ EM_BUF_SIZE)
    : getCursorRowCol e = some (placeOf e.text e.cursorPos) := by
  have htake : e.text.take (min e.cursorPos e.bufLen) = e.text.take e.cursorPos := by
    unfold Em.text
    rw [List.take_take, List.take_take]
    congr 1
    omega
  have hloop := forUpTo_spec (min e.cursorPos e.bufLen) (fun i p => do
    let c ← e.buffer.read i
    some (if c = newline then p.newline else p.advance VGA_WIDTH)) ⟨0, 0⟩
    (fun i p => p = placeOf e.text i) rfl ?_
  . obtain ⟨p, hp, hplace⟩ := hloop
    unfold getCursorRowCol
    rw [hp, hplace]
    unfold placeOf Place.ofPosition
    rw [htake]
  . intro i p hi hp
    cases hdrop : e.text.drop i with
    | nil =>
      have hle := le_of_drop_nil hlen hdrop
      omega
    | cons c rest =>
      obtain ⟨_, hread, _⟩ := read_of_drop hdrop
      refine ⟨_, by rw [hread]; rfl, ?_⟩
      unfold placeOf
      rw [hp, Place.ofPosition_succ hdrop]
      rfl

theorem drawCell_grid {v : Vga} {f : Nat → Nat → UInt8} (h : v.Grid f) {col row : Nat}
    (hcol : col < VGA_WIDTH) (hrow : row < VGA_HEIGHT) (c fg bg : UInt8)
    : ∃ b, drawCell v col row c fg bg = some { v with buffer := b }
        ∧ { v with buffer := b }.Grid fun y x => if y = row ∧ x = col then c else f y x := by
  obtain ⟨b, hwrite, hgrid⟩ := h.write hrow hcol (vgaCell c (fg ||| (bg <<< 4)))
  rw [toUInt8_vgaCell] at hgrid
  refine ⟨b, ?_, hgrid⟩
  unfold drawCell
  rw [if_neg (by omega)]
  exact hwrite

section Text

variable {buf : EmBuffer} {limit i : Nat} {text : List UInt8} {v : Vga} {p q : Place}
  {f : Nat → Nat → UInt8}

theorem isalpha_newline : ¬isalpha newline := by decide

abbrev painted (p : Place) (text : List UInt8) (f : Nat → Nat → UInt8) : Nat → Nat → UInt8 :=
  paint newline VGA_WIDTH EM_TEXT_ROWS p text f

theorem drawWord_paint {word rest : List UInt8} (hword : ∀ c ∈ word, isalpha c)
    (hdrop : (buf.chars.take limit).drop i = word ++ rest) (hp : p.col < VGA_WIDTH) (h : v.Grid f)
    (fg : UInt8)
    : ∃ w q, drawWord buf fg v p i word.length = some ⟨w, q⟩ ∧ w.Grid (painted p word f)
        ∧ q.Matches EM_TEXT_ROWS (p.along newline VGA_WIDTH word) := by
  induction word generalizing v p i f with
  | nil => exact ⟨v, p, rfl, h, .inl rfl⟩
  | cons c word ih =>
    rw [List.length_cons]
    unfold drawWord painted paint
    by_cases hrow : p.row < EM_TEXT_ROWS
    . obtain ⟨_, hread, hrest⟩ := read_of_drop hdrop
      rw [List.forall_mem_cons] at hword
      have hne : c ≠ newline := by
        intro heq
        apply isalpha_newline
        rw [← heq]
        exact hword.1
      have hstep : p.step newline VGA_WIDTH c = p.advance VGA_WIDTH := if_neg hne
      have hheight : p.row < VGA_HEIGHT := by
        have hrows : EM_TEXT_ROWS < VGA_HEIGHT := by decide
        omega
      obtain ⟨v', hdraw, hgrid⟩ := drawCell_grid h hp hheight c fg VGA_COLOR_BLACK
      have hcol : (p.step newline VGA_WIDTH c).col < VGA_WIDTH := Place.step_col_lt (by decide) c
      obtain ⟨w, q, hloop, hpaint⟩ := ih hword.2 hrest hcol hgrid
      refine ⟨w, q, ?_, ?_⟩
      . rw [if_pos hrow, hread, ← hstep]
        simp only [Option.bind_eq_bind, Option.bind_some]
        rw [hdraw, Option.bind_some]
        exact hloop
      . rw [if_pos hrow, if_neg hne]
        exact hpaint
    . have hge := Nat.le_of_not_lt hrow
      refine ⟨v, p, ?_, ?_, .inr ⟨hge, hge.trans (Place.row_le_along _)⟩⟩
      . rw [if_neg hrow]
      . rw [if_neg hrow]
        exact h

theorem painted_append {word rest : List UInt8} (h : text.drop i = word ++ rest)
    : painted (placeOf text i) (text.drop i) f
        = painted (placeOf text (i + word.length)) rest (painted (placeOf text i) word f) := by
  unfold painted placeOf
  rw [Place.ofPosition_add h, h, paint_append]

theorem painted_cons {x : UInt8} {rest : List UInt8} (h : text.drop i = x :: rest)
    (hrow : (placeOf text i).row < EM_TEXT_ROWS)
    : painted (placeOf text i) (text.drop i) f
        = painted (placeOf text (i + 1)) rest
          (if x = newline then f
            else fun r c => if r = (placeOf text i).row ∧ c = (placeOf text i).col then x else f r c) := by
  unfold painted placeOf at *
  rw [Place.ofPosition_succ h, h, paint, if_pos hrow]

-- The words of the text that begin in its rows on the screen.
def wordsInSight (fileType : EmFileType) (text : List UInt8) (i : Nat) : List ScannedWord :=
  ((wordRuns isalpha i (text.drop i)).filter fun w => (placeOf text w.1).row < EM_TEXT_ROWS).map
    fun w => ⟨w.1, w.2.length, isTypo fileType w.2⟩

theorem wordsInSight_nil (fileType : EmFileType) (h : EM_TEXT_ROWS ≤ (placeOf text i).row)
    : wordsInSight fileType text i = [] := by
  unfold wordsInSight
  rw [List.map_eq_nil_iff, List.filter_eq_nil_iff]
  intro w hw
  have hle := (isWordRun_of_mem hw).1
  have hrow : (placeOf text i).row ≤ (placeOf text w.1).row := Place.ofPosition_row_mono hle
  rw [decide_eq_true_iff]
  exact Nat.not_lt.mpr (h.trans hrow)

theorem wordsInSight_of_pos (fileType : EmFileType) {x : UInt8} {rest : List UInt8}
    (hdrop : text.drop i = x :: rest) (hword : isalpha x)
    (hrow : (placeOf text i).row < EM_TEXT_ROWS)
    : wordsInSight fileType text i
        = ⟨i, (x :: rest.takeWhile isalpha).length, isTypo fileType (x :: rest.takeWhile isalpha)⟩
          :: wordsInSight fileType text (i + (x :: rest.takeWhile isalpha).length) := by
  have hbehind : text.drop (i + (x :: rest.takeWhile isalpha).length) = rest.dropWhile isalpha := by
    rw [← List.drop_drop, hdrop, ← List.takeWhile_cons_of_pos hword, drop_length_takeWhile,
      List.dropWhile_cons_of_pos hword]
  unfold wordsInSight
  rw [hbehind, hdrop, wordRuns_of_pos hword, List.filter_cons_of_pos (by exact decide_eq_true hrow),
    List.length_cons, Nat.add_right_comm i 1]
  rfl

theorem wordsInSight_of_neg (fileType : EmFileType) {x : UInt8} {rest : List UInt8}
    (hdrop : text.drop i = x :: rest) (hword : ¬isalpha x)
    : wordsInSight fileType text i = wordsInSight fileType text (i + 1) := by
  unfold wordsInSight
  rw [← List.drop_drop, hdrop, wordRuns_of_neg hword]
  rfl

-- A turn of the loop at a letter draws the word that begins there.
theorem drawText_word (fileType : EmFileType) (fuel : Nat) (hlimit : limit ≤ EM_BUF_SIZE)
    (htext : buf.chars.take limit = text) {x : UInt8} {rest : List UInt8}
    (hdrop : text.drop i = x :: rest) (hword : isalpha x)
    (hrow : (placeOf text i).row < EM_TEXT_ROWS) (h : v.Grid f)
    : let word := x :: rest.takeWhile isalpha
      ∃ w q, drawText fileType buf limit (fuel + 1) v (placeOf text i) i
          = (drawText fileType buf limit fuel w q (i + word.length)).map
            (fun rest => ⟨rest.1, ⟨i, word.length, isTypo fileType word⟩ :: rest.2⟩)
        ∧ w.Grid (painted (placeOf text i) word f)
        ∧ q.Matches EM_TEXT_ROWS (placeOf text (i + word.length)) := by
  intro word
  have hline := hdrop
  rw [← htext] at hline
  obtain ⟨hi, hread, _⟩ := read_of_drop hline
  obtain ⟨hend, htake, _⟩ := wordEnd_of_drop hlimit hline hword
  have hsplit : x :: rest = word ++ rest.dropWhile isalpha := by
    rw [List.cons_append, List.takeWhile_append_dropWhile]
  have hall : ∀ c ∈ word, isalpha c := by
    rw [List.forall_mem_cons]
    exact ⟨hword, fun c hc => List.mem_takeWhile_imp hc⟩
  have hfollow : placeOf text (i + word.length) = (placeOf text i).along newline VGA_WIDTH word :=
    Place.ofPosition_add (hdrop.trans hsplit)
  obtain ⟨w, q, hdraw, hgrid, hmatch⟩ :=
    drawWord_paint hall (hline.trans hsplit) (placeOf_col_lt text i) h
      (if isTypo fileType word then VGA_COLOR_LIGHT_RED else VGA_COLOR_WHITE)
  rw [← hfollow] at hmatch
  refine ⟨w, q, ?_, hgrid, hmatch⟩
  conv => lhs; unfold drawText
  rw [if_pos ⟨hi, hrow⟩, hread]
  simp only [Option.bind_eq_bind, Option.bind_some]
  rw [if_pos hword, hend, Option.bind_some, sizeSub_of_le (by omega), Option.bind_some,
    Nat.add_sub_cancel_left, htake, hdraw, Option.bind_some, Option.map_eq_bind]
  rfl

theorem drawText_char (fileType : EmFileType) (fuel : Nat) (htext : buf.chars.take limit = text)
    {x : UInt8} {rest : List UInt8} (hdrop : text.drop i = x :: rest) (hword : ¬isalpha x)
    (hrow : (placeOf text i).row < EM_TEXT_ROWS) (h : v.Grid f)
    : ∃ w, drawText fileType buf limit (fuel + 1) v (placeOf text i) i
          = drawText fileType buf limit fuel w (placeOf text (i + 1)) (i + 1)
        ∧ w.Grid (if x = newline then f
            else fun r c => if r = (placeOf text i).row ∧ c = (placeOf text i).col then x else f r c) := by
  have hline := hdrop
  rw [← htext] at hline
  obtain ⟨hi, hread, _⟩ := read_of_drop hline
  have hplace : placeOf text (i + 1) = (placeOf text i).step newline VGA_WIDTH x :=
    Place.ofPosition_succ hdrop
  unfold Place.step at hplace
  conv =>
    enter [1, w, 1, 1]
    unfold drawText
  rw [if_pos ⟨hi, hrow⟩, hread]
  simp only [Option.bind_eq_bind, Option.bind_some]
  rw [if_neg hword]
  by_cases hnewline : x = newline
  . rw [if_pos hnewline] at hplace
    rw [if_pos hnewline, if_pos hnewline, hplace]
    exact ⟨v, rfl, h⟩
  . have hheight : (placeOf text i).row < VGA_HEIGHT := hrow.trans (by decide)
    rw [if_neg hnewline] at hplace
    rw [if_neg hnewline, if_neg hnewline, hplace]
    obtain ⟨b, hdraw, hgrid⟩ :=
      drawCell_grid h (placeOf_col_lt text i) hheight x VGA_COLOR_LIGHT_GREY VGA_COLOR_BLACK
    refine ⟨{ v with buffer := b }, ?_, hgrid⟩
    rw [hdraw, Option.bind_some]

theorem drawText_end (fileType : EmFileType) {fuel : Nat} (hlimit : limit ≤ EM_BUF_SIZE)
    (htext : buf.chars.take limit = text) (hnil : text.drop i = [])
    : drawText fileType buf limit fuel v p i = some ⟨v, wordsInSight fileType text i⟩ := by
  have hwords : wordsInSight fileType text i = [] := by
    unfold wordsInSight
    rw [hnil, wordRuns_nil]
    rfl
  rw [hwords]
  cases fuel with
  | zero => rfl
  | succ fuel =>
    rw [← htext] at hnil
    have hle := le_of_drop_nil hlimit hnil
    unfold drawText
    rw [if_neg (by omega)]

theorem drawText_paint (fileType : EmFileType) {fuel : Nat} (hlimit : limit ≤ EM_BUF_SIZE)
    (hfuel : limit - i ≤ fuel) (htext : buf.chars.take limit = text)
    (hplace : p.Matches EM_TEXT_ROWS (placeOf text i)) (h : v.Grid f)
    : ∃ w, drawText fileType buf limit fuel v p i = some ⟨w, wordsInSight fileType text i⟩
        ∧ w.Grid (painted (placeOf text i) (text.drop i) f) := by
  induction fuel generalizing v p i f with
  | zero =>
    have hnil : text.drop i = [] := by
      rw [← htext, List.drop_of_length_le (by rw [List.length_take]; omega)]
    refine ⟨v, drawText_end fileType hlimit htext hnil, ?_⟩
    rw [hnil]
    exact h
  | succ fuel ih =>
    by_cases hrow : p.row < EM_TEXT_ROWS
    . have heq := hplace.eq hrow
      rw [heq] at hrow ⊢
      cases hdrop : text.drop i with
      | nil => exact ⟨v, drawText_end fileType hlimit htext hdrop, h⟩
      | cons x rest =>
        by_cases hword : isalpha x
        . have hsplit : text.drop i = (x :: rest.takeWhile isalpha) ++ rest.dropWhile isalpha := by
            rw [hdrop, List.cons_append, List.takeWhile_append_dropWhile]
          have hbehind : text.drop (i + (x :: rest.takeWhile isalpha).length)
              = rest.dropWhile isalpha := by
            rw [← List.drop_drop, hsplit, List.drop_left]
          obtain ⟨v', q, hturn, hgrid, hmatch⟩ :=
            drawText_word fileType fuel hlimit htext hdrop hword hrow h
          obtain ⟨w, hloop, hpaint⟩ := ih (by rw [List.length_cons]; omega) hmatch hgrid
          refine ⟨w, ?_, ?_⟩
          . rw [hturn, hloop, wordsInSight_of_pos fileType hdrop hword hrow]
            rfl
          . rw [← hdrop, painted_append hsplit, ← hbehind]
            exact hpaint
        . have hrest : text.drop (i + 1) = rest := by
            rw [← List.drop_drop, hdrop, List.drop_one, List.tail_cons]
          obtain ⟨v', hturn, hgrid⟩ := drawText_char fileType fuel htext hdrop hword hrow h
          rw [hturn, wordsInSight_of_neg fileType hdrop hword, ← hdrop, painted_cons hdrop hrow, ← hrest]
          exact ih (by omega) (.inl rfl) hgrid
    . have hbehind := hplace.behind hrow
      refine ⟨v, ?_, ?_⟩
      . unfold drawText
        rw [wordsInSight_nil fileType hbehind, if_neg (fun hor => hrow hor.2)]
      . unfold painted
        rw [paint_of_ge hbehind]
        exact h

end Text

section Rows

variable {v : Vga} {f g : Nat → Nat → UInt8} {row : Nat}

theorem blankRow_grid (h : v.Grid f) (hrow : row < VGA_HEIGHT) (bg : UInt8)
    : ∃ b, blankRow row bg v = some { v with buffer := b }
        ∧ { v with buffer := b }.Grid fun y x => if y = row then chr ' ' else f y x := by
  apply h.fillRow row (fun _ => chr ' ')
  intro x w k hx _ hk _
  exact drawCell_grid hk hx hrow (chr ' ') VGA_COLOR_WHITE bg

theorem blankText_grid (h : v.Grid f)
    : ∃ w, forUpTo EM_TEXT_ROWS (fun r => blankRow r VGA_COLOR_BLACK) v = some w
        ∧ w.Grid fun y x => if y < EM_TEXT_ROWS then chr ' ' else f y x := by
  apply forUpTo_spec EM_TEXT_ROWS (fun r => blankRow r VGA_COLOR_BLACK) v
    (fun i w => w.Grid fun y x => if y < i then chr ' ' else f y x)
  . exact h.congr fun y x _ _ => (if_neg (Nat.not_lt_zero y)).symm
  . intro r w hr hw
    have hrows : EM_TEXT_ROWS < VGA_HEIGHT := by decide
    obtain ⟨b, hblank, hgrid⟩ := blankRow_grid hw (hr.trans hrows) VGA_COLOR_BLACK
    refine ⟨_, hblank, hgrid.congr ?_⟩
    intro y x _ _
    grind

-- The rows of the text show `g`, whatever is in the other two.
def Vga.ShowsText (v : Vga) (g : Nat → Nat → UInt8) : Prop :=
  ∃ f, v.Grid f ∧ ∀ y x, y < EM_TEXT_ROWS → f y x = g y x

namespace Vga.ShowsText

theorem drawCell (h : v.ShowsText g) (hrow : EM_TEXT_ROWS ≤ row) (col : Nat) (c fg bg : UInt8)
    : ∃ w, DismasmOS.drawCell v col row c fg bg = some w ∧ w.ShowsText g := by
  by_cases hout : col ≥ VGA_WIDTH ∨ row ≥ VGA_HEIGHT
  . exact ⟨v, if_pos hout, h⟩
  . obtain ⟨f, hgrid, hf⟩ := h
    rw [not_or] at hout
    obtain ⟨b, hdraw, hgrid⟩ :=
      drawCell_grid hgrid (Nat.lt_of_not_ge hout.1) (Nat.lt_of_not_ge hout.2) c fg bg
    refine ⟨_, hdraw, _, hgrid, ?_⟩
    intro y x hy
    rw [if_neg (by omega)]
    exact hf y x hy

theorem loop (h : v.ShowsText g) (n : Nat) (body : Nat → Vga → Option Vga)
    (hbody : ∀ i w, i < n → w.ShowsText g → ∃ w', body i w = some w' ∧ w'.ShowsText g)
    : ∃ w, forUpTo n body v = some w ∧ w.ShowsText g :=
  forUpTo_spec n body v (fun _ w => w.ShowsText g) h hbody

theorem blankRow (h : v.ShowsText g) (hrow : EM_TEXT_ROWS ≤ row) (bg : UInt8)
    : ∃ w, DismasmOS.blankRow row bg v = some w ∧ w.ShowsText g :=
  h.loop VGA_WIDTH _ fun col _ _ hw => hw.drawCell hrow col (chr ' ') VGA_COLOR_WHITE bg

theorem drawLine (h : v.ShowsText g) (hrow : EM_TEXT_ROWS ≤ row) (fg bg : UInt8) (col : Nat)
    (text : List UInt8)
    : ∃ w, DismasmOS.drawLine row fg bg v col text = some w ∧ w.ShowsText g := by
  induction text generalizing v col with
  | nil => exact ⟨v, rfl, h⟩
  | cons c text ih =>
    unfold DismasmOS.drawLine
    split
    . obtain ⟨w, hdraw, hw⟩ := h.drawCell hrow col c fg bg
      rw [hdraw]
      exact ih hw (col + 1)
    . exact ⟨v, rfl, h⟩

theorem renderCommandRow (h : v.ShowsText g) {e : Em} (hcmd : e.cmdLen ≤ 32) (p : Place)
    : ∃ w, DismasmOS.renderCommandRow e p v = some w ∧ w.ShowsText g := by
  have hrow : EM_TEXT_ROWS ≤ EM_CMD_ROW := by decide
  unfold DismasmOS.renderCommandRow
  obtain ⟨v, hblank, hv⟩ := h.blankRow hrow VGA_COLOR_BLACK
  rw [hblank, Option.bind_eq_bind, Option.bind_some]
  cases e.mode with
  | command =>
    obtain ⟨v, hdraw, hv⟩ := hv.drawCell hrow 0 (chr ';') VGA_COLOR_LIGHT_CYAN VGA_COLOR_BLACK
    have hbody : ∀ col w, col < min e.cmdLen (VGA_WIDTH - 1) → w.ShowsText g
        → ∃ w', ((e.cmdBuf.chars[col]?).bind fun c =>
            DismasmOS.drawCell w (col + 1) EM_CMD_ROW c VGA_COLOR_WHITE VGA_COLOR_BLACK) = some w'
          ∧ w'.ShowsText g := by
      intro col w hcol hw
      have hlt : col < e.cmdBuf.chars.length := by
        rw [e.cmdBuf.length_chars]
        omega
      rw [List.getElem?_eq_getElem hlt]
      exact hw.drawCell hrow _ _ _ _
    obtain ⟨w, hloop, hw⟩ := hv.loop _ _ hbody
    refine ⟨vgaUpdateCursor w (e.cmdLen + 1) EM_CMD_ROW, ?_, hw⟩
    simp only [Option.bind_eq_bind]
    rw [hdraw, Option.bind_some, hloop]
    rfl
  | edit =>
    obtain ⟨w, hdraw, hw⟩ := hv.drawLine hrow VGA_COLOR_LIGHT_CYAN VGA_COLOR_BLACK 0 e.msgBuf
    dsimp only
    rw [hdraw, Option.bind_some]
    split
    . exact ⟨_, rfl, hw⟩
    . exact ⟨_, rfl, hw⟩

end Vga.ShowsText

theorem emRender_spec {e : Em} (hlen : e.bufLen ≤ EM_BUF_SIZE) (hcmd : e.cmdLen ≤ 32) (v : Vga)
    : ∃ w, emRender e v = some ⟨w, wordsInSight e.curFileType e.text 0⟩
        ∧ w.ShowsText (painted ⟨0, 0⟩ e.text fun _ _ => chr ' ') := by
  have hrow : EM_TEXT_ROWS ≤ EM_STATUS_ROW := by decide
  obtain ⟨f, hf⟩ := Vga.Grid.exists_of v
  obtain ⟨v1, hblank, hv1⟩ := blankText_grid hf
  obtain ⟨v2, htext, hv2⟩ := drawText_paint (i := 0) (p := ⟨0, 0⟩) e.curFileType hlen
    (Nat.le_refl e.bufLen) rfl (.inl rfl) hv1
  have hshows : v2.ShowsText (painted ⟨0, 0⟩ e.text fun _ _ => chr ' ') := by
    refine ⟨_, hv2, ?_⟩
    intro y x hy
    exact paint_congr (if_pos hy)
  obtain ⟨v3, hstatus, hv3⟩ := hshows.blankRow hrow VGA_COLOR_BLUE
  obtain ⟨v4, hline, hv4⟩ := hv3.drawLine hrow VGA_COLOR_WHITE VGA_COLOR_BLUE 0
    (statusText e (placeOf e.text e.cursorPos))
  obtain ⟨w, hcommand, hw⟩ := hv4.renderCommandRow hcmd (placeOf e.text e.cursorPos)
  refine ⟨w, ?_, hw⟩
  unfold emRender
  simp only [Option.bind_eq_bind]
  rw [hblank, Option.bind_some, htext, Option.bind_some, hstatus, Option.bind_some,
    getCursorRowCol_eq hlen, Option.bind_some, hline, Option.bind_some, hcommand]
  rfl

end Rows

end DismasmOS
