import DismasmOS.Em.Lemmas.Texts
import DismasmOS.Shell.Pager

/-!
This module contains the theorem that the manual reader shows the lines its keys lead to, always a full page
as far as there are lines.
-/

namespace DismasmOS

-- Where a key leads to in a text whose last page begins at `maxTop`.
inductive PagerMove where
  | up (n : Nat)
  | down (n : Nat)
  | first
  | last
  | stay
  deriving DecidableEq

namespace PagerMove

def apply (m : PagerMove) (maxTop topLine : Nat) : Nat :=
  match m with
  | .up n => topLine - n
  | .down n => min maxTop (topLine + n)
  | .first => 0
  | .last => maxTop
  | .stay => topLine

theorem apply_le (m : PagerMove) {maxTop topLine : Nat} (h : topLine ≤ maxTop)
    : m.apply maxTop topLine ≤ maxTop := by
  cases m with
  | up n => exact (Nat.sub_le topLine n).trans h
  | down n => exact Nat.min_le_left _ _
  | first => exact Nat.zero_le maxTop
  | last => exact Nat.le_refl maxTop
  | stay => exact h

end PagerMove

-- `none` are the keys that close the reader.
def pagerMove (c : Int) : Option PagerMove :=
  if c = charKey (chr 'q') ∨ c = charKey (chr 'Q') ∨ c = 27 then none
  else if c = KEY_SCROLL_UP then some (.up 3)
  else if c = KEY_SCROLL_DOWN then some (.down 3)
  else if c = KEY_UP ∨ c = charKey (chr 'k') ∨ c = charKey (chr 'K') then some (.up 1)
  else if c = KEY_DOWN ∨ c = charKey (chr 'j') ∨ c = charKey (chr 'J') then some (.down 1)
  else if c = KEY_PGUP ∨ c = charKey (chr 'b') ∨ c = charKey (chr 'B') then some (.up 20)
  else if c = KEY_PGDN ∨ c = charKey (chr ' ') then some (.down 20)
  else if c = KEY_HOME ∨ c = charKey (chr 'g') then some .first
  else if c = KEY_END ∨ c = charKey (chr 'G') then some .last
  else some .stay

-- The keys followed without a screen.
def pagerView (maxTop topLine : Nat) (keys : List Int) : PagerState :=
  match keys with
  | [] => .reading topLine
  | c :: keys =>
    match pagerMove c with
    | none => .closed keys
    | some m => pagerView maxTop (m.apply maxTop topLine) keys

-- The character of a page in row `y` and column `x`.
def pageChar (entry : WdidEntry) (topLine y x : Nat) : UInt8 :=
  if y < PAGER_TEXT_ROWS then
    match entry.lines[topLine + y]? with
    | some line => columnChar line x
    | none => if x = 0 then chr '~' else chr ' '
  else
    columnChar (pagerStatusParts entry topLine).flatten x

section Keys

variable {maxTop topLine : Nat} {c : Int}

theorem pagerKey_quit (h : pagerMove c = none) : pagerKey maxTop topLine c = .quit := by
  unfold pagerMove at h
  unfold pagerKey
  by_cases hquit : c = charKey (chr 'q') ∨ c = charKey (chr 'Q') ∨ c = 27
  . rw [if_pos hquit]
  . rw [if_neg hquit] at h
    repeat (split at h; cases h)
    cases h

-- The two ways to write a move that stops at an end.
theorem up_eq (n : Nat) : (if topLine ≥ n then topLine - n else 0) = topLine - n := by
  split
  . rfl
  . omega

theorem down_eq (n : Nat) : (if topLine + n > maxTop then maxTop else topLine + n) = min maxTop (topLine + n) := by
  split
  . omega
  . omega

-- A key that moves nowhere draws nothing.
theorem pagerKey_move {m : PagerMove} (h : pagerMove c = some m) (htop : topLine ≤ maxTop)
    : pagerKey maxTop topLine c = .show (m.apply maxTop topLine)
      ∨ pagerKey maxTop topLine c = .ignore ∧ m.apply maxTop topLine = topLine := by
  unfold pagerMove at h
  unfold pagerKey
  split at h
  next => cases h
  next hquit =>
  rw [if_neg hquit]
  split at h
  next hkey =>
    cases h
    rw [if_pos hkey, up_eq]
    exact .inl rfl
  next hkey =>
  rw [if_neg hkey]
  split at h
  next hkey =>
    cases h
    rw [if_pos hkey, down_eq]
    exact .inl rfl
  next hkey =>
  rw [if_neg hkey]
  split at h
  next hkey =>
    cases h
    rw [if_pos hkey]
    split
    . exact .inl rfl
    . exact .inr ⟨rfl, by show topLine - 1 = topLine; omega⟩
  next hkey =>
  rw [if_neg hkey]
  split at h
  next hkey =>
    cases h
    rw [if_pos hkey]
    split
    . refine .inl (congrArg PagerKey.show ?_)
      show topLine + 1 = min maxTop (topLine + 1)
      omega
    . refine .inr ⟨rfl, ?_⟩
      show min maxTop (topLine + 1) = topLine
      omega
  next hkey =>
  rw [if_neg hkey]
  split at h
  next hkey =>
    cases h
    rw [if_pos hkey, up_eq]
    exact .inl rfl
  next hkey =>
  rw [if_neg hkey]
  split at h
  next hkey =>
    cases h
    rw [if_pos hkey, down_eq]
    exact .inl rfl
  next hkey =>
  rw [if_neg hkey]
  split at h
  next hkey =>
    cases h
    rw [if_pos hkey]
    exact .inl rfl
  next hkey =>
  rw [if_neg hkey]
  split at h
  next hkey =>
    cases h
    rw [if_pos hkey]
    exact .inl rfl
  next hkey =>
    cases h
    rw [if_neg hkey]
    exact .inr ⟨rfl, rfl⟩

end Keys

section Draw

variable {v : Vga} {f : Nat → Nat → UInt8} {entry : WdidEntry} {topLine r : Nat}

theorem renderRow_grid (entry : WdidEntry) (topLine : Nat) (h : v.Grid f) (hr : r < PAGER_TEXT_ROWS)
    : ∃ w, renderRow entry topLine r v = some w
        ∧ w.Grid fun y x => if y = r then pageChar entry topLine y x else f y x := by
  have hrow : r < VGA_HEIGHT := hr.trans (by decide)
  unfold renderRow
  cases hline : entry.lines[topLine + r]? with
  | some line =>
    have hfill := h.fillRow r (columnChar line) (fun c v =>
      drawCell v c r (columnChar line c) (lineColor line) VGA_COLOR_BLACK) (fun x w k hx _ hk _ =>
        drawCell_grid hk hx hrow _ _ _)
    obtain ⟨b, hloop, hgrid⟩ := hfill
    refine ⟨_, hloop, hgrid.congr ?_⟩
    intro y x _ _
    by_cases hy : y = r
    . rw [if_pos hy, if_pos hy, hy]
      unfold pageChar
      rw [if_pos hr, hline]
    . rw [if_neg hy, if_neg hy]
  | none =>
    obtain ⟨b, hfirst, hgrid⟩ := drawCell_grid h (by decide : 0 < VGA_WIDTH) hrow (chr '~') VGA_COLOR_DARK_GREY
      VGA_COLOR_BLACK
    have hloop := forUpTo_spec (VGA_WIDTH - 1) (fun c v =>
      drawCell v (c + 1) r (chr ' ') VGA_COLOR_WHITE VGA_COLOR_BLACK) { v with buffer := b }
      (fun i w => w.Grid fun y x =>
        if y = r ∧ x < i + 1 then (if x = 0 then chr '~' else chr ' ') else f y x)
      (hgrid.congr fun y x _ _ => by grind) ?_
    . obtain ⟨w, hw, hgrid⟩ := hloop
      refine ⟨w, by dsimp only; rw [hfirst]; exact hw, hgrid.congr ?_⟩
      intro y x _ hx
      have hwidth : VGA_WIDTH - 1 + 1 = VGA_WIDTH := rfl
      rw [hwidth]
      by_cases hy : y = r
      . rw [if_pos ⟨hy, hx⟩, if_pos hy, hy]
        unfold pageChar
        rw [if_pos hr, hline]
      . rw [if_neg (fun hand => hy hand.1), if_neg hy]
    . intro c w hc hw
      obtain ⟨b', hdraw, hgrid'⟩ := drawCell_grid hw (by omega : c + 1 < VGA_WIDTH) hrow (chr ' ')
        VGA_COLOR_WHITE VGA_COLOR_BLACK
      refine ⟨_, hdraw, hgrid'.congr ?_⟩
      intro y x _ _
      grind

theorem renderRows_grid (entry : WdidEntry) (topLine : Nat) (h : v.Grid f)
    : ∃ w, forUpTo PAGER_TEXT_ROWS (renderRow entry topLine) v = some w
        ∧ w.Grid fun y x => if y < PAGER_TEXT_ROWS then pageChar entry topLine y x else f y x := by
  apply forUpTo_spec PAGER_TEXT_ROWS (renderRow entry topLine) v
    (fun i w => w.Grid fun y x => if y < i then pageChar entry topLine y x else f y x)
  . exact h.congr fun y x _ _ => (if_neg (Nat.not_lt_zero y)).symm
  . intro r w hr hw
    obtain ⟨w', hrender, hgrid⟩ := renderRow_grid entry topLine hw hr
    refine ⟨w', hrender, hgrid.congr ?_⟩
    intro y x _ _
    grind

-- The size of an entry that leaves room for the rest of the status line.
structure WdidEntry.Fits (entry : WdidEntry) : Prop where
  nulFree : NulFree entry.name
  name : entry.name.length ≤ 9
  lines : entry.lines.length < 100

theorem pagerBottom_le (entry : WdidEntry) (topLine : Nat) : pagerBottom entry topLine ≤ entry.lines.length :=
  Nat.min_le_right _ _

theorem pagerPct_le (entry : WdidEntry) (topLine : Nat) : pagerPct entry topLine ≤ 100 := by
  unfold pagerPct
  split
  . apply Nat.div_le_of_le_mul
    exact Nat.mul_le_mul_right 100 (pagerBottom_le entry topLine)
  . exact Nat.zero_le 100

theorem length_itoa_le {n k : Nat} (hk : k ≤ 9) (hn : n < 10 ^ (k + 1)) : (itoa n).length ≤ k + 1 := by
  have hlt : n < 10 ^ 10 := hn.trans_le (Nat.pow_le_pow_right (by decide) (by omega))
  rw [length_itoa hlt]
  apply Nat.succ_le_succ
  apply Nat.le_of_lt_succ
  exact Nat.log_lt_of_lt_pow' (by omega) hn

-- The line has at most 79 characters, so the terminator is in the array, too.
theorem pagerStatus_eq (h : entry.Fits) (htop : topLine ≤ maxTop entry)
    : (pagerStatusParts entry topLine).foldlM (strcatIn STATUS_SIZE) []
        = some (pagerStatusParts entry topLine).flatten := by
  have hlines := h.lines
  have hname := h.name
  have hmax : maxTop entry < 99 := by
    unfold maxTop PAGER_TEXT_ROWS
    split
    . omega
    . decide
  have hbottom := pagerBottom_le entry topLine
  have hpct := pagerPct_le entry topLine
  have hfirstText : (itoa ((topLine + 1 : Nat) : Int)).length ≤ 2 := length_itoa_le (by decide) (by omega)
  have hbottomText : (itoa (pagerBottom entry topLine)).length ≤ 2 := length_itoa_le (by decide) (by omega)
  have hlinesText : (itoa entry.lines.length).length ≤ 2 := length_itoa_le (by decide) (by omega)
  have hpctText : (itoa (pagerPct entry topLine)).length ≤ 3 := length_itoa_le (by decide) (by omega)
  have hfixed : (str " [WDID] ").length = 8 ∧ (str "(1) | Line ").length = 11 ∧ (str "-").length = 1
      ∧ (str "/").length = 1 ∧ (str " (").length = 2
      ∧ (str "%) | Wheel/PgUp/PgDn/Arrows | 'q' Exit").length = 38 := by
    decide
  have hsize : STATUS_SIZE = 80 := rfl
  rw [Nat.cast_succ] at hfirstText
  rw [strcatAllIn_eq List.not_mem_nil, appendAllIn_eq (by decide), if_pos, List.nil_append]
  . unfold pagerStatusParts
    simp only [List.flatten_cons, List.flatten_nil, List.length_append, List.length_nil, hfixed]
    omega
  . unfold pagerStatusParts
    simp only [List.forall_mem_cons]
    exact ⟨by decide, h.nulFree, by decide, nulFree_itoa _, by decide, nulFree_itoa _, by decide,
      nulFree_itoa _, by decide, nulFree_itoa _, by decide, fun _ hc => nomatch hc⟩

theorem renderPage_grid (hfits : entry.Fits) (htop : topLine ≤ maxTop entry) (v : Vga)
    : ∃ w, renderPage entry topLine v = some w ∧ w.Grid (pageChar entry topLine) := by
  obtain ⟨f, hf⟩ := Vga.Grid.exists_of v
  obtain ⟨w, hrows, hgrid⟩ := renderRows_grid entry topLine hf
  have hrow : PAGER_STATUS_ROW < VGA_HEIGHT := by decide
  obtain ⟨b, hbar, hpage⟩ := hgrid.fillRow PAGER_STATUS_ROW
    (columnChar (pagerStatusParts entry topLine).flatten)
    (fun c v => drawCell v c PAGER_STATUS_ROW (columnChar (pagerStatusParts entry topLine).flatten c)
      VGA_COLOR_WHITE VGA_COLOR_BLUE)
    (fun x w k hx _ hk _ => drawCell_grid hk hx hrow _ _ _)
  refine ⟨vgaUpdateCursor { w with buffer := b } 0 PAGER_STATUS_ROW, ?_, hpage.congr ?_⟩
  . unfold renderPage renderStatusBar
    rw [hrows, pagerStatus_eq hfits htop]
    simp only [Option.bind_eq_bind, Option.bind_some]
    rw [hbar]
    rfl
  . intro y x hy _
    have hheight : VGA_HEIGHT = PAGER_STATUS_ROW + 1 := rfl
    have htext : PAGER_TEXT_ROWS = PAGER_STATUS_ROW := rfl
    unfold pageChar
    by_cases hstatus : y = PAGER_STATUS_ROW
    . rw [if_pos hstatus, if_neg (by omega)]
    . rw [if_neg hstatus, if_pos (by omega)]

end Draw

-- The reader is open at a line that begins a page, or it has left an empty screen.
def PagerState.Shows (s : PagerState) (entry : WdidEntry) (v : Vga) : Prop :=
  match s with
  | .reading topLine => topLine ≤ maxTop entry ∧ v.Grid (pageChar entry topLine)
  | .closed _ => v.Grid fun _ _ => chr ' '

/--
Whatever keys are pressed, no text is written behind its array, and the screen shows the page that the keys
lead to, never beyond the last full one. A key that closes the reader leaves an empty screen and the keys
behind it.
-/
theorem pager_shows_lines (entry : WdidEntry) (hfits : entry.Fits) (v : Vga) (keys : List Int)
    : ∃ w, runPager entry v keys = some ⟨pagerView (maxTop entry) 0 keys, w⟩
      ∧ (pagerView (maxTop entry) 0 keys).Shows entry w := by
  have hloop : ∀ keys topLine v, topLine ≤ maxTop entry → v.Grid (pageChar entry topLine)
      → ∃ w, pagerLoop entry topLine v keys = some ⟨pagerView (maxTop entry) topLine keys, w⟩
        ∧ (pagerView (maxTop entry) topLine keys).Shows entry w := by
    intro keys
    induction keys with
    | nil => exact fun topLine v htop hgrid => ⟨v, rfl, htop, hgrid⟩
    | cons c keys ih =>
      intro topLine v htop hgrid
      unfold pagerLoop pagerView
      cases hmove : pagerMove c with
      | none =>
        obtain ⟨w, hclear, hblank, -⟩ := hgrid.clear
        rw [pagerKey_quit hmove]
        refine ⟨w, ?_, hblank⟩
        dsimp only
        rw [hclear]
        rfl
      | some m =>
        have hle := m.apply_le htop
        obtain hkey | ⟨hkey, hsame⟩ := pagerKey_move hmove htop
        . obtain ⟨w, hrender, hpage⟩ := renderPage_grid hfits hle v
          rw [hkey]
          dsimp only
          rw [hrender]
          exact ih _ w hle hpage
        . rw [hkey]
          dsimp only
          rw [hsame]
          exact ih topLine v htop hgrid
  obtain ⟨w, hrender, hpage⟩ := renderPage_grid hfits (Nat.zero_le (maxTop entry)) v
  unfold runPager
  rw [hrender]
  exact hloop keys 0 w (Nat.zero_le _) hpage

theorem pager_shows_lines_chain
    : wdidDocChain.Fits ∧ ∃ w, runPager wdidDocChain vgaZero [KEY_PGDN, KEY_UP] = some ⟨.reading 1, w⟩
      ∧ w.Grid (pageChar wdidDocChain 1) := by
  have hfits : wdidDocChain.Fits := ⟨by decide, by decide, by decide⟩
  obtain ⟨w, hrun, -, hgrid⟩ := pager_shows_lines wdidDocChain hfits vgaZero [KEY_PGDN, KEY_UP]
  exact ⟨hfits, w, hrun, hgrid⟩

end DismasmOS
