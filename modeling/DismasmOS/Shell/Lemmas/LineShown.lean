import DismasmOS.Shell.Lemmas.Repl

/-!
This module contains what the screen shows of the line at the prompt, for all runs of the prompt in
which no key takes away characters above the row of the cursor, and why no other key keeps it right.
-/

namespace DismasmOS

section Screen

variable {v : Vga} {t : Console}

theorem Vga.Shows.read_eq (h : v.Shows t) {j : Nat} (hj : j < VGA_HEIGHT * VGA_WIDTH)
    : ((v.read j).map UInt16.toUInt8).getD NUL
        = t.cell (chr ' ') (j + (t.rows.length - VGA_HEIGHT) * VGA_WIDTH) := by
  have hw : 0 < VGA_WIDTH := by decide
  have hy : j / VGA_WIDTH < VGA_HEIGHT := by
    rw [Nat.div_lt_iff_lt_mul hw]
    exact hj
  have hx : j % VGA_WIDTH < VGA_WIDTH := Nat.mod_lt j hw
  have hchar := h.chars _ _ hy hx
  unfold Vga.charAt at hchar
  rw [vgaIndex_eq (Nat.le_of_lt hy) hx, Nat.div_add_mod'] at hchar
  rw [hchar, Option.getD_some, Terminal.screen_eq]
  unfold Terminal.cell
  rw [Nat.add_mul_div_right _ _ hw, Nat.add_mul_mod_self_right]
  rw [Nat.add_comm (t.rows.length - VGA_HEIGHT)]

theorem Vga.Shows.cursor_eq (h : v.Shows t)
    : v.row * VGA_WIDTH + v.col + (t.rows.length - VGA_HEIGHT) * VGA_WIDTH = t.cursor := by
  have hrow := h.toWindow.row_eq
  have hlen := t.length_rows
  unfold Terminal.cursor
  rw [h.col, hrow, hlen]
  unfold VGA_WIDTH VGA_HEIGHT
  omega

theorem Vga.Shows.textFrom_eq (h : v.Shows t) {i : Nat}
    (hi : (t.rows.length - VGA_HEIGHT) * VGA_WIDTH ≤ i)
    : v.textFrom (i - (t.rows.length - VGA_HEIGHT) * VGA_WIDTH) = t.text (chr ' ') i := by
  have hcursor := h.cursor_eq
  have hrow := h.row_lt
  have hcol := h.col_lt
  generalize hk : (t.rows.length - VGA_HEIGHT) * VGA_WIDTH = k at *
  have hlen : v.row * VGA_WIDTH + v.col - (i - k) = t.cursor - i := by omega
  have hshift : List.range' i (t.cursor - i)
      = (List.range' (i - k) (t.cursor - i)).map (k + ·) := by
    rw [List.map_add_range', Nat.add_sub_cancel' hi]
  unfold Vga.textFrom Terminal.text
  rw [hlen, hshift, List.map_map]
  apply List.map_congr_left
  intro j hj
  rw [List.mem_range'_1] at hj
  have hlt : j < VGA_HEIGHT * VGA_WIDTH := by
    unfold VGA_HEIGHT VGA_WIDTH at *
    omega
  rw [h.read_eq hlt, hk, Function.comp_apply, Nat.add_comm]

end Screen

namespace Repl

variable {s s' : Repl}

-- A line has at most three rows.
theorem Inv.lineShown (h : s.Inv) : s.LineShown := by
  have hcursor := h.cursor_eq
  have hscreen := h.shows.cursor_eq
  have hlt := h.cmdLen_lt
  have hrow := h.shows.toWindow.row_eq
  have hlen := s.console.length_rows
  have hcol := h.shows.col_lt
  have hvisible : s.scrolled ≤ s.start := by
    unfold scrolled
    unfold CMD_MAX_LEN at hlt
    unfold VGA_WIDTH VGA_HEIGHT at *
    omega
  constructor
  . exact hvisible
  . unfold scrolled at *
    omega
  . rw [← h.text]
    exact h.shows.textFrom_eq hvisible

-- The cursor is not where the line ends.
structure Beyond (s : Repl) : Prop extends s.Kept where
  cmdLen_lt : s.cmdLen < CMD_MAX_LEN
  cursor : s.start + s.cmdLen < s.console.cursor

theorem Beyond.not_shown (h : s.Beyond) : ¬s.LineShown := by
  intro hshown
  have hlen := congrArg List.length hshown.text
  have hbuf := s.cmdBuf.length_chars
  have hlt := h.cmdLen_lt
  have hcursor := h.cursor
  have hscreen := h.shows.cursor_eq
  have hvisible := hshown.visible
  unfold Vga.textFrom at hlen
  rw [List.length_map, List.length_range', List.length_take] at hlen
  unfold scrolled at *
  omega

-- `vga_backspace` stops at the beginning of the row.
theorem Inv.backspaces_beyond (h : s.Inv) {n : Nat} (hn : n ≤ s.cmdLen) (hrow : s.vga.col < n)
    : ∃ s', { s with cmdLen := s.cmdLen - n }.draw (List.replicate n .backspace) = some s'
        ∧ s'.Beyond ∧ s'.cmdLen = s.cmdLen - n := by
  have hcol : (s.console.col : Nat) < n := by
    rw [← h.shows.col]
    exact hrow
  have hcursor := h.cursor_eq
  have hle := s.console.col_le_cursor
  obtain ⟨v, hdraw, hshows⟩ := draw_eq (s := { s with cmdLen := s.cmdLen - n }) h.shows
    (List.replicate n .backspace)
  dsimp only at hdraw hshows
  rw [apply_backspaces] at hdraw hshows
  refine ⟨_, hdraw, ⟨⟨hshows, h.hist⟩, ?_, ?_⟩, rfl⟩
  . exact Nat.lt_of_le_of_lt (Nat.sub_le ..) h.cmdLen_lt
  . dsimp only
    rw [Terminal.cursor_backspaces]
    omega

theorem Inv.erase_beyond (h : s.Inv) (hrow : s.vga.col < s.cmdLen)
    : ∃ s', s.erase = some s' ∧ s'.Beyond ∧ s'.cmdLen = 0 := by
  obtain ⟨s', hdraw, hbeyond, hlen⟩ := h.backspaces_beyond (Nat.le_refl _) hrow
  rw [Nat.sub_self] at hdraw hlen
  exact ⟨s', hdraw, hbeyond, hlen⟩

theorem Beyond.setIndex (h : s.Beyond) {index : Int} (hindex : -1 ≤ index)
    : (s.setIndex index).Beyond where
  shows := h.shows
  hist := h.hist.setIndex hindex
  cmdLen_lt := h.cmdLen_lt
  cursor := h.cursor

theorem Beyond.recallLine (h : s.Beyond) (hlen : s.cmdLen = 0)
    : ∃ s', s.recallLine = some s' ∧ s'.Beyond := by
  obtain ⟨v, cmdBuf, hrecall, hshows, hline, _⟩ := recallLine_eq h.toKept
  have hcursor := h.cursor
  refine ⟨_, hrecall, ⟨hshows, h.hist⟩, ?_, ?_⟩
  . dsimp only
    rw [strlen_eq]
    exact hline.strlen_lt
  . dsimp only
    rw [Terminal.cursor_puts, strlen_eq]
    omega

theorem Inv.up_beyond (h : s.Inv) (htotal : s.hist.total ≠ 0) (hrow : s.vga.col < s.cmdLen)
    : ∃ s', s.up = some s' ∧ s'.Beyond := by
  have hindex := h.hist.olderIndex_ge
  obtain ⟨s₁, herase, hbeyond, hlen⟩ := (h.setIndex hindex).erase_beyond hrow
  rw [up_eq htotal, herase, Option.bind_some]
  exact hbeyond.recallLine hlen

theorem Inv.down_beyond (h : s.Inv) (hindex : s.hist.index ≠ -1) (hrow : s.vga.col < s.cmdLen)
    : ∃ s', s.down = some s' ∧ s'.Beyond := by
  obtain ⟨s₁, herase, hbeyond, hlen⟩ := h.erase_beyond hrow
  unfold Repl.down
  rw [if_pos hindex, herase, Option.bind_eq_bind, Option.bind_some]
  split
  . have hge : -1 ≤ s₁.hist.index + 1 := by
      have hold := hbeyond.hist.index_ge
      omega
    exact (hbeyond.setIndex hge).recallLine hlen
  . refine ⟨_, rfl, ⟨hbeyond.shows, hbeyond.hist.setIndex (Int.le_refl _)⟩, ?_, ?_⟩
    . show 0 < CMD_MAX_LEN
      decide
    . have hcursor := hbeyond.cursor
      rw [hlen] at hcursor
      exact hcursor

theorem Inv.backspace_beyond (h : s.Inv) (hrow : s.vga.col < min 1 s.cmdLen)
    : ∃ s', s.backspace = some s' ∧ s'.Beyond := by
  have hpos : 0 < s.cmdLen := by omega
  obtain ⟨s', hdraw, hbeyond, _⟩ := h.backspaces_beyond (n := 1) hpos (by omega)
  unfold Repl.backspace
  rw [if_pos hpos]
  exact ⟨s', hdraw, hbeyond⟩

theorem Inv.step_beyond (h : s.Inv) (input : ReplInput) (hrow : s.vga.col < s.erased input.key)
    : ∃ s', s.step input = some s' ∧ s'.Beyond := by
  unfold Repl.step
  unfold erased at hrow
  dsimp only
  split at hrow
  . next hkey =>
    rw [if_neg (by rw [hkey]; decide), if_pos hkey]
    exact h.backspace_beyond hrow
  . next hback =>
    split at hrow
    . next hkey =>
      rw [if_neg (by rw [hkey]; decide), if_neg hback, if_pos hkey]
      split at hrow
      . exact absurd hrow (Nat.not_lt_zero _)
      . next htotal => exact h.up_beyond htotal hrow
    . next hup =>
      split at hrow
      . next hkey =>
        rw [if_neg (by rw [hkey]; decide), if_neg hback, if_neg hup, if_pos hkey]
        split at hrow
        . exact absurd hrow (Nat.not_lt_zero _)
        . next hindex => exact h.down_beyond hindex hrow
      . exact absurd hrow (Nat.not_lt_zero _)

theorem Inv.types (h : s.Inv) (input : ReplInput) : ∃ s', s.Types input s' := by
  by_cases hrow : s.erased input.key ≤ s.vga.col
  . obtain ⟨s', hstep, _⟩ := h.step input hrow
    exact ⟨s', hstep⟩
  . obtain ⟨s', hstep, _⟩ := h.step_beyond input (Nat.lt_of_not_le hrow)
    exact ⟨s', hstep⟩

theorem Inv.types_inv (h : s.Inv) {input : ReplInput} (hstep : s.Types input s')
    (hrow : s.erased input.key ≤ s.vga.col) : s'.Inv := by
  obtain ⟨s'', hs'', hinv⟩ := h.step input hrow
  unfold Types at hstep
  rw [hstep, Option.some.injEq] at hs''
  rw [hs'']
  exact hinv

theorem Inv.types_shown_iff (h : s.Inv) {input : ReplInput} (hstep : s.Types input s')
    : s'.LineShown ↔ s.erased input.key ≤ s.vga.col := by
  constructor
  . intro hshown
    by_contra hrow
    obtain ⟨s'', hs'', hbeyond⟩ := h.step_beyond input (Nat.lt_of_not_le hrow)
    unfold Types at hstep
    rw [hstep, Option.some.injEq] at hs''
    rw [hs''] at hshown
    exact hbeyond.not_shown hshown
  . intro hrow
    exact (h.types_inv hstep hrow).lineShown

end Repl

section Start

variable {v : Vga} {cmdBuf : CharArray CMD_MAX_LEN} {cwd : List UInt8} {s₀ s : Repl}
  {inputs : List ReplInput}

-- All that is printed in front of the first line.
def firstConsole (cwd : List UInt8) : Console :=
  (printPrompt cwd).foldl VgaCall.apply (shellHeader.foldl VgaCall.apply (.cleared (chr ' ')))

theorem shellInit_inv (v : Vga) (cmdBuf : CharArray CMD_MAX_LEN) (cwd : List UInt8)
    : ∃ s, shellInit v cmdBuf cwd = some s ∧ s.Inv ∧ s.cmdLen = 0 ∧ s.hist = .empty
        ∧ s.start = (firstConsole cwd).cursor := by
  obtain ⟨v₁, hclear, hshows₁⟩ := Repl.clear_eq (Repl.fresh v cmdBuf)
  unfold shellInit firstConsole
  rw [hclear, Option.bind_eq_bind, Option.bind_some]
  generalize shellHeader = header
  obtain ⟨v₂, hdraw, hshows₂⟩ :=
    Repl.draw_eq (s := { Repl.fresh v₁ cmdBuf with console := .cleared (chr ' ') }) hshows₁ header
  obtain ⟨w, t, hprompt, hshows, ht⟩ := Repl.prompt_eq
    (s := { Repl.fresh v₂ cmdBuf with console := header.foldl VgaCall.apply (.cleared (chr ' ')) })
    hshows₂ cwd
  refine ⟨{ Repl.fresh w cmdBuf with console := t, start := t.cursor }, ?_, ?_, rfl, rfl, ?_⟩
  . show (Repl.draw { Repl.fresh v₁ cmdBuf with console := .cleared (chr ' ') } header).bind _ = _
    rw [hdraw, Option.bind_some]
    exact hprompt
  . exact Repl.inv_of_start ⟨hshows, Hist.kept_empty⟩ rfl rfl
  . show t.cursor = _
    rw [ht]

theorem runs_shown_iff {s t : Repl} (h : s.Inv) (inputs : List ReplInput)
    : Run Repl.TypesShown s inputs t ↔ Run Repl.TypesInRow s inputs t := by
  induction inputs generalizing s with
  | nil =>
    constructor
    . intro hrun
      cases hrun
      exact .nil _
    . intro hrun
      cases hrun
      exact .nil _
  | cons input inputs ih =>
    constructor
    . rintro (_ | ⟨head, tail⟩)
      have hrow := (h.types_shown_iff head.1).mp head.2
      have hnext := h.types_inv head.1 hrow
      exact .cons ⟨head.1, hrow⟩ ((ih hnext).mp tail)
    . rintro (_ | ⟨head, tail⟩)
      have hnext := h.types_inv head.1 head.2
      exact .cons ⟨head.1, hnext.lineShown⟩ ((ih hnext).mpr tail)

theorem run_inv {s t : Repl} (h : s.Inv) {inputs : List ReplInput}
    (hrun : Run Repl.TypesInRow s inputs t) : t.Inv := by
  apply hrun.invariant Repl.Inv
  . intro s input s' _ hinv hstep
    exact hinv.types_inv hstep.1 hstep.2
  . exact h

-- Of the keys, of the history and of the directories nothing else matters.
theorem line_shown (v : Vga) (cmdBuf : CharArray CMD_MAX_LEN) (cwd : List UInt8)
    : ∃ s₀, shellInit v cmdBuf cwd = some s₀ ∧ s₀.LineShown
        ∧ ∀ inputs s, (Run Repl.TypesShown s₀ inputs s ↔ Run Repl.TypesInRow s₀ inputs s)
          ∧ (Run Repl.TypesInRow s₀ inputs s → ∀ input, ∃ s', s.Types input s') := by
  obtain ⟨s₀, hinit, hinv, _⟩ := shellInit_inv v cmdBuf cwd
  refine ⟨s₀, hinit, hinv.lineShown, ?_⟩
  intro inputs s
  constructor
  . exact runs_shown_iff hinv inputs
  . intro hrun
    exact (run_inv hinv hrun).types

end Start

section Wrapped

def noOutcome : LineOutcome where
  cwd := []
  cmdBuf := .zero CMD_MAX_LEN
  clears := false
  calls := []

def typed (c : Int) : ReplInput := ⟨c, noOutcome⟩

theorem insert_fields {s : Repl} (h : s.Inv) (hroom : s.cmdLen < CMD_MAX_LEN - 1)
    : ∃ s', s.Types (typed 97) s' ∧ s'.Inv ∧ s'.start = s.start ∧ s'.cmdLen = s.cmdLen + 1 := by
  obtain ⟨s', hs', hinv⟩ := h.insert (c := 97) (by decide)
  have hdraw := hs'
  unfold Repl.insert at hdraw
  rw [if_pos hroom] at hdraw
  obtain ⟨v, heq, _⟩ := Repl.draw_eq
    (s := { s with cmdBuf := s.cmdBuf.set s.cmdLen 97, cmdLen := s.cmdLen + 1 }) h.shows
    [.putchar 97]
  rw [heq, Option.some.injEq] at hdraw
  refine ⟨s', hs', hinv, ?_, ?_⟩
  . rw [← hdraw]
  . rw [← hdraw]

theorem typed_run {s : Repl} (h : s.Inv) {n : Nat} (hroom : s.cmdLen + n < CMD_MAX_LEN)
    : ∃ s', Run Repl.Types s (List.replicate n (typed 97)) s' ∧ s'.Inv ∧ s'.start = s.start
        ∧ s'.cmdLen = s.cmdLen + n := by
  induction n generalizing s with
  | zero => exact ⟨s, .nil s, h, rfl, rfl⟩
  | succ n ih =>
    obtain ⟨s₁, htypes, hinv₁, hstart₁, hlen₁⟩ := insert_fields h (by omega)
    obtain ⟨s', hrun, hinv, hstart, hlen⟩ := ih hinv₁ (by omega)
    refine ⟨s', .cons htypes hrun, hinv, hstart.trans hstart₁, ?_⟩
    omega

-- The prompt is 33 characters wide here, so the last of 47 keys fills the row.
theorem wrapped_not_shown
    : ∃ s₀ s, shellInit vgaZero (.zero CMD_MAX_LEN) (str "/home") = some s₀
        ∧ Run Repl.Types s₀ (List.replicate 47 (typed 97) ++ [typed KEY_BACKSPACE]) s
        ∧ ¬s.LineShown := by
  obtain ⟨s₀, hinit, hinv, hlen₀, _, hstart₀⟩ :=
    shellInit_inv vgaZero (.zero CMD_MAX_LEN) (str "/home")
  have hroom : s₀.cmdLen + 47 < CMD_MAX_LEN := by
    rw [hlen₀]
    decide
  obtain ⟨s₁, hrun, hinv₁, hstart, hlen⟩ := typed_run hinv hroom
  rw [hlen₀, Nat.zero_add] at hlen
  have hwidth : ((firstConsole (str "/home")).col : Nat) = 33 := by
    decide +kernel
  have hcol : s₁.vga.col = 0 := by
    rw [hinv₁.shows.col, Terminal.col_eq, hinv₁.cursor_eq, hstart, hlen, hstart₀]
    rw [Terminal.col_eq] at hwidth
    unfold VGA_WIDTH at *
    omega
  obtain ⟨s, hstep⟩ := hinv₁.types (typed KEY_BACKSPACE)
  refine ⟨s₀, s, hinit, hrun.snoc hstep, ?_⟩
  have hkey : (typed KEY_BACKSPACE).key = KEY_BACKSPACE := rfl
  rw [hinv₁.types_shown_iff hstep, hcol]
  unfold Repl.erased
  rw [if_pos hkey, hlen]
  decide

end Wrapped

end DismasmOS
