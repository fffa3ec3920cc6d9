import DismasmOS.Shell.Repl
import DismasmOS.Str.Lemmas
import DismasmOS.Vga.Lemmas.Refine

/-!
This module contains the line at the prompt and on the screen: each key keeps both of them equal as
long as it takes away no characters above the row of the cursor, where `vga_backspace` does not go.
-/

namespace DismasmOS

section Calls

variable {t : Console} {text : List UInt8}

def PlainText (text : List UInt8) : Prop := ∀ c ∈ text, 32 ≤ c.toNat

theorem PlainText.nulFree (h : PlainText text) : NulFree text := by
  intro hnul
  exact absurd (h NUL hnul) (by decide)

theorem putchar_plain {c : UInt8} (hc : 32 ≤ c.toNat) : t.putchar c = t.put (chr ' ') c := by
  have hne : ∀ x : UInt8, x.toNat < 32 → c ≠ x := by
    rintro x hx rfl
    omega
  unfold Console.putchar
  rw [if_neg (hne _ (by decide)), if_neg (hne _ (by decide)), if_neg (hne _ (by decide))]
  rw [if_neg (hne _ (by decide))]

theorem apply_puts (h : PlainText (cstr text))
    : (vgaPuts text).foldl VgaCall.apply t = t.puts (chr ' ') (cstr text) := by
  unfold vgaPuts Terminal.puts
  rw [List.foldl_map]
  generalize cstr text = text at h
  induction text generalizing t with
  | nil => rfl
  | cons c text ih =>
    unfold PlainText at h
    rw [List.forall_mem_cons] at h
    rw [List.foldl_cons, List.foldl_cons, ← putchar_plain h.1]
    exact ih h.2

theorem apply_backspaces (n : Nat)
    : (List.replicate n VgaCall.backspace).foldl VgaCall.apply t = t.backspaces (chr ' ') n := by
  unfold Terminal.backspaces
  induction n generalizing t with
  | zero => rfl
  | succ n ih =>
    rw [List.replicate_succ, List.foldl_cons, ih, Function.iterate_succ_apply]
    rfl

end Calls

section Lines

variable {a : CharArray CMD_MAX_LEN} {src : List UInt8} {h : Hist}

structure IsLine (a : CharArray CMD_MAX_LEN) : Prop where
  strlen_lt : a.str.length < CMD_MAX_LEN
  plain : PlainText a.str

theorem str_strcpy (hsrc : (cstr src).length < CMD_MAX_LEN)
    : (a.strcpy src).str = cstr src ∧ (a.strcpy src).chars.take (cstr src).length = cstr src := by
  have hlen := a.length_chars
  have hchars : (a.strcpy src).chars = cstr src ++ NUL :: a.chars.drop ((cstr src).length + 1) := by
    unfold CharArray.strcpy CharArray.memcpy
    dsimp only
    rw [memcpy_eq]
    . rw [List.take_of_length_le]
      . rw [List.append_assoc]
        rfl
      . rw [List.length_append, List.length_singleton]
    . rw [List.length_append, List.length_singleton]
    . omega
  constructor
  . unfold CharArray.str
    rw [hchars, (nulFree_cstr src).cstr_append_nul]
  . rw [hchars, List.take_left]

structure Hist.Kept (h : Hist) : Prop where
  index_ge : -1 ≤ h.index
  lines : ∀ i, IsLine (h.entry i)

theorem Hist.kept_empty : Hist.empty.Kept where
  index_ge := Int.le_refl _
  lines i := by
    have hentry : Hist.empty.entry i = .zero CMD_MAX_LEN := by
      unfold Hist.entry Hist.empty
      dsimp only
      apply Vector.getElem_replicate
    have hstr : (CharArray.zero CMD_MAX_LEN).str = [] := rfl
    rw [hentry]
    constructor
    . rw [hstr]
      decide
    . rw [hstr]
      intro c hc
      cases hc

theorem Hist.Kept.setIndex (hkept : h.Kept) {index : Int} (hindex : -1 ≤ index)
    : Hist.Kept { h with index := index } where
  index_ge := hindex
  lines := hkept.lines

-- The position that the key up leads to.
def Hist.olderIndex (h : Hist) : Int :=
  if h.index = -1 then
    h.total - 1
  else if h.index > h.total - (min HIST_MAX h.total : Nat) then
    h.index - 1
  else
    h.index

theorem Hist.Kept.olderIndex_ge (hkept : h.Kept) : -1 ≤ h.olderIndex := by
  have hold := hkept.index_ge
  unfold Hist.olderIndex
  split
  . omega
  split
  . omega
  . exact hold

theorem Hist.entry_setEntry (h : Hist) (i j : Nat) (a : CharArray CMD_MAX_LEN)
    : (h.setEntry i a).entry j = if i % HIST_MAX = j % HIST_MAX then a else h.entry j := by
  unfold Hist.entry Hist.setEntry
  dsimp only
  apply Vector.getElem_set

theorem Hist.Kept.histAdd (hkept : h.Kept) (hline : IsLine a) : (histAdd h a.chars).Kept := by
  unfold DismasmOS.histAdd
  split
  . exact hkept
  . split
    . exact hkept
    . constructor
      . exact hkept.index_ge
      . intro i
        show IsLine ((h.setEntry h.total ((h.entry h.total).assign a.chars)).entry i)
        rw [Hist.entry_setEntry]
        split
        . have hstr := (h.entry h.total).str_assign (by decide) a.chars
          rw [List.take_of_length_le] at hstr
          . constructor
            . rw [hstr]
              exact hline.strlen_lt
            . rw [hstr]
              exact hline.plain
          . exact Nat.le_pred_of_lt hline.strlen_lt
        . exact hkept.lines i

theorem histAdd_empty (h : Hist) (a : CharArray CMD_MAX_LEN) : histAdd h (a.set 0 NUL).chars = h := by
  have hhead : (a.set 0 NUL).chars.headD NUL = NUL := by
    show (a.chars.set 0 NUL).headD NUL = NUL
    cases a.chars <;> rfl
  exact if_pos hhead

theorem CharArray.take_set (a : CharArray CMD_MAX_LEN) {k : Nat} (hk : k < CMD_MAX_LEN) (c : UInt8)
    : (a.set k c).chars.take (k + 1) = a.chars.take k ++ [c] := by
  have hlen := a.length_chars
  unfold CharArray.set
  dsimp only
  rw [List.take_add_one, List.take_set_of_le (Nat.le_refl k), List.getElem?_set_self (by omega)]
  rfl

theorem isLine_set {k : Nat} (hk : k < CMD_MAX_LEN) (hplain : PlainText (a.chars.take k))
    : IsLine (a.set k NUL) := by
  have hlen := a.length_chars
  have hstr := a.str_set_nul hk hplain.nulFree
  constructor
  . rw [hstr, List.length_take]
    omega
  . rw [hstr]
    exact hplain

end Lines

namespace Repl

variable {s s' : Repl}

structure Kept (s : Repl) : Prop where
  shows : s.vga.Shows s.console
  hist : s.hist.Kept

-- The text behind the prompt is the line.
structure Inv (s : Repl) : Prop extends s.Kept where
  start_le : s.start ≤ s.console.cursor
  text : s.console.text (chr ' ') s.start = s.cmdBuf.chars.take s.cmdLen
  cmdLen_lt : s.cmdLen < CMD_MAX_LEN
  plain : PlainText (s.cmdBuf.chars.take s.cmdLen)

theorem draw_eq (h : s.vga.Shows s.console) (calls : List VgaCall)
    : ∃ v, s.draw calls = some { s with vga := v, console := calls.foldl VgaCall.apply s.console }
        ∧ v.Shows (calls.foldl VgaCall.apply s.console) := by
  obtain ⟨v, hv, hshows⟩ := h.run calls
  refine ⟨v, ?_, hshows⟩
  unfold draw
  rw [hv]
  rfl

theorem Inv.cursor_eq (h : s.Inv) : s.console.cursor = s.start + s.cmdLen := by
  have hlen := congrArg List.length h.text
  have hbuf := s.cmdBuf.length_chars
  have hlt := h.cmdLen_lt
  have hle := h.start_le
  rw [Terminal.length_text, List.length_take] at hlen
  omega

theorem Kept.draw (h : s.Kept) (calls : List VgaCall)
    : ∃ s', s.draw calls = some s' ∧ s'.Kept ∧ s'.cmdLen = s.cmdLen ∧ s'.cmdBuf = s.cmdBuf
        ∧ s'.hist = s.hist := by
  obtain ⟨v, hdraw, hshows⟩ := draw_eq h.shows calls
  exact ⟨_, hdraw, ⟨hshows, h.hist⟩, rfl, rfl, rfl⟩

theorem clear_eq (s : Repl)
    : ∃ v, s.clear = some { s with vga := v, console := .cleared (chr ' ') }
        ∧ v.Shows (.cleared (chr ' ')) := by
  obtain ⟨v, hv, hshows⟩ := Vga.Shows.cleared s.vga
  refine ⟨v, ?_, hshows⟩
  unfold Repl.clear
  rw [hv]
  rfl

theorem prompt_eq (h : s.vga.Shows s.console) (cwd : List UInt8)
    : ∃ v t, s.prompt cwd = some { s with vga := v, console := t, start := t.cursor } ∧ v.Shows t
        ∧ t = (printPrompt cwd).foldl VgaCall.apply s.console := by
  unfold Repl.prompt
  generalize printPrompt cwd = calls
  obtain ⟨v, hdraw, hshows⟩ := draw_eq h calls
  rw [hdraw]
  exact ⟨v, _, rfl, hshows, rfl⟩

theorem inv_of_start (h : s.Kept) (hlen : s.cmdLen = 0) (hstart : s.start = s.console.cursor)
    : s.Inv := by
  constructor
  . exact h
  . exact Nat.le_of_eq hstart
  . rw [hlen, List.take_zero, ← List.length_eq_zero_iff, Terminal.length_text, hstart, Nat.sub_self]
  . rw [hlen]
    decide
  . rw [hlen, List.take_zero]
    intro c hc
    cases hc

theorem Kept.prompt (h : s.Kept) (hlen : s.cmdLen = 0) (cwd : List UInt8)
    : ∃ s', s.prompt cwd = some s' ∧ s'.Inv ∧ s'.cmdLen = 0 ∧ s'.hist = s.hist := by
  obtain ⟨v, t, hprompt, hshows, _⟩ := prompt_eq h.shows cwd
  exact ⟨_, hprompt, inv_of_start ⟨hshows, h.hist⟩ hlen rfl, hlen, rfl⟩

theorem Inv.insert (h : s.Inv) {c : UInt8} (hc : 32 ≤ c.toNat)
    : ∃ s', s.insert c = some s' ∧ s'.Inv := by
  unfold Repl.insert
  split
  . next hroom =>
    have hlt : s.cmdLen < CMD_MAX_LEN := h.cmdLen_lt
    have hline := s.cmdBuf.take_set hlt c
    obtain ⟨v, hdraw, hshows⟩ := draw_eq
      (s := { s with cmdBuf := s.cmdBuf.set s.cmdLen c, cmdLen := s.cmdLen + 1 }) h.shows
      [.putchar c]
    have happly : [VgaCall.putchar c].foldl VgaCall.apply s.console = s.console.put (chr ' ') c :=
      putchar_plain hc
    dsimp only at hdraw hshows
    rw [happly] at hdraw hshows
    refine ⟨_, hdraw, ⟨hshows, h.hist⟩, ?_, ?_, ?_, ?_⟩
    . dsimp only
      rw [Terminal.cursor_put]
      exact Nat.le_succ_of_le h.start_le
    . dsimp only
      rw [Terminal.text_put _ _ _ h.start_le, h.text, hline]
    . exact Nat.add_lt_of_lt_sub hroom
    . dsimp only
      rw [hline]
      intro x hx
      rw [List.mem_append, List.mem_singleton] at hx
      cases hx with
      | inl hx => exact h.plain x hx
      | inr hx =>
        rw [hx]
        exact hc
  . exact ⟨s, rfl, h⟩

theorem Inv.backspaces (h : s.Inv) {n : Nat} (hn : n ≤ s.cmdLen) (hrow : n ≤ s.vga.col)
    : ∃ s', { s with cmdLen := s.cmdLen - n }.draw (List.replicate n .backspace) = some s'
        ∧ s'.Inv ∧ s'.cmdLen = s.cmdLen - n ∧ s'.cmdBuf = s.cmdBuf ∧ s'.hist = s.hist := by
  have hcol : n ≤ (s.console.col : Nat) := by
    rw [← h.shows.col]
    exact hrow
  have hcursor := h.cursor_eq
  obtain ⟨v, hdraw, hshows⟩ := draw_eq (s := { s with cmdLen := s.cmdLen - n }) h.shows
    (List.replicate n .backspace)
  dsimp only at hdraw hshows
  rw [apply_backspaces] at hdraw hshows
  refine ⟨_, hdraw, ⟨⟨hshows, h.hist⟩, ?_, ?_, ?_, ?_⟩, rfl, rfl, rfl⟩
  . dsimp only
    rw [Terminal.cursor_backspaces]
    omega
  . dsimp only
    rw [Terminal.text_backspaces _ _ hcol (by omega), h.text, List.take_take]
    congr 1
    omega
  . exact Nat.lt_of_le_of_lt (Nat.sub_le ..) h.cmdLen_lt
  . intro c hc
    apply h.plain c
    exact (List.take_subset_take_left _ (Nat.sub_le ..)) hc

theorem Inv.backspace (h : s.Inv) (hrow : min 1 s.cmdLen ≤ s.vga.col)
    : ∃ s', s.backspace = some s' ∧ s'.Inv := by
  unfold Repl.backspace
  split
  . next hpos =>
    obtain ⟨s', hdraw, hinv, _⟩ := h.backspaces (n := 1) hpos (by omega)
    exact ⟨s', hdraw, hinv⟩
  . exact ⟨s, rfl, h⟩

theorem Inv.erase (h : s.Inv) (hrow : s.cmdLen ≤ s.vga.col)
    : ∃ s', s.erase = some s' ∧ s'.Inv ∧ s'.cmdLen = 0 ∧ s'.hist = s.hist := by
  obtain ⟨s', hdraw, hinv, hlen, _, hhist⟩ := h.backspaces (Nat.le_refl _) hrow
  rw [Nat.sub_self] at hdraw hlen
  exact ⟨s', hdraw, hinv, hlen, hhist⟩

theorem recallLine_eq (h : s.Kept)
    : ∃ v cmdBuf, s.recallLine
          = some { s with
              vga := v
              cmdBuf := cmdBuf
              cmdLen := strlen cmdBuf.chars
              console := s.console.puts (chr ' ') (cstr cmdBuf.chars) }
        ∧ v.Shows (s.console.puts (chr ' ') (cstr cmdBuf.chars)) ∧ IsLine cmdBuf
        ∧ cmdBuf.chars.take (strlen cmdBuf.chars) = cstr cmdBuf.chars
        ∧ cstr cmdBuf.chars = (s.hist.entry s.hist.index.toNat).str := by
  have hline := h.hist.lines s.hist.index.toNat
  have hcopy := str_strcpy (a := s.cmdBuf) hline.strlen_lt
  unfold Repl.recallLine
  generalize s.hist.entry s.hist.index.toNat = entry at hline hcopy
  generalize s.cmdBuf.strcpy entry.chars = cmdBuf at hcopy
  have hstr : cstr cmdBuf.chars = cstr entry.chars := hcopy.1
  have hplain : PlainText (cstr cmdBuf.chars) := by
    rw [hstr]
    exact hline.plain
  dsimp only
  obtain ⟨v, hdraw, hshows⟩ := draw_eq
    (s := { s with cmdBuf := cmdBuf, cmdLen := strlen cmdBuf.chars }) h.shows
    (vgaPuts cmdBuf.chars)
  dsimp only at hdraw hshows
  rw [apply_puts hplain] at hdraw hshows
  refine ⟨v, cmdBuf, hdraw, hshows, ⟨?_, hplain⟩, ?_, hstr⟩
  . show (cstr cmdBuf.chars).length < CMD_MAX_LEN
    rw [hstr]
    exact hline.strlen_lt
  . rw [strlen_eq, hstr]
    exact hcopy.2

theorem Inv.recallLine (h : s.Inv) (hlen : s.cmdLen = 0) : ∃ s', s.recallLine = some s' ∧ s'.Inv := by
  obtain ⟨v, cmdBuf, hrecall, hshows, hline, htake, _⟩ := recallLine_eq h.toKept
  have htext := h.text
  rw [hlen, List.take_zero] at htext
  refine ⟨_, hrecall, ⟨⟨hshows, h.hist⟩, ?_, ?_, ?_, ?_⟩⟩
  . dsimp only
    rw [Terminal.cursor_puts]
    exact Nat.le_add_right_of_le h.start_le
  . dsimp only
    rw [Terminal.text_puts _ _ _ h.start_le, htext, htake, List.nil_append]
  . dsimp only
    rw [strlen_eq]
    exact hline.strlen_lt
  . dsimp only
    rw [htake]
    exact hline.plain

theorem Inv.setIndex (h : s.Inv) {index : Int} (hindex : -1 ≤ index) : (s.setIndex index).Inv where
  shows := h.shows
  hist := h.hist.setIndex hindex
  start_le := h.start_le
  text := h.text
  cmdLen_lt := h.cmdLen_lt
  plain := h.plain

theorem up_eq (htotal : s.hist.total ≠ 0)
    : s.up = (s.setIndex s.hist.olderIndex).erase.bind Repl.recallLine := by
  unfold Repl.up Hist.olderIndex
  dsimp only
  have hcount : (if s.hist.total > HIST_MAX then HIST_MAX else s.hist.total)
      = min HIST_MAX s.hist.total := by
    split <;> omega
  have hpos : 0 < min HIST_MAX s.hist.total := by
    have hmax : 0 < HIST_MAX := by decide
    omega
  rw [hcount, if_pos hpos]
  rfl

theorem Inv.up (h : s.Inv) (hrow : s.hist.total ≠ 0 → s.cmdLen ≤ s.vga.col)
    : ∃ s', s.up = some s' ∧ s'.Inv := by
  by_cases htotal : s.hist.total = 0
  . refine ⟨s, ?_, h⟩
    unfold Repl.up
    rw [htotal]
    rfl
  . have hindex := h.hist.olderIndex_ge
    obtain ⟨s₁, herase, hinv, hlen, _⟩ := (h.setIndex hindex).erase (hrow htotal)
    rw [up_eq htotal, herase, Option.bind_some]
    exact hinv.recallLine hlen

theorem Inv.down (h : s.Inv) (hrow : s.hist.index ≠ -1 → s.cmdLen ≤ s.vga.col)
    : ∃ s', s.down = some s' ∧ s'.Inv := by
  unfold Repl.down
  split
  . next hindex =>
    obtain ⟨s₁, herase, hinv, hlen, hhist⟩ := h.erase (hrow hindex)
    rw [herase, Option.bind_eq_bind, Option.bind_some]
    split
    . have hge : -1 ≤ s₁.hist.index + 1 := by
        have hold := hinv.hist.index_ge
        omega
      exact (hinv.setIndex hge).recallLine hlen
    . refine ⟨_, rfl, ⟨hinv.shows, hinv.hist.setIndex (Int.le_refl _)⟩, hinv.start_le, ?_, ?_, ?_⟩
      . dsimp only
        rw [List.take_zero]
        have htext := hinv.text
        rw [hlen, List.take_zero] at htext
        exact htext
      . show 0 < CMD_MAX_LEN
        decide
      . intro c hc
        rw [List.take_zero] at hc
        cases hc
  . exact ⟨s, rfl, h⟩

theorem Kept.clearIf (h : s.Kept) (clears : Bool)
    : ∃ s', s.clearIf clears = some s' ∧ s'.Kept ∧ s'.hist = s.hist := by
  unfold Repl.clearIf
  split
  . obtain ⟨v, hclear, hshows⟩ := clear_eq s
    exact ⟨_, hclear, ⟨hshows, h.hist⟩, rfl⟩
  . exact ⟨s, rfl, h, rfl⟩

theorem Kept.handleLine (h : s.Kept) (outcome : LineOutcome)
    : ∃ s', s.handleLine outcome = some s' ∧ s'.Inv ∧ s'.cmdLen = 0 ∧ s'.hist = s.hist := by
  obtain ⟨s₁, hs₁, hkept₁, hhist₁⟩ := h.clearIf outcome.clears
  obtain ⟨s₂, hs₂, hkept₂, _, _, hhist₂⟩ := hkept₁.draw outcome.calls
  have hkept : Kept { s₂ with cmdBuf := outcome.cmdBuf, cmdLen := 0 } := ⟨hkept₂.shows, hkept₂.hist⟩
  obtain ⟨s', hs', hinv, hlen, hhist⟩ := hkept.prompt rfl outcome.cwd
  unfold Repl.handleLine
  rw [hs₁, Option.bind_eq_bind, Option.bind_some, hs₂, Option.bind_some]
  exact ⟨s', hs', hinv, hlen, hhist.trans (hhist₂.trans hhist₁)⟩

-- An empty line would not be added either.
theorem Kept.enter (h : s.Kept) (hlt : s.cmdLen < CMD_MAX_LEN)
    (hplain : PlainText (s.cmdBuf.chars.take s.cmdLen)) (outcome : LineOutcome)
    : ∃ s', s.enter outcome = some s' ∧ s'.Inv ∧ s'.cmdLen = 0
        ∧ s'.hist
          = { histAdd s.hist (s.cmdBuf.set s.cmdLen NUL).chars with index := -1 } := by
  have hline := isLine_set hlt hplain
  obtain ⟨s₁, hs₁, hkept, hlen, hbuf, hhist⟩ := h.draw [.putchar (chr '\n')]
  have hadd : (if s.cmdLen > 0 then histAdd s.hist (s.cmdBuf.set s.cmdLen NUL).chars else s.hist)
      = histAdd s.hist (s.cmdBuf.set s.cmdLen NUL).chars := by
    split
    . rfl
    . next hzero =>
      rw [Nat.eq_zero_of_not_pos hzero]
      exact (histAdd_empty _ _).symm
  unfold Repl.enter
  rw [hs₁, Option.bind_eq_bind, Option.bind_some, hlen, hbuf, hhist]
  dsimp only
  rw [hadd]
  apply Kept.handleLine
  constructor
  . exact hkept.shows
  . exact (h.hist.histAdd hline).setIndex (Int.le_refl _)

theorem Inv.enter (h : s.Inv) (outcome : LineOutcome)
    : ∃ s', s.enter outcome = some s' ∧ s'.Inv := by
  obtain ⟨s', hs', hinv, _⟩ := h.toKept.enter h.cmdLen_lt h.plain outcome
  exact ⟨s', hs', hinv⟩

theorem Inv.step (h : s.Inv) (input : ReplInput) (hrow : s.erased input.key ≤ s.vga.col)
    : ∃ s', s.step input = some s' ∧ s'.Inv := by
  unfold Repl.step erased at *
  dsimp only at *
  split
  . exact h.enter input.outcome
  . split
    . next hkey =>
      rw [if_pos hkey] at hrow
      exact h.backspace hrow
    . next hnot =>
      rw [if_neg hnot] at hrow
      split
      . next hkey =>
        rw [if_pos hkey] at hrow
        apply h.up
        intro htotal
        rw [if_neg htotal] at hrow
        exact hrow
      . next hnot =>
        rw [if_neg hnot] at hrow
        split
        . next hkey =>
          rw [if_pos hkey] at hrow
          apply h.down
          intro hindex
          rw [if_neg hindex] at hrow
          exact hrow
        . split
          . next hchar =>
            apply h.insert
            rw [UInt8.toNat_ofNat']
            omega
          . exact ⟨s, rfl, h⟩

end Repl

end DismasmOS
