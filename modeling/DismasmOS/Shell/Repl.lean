import DismasmOS.Kbd.Keys
import DismasmOS.Lib.Run
import DismasmOS.Lib.TerminalText
import DismasmOS.Shell.Impl
import DismasmOS.Vga.Reference

/-!
This module contains the prompt of `src/shell/shell.c`: the line that `shell_run` edits key by key,
the history of the lines before it, and both of them on the console. What a finished line does to
the console and to the working directory is part of the input.
-/

namespace DismasmOS

def HIST_MAX : Nat := 32

-- `hist_total` is an `int`, this is its value as long as fewer than 2^31 lines have been added.
structure Hist where
  entries : Vector (CharArray CMD_MAX_LEN) HIST_MAX
  total : Nat
  index : Int

namespace Hist

def empty : Hist where
  entries := .replicate HIST_MAX (.zero CMD_MAX_LEN)
  total := 0
  index := -1

def entry (h : Hist) (i : Nat) : CharArray CMD_MAX_LEN :=
  h.entries.get ⟨i % HIST_MAX, Nat.mod_lt i (by decide)⟩

def setEntry (h : Hist) (i : Nat) (a : CharArray CMD_MAX_LEN) : Hist :=
  { h with entries := h.entries.set (i % HIST_MAX) a (Nat.mod_lt i (by decide)) }

end Hist

def histAdd (h : Hist) (cmd : List UInt8) : Hist :=
  if cmd.headD NUL = NUL then
    h
  else if h.total > 0 ∧ strcmp (h.entry (h.total - 1)).chars cmd = 0 then
    h
  else
    { h.setEntry h.total ((h.entry h.total).assign cmd) with total := h.total + 1 }

def vgaPuts (text : List UInt8) : List VgaCall := (cstr text).map VgaCall.putchar

def printPrompt (cwd : List UInt8) : List VgaCall :=
  [.setColor VGA_COLOR_RED VGA_COLOR_BLACK] ++ vgaPuts (str "root@admin@dismasmOS")
    ++ [.setColor VGA_COLOR_LIGHT_CYAN VGA_COLOR_BLACK, .putchar (chr ':')] ++ vgaPuts cwd
    ++ [.setColor VGA_COLOR_WHITE VGA_COLOR_BLACK] ++ vgaPuts (str " | >>> ")

-- What `handle_line` leaves behind: the working directory, the bytes of the line, and the calls it
-- makes of the console, those behind the last time that it clears the screen.
structure LineOutcome where
  cwd : List UInt8
  cmdBuf : CharArray CMD_MAX_LEN
  clears : Bool
  calls : List VgaCall

-- `console` and `start` are not in the source. They remember all rows that ever were on the screen
-- and the cell behind the last prompt, counted from the first of these rows.
structure Repl where
  vga : Vga
  cmdBuf : CharArray CMD_MAX_LEN
  cmdLen : Nat
  hist : Hist
  console : Console
  start : Nat

namespace Repl

def draw (s : Repl) (calls : List VgaCall) : Option Repl := do
  let vga ← vgaRun s.vga calls
  some { s with vga := vga, console := calls.foldl VgaCall.apply s.console }

def clear (s : Repl) : Option Repl := do
  let vga ← vgaClear s.vga
  some { s with vga := vga, console := .cleared (chr ' ') }

def prompt (s : Repl) (cwd : List UInt8) : Option Repl := do
  let s ← s.draw (printPrompt cwd)
  some { s with start := s.console.cursor }

-- `while (cmd_len > 0) { vga_backspace(); cmd_len--; }`
def erase (s : Repl) : Option Repl :=
  { s with cmdLen := 0 }.draw (List.replicate s.cmdLen .backspace)

def recallLine (s : Repl) : Option Repl :=
  let cmdBuf := s.cmdBuf.strcpy (s.hist.entry s.hist.index.toNat).chars
  { s with cmdBuf := cmdBuf, cmdLen := strlen cmdBuf.chars }.draw (vgaPuts cmdBuf.chars)

def setIndex (s : Repl) (index : Int) : Repl := { s with hist := { s.hist with index := index } }

def clearIf (s : Repl) (clears : Bool) : Option Repl := if clears then s.clear else some s

-- `handle_line(cmd_buf)` and what follows it
def handleLine (s : Repl) (outcome : LineOutcome) : Option Repl := do
  let s ← s.clearIf outcome.clears
  let s ← s.draw outcome.calls
  { s with cmdBuf := outcome.cmdBuf, cmdLen := 0 }.prompt outcome.cwd

def enter (s : Repl) (outcome : LineOutcome) : Option Repl := do
  let s ← s.draw [.putchar (chr '\n')]
  let cmdBuf := s.cmdBuf.set s.cmdLen NUL
  let hist := if s.cmdLen > 0 then histAdd s.hist cmdBuf.chars else s.hist
  { s with hist := { hist with index := -1 } }.handleLine outcome

def backspace (s : Repl) : Option Repl :=
  if s.cmdLen > 0 then
    { s with cmdLen := s.cmdLen - 1 }.draw [.backspace]
  else
    some s

def up (s : Repl) : Option Repl :=
  let count := if s.hist.total > HIST_MAX then HIST_MAX else s.hist.total
  if count > 0 then do
    let index : Int :=
      if s.hist.index = -1 then
        s.hist.total - 1
      else if s.hist.index > s.hist.total - count then
        s.hist.index - 1
      else
        s.hist.index
    let s ← (s.setIndex index).erase
    s.recallLine
  else
    some s

def down (s : Repl) : Option Repl :=
  if s.hist.index ≠ -1 then do
    let s ← s.erase
    if s.hist.index < s.hist.total - 1 then
      (s.setIndex (s.hist.index + 1)).recallLine
    else
      some { s.setIndex (-1) with cmdBuf := s.cmdBuf.set 0 NUL, cmdLen := 0 }
  else
    some s

def insert (s : Repl) (c : UInt8) : Option Repl :=
  if s.cmdLen < CMD_MAX_LEN - 1 then
    { s with cmdBuf := s.cmdBuf.set s.cmdLen c, cmdLen := s.cmdLen + 1 }.draw [.putchar c]
  else
    some s

end Repl

structure ReplInput where
  key : Int
  -- for the key that finishes a line
  outcome : LineOutcome

namespace Repl

def step (s : Repl) (input : ReplInput) : Option Repl :=
  let c := input.key
  if c = KEY_NEWLINE then
    s.enter input.outcome
  else if c = KEY_BACKSPACE then
    s.backspace
  else if c = KEY_UP then
    s.up
  else if c = KEY_DOWN then
    s.down
  else if (c ≥ 32 ∧ c ≤ 255) ∧ c ≠ 127 then
    s.insert (UInt8.ofNat c.toNat)
  else
    some s

end Repl

def shellHeader : List VgaCall :=
  [.setColor VGA_COLOR_WHITE VGA_COLOR_BLACK] ++ vgaPuts (str "dismasmOS ") ++ vgaPuts (str "1.4")
    ++ vgaPuts (str " (x86_64 Long Mode 64-Bit) - Microkernel\n")
    ++ vgaPuts (str "Type 'help' for help.\n\n")

-- `cmd_buf` has no value at the beginning.
def Repl.fresh (v : Vga) (cmdBuf : CharArray CMD_MAX_LEN) : Repl where
  vga := v
  cmdBuf := cmdBuf
  cmdLen := 0
  hist := .empty
  console := .cleared (chr ' ')
  start := 0

def shellInit (v : Vga) (cmdBuf : CharArray CMD_MAX_LEN) (cwd : List UInt8) : Option Repl := do
  let s ← (Repl.fresh v cmdBuf).clear
  let s ← s.draw shellHeader
  s.prompt cwd

-- The characters on the screen from its cell `i` up to the cursor, across its rows.
def Vga.textFrom (v : Vga) (i : Nat) : List UInt8 :=
  (List.range' i (v.row * VGA_WIDTH + v.col - i)).map fun j =>
    ((v.read j).map UInt16.toUInt8).getD NUL

namespace Repl

-- The cells that have left the screen at its top.
def scrolled (s : Repl) : Nat := (s.console.rows.length - VGA_HEIGHT) * VGA_WIDTH

-- What is shown is what will run.
structure LineShown (s : Repl) : Prop where
  visible : s.scrolled ≤ s.start
  start_le : s.start - s.scrolled ≤ s.vga.row * VGA_WIDTH + s.vga.col
  text : s.vga.textFrom (s.start - s.scrolled) = s.cmdBuf.chars.take s.cmdLen

-- The number of characters that a key takes away from the end of the line.
def erased (s : Repl) (c : Int) : Nat :=
  if c = KEY_BACKSPACE then
    min 1 s.cmdLen
  else if c = KEY_UP then
    if s.hist.total = 0 then 0 else s.cmdLen
  else if c = KEY_DOWN then
    if s.hist.index = -1 then 0 else s.cmdLen
  else
    0

def Types (s : Repl) (input : ReplInput) (s' : Repl) : Prop := s.step input = some s'

def TypesShown (s : Repl) (input : ReplInput) (s' : Repl) : Prop := s.Types input s' ∧ s'.LineShown

-- The characters that go stand on the row of the cursor.
def TypesInRow (s : Repl) (input : ReplInput) (s' : Repl) : Prop :=
  s.Types input s' ∧ s.erased input.key ≤ s.vga.col

end Repl

end DismasmOS
