import DismasmOS.Em.Render
import DismasmOS.Kbd.Impl

/-!
This module contains the manual reader of `src/shell/wdid.c`: the pages it draws and the keys it follows.
-/

namespace DismasmOS

def PAGER_TEXT_ROWS : Nat := 24
def PAGER_STATUS_ROW : Nat := 24

def VGA_COLOR_DARK_GREY : UInt8 := 8
def VGA_COLOR_LIGHT_GREEN : UInt8 := 10
def VGA_COLOR_YELLOW : UInt8 := 14

-- What the reader uses of an entry, `line_count` is the length of `lines`.
structure WdidEntry where
  name : List UInt8
  lines : List (List UInt8)

-- The entry of the operator `&&`.
def wdidDocChain : WdidEntry where
  name := str "&&"
  lines := [
    str "NAME",
    str "  && - Sequential command chaining operator with fail-fast execution",
    str "",
    str "SYNOPSIS",
    str "  <command1> && <command2> [&& <command3> ...]",
    str "",
    str "DESCRIPTION",
    str "  The && operator enables chaining multiple shell commands together on a",
    str "  single line. Commands are executed sequentially from left to right.",
    str "",
    str "FAIL-FAST BEHAVIOR",
    str "  - If command1 succeeds (returns status 0), execution automatically advances",
    str "    to command2.",
    str "  - If any command in the chain fails (returns non-zero), execution of all",
    str "    subsequent commands in the pipeline is immediately aborted, and the 1 ms",
    str "    3000 Hz PC speaker error tone sounds.",
    str "",
    str "PRACTICAL EXAMPLES",
    str "  touch test.txt && echo Data > test.txt && cat test.txt",
    str "    Creates test.txt, writes 'Data' into it, and prints its contents.",
    str "",
    str "  cd /boot && lsf -sp",
    str "    Switches to /boot and immediately lists its contents with permissions.",
    str "",
    str "SEE ALSO",
    str "  help, wdid"
  ]

section Draw

-- The loop of `is_header_line`.
def noSmallLetters (s : List UInt8) : Bool :=
  match s with
  | [] => true
  | c :: s =>
    if c ≠ NUL ∧ c ≠ chr ':' then
      if c ≥ chr 'a' ∧ c ≤ chr 'z' then false else noSmallLetters s
    else
      true

def isHeaderLine (s : List UInt8) : Bool :=
  if s.headD NUL ≥ chr 'A' ∧ s.headD NUL ≤ chr 'Z' then noSmallLetters s else false

def lineColor (line : List UInt8) : UInt8 :=
  let at3 := line.getD 3 NUL
  let at2 := line.getD 2 NUL
  if isHeaderLine line then
    VGA_COLOR_LIGHT_CYAN
  else if line.getD 0 NUL = chr ' ' ∧ line.getD 1 NUL = chr ' '
      ∧ (at2 = chr '-' ∨ at2 ≥ chr 'a' ∧ at2 ≤ chr 'z' ∧ at3 ≠ chr ' ') then
    VGA_COLOR_LIGHT_GREEN
  else if (strstr line (str "NOTE:")).isSome ∨ (strstr line (str "WARNING:")).isSome
      ∨ (strstr line (str "IMPORTANT:")).isSome then
    VGA_COLOR_YELLOW
  else
    VGA_COLOR_WHITE

-- The character of a text for a column, texts are filled up with blanks.
def columnChar (text : List UInt8) (c : Nat) : UInt8 := if c < strlen text then text.getD c NUL else chr ' '

def pagerBottom (entry : WdidEntry) (topLine : Nat) : Nat :=
  min (topLine + PAGER_TEXT_ROWS) entry.lines.length

def pagerPct (entry : WdidEntry) (topLine : Nat) : Nat :=
  if entry.lines.length > 0 then pagerBottom entry topLine * 100 / entry.lines.length else 0

def pagerStatusParts (entry : WdidEntry) (topLine : Nat) : List (List UInt8) :=
  [str " [WDID] ", entry.name, str "(1) | Line ", itoa (topLine + 1), str "-",
    itoa (pagerBottom entry topLine), str "/", itoa entry.lines.length, str " (",
    itoa (pagerPct entry topLine), str "%) | Wheel/PgUp/PgDn/Arrows | 'q' Exit"]

def renderStatusBar (entry : WdidEntry) (topLine : Nat) (v : Vga) : Option Vga := do
  let status ← (pagerStatusParts entry topLine).foldlM (strcatIn STATUS_SIZE) []
  forUpTo VGA_WIDTH (fun c v =>
    drawCell v c PAGER_STATUS_ROW (columnChar status c) VGA_COLOR_WHITE VGA_COLOR_BLUE) v

def renderRow (entry : WdidEntry) (topLine r : Nat) (v : Vga) : Option Vga :=
  match entry.lines[topLine + r]? with
  | some line =>
    forUpTo VGA_WIDTH (fun c v => drawCell v c r (columnChar line c) (lineColor line) VGA_COLOR_BLACK) v
  | none => do
    let v ← drawCell v 0 r (chr '~') VGA_COLOR_DARK_GREY VGA_COLOR_BLACK
    forUpTo (VGA_WIDTH - 1) (fun c v => drawCell v (c + 1) r (chr ' ') VGA_COLOR_WHITE VGA_COLOR_BLACK) v

def renderPage (entry : WdidEntry) (topLine : Nat) (v : Vga) : Option Vga := do
  let v ← forUpTo PAGER_TEXT_ROWS (renderRow entry topLine) v
  let v ← renderStatusBar entry topLine v
  some (vgaUpdateCursor v 0 PAGER_STATUS_ROW)

end Draw

section Keys

def maxTop (entry : WdidEntry) : Nat :=
  if entry.lines.length > PAGER_TEXT_ROWS then entry.lines.length - PAGER_TEXT_ROWS else 0

inductive PagerKey where
  | quit
  -- the line to show first
  | show (topLine : Nat)
  | ignore

def pagerKey (maxTop topLine : Nat) (c : Int) : PagerKey :=
  if c = charKey (chr 'q') ∨ c = charKey (chr 'Q') ∨ c = 27 then
    .quit
  else if c = KEY_SCROLL_UP then
    .show (if topLine ≥ 3 then topLine - 3 else 0)
  else if c = KEY_SCROLL_DOWN then
    .show (if topLine + 3 > maxTop then maxTop else topLine + 3)
  else if c = KEY_UP ∨ c = charKey (chr 'k') ∨ c = charKey (chr 'K') then
    if topLine > 0 then .show (topLine - 1) else .ignore
  else if c = KEY_DOWN ∨ c = charKey (chr 'j') ∨ c = charKey (chr 'J') then
    if topLine < maxTop then .show (topLine + 1) else .ignore
  else if c = KEY_PGUP ∨ c = charKey (chr 'b') ∨ c = charKey (chr 'B') then
    .show (if topLine ≥ 20 then topLine - 20 else 0)
  else if c = KEY_PGDN ∨ c = charKey (chr ' ') then
    .show (if topLine + 20 > maxTop then maxTop else topLine + 20)
  else if c = KEY_HOME ∨ c = charKey (chr 'g') then
    .show 0
  else if c = KEY_END ∨ c = charKey (chr 'G') then
    .show maxTop
  else
    .ignore

-- What the reader has done after some keys: it is open at a line, or closed and the last keys are not read.
inductive PagerState where
  | reading (topLine : Nat)
  | closed (unread : List Int)
  deriving DecidableEq

def pagerLoop (entry : WdidEntry) (topLine : Nat) (v : Vga) (keys : List Int) : Option (PagerState × Vga) :=
  match keys with
  | [] => some ⟨.reading topLine, v⟩
  | c :: keys =>
    match pagerKey (maxTop entry) topLine c with
    | .quit => do
      let v ← vgaClear v
      some ⟨.closed keys, v⟩
    | .show topLine => do
      let v ← renderPage entry topLine v
      pagerLoop entry topLine v keys
    | .ignore => pagerLoop entry topLine v keys

def runPager (entry : WdidEntry) (v : Vga) (keys : List Int) : Option (PagerState × Vga) := do
  let v ← renderPage entry 0 v
  pagerLoop entry 0 v keys

end Keys

end DismasmOS
