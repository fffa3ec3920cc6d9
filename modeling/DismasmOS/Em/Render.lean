import DismasmOS.Em.Impl
import DismasmOS.Lib.Layout
import DismasmOS.Vga.Impl

/-!
This module contains what the editor of `src/em/em.c` puts on the screen: the text with its typos, the
status line and the command or message line, and the texts that it builds in arrays of fixed size.
-/

namespace DismasmOS

def EM_TEXT_ROWS : Nat := 23
def EM_STATUS_ROW : Nat := 23
def EM_CMD_ROW : Nat := 24

def drawCell (v : Vga) (col row : Nat) (c fg bg : UInt8) : Option Vga :=
  if col ≥ VGA_WIDTH ∨ row ≥ VGA_HEIGHT then
    some v
  else
    v.write (vgaIndex row col) (vgaCell c (fg ||| (bg <<< 4)))

def getCursorRowCol (e : Em) : Option Place :=
  forUpTo (min e.cursorPos e.bufLen) (fun i p => do
    let c ← e.buffer.read i
    some (if c = newline then p.newline else p.advance VGA_WIDTH)) ⟨0, 0⟩

section Text

-- A word handed to `is_typo`, and its answer.
structure ScannedWord where
  start : Nat
  len : Nat
  typo : Bool
  deriving DecidableEq

-- `n` characters from position `k` on, as far as they are in the rows of the text.
def drawWord (buf : EmBuffer) (fg : UInt8) (v : Vga) (p : Place) (k : Nat) (n : Nat)
    : Option (Vga × Place) :=
  match n with
  | 0 => some ⟨v, p⟩
  | n + 1 =>
    if p.row < EM_TEXT_ROWS then do
      let c ← buf.read k
      let v ← drawCell v p.col p.row c fg VGA_COLOR_BLACK
      drawWord buf fg v (p.advance VGA_WIDTH) (k + 1) n
    else
      some ⟨v, p⟩

-- The loop over the text, every turn of it moves `i` closer to `bufLen`. It returns the scanned words, too.
def drawText (fileType : EmFileType) (buf : EmBuffer) (bufLen : Nat) (fuel : Nat) (v : Vga) (p : Place)
    (i : Nat) : Option (Vga × List ScannedWord) :=
  match fuel with
  | 0 => some ⟨v, []⟩
  | fuel + 1 =>
    if i < bufLen ∧ p.row < EM_TEXT_ROWS then do
      let c ← buf.read i
      if isalpha c then
        let stop ← wordEnd buf i (bufLen - i)
        let len ← sizeSub stop i
        let typo := isTypo fileType ((buf.chars.drop i).take len)
        let fg := if typo then VGA_COLOR_LIGHT_RED else VGA_COLOR_WHITE
        let drawn ← drawWord buf fg v p i len
        let rest ← drawText fileType buf bufLen fuel drawn.1 drawn.2 stop
        some ⟨rest.1, ⟨i, len, typo⟩ :: rest.2⟩
      else if c = newline then
        drawText fileType buf bufLen fuel v p.newline (i + 1)
      else
        let v ← drawCell v p.col p.row c VGA_COLOR_LIGHT_GREY VGA_COLOR_BLACK
        drawText fileType buf bufLen fuel v (p.advance VGA_WIDTH) (i + 1)
    else
      some ⟨v, []⟩

end Text

section Status

def emTag (e : Em) : List UInt8 :=
  match e.mode with
  | .edit =>
    match e.curFileType with
    | .bash => str "[EDIT:BASH] "
    | .python => str "[EDIT:PYTHON] "
    | .markdown => str "[EDIT:MARKDOWN] "
    | .generic => str "[EDIT] "
  | .command => str "[COMMAND] "

def statusParts (e : Em) (p : Place) : List (List UInt8) :=
  [emTag e, e.curFilename, str " | ", itoa (p.row + 1), str ":", itoa (p.col + 1), str " | ",
    itoa e.bufLen, str " B | Alt: cmd (;wsc ;q ;s ;-m)"]

-- The status line as if `status` had no end.
def statusText (e : Em) (p : Place) : List UInt8 := (statusParts e p).foldl strcat []

def STATUS_SIZE : Nat := 80

-- The same text in `status`, unless it is too long for it.
def statusIn (e : Em) : Option (List UInt8) := do
  let p ← getCursorRowCol e
  (statusParts e p).foldlM (strcatIn STATUS_SIZE) []

end Status

section Render

-- `for (col = 0; text[col] && col < VGA_WIDTH; col++)`
def drawLine (row : Nat) (fg bg : UInt8) (v : Vga) (col : Nat) (text : List UInt8) : Option Vga :=
  match text with
  | [] => some v
  | c :: text =>
    if c ≠ NUL ∧ col < VGA_WIDTH then do
      let v ← drawCell v col row c fg bg
      drawLine row fg bg v (col + 1) text
    else
      some v

def blankRow (row : Nat) (bg : UInt8) (v : Vga) : Option Vga :=
  forUpTo VGA_WIDTH (fun col v => drawCell v col row (chr ' ') VGA_COLOR_WHITE bg) v

-- The cursor is shown in the command line or in the text.
def renderCommandRow (e : Em) (p : Place) (v : Vga) : Option Vga := do
  let v ← blankRow EM_CMD_ROW VGA_COLOR_BLACK v
  match e.mode with
  | .command => do
    let v ← drawCell v 0 EM_CMD_ROW (chr ';') VGA_COLOR_LIGHT_CYAN VGA_COLOR_BLACK
    let v ← forUpTo (min e.cmdLen (VGA_WIDTH - 1)) (fun col v => do
      let c ← e.cmdBuf.chars[col]?
      drawCell v (col + 1) EM_CMD_ROW c VGA_COLOR_WHITE VGA_COLOR_BLACK) v
    some (vgaUpdateCursor v (e.cmdLen + 1) EM_CMD_ROW)
  | .edit => do
    let v ← drawLine EM_CMD_ROW VGA_COLOR_LIGHT_CYAN VGA_COLOR_BLACK v 0 e.msgBuf
    if p.row < EM_TEXT_ROWS then
      some (vgaUpdateCursor v p.col p.row)
    else
      some (vgaUpdateCursor v 0 (EM_TEXT_ROWS - 1))

-- The text rows are drawn before the status line is built. Whether it fits in `status` is what `statusIn` says,
-- here its text has no end.
def emRender (e : Em) (v : Vga) : Option (Vga × List ScannedWord) := do
  let v ← forUpTo EM_TEXT_ROWS (fun r => blankRow r VGA_COLOR_BLACK) v
  let text ← drawText e.curFileType e.buffer e.bufLen e.bufLen v ⟨0, 0⟩ 0
  let v ← blankRow EM_STATUS_ROW VGA_COLOR_BLUE text.1
  let p ← getCursorRowCol e
  let v ← drawLine EM_STATUS_ROW VGA_COLOR_WHITE VGA_COLOR_BLUE v 0 (statusText e p)
  let v ← renderCommandRow e p v
  some ⟨v, text.2⟩

end Render

section Messages

def MSG_BUF_SIZE : Nat := 80

-- `strcpy(msg_buf, first)` and one `strcat` for each of the other parts.
def buildMsg (first : List UInt8) (parts : List (List UInt8)) : Option (List UInt8) := do
  let msg ← strcpyIn MSG_BUF_SIZE first
  parts.foldlM (strcatIn MSG_BUF_SIZE) msg

def emSaveMsg (e : Em) (fs : Fs) : Option (List UInt8) :=
  let created :=
    if fsFind fs.table e.curFilename = none then fsCreate fs.table e.curFilename else ⟨0, fs.table⟩
  if created.1 ≠ 0 then
    buildMsg (str "error: cannot create file") []
  else
    buildMsg (str "saved ") [e.curFilename, str " (", itoa e.bufLen, str " B)"]

def hopMsg (e : Em) (start len : Nat) (what : List UInt8) : Option (List UInt8) :=
  let len := if len > 16 then 16 else len
  buildMsg what [(e.buffer.chars.drop start).take len, str "'"]

def emHopErrorMsg (e : Em) : Option (List UInt8) := do
  let searchStart ← wordEnd e.buffer e.cursorPos (e.bufLen - e.cursorPos)
  let ahead ← findTypo e.curFileType e.buffer e.bufLen (e.bufLen - searchStart) searchStart
  match ahead with
  | some ⟨start, len⟩ => hopMsg e start len (str "hop to typo: '")
  | none =>
    let behind ← findTypo e.curFileType e.buffer searchStart searchStart 0
    match behind with
    | some ⟨start, len⟩ => hopMsg e start len (str "hop to typo (wrap): '")
    | none => buildMsg (str "no typos found") []

-- `msg_buf` behind the command, `q` leaves it as it is.
def executeEmCommandMsg (e : Em) (fs : Fs) : Option (List UInt8) :=
  let e := endCommand e
  let cmd := emCommand e
  if strcmp cmd (str "q") = 0 then
    some e.msgBuf
  else if strcmp cmd (str "s") = 0 then
    emSaveMsg e fs
  else if strcmp cmd (str "wsc") = 0 ∨ strcmp cmd (str "wq") = 0 then
    emSaveMsg e fs
  else if strcmp cmd (str "-m") = 0 then
    emHopErrorMsg e
  else
    buildMsg (str "unknown command: ;") [e.cmdBuf.str]

-- The status line fits in `status`, and all that the commands say fits in `msg_buf`.
def Em.TextsFit (e : Em) (fs : Fs) : Prop :=
  statusIn e ≠ none ∧ emSaveMsg e fs ≠ none ∧ emHopErrorMsg e ≠ none
    ∧ executeEmCommandMsg e fs ≠ none

end Messages

end DismasmOS
