import DismasmOS.Kbd.Keys
import DismasmOS.Fs.Impl
import DismasmOS.Em.Dict

/-!
This module contains the text editor of `src/em/em.c`: the gap free buffer with its cursor, the
command line, saving, and the dialog in front of system files. An access outside of `buffer` and a
subtraction that leaves `size_t` make the result `none`.
-/

namespace DismasmOS

def EM_BUF_SIZE : Nat := 2048

def KEY_ESCAPE : Int := 27
def KEY_NEWLINE : Int := 10
def KEY_TAB : Int := 9
def KEY_BACKSPACE : Int := 8

inductive EmMode where
  | edit
  | command
  deriving DecidableEq

inductive EmFileType where
  | generic
  | bash
  | python
  | markdown
  deriving DecidableEq

abbrev EmBuffer := CharArray EM_BUF_SIZE

structure Em where
  buffer : EmBuffer
  bufLen : Nat
  cursorPos : Nat
  mode : EmMode
  curFileType : EmFileType
  cmdBuf : CharArray 32
  cmdLen : Nat
  msgBuf : List UInt8
  curFilename : List UInt8

def Em.zero : Em where
  buffer := CharArray.zero _
  bufLen := 0
  cursorPos := 0
  mode := .edit
  curFileType := .generic
  cmdBuf := CharArray.zero _
  cmdLen := 0
  msgBuf := []
  curFilename := []

namespace EmBuffer

def read (buf : EmBuffer) (i : Nat) : Option UInt8 := buf.chars[i]?

def write (buf : EmBuffer) (i : Nat) (c : UInt8) : Option EmBuffer :=
  if i < EM_BUF_SIZE then some (buf.set i c) else none

end EmBuffer

def sizeSub (a b : Nat) : Option Nat := if b ≤ a then some (a - b) else none

def newline : UInt8 := chr '\n'

-- `while (p > 0 && buffer[p - 1] != '\n') p--`
def lineStart (buf : EmBuffer) (p : Nat) : Option Nat :=
  match p with
  | 0 => some 0
  | p + 1 => do
    let c ← buf.read p
    if c ≠ newline then lineStart buf p else some (p + 1)

-- `while (p < limit && buffer[p] != '\n') p++`, with `n` positions left before the limit.
def lineEnd (buf : EmBuffer) (p : Nat) (n : Nat) : Option Nat :=
  match n with
  | 0 => some p
  | n + 1 => do
    let c ← buf.read p
    if c ≠ newline then lineEnd buf (p + 1) n else some p

def emMoveLeft (e : Em) : Em :=
  if e.cursorPos > 0 then { e with cursorPos := e.cursorPos - 1 } else e

def emMoveRight (e : Em) : Em :=
  if e.cursorPos < e.bufLen then { e with cursorPos := e.cursorPos + 1 } else e

def emMoveUp (e : Em) : Option Em := do
  let p ← lineStart e.buffer e.cursorPos
  if p > 0 then
    let prevLineEnd ← sizeSub p 1
    let prevLineStart ← lineStart e.buffer prevLineEnd
    let colOffset ← sizeSub e.cursorPos p
    let prevLineLen ← sizeSub prevLineEnd prevLineStart
    let colOffset := if colOffset > prevLineLen then prevLineLen else colOffset
    some { e with cursorPos := prevLineStart + colOffset }
  else
    some e

def emMoveDown (e : Em) : Option Em := do
  let p ← lineEnd e.buffer e.cursorPos (e.bufLen - e.cursorPos)
  if p < e.bufLen then
    let start ← lineStart e.buffer e.cursorPos
    let colOffset ← sizeSub e.cursorPos start
    let nextLineStart := p + 1
    let nextLineEnd ← lineEnd e.buffer nextLineStart (e.bufLen - nextLineStart)
    let nextLineLen ← sizeSub nextLineEnd nextLineStart
    let colOffset := if colOffset > nextLineLen then nextLineLen else colOffset
    some { e with cursorPos := nextLineStart + colOffset }
  else
    some e

def emMoveHome (e : Em) : Option Em := do
  let p ← lineStart e.buffer e.cursorPos
  some { e with cursorPos := p }

def emMoveEnd (e : Em) : Option Em := do
  let p ← lineEnd e.buffer e.cursorPos (e.bufLen - e.cursorPos)
  some { e with cursorPos := p }

-- `buffer[k] = buffer[k + 1]` for the `n` positions from `k` on.
def shiftDown (buf : EmBuffer) (k : Nat) (n : Nat) : Option EmBuffer :=
  match n with
  | 0 => some buf
  | n + 1 => do
    let c ← buf.read (k + 1)
    let buf ← buf.write k c
    shiftDown buf (k + 1) n

-- `buffer[k] = buffer[k - 1]` for the `n` positions from `k` down.
def shiftUp (buf : EmBuffer) (k : Nat) (n : Nat) : Option EmBuffer :=
  match n with
  | 0 => some buf
  | n + 1 => do
    let p ← sizeSub k 1
    let c ← buf.read p
    let buf ← buf.write k c
    shiftUp buf p n

def emDeleteChar (e : Em) : Option Em :=
  if e.cursorPos < e.bufLen then do
    let last ← sizeSub e.bufLen 1
    let buf ← shiftDown e.buffer e.cursorPos (last - e.cursorPos)
    let buf ← buf.write last NUL
    some { e with buffer := buf, bufLen := last }
  else
    some e

def emBackspace (e : Em) : Option Em :=
  if e.cursorPos > 0 then do
    let last ← sizeSub e.bufLen 1
    let pos ← sizeSub e.cursorPos 1
    let buf ← shiftDown e.buffer pos (last - pos)
    let buf ← buf.write last NUL
    some { e with buffer := buf, bufLen := last, cursorPos := pos }
  else
    some e

def emInsertChar (e : Em) (c : UInt8) : Option Em :=
  if e.bufLen < EM_BUF_SIZE - 1 then do
    let buf ← shiftUp e.buffer e.bufLen (e.bufLen - e.cursorPos)
    let buf ← buf.write e.cursorPos c
    let bufLen := e.bufLen + 1
    let buf ← buf.write bufLen NUL
    some { e with buffer := buf, bufLen := bufLen, cursorPos := e.cursorPos + 1 }
  else
    some e

section Typo

def isInDict (w : List UInt8) (d : List (List UInt8)) : Bool := d.any fun x => strcmp w x = 0

def isTypo (fileType : EmFileType) (w : List UInt8) : Bool :=
  if w.length < 2 ∨ w.length ≥ 32 then
    false
  else
    let lower := w.map tolower
    if isInDict lower dictCommon then
      false
    else if fileType = .bash ∧ isInDict lower dictBash then
      false
    else if fileType = .python ∧ isInDict lower dictPython then
      false
    else if fileType = .markdown ∧ isInDict lower dictMarkdown then
      false
    else if isInDict lower dictCSystem then
      false
    else if fileType = .generic
        ∧ (isInDict lower dictBash ∨ isInDict lower dictPython ∨ isInDict lower dictMarkdown) then
      false
    else
      true

-- `while (i < limit && is_word_char(buffer[i])) i++`, with `n` positions left before the limit.
def wordEnd (buf : EmBuffer) (i : Nat) (n : Nat) : Option Nat :=
  match n with
  | 0 => some i
  | n + 1 => do
    let c ← buf.read i
    if isalpha c then wordEnd buf (i + 1) n else some i

-- The first typo from `i` on, every turn of the loop moves `i` closer to the limit.
def findTypo (fileType : EmFileType) (buf : EmBuffer) (limit : Nat) (fuel : Nat) (i : Nat)
    : Option (Option (Nat × Nat)) :=
  match fuel with
  | 0 => some none
  | fuel + 1 =>
    if i < limit then do
      let c ← buf.read i
      if isalpha c then
        let stop ← wordEnd buf i (limit - i)
        let len ← sizeSub stop i
        if isTypo fileType ((buf.chars.drop i).take len) then
          some (some ⟨i, len⟩)
        else
          findTypo fileType buf limit fuel stop
      else
        findTypo fileType buf limit fuel (i + 1)
    else
      some none

def hopTo (e : Em) (start len : Nat) (what : List UInt8) : Em :=
  let len := if len > 16 then 16 else len
  { e with
      cursorPos := start
      msgBuf := what ++ (e.buffer.chars.drop start).take len ++ str "'" }

def emHopError (e : Em) : Option Em := do
  let searchStart ← wordEnd e.buffer e.cursorPos (e.bufLen - e.cursorPos)
  let ahead ← findTypo e.curFileType e.buffer e.bufLen (e.bufLen - searchStart) searchStart
  match ahead with
  | some ⟨start, len⟩ => some (hopTo e start len (str "hop to typo: '"))
  | none =>
    let behind ← findTypo e.curFileType e.buffer searchStart searchStart 0
    match behind with
    | some ⟨start, len⟩ => some (hopTo e start len (str "hop to typo (wrap): '"))
    | none => some { e with msgBuf := str "no typos found" }

end Typo

section Save

def savedMsg (e : Em) : List UInt8 :=
  str "saved " ++ e.curFilename ++ str " (" ++ itoa e.bufLen ++ str " B)"

def emSave (e : Em) (fs : Fs) : Em × Fs :=
  let created :=
    if fsFind fs.table e.curFilename = none then fsCreate fs.table e.curFilename else ⟨0, fs.table⟩
  if created.1 ≠ 0 then
    ⟨{ e with msgBuf := str "error: cannot create file" }, { fs with table := created.2 }⟩
  else
    let written := fsWrite created.2 e.curFilename e.buffer.chars e.bufLen
    let fs := fsLogChange { fs with table := written.2 } (str "EDITED") (str "root") e.curFilename
    ⟨{ e with msgBuf := savedMsg e }, fs⟩

-- `cmd_buf[cmd_len] = '\0'`
def endCommand (e : Em) : Em := { e with cmdBuf := e.cmdBuf.set e.cmdLen NUL }

def emCommand (e : Em) : List UInt8 :=
  let cmd := e.cmdBuf.str
  let cmd := if cmd.headD NUL = chr ';' then cmd.tail else cmd
  cmd.dropWhile (· = chr ' ')

def editMode (e : Em) : Em := { e with mode := .edit, cmdLen := 0 }

-- The flag says whether the editor is left.
def executeEmCommand (e : Em) (fs : Fs) : Option (Bool × Em × Fs) := do
  let e := endCommand e
  let cmd := emCommand e
  if strcmp cmd (str "q") = 0 then
    some ⟨true, e, fs⟩
  else if strcmp cmd (str "s") = 0 then
    let ⟨e, fs⟩ := emSave e fs
    some ⟨false, editMode e, fs⟩
  else if strcmp cmd (str "wsc") = 0 ∨ strcmp cmd (str "wq") = 0 then
    let ⟨e, fs⟩ := emSave e fs
    some ⟨true, e, fs⟩
  else if strcmp cmd (str "-m") = 0 then
    let e ← emHopError e
    some ⟨false, editMode e, fs⟩
  else
    let msg := str "unknown command: ;" ++ e.cmdBuf.str
    some ⟨false, editMode { e with msgBuf := msg }, fs⟩

end Save

section Run

def keyChar (c : Int) : UInt8 := UInt8.ofNat c.toNat

def emCommandKey (e : Em) (fs : Fs) (c : Int) : Option (Bool × Em × Fs) :=
  if c = KEY_ESCAPE ∨ c = KEY_ALT then
    some ⟨false, { e with mode := .edit, cmdLen := 0, msgBuf := [] }, fs⟩
  else if c = KEY_NEWLINE then
    executeEmCommand e fs
  else if c = KEY_BACKSPACE then
    if e.cmdLen > 0 then
      some ⟨false, { e with cmdLen := e.cmdLen - 1 }, fs⟩
    else
      some ⟨false, { e with mode := .edit }, fs⟩
  else if c ≥ 32 ∧ c ≤ 126 ∧ e.cmdLen < 31 then
    some ⟨false, { e with cmdBuf := e.cmdBuf.set e.cmdLen (keyChar c), cmdLen := e.cmdLen + 1 }, fs⟩
  else
    some ⟨false, e, fs⟩

def emEditKey (e : Em) (c : Int) : Option Em :=
  if c = KEY_ALT then
    some { e with mode := .command, cmdLen := 0, msgBuf := [] }
  else if c = KEY_UP then
    emMoveUp e
  else if c = KEY_DOWN then
    emMoveDown e
  else if c = KEY_LEFT then
    some (emMoveLeft e)
  else if c = KEY_RIGHT then
    some (emMoveRight e)
  else if c = KEY_HOME then
    emMoveHome e
  else if c = KEY_END then
    emMoveEnd e
  else if c = KEY_DELETE then
    emDeleteChar e
  else if c = KEY_BACKSPACE then
    emBackspace e
  else if c = KEY_NEWLINE then
    emInsertChar e newline
  else if c = KEY_TAB then do
    let e ← emInsertChar e (chr ' ')
    let e ← emInsertChar e (chr ' ')
    let e ← emInsertChar e (chr ' ')
    emInsertChar e (chr ' ')
  else if c ≥ 32 ∧ c ≤ 255 ∧ c ≠ 127 then
    emInsertChar e (keyChar c)
  else
    some e

-- One turn of the loop of `em_run`.
def emKey (e : Em) (fs : Fs) (c : Int) : Option (Bool × Em × Fs) :=
  match e.mode with
  | .command => emCommandKey e fs c
  | .edit => do
    let e ← emEditKey e c
    some ⟨false, e, fs⟩

def endsWith (s suffix : List UInt8) : Bool :=
  strlen s ≥ strlen suffix && strcmp (s.drop (strlen s - strlen suffix)) suffix = 0

def detectFileType (filename : List UInt8) (buf : EmBuffer) (bufLen : Nat) : EmFileType :=
  let contains := fun (s needle : List UInt8) => (strstr s needle).isSome
  if endsWith filename (str ".sh") || endsWith filename (str ".bash") then
    .bash
  else if contains filename (str "sh.cfg") || contains filename (str "aliases")
      || contains filename (str "motd") then
    .bash
  else if endsWith filename (str ".py") || endsWith filename (str ".pyw") then
    .python
  else if endsWith filename (str ".md") || endsWith filename (str ".markdown") then
    .markdown
  else if contains filename (str "README") || contains filename (str "readme")
      || contains filename (str "CHANGES") || contains filename (str "changes") then
    .markdown
  else if bufLen ≥ 2 ∧ buf.get 0 = chr '#' ∧ buf.get 1 = chr '!' then
    if contains buf.chars (str "bash") || contains buf.chars (str "sh") then
      .bash
    else if contains buf.chars (str "python") then
      .python
    else
      .generic
  else
    .generic

-- `em_run` between the dialog and its first key.
def emOpen (e : Em) (fs : Fs) (filename : List UInt8) : Em × Fs :=
  let fs := fsLogChange fs (str "VIEW") (str "root") filename
  let loaded : EmBuffer × Nat :=
    match fsFind fs.table filename with
    | some i =>
      let f := fs.table.get i
      let bufLen := if f.size ≥ EM_BUF_SIZE then EM_BUF_SIZE - 1 else f.size
      ⟨(e.buffer.memcpy f.data.chars bufLen).set bufLen NUL, bufLen⟩
    | none => ⟨e.buffer.set 0 NUL, 0⟩
  ⟨
    { e with
        curFilename := filename
        buffer := loaded.1
        bufLen := loaded.2
        cursorPos := 0
        mode := .edit
        cmdLen := 0
        msgBuf := []
        curFileType := detectFileType filename loaded.1 loaded.2 },
    fs
  ⟩

inductive EmDialog where
  | stay (selected : Nat)
  | answer (ok : Bool)

-- One turn of the loop of `em_confirm_system_file`, 0 selects OK and 1 EXIT.
def emConfirmKey (selected : Nat) (key : Int) : EmDialog :=
  if key = KEY_LEFT then
    .stay 0
  else if key = KEY_RIGHT then
    .stay 1
  else if key = KEY_TAB ∨ key = KEY_UP ∨ key = KEY_DOWN then
    .stay (1 - selected)
  else if key = KEY_NEWLINE then
    .answer (selected = 0)
  else if key = KEY_ESCAPE then
    .answer false
  else
    .stay selected

end Run

end DismasmOS
