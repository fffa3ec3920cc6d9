import DismasmOS.Lib.LineEditor
import DismasmOS.Em.Impl

/-!
This module contains what the editor is for: a text of at most 2047 characters edited by keys, with
a command line next to it. It also contains the loop over all keys of an editing session.
-/

namespace DismasmOS

def EM_CAPACITY : Nat := EM_BUF_SIZE - 1

structure EmRef where
  doc : Doc UInt8
  -- The command typed so far, if the command line is active.
  command : Option (List UInt8)

namespace EmRef

def start (content : List UInt8) : EmRef where
  doc := { text := content, cursor := 0, cursor_le := Nat.zero_le _ }
  command := none

def insert (c : UInt8) (d : Doc UInt8) : Doc UInt8 := d.insert EM_CAPACITY c

def editKey (d : Doc UInt8) (c : Int) : Doc UInt8 :=
  if c = KEY_UP then
    d.up newline
  else if c = KEY_DOWN then
    d.down newline
  else if c = KEY_LEFT then
    d.left
  else if c = KEY_RIGHT then
    d.right
  else if c = KEY_HOME then
    d.home newline
  else if c = KEY_END then
    d.lineEnd newline
  else if c = KEY_DELETE then
    d.delete
  else if c = KEY_BACKSPACE then
    if 0 < d.cursor then d.backspace else d
  else if c = KEY_NEWLINE then
    insert newline d
  else if c = KEY_TAB then
    insert (chr ' ') (insert (chr ' ') (insert (chr ' ') (insert (chr ' ') d)))
  else if c ≥ 32 ∧ c ≤ 255 ∧ c ≠ 127 then
    insert (keyChar c) d
  else
    d

def commandName (cmd : List UInt8) : List UInt8 :=
  (if cmd.head? = some (chr ';') then cmd.tail else cmd).dropWhile (· = chr ' ')

def closes (cmd : List UInt8) : Prop :=
  commandName cmd = str "q" ∨ commandName cmd = str "wsc" ∨ commandName cmd = str "wq"

instance (cmd : List UInt8) : Decidable (closes cmd) :=
  inferInstanceAs (Decidable (_ = _ ∨ _ = _ ∨ _ = _))

def execute (fileType : EmFileType) (r : EmRef) (cmd : List UInt8) : Bool × EmRef :=
  if closes cmd then
    ⟨true, r⟩
  else if commandName cmd = str "-m" then
    ⟨false, { doc := r.doc.hop isalpha (isTypo fileType), command := none }⟩
  else
    ⟨false, { r with command := none }⟩

def commandKey (fileType : EmFileType) (r : EmRef) (cmd : List UInt8) (c : Int) : Bool × EmRef :=
  if c = KEY_ESCAPE ∨ c = KEY_ALT then
    ⟨false, { r with command := none }⟩
  else if c = KEY_NEWLINE then
    execute fileType r cmd
  else if c = KEY_BACKSPACE then
    ⟨false, { r with command := if cmd = [] then none else some cmd.dropLast }⟩
  else if c ≥ 32 ∧ c ≤ 126 ∧ cmd.length < 31 then
    ⟨false, { r with command := some (cmd ++ [keyChar c]) }⟩
  else
    ⟨false, r⟩

def key (fileType : EmFileType) (r : EmRef) (c : Int) : Bool × EmRef :=
  match r.command with
  | some cmd => commandKey fileType r cmd c
  | none =>
    if c = KEY_ALT then
      ⟨false, { r with command := some [] }⟩
    else
      ⟨false, { r with doc := editKey r.doc c }⟩

def loop (fileType : EmFileType) (r : EmRef) (keys : List Int) : Bool × EmRef :=
  match keys with
  | [] => ⟨false, r⟩
  | c :: keys =>
    let ⟨closed, r⟩ := r.key fileType c
    if closed then ⟨true, r⟩ else r.loop fileType keys

end EmRef

-- The loop of `em_run`, as far as the keys go.
def emLoop (e : Em) (fs : Fs) (keys : List Int) : Option (Bool × Em × Fs) :=
  match keys with
  | [] => some ⟨false, e, fs⟩
  | c :: keys => do
    let ⟨closed, e, fs⟩ ← emKey e fs c
    if closed then some ⟨true, e, fs⟩ else emLoop e fs keys

namespace Em

def text (e : Em) : List UInt8 := e.buffer.chars.take e.bufLen

def typed (e : Em) : List UInt8 := e.cmdBuf.chars.take e.cmdLen

-- The keys that make the editor save.
def Saves (e : Em) (c : Int) : Prop :=
  e.mode = .command ∧ c = KEY_NEWLINE
    ∧ (EmRef.commandName e.typed = str "s" ∨ EmRef.commandName e.typed = str "wsc"
      ∨ EmRef.commandName e.typed = str "wq")

instance (e : Em) (c : Int) : Decidable (e.Saves c) :=
  inferInstanceAs (Decidable (_ ∧ _ ∧ (_ ∨ _ ∨ _)))

structure Inv (e : Em) : Prop where
  cursor_le : e.cursorPos ≤ e.bufLen
  bufLen_le : e.bufLen ≤ EM_CAPACITY
  terminated : e.buffer.get e.bufLen = NUL
  cmdLen_le : e.cmdLen ≤ 31
  typed : NulFree e.typed

structure Refines (e : Em) (r : EmRef) : Prop where
  inv : e.Inv
  text : e.text = r.doc.text
  cursor : e.cursorPos = r.doc.cursor
  mode : r.command = match e.mode with | .edit => none | .command => some e.typed

end Em

-- The bytes of the file `em_run` starts with, none if there is no such file.
def emContent (t : FileTable) (filename : List UInt8) : List UInt8 :=
  match fsFind t filename with
  | some i => (t.get i).data.chars.take (min (t.get i).size EM_CAPACITY)
  | none => []

end DismasmOS
