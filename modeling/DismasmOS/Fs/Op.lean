import DismasmOS.Fs.Map

/-!
This module contains what the commands that change files are for, in terms of the finite map behind
the file table: the status, the map and the events in the audit log that each of them should leave.
-/

namespace DismasmOS

inductive FileOp where
  | touch
  | makedir
  | rm
  | echo (text : List UInt8)
  | save (text : List UInt8)

structure FileOp.Result where
  status : Int
  map : FsMap
  events : List FsEvent

def rootEvent (type : List UInt8) (p : List UInt8) : FsEvent := ⟨type, str "root", p⟩

def CREATED : List UInt8 := str "CREATED"
def EDITED : List UInt8 := str "EDITED"
def DELETED : List UInt8 := str "DELETED"
def VIEW : List UInt8 := str "VIEW"

-- Directories cannot be overwritten.
def FsMap.overwrite (m : FsMap) (p text : List UInt8) : FsMap :=
  if m.lookup p = some .dir then m else m.insert p (.file text)

namespace FileOp

-- `echo` and the editor differ in the event for a new file. Neither looks at what writing returns.
def store (m : FsMap) (p text : List UInt8) (typeIfNew : List UInt8) : Result :=
  if p ∉ m ∧ m.Full then
    ⟨1, m, []⟩
  else
    ⟨0, m.overwrite p text, [rootEvent (if p ∈ m then EDITED else typeIfNew) p]⟩

def spec (op : FileOp) (m : FsMap) (p : List UInt8) : Result :=
  match op with
  | touch =>
    if p ∈ m then
      ⟨0, m, []⟩
    else if m.Full then
      ⟨1, m, []⟩
    else
      ⟨0, m.insert p (.file []), [rootEvent CREATED p]⟩
  | makedir =>
    if p ∈ m ∨ p = str "/" ∨ m.Full then
      ⟨1, m, []⟩
    else
      ⟨0, m.insert p .dir, [rootEvent CREATED p]⟩
  | rm => if p ∈ m then ⟨0, m.erase p, [rootEvent DELETED p]⟩ else ⟨1, m, []⟩
  | echo text => store m p text CREATED
  | save text => store m p text EDITED

end FileOp

-- Logging an event in the ring of the source.
def Fs.logEvent (fs : Fs) (ev : FsEvent) : Fs := fsLogChange fs ev.type ev.user ev.filename

-- What an operation should leave: the table follows the map, the log is extended by the events.
def FileOp.Simulated (op : FileOp) (fs : Fs) (m : FsMap) (p : List UInt8) (fs' : Fs) : Prop :=
  ∃ t', t'.Represents (op.spec m p).map
    ∧ ((op.spec m p).status ≠ 0 → t' = fs.table)
    ∧ fs' = (op.spec m p).events.foldl Fs.logEvent { fs with table := t' }

end DismasmOS
