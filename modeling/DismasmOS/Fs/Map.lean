import DismasmOS.Lib.SlotTable
import DismasmOS.Fs.Impl

/-!
This module contains what the file table is for: a finite map from paths to directories and byte
strings with at most 64 keys, and how a table of slots represents one.
-/

namespace DismasmOS

inductive FsNode where
  | dir
  | file (content : List UInt8)
  deriving DecidableEq

abbrev FsMap := Finmap fun _ : List UInt8 => FsNode

-- The paths the callers pass, all of them results of `fs_resolve_path`.
structure FsPath where
  path : List UInt8
  nulFree : NulFree path
  length_lt : path.length < FS_MAX_PATH

namespace FsMap

variable (m : FsMap) (p : List UInt8)

def Full : Prop := m.keys.card = FS_MAX_FILES

instance : Decidable m.Full := inferInstanceAs (Decidable (m.keys.card = FS_MAX_FILES))

def create : Int × FsMap :=
  if p ∈ m ∨ m.Full then ⟨-1, m⟩ else ⟨0, m.insert p (.file [])⟩

def mkdir : Int × FsMap :=
  if p ∈ m ∨ m.Full ∨ p = str "/" then ⟨-1, m⟩ else ⟨0, m.insert p .dir⟩

def write (data : List UInt8) (size : Nat) : Int × FsMap :=
  match m.lookup p with
  | some (.file _) => ⟨0, m.insert p (.file (data.take (min size (FS_MAX_FILESIZE - 1))))⟩
  | _ => ⟨-1, m⟩

def delete : Int × FsMap :=
  if p ∈ m then ⟨0, m.erase p⟩ else ⟨-1, m⟩

end FsMap

def FsFile.node (f : FsFile) : FsNode :=
  if f.isDir then .dir else .file (f.data.chars.take f.size)

def FsFile.entry (f : FsFile) : Option (List UInt8 × FsNode) :=
  if f.used then some ⟨f.path.str, f.node⟩ else none

-- The content ends with a NUL behind its last byte.
structure FsFile.Wf (f : FsFile) : Prop where
  size_lt : f.size < FS_MAX_FILESIZE
  terminated : f.data.get f.size = NUL

namespace FileTable

def slots (t : FileTable) : SlotTable (List UInt8) FsNode := t.files.map FsFile.entry

def lookup (t : FileTable) (p : List UInt8) : Option FsNode :=
  (fsFind t p).map fun i => (t.get i).node

structure Represents (t : FileTable) (m : FsMap) : Prop where
  slots : SlotTable.Represents t.slots m
  wf : ∀ i, (t.get i).Wf

def ChangesOnly (p : List UInt8) (t t' : FileTable) : Prop :=
  ∀ i, t'.get i ≠ t.get i
    → ((t.get i).used = true → (t.get i).path.str = p)
      ∧ ((t'.get i).used = true → (t'.get i).path.str = p)

end FileTable

-- The bytes to be written are readable.
inductive FsCall where
  | create (path : FsPath)
  | mkdir (path : FsPath)
  | write (path : FsPath) (data : List UInt8) (size : Nat) (hsize : size ≤ data.length)
  | delete (path : FsPath)
  | find (path : FsPath)

inductive FsResult where
  | status (code : Int)
  | found (node : Option FsNode)

namespace FsCall

def path : FsCall → List UInt8
  | create p | mkdir p | write p _ _ _ | delete p | find p => p.path

def exec (t : FileTable) : FsCall → FsResult × FileTable
  | create p => (fsCreate t p.path).map .status id
  | mkdir p => (fsMkdir t p.path).map .status id
  | write p data size _ => (fsWrite t p.path data size).map .status id
  | delete p => (fsDelete t p.path).map .status id
  | find p => ⟨.found (t.lookup p.path), t⟩

def spec (m : FsMap) : FsCall → FsResult × FsMap
  | create p => (m.create p.path).map .status id
  | mkdir p => (m.mkdir p.path).map .status id
  | write p data size _ => (m.write p.path data size).map .status id
  | delete p => (m.delete p.path).map .status id
  | find p => ⟨.found (m.lookup p.path), m⟩

end FsCall

end DismasmOS
