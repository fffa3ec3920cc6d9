import DismasmOS.Str.Impl

/-!
This module contains the RAM filesystem of `src/fs/fs.c`: a flat table of 64 file slots searched by
full path, and the ring of the last 64 audited changes.
-/

namespace DismasmOS

def FS_MAX_FILES : Nat := 64
def FS_MAX_PATH : Nat := 64
def FS_MAX_FILESIZE : Nat := 2048
def FS_MAX_CHANGES : Nat := 64

structure FsFile where
  path : CharArray FS_MAX_PATH
  data : CharArray FS_MAX_FILESIZE
  size : Nat
  isDir : Bool
  isSystem : Bool
  used : Bool

def FsFile.zero : FsFile where
  path := CharArray.zero _
  data := CharArray.zero _
  size := 0
  isDir := false
  isSystem := false
  used := false

structure FileTable where
  files : List FsFile
  length_files : files.length = FS_MAX_FILES

namespace FileTable

def zero : FileTable where
  files := List.replicate FS_MAX_FILES FsFile.zero
  length_files := by simp

def get (t : FileTable) (i : Nat) : FsFile := t.files.getD i FsFile.zero

def modify (t : FileTable) (i : Nat) (f : FsFile → FsFile) : FileTable where
  files := t.files.modify i f
  length_files := by rw [List.length_modify, t.length_files]

end FileTable

def fsFindSlot (t : FileTable) : Option Nat := t.files.findIdx? fun f => !f.used

def fsFind (t : FileTable) (path : List UInt8) : Option Nat :=
  t.files.findIdx? fun f => f.used && strcmp f.path.chars path = 0

def fsIsDir (t : FileTable) (path : List UInt8) : Bool :=
  if strcmp path (str "/") = 0 then
    true
  else
    match fsFind t path with
    | none => false
    | some i => (t.get i).isDir

def isSystemPath (path : List UInt8) : Bool :=
  strncmp path (str "/boot") 5 = 0 || strncmp path (str "/krnl") 5 = 0

def fsIsSystem (t : FileTable) (path : List UInt8) : Bool :=
  if isSystemPath path then
    true
  else
    match fsFind t path with
    | none => false
    | some i => (t.get i).isSystem

def FsFile.occupy (f : FsFile) (path : List UInt8) (isDir : Bool) : FsFile :=
  { f with
      used := true
      isDir := isDir
      size := 0
      data := f.data.set 0 NUL
      isSystem := isSystemPath path
      path := f.path.assign path }

def fsMkdir (t : FileTable) (path : List UInt8) : Int × FileTable :=
  if fsFind t path ≠ none ∨ strcmp path (str "/") = 0 then
    ⟨-1, t⟩
  else
    match fsFindSlot t with
    | none => ⟨-1, t⟩
    | some i => ⟨0, t.modify i (·.occupy path true)⟩

def fsCreate (t : FileTable) (path : List UInt8) : Int × FileTable :=
  if fsFind t path ≠ none then
    ⟨-1, t⟩
  else
    match fsFindSlot t with
    | none => ⟨-1, t⟩
    | some i => ⟨0, t.modify i (·.occupy path false)⟩

def FsFile.store (f : FsFile) (data : List UInt8) (size : Nat) : FsFile :=
  { f with
      data := (f.data.memcpy data size).set size NUL
      size := size }

def fsWrite (t : FileTable) (path data : List UInt8) (size : Nat) : Int × FileTable :=
  match fsFind t path with
  | none => ⟨-1, t⟩
  | some i =>
    if (t.get i).isDir then
      ⟨-1, t⟩
    else
      let size := if size ≥ FS_MAX_FILESIZE then FS_MAX_FILESIZE - 1 else size
      ⟨0, t.modify i (·.store data size)⟩

def FsFile.release (f : FsFile) : FsFile :=
  { f with
      used := false
      path := f.path.set 0 NUL
      data := f.data.set 0 NUL
      size := 0 }

def fsDelete (t : FileTable) (path : List UInt8) : Int × FileTable :=
  match fsFind t path with
  | none => ⟨-1, t⟩
  | some i => ⟨0, t.modify i FsFile.release⟩

structure FsChange where
  type : CharArray 10
  user : CharArray 16
  filename : CharArray FS_MAX_PATH

def FsChange.zero : FsChange where
  type := CharArray.zero _
  user := CharArray.zero _
  filename := CharArray.zero _

structure FsEvent where
  type : List UInt8
  user : List UInt8
  filename : List UInt8
  deriving DecidableEq

-- `history` is not in the source, it remembers the arguments of all calls of `fs_log_change`.
structure Fs where
  table : FileTable
  changeLog : List FsChange
  changeCount : Nat
  history : List FsEvent

-- A full ring drops its oldest entry.
def makeRoom (log : List FsChange) (count : Nat) : List FsChange × Nat :=
  if count ≥ FS_MAX_CHANGES then
    ⟨log.tail ++ log.getLast?.toList, FS_MAX_CHANGES - 1⟩
  else
    ⟨log, count⟩

def fsLogChange (fs : Fs) (type user filename : List UInt8) : Fs :=
  let room := makeRoom fs.changeLog fs.changeCount
  { fs with
      changeLog :=
        room.1.modify room.2 fun change =>
          {
            type := change.type.assign type
            user := change.user.assign user
            filename := change.filename.assign filename
          }
      changeCount := room.2 + 1
      history := fs.history ++ [⟨type, user, filename⟩] }

end DismasmOS
