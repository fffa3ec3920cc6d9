import DismasmOS.Fs.Impl

/-!
This module contains `fs_list` of `src/fs/fs.c`: the text it prints for a directory, without the
colours. A file is listed if its path is that of the directory, a slash and a name without another
slash.
-/

namespace DismasmOS

def printPad (s : List UInt8) (pad : Nat) : List UInt8 :=
  cstr s ++ List.replicate (pad - strlen s) (chr ' ')

def printHexVal (val : UInt64) (pad : Nat) : List UInt8 :=
  let hex := utoaHex val
  let buf := str "0x" ++ List.replicate (8 - strlen hex) (chr '0')
  printPad (strcat buf hex) pad

def listHeader (showSize showPerm : Bool) : List UInt8 :=
  if showPerm && showSize then
    printPad (str "Permissions") 14 ++ printPad (str "Rights") 18
      ++ printPad (str "Size (KiB / B)") 18 ++ printPad (str "Size (Hex)") 14 ++ str "Name\n"
      ++ str "----------------------------------------------------------------------\n"
  else if showPerm then
    printPad (str "Permissions") 14 ++ printPad (str "Rights") 20 ++ str "Name\n"
      ++ str "--------------------------------------------------\n"
  else if showSize then
    printPad (str "Size (KiB / B)") 18 ++ printPad (str "Size (Hex)") 14 ++ str "Name\n"
      ++ str "--------------------------------------------------\n"
  else
    []

def listFooter (showSize showPerm : Bool) (count : Nat) : List UInt8 :=
  if count = 0 ∧ (showPerm || showSize) then str "(empty directory)\n" else []

namespace FsFile

def permColumns (f : FsFile) : List UInt8 :=
  let mode :=
    if f.isDir then
      str "drwxr-xr-x"
    else if f.isSystem then
      str "-rwxr-xr-x"
    else
      str "-rw-r--r--"
  printPad mode 14 ++ printPad (str "[root:admin rwx]") 18

-- Both numbers are converted to `int` for `itoa`.
def sizeColumns (f : FsFile) : List UInt8 :=
  if f.isDir then
    printPad (str "<DIR>") 18 ++ printPad (str "-") 14
  else
    let size := UInt64.ofNat f.size
    let kib := (size + 1023) / 1024
    let sbuf := strcat (itoa kib.toInt64.toInt32.toInt) (str " KiB (")
    let sbuf := strcat (strcat sbuf (itoa size.toInt64.toInt32.toInt)) (str " B)")
    printPad sbuf 18 ++ printHexVal size 14

def listColumns (f : FsFile) (showSize showPerm : Bool) : List UInt8 :=
  (if showPerm then f.permColumns else []) ++ (if showSize then f.sizeColumns else [])

def listEnd (f : FsFile) : List UInt8 := if f.isDir then str "/\n" else str "\n"

-- `rel_name`, `none` for NULL.
def relName (f : FsFile) (base : List UInt8) : Option (List UInt8) :=
  let path := f.path.chars
  if strcmp base (str "/") = 0 then
    if path.headD NUL = chr '/' then
      let after := path.tail
      if strchr after (chr '/') = none then some after else none
    else
      none
  else
    let baseLen := strlen base
    if strncmp path base baseLen = 0 ∧ path.getD baseLen NUL = chr '/' then
      let after := path.drop (baseLen + 1)
      if strchr after (chr '/') = none then some after else none
    else
      none

end FsFile

structure Listing where
  text : List UInt8
  count : Nat

namespace Listing

def entry (l : Listing) (f : FsFile) (base : List UInt8) (showSize showPerm : Bool) : Listing :=
  if !f.used then
    l
  else if strcmp f.path.chars base = 0 then
    l
  else
    match f.relName base with
    | none => l
    | some relName =>
      if relName.headD NUL = NUL then
        l
      else
        { text := l.text ++ f.listColumns showSize showPerm ++ cstr relName ++ f.listEnd
          count := l.count + 1 }

end Listing

def fsList (t : FileTable) (dirPath : List UInt8) (showSize showPerm : Bool) : List UInt8 :=
  let base := (cstr dirPath).take (FS_MAX_PATH - 1)
  let l : Listing := { text := listHeader showSize showPerm, count := 0 }
  let l := t.files.foldl (fun l f => l.entry f base showSize showPerm) l
  l.text ++ listFooter showSize showPerm l.count

end DismasmOS
