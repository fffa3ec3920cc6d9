import DismasmOS.Fs.Impl
import DismasmOS.Shell.Repl

/-!
This module contains how `fs_show_changes` of `src/fs/fs.c` and the command `changes` show the audit log, and
how a reader gets it back from the text.
-/

namespace DismasmOS

def changeVerb (type : List UInt8) : List UInt8 :=
  if strcmp type (str "EDITED") = 0 then str "Edited"
  else if strcmp type (str "DELETED") = 0 then str "Deleted"
  else if strcmp type (str "CREATED") = 0 then str "Created"
  else str "Viewed"

-- Light cyan, yellow, light green or light red.
def changeColor (type : List UInt8) : UInt8 :=
  if strcmp type (str "VIEW") = 0 then 11
  else if strcmp type (str "EDITED") = 0 then 14
  else if strcmp type (str "CREATED") = 0 then 10
  else 12

def showChange (change : FsChange) : List VgaCall :=
  vgaPuts (str "[") ++ [.setColor (changeColor change.type.chars) VGA_COLOR_BLACK]
    ++ vgaPuts change.type.chars ++ [.setColor VGA_COLOR_WHITE VGA_COLOR_BLACK] ++ vgaPuts (str "]-[")
    ++ [.setColor 9 VGA_COLOR_BLACK] ++ vgaPuts change.user.chars
    ++ [.setColor VGA_COLOR_WHITE VGA_COLOR_BLACK] ++ vgaPuts (str "] - ")
    ++ vgaPuts (changeVerb change.type.chars) ++ vgaPuts (str " ") ++ vgaPuts change.filename.chars
    ++ [.putchar (chr '\n')]

def fsShowChanges (fs : Fs) : List VgaCall :=
  if fs.changeCount = 0 then
    vgaPuts (str "No filesystem changes recorded yet.\n")
  else
    (fs.changeLog.take fs.changeCount).flatMap showChange

def cmdChanges (fs : Fs) : List VgaCall :=
  [.setColor VGA_COLOR_LIGHT_CYAN VGA_COLOR_BLACK] ++ vgaPuts (str "Filesystem Audit Log (changes):\n")
    ++ [.setColor VGA_COLOR_WHITE VGA_COLOR_BLACK] ++ fsShowChanges fs

-- The characters that are written, without their colors.
def writtenText (calls : List VgaCall) : List UInt8 :=
  calls.filterMap fun call =>
    match call with
    | .putchar c => some c
    | .backspace | .setColor _ _ => none

-- What stands in a line between its brackets and behind the verb.
def readChange (line : List UInt8) : FsEvent :=
  let type := (line.drop 1).takeWhile (· ≠ chr ']')
  let rest := line.drop (type.length + 4)
  let user := rest.takeWhile (· ≠ chr ']')
  let action := rest.drop (user.length + 4)
  { type := type
    user := user
    filename := (action.dropWhile (· ≠ chr ' ')).drop 1 }

-- The first line is the title.
def readChanges (text : List UInt8) : List FsEvent := ((text.splitOn (chr '\n')).dropLast.tail).map readChange

end DismasmOS
