import DismasmOS.Str.Impl

/-!
This module contains the arguments of a command and how `tokenize` of `src/shell/shell.c` cuts them out of
the command line.
-/

namespace DismasmOS

def MAX_ARGS : Nat := 16
def CMD_MAX_LEN : Nat := 128

abbrev Argv := List (List UInt8)

def Argv.arg (argv : Argv) (i : Nat) : List UInt8 := argv.getD i []

def tokenize (line : List UInt8) (maxArgs : Nat) : Argv :=
  match maxArgs with
  | 0 => []
  | maxArgs + 1 =>
    let p := skipBlanks line
    if p = [] then
      []
    else if maxArgs = 0 then
      -- Nothing terminates the last argument there is room for.
      [p]
    else
      p.takeWhile (!isBlank ·) :: tokenize (p.dropWhile (!isBlank ·)) maxArgs

end DismasmOS
