import DismasmOS.Calc.Command
import DismasmOS.Proc.Impl
import DismasmOS.Shell.Line

/-!
This module contains the arrays in which `cmd_calc`, `cmd_colr` and `cmd_pr` join their arguments.
-/

namespace DismasmOS

-- One turn of the loop over the arguments.
def joinArg (size : Nat) (argv : Argv) (first : Nat) (buf : List UInt8) (i : Nat)
    : Option (List UInt8) :=
  (if i > first then strcatIn size buf (str " ") else some buf).bind fun buf =>
    strcatIn size buf (argv.arg i)

def joinArgs (size : Nat) (argv : Argv) (first last : Nat) : Option (List UInt8) :=
  (List.range' first (last - first)).foldlM (joinArg size argv first) []

structure ArgBuffer where
  size : Nat
  first : Nat
  last : Nat

-- The array that a command makes use of, and the arguments that it joins.
def argBuffer (argv : Argv) : Option ArgBuffer :=
  let isCmd := fun (name : String) => strcmp (argv.arg 0) (str name) = 0
  if isCmd "colr" then
    if argv.length < 2 then none else some ⟨64, 1, argv.length⟩
  else if isCmd "calc" then
    if argv.length < 2 then none else some ⟨128, 1, argv.length⟩
  else if isCmd "pr" then
    let isArg := fun (name : String) => strcmp (argv.arg 1) (str name) = 0
    if argv.length < 2 ∨ isArg "start" ∨ isArg "kill" ∨ isArg "status" ∨ ¬isArg "-c"
        ∨ argv.length < 4 then
      none
    else
      some ⟨PROC_COMMENT_MAX, 2, argv.length - 1⟩
  else
    none

def ArgBuffer.assemble (b : ArgBuffer) (argv : Argv) : Option (List UInt8) :=
  joinArgs b.size argv b.first b.last

-- The arguments that are joined.
def ArgBuffer.args (b : ArgBuffer) (argv : Argv) : Argv := (argv.drop b.first).take (b.last - b.first)

-- The length of the arguments with a blank between them.
def joinedLength (args : Argv) : Nat := (args.map List.length).sum + (args.length - 1)

-- No `strcat` of the command writes behind its array.
def ArgsFit (argv : Argv) : Prop := ∀ b, argBuffer argv = some b → b.assemble argv ≠ none

-- The array of `calc` is as long as the line, the other two are shorter.
def ShortArgs (argv : Argv) : Prop :=
  ∀ b, argBuffer argv = some b → strcmp (argv.arg 0) (str "calc") ≠ 0
    → joinedLength (b.args argv) ≤ 63

end DismasmOS
