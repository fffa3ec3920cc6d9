import DismasmOS.Fs.Op
import DismasmOS.Em.Reference
import DismasmOS.Shell.Machine

/-!
This module contains the operation on files that an input of the machine stands for, if it is one,
together with the path it is about.
-/

namespace DismasmOS

-- The path is the one on the command line.
def argvOp (argv : Argv) : Option (FileOp × List UInt8) :=
  if argv.length < 2 then
    none
  else if argv.arg 0 = str "makedir" then
    some ⟨.makedir, argv.arg 1⟩
  else if argv.arg 0 = str "rm" then
    some ⟨.rm, argv.arg 1⟩
  else if argv.arg 0 = str "touch" then
    some ⟨.touch, argv.arg 1⟩
  else
    none

def lineOp (line : List UInt8) : Option (FileOp × List UInt8) :=
  match strchr line (chr '>') with
  | none => argvOp (tokenize line MAX_ARGS)
  | some redir =>
    let target := stripBlanks (skipBlanks (line.drop (redir + 1)))
    if target = [] then
      none
    else
      let cmdLeft := stripBlanks (skipBlanks (line.take redir))
      if isEcho cmdLeft then
        some ⟨.echo (echoText cmdLeft), target⟩
      else
        argvOp (tokenize (stripBlanks (line.take redir)) MAX_ARGS)

-- A call on the file table returns a failure. `makedir` does not even make it if the path exists.
def FileOp.TableFails (op : FileOp) (t : FileTable) (p : List UInt8) : Prop :=
  match op with
  | touch => fsFind t p = none ∧ (fsCreate t p).1 ≠ 0
  | makedir => (fsMkdir t p).1 ≠ 0
  | rm => (fsDelete t p).1 ≠ 0
  | echo text | save text =>
    let created := if fsFind t p = none then fsCreate t p else ⟨0, t⟩
    created.1 ≠ 0 ∨ (fsWrite created.2 p text text.length).1 ≠ 0

def FileOp.written (op : FileOp) : Option (List UInt8) :=
  match op with
  | echo text | save text => some text
  | touch | makedir | rm => none

-- The one case in which an operation does not look at what the table returns.
def FileOp.WritesDirectory (op : FileOp) (t : FileTable) (p : List UInt8) : Prop :=
  op.written ≠ none ∧ t.lookup p = some .dir

namespace Machine

-- Here the path is resolved.
def op (m : Machine) (input : Input) : Option (FileOp × List UInt8) :=
  match m.control, input with
  | .prompt, .command line => (lineOp line).map fun (op, path) => (op, m.shell.resolve path)
  | .editing, .key c => if m.em.Saves c then some ⟨.save m.em.text, m.em.curFilename⟩ else none
  | _, _ => none

-- The map and the events an input should lead to.
def nextMap (m : Machine) (map : FsMap) (input : Input) : FsMap :=
  match m.op input with
  | none => map
  | some (op, p) => (op.spec map p).map

end Machine

end DismasmOS
