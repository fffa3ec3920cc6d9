import DismasmOS.Fs.Init
import DismasmOS.Shell.Impl

/-!
This module contains the whole machine the user types at: the shell at its prompt, which executes
one command after the other (a line chained with `&&` is several of them), the dialog in front of
system files and the editor.
-/

namespace DismasmOS

inductive Control where
  | prompt
  | dialog (filename : List UInt8) (selected : Nat)
  | editing
  -- The processor executes what was typed behind `asm`, there are no steps from here.
  | native (payload : List UInt8)

structure Machine where
  shell : Shell
  em : Em
  control : Control

inductive Input where
  | command (line : List UInt8)
  | key (c : Int)

namespace Machine

def boot : Machine where
  shell := { fs := fsInit, cwd := str "/home", console := [] }
  em := Em.zero
  control := .prompt

def openEm (m : Machine) (filename : List UInt8) : Machine :=
  let ⟨em, fs⟩ := emOpen m.em m.shell.fs filename
  { m with shell := { m.shell with fs := fs }, em := em, control := .editing }

def enterEm (m : Machine) (filename : List UInt8) : Machine :=
  if fsIsSystem m.shell.fs.table filename then
    { m with control := .dialog filename 1 }
  else
    m.openEm filename

def command (others : Shell → Argv → Int × List UInt8) (m : Machine) (line : List UInt8)
    : Machine :=
  match handleSingleCommand others m.shell line with
  | .exit _ s => { m with shell := s }
  | .em filename s => enterEm { m with shell := s } filename
  | .native payload s => { m with shell := s, control := .native payload }

def dialogKey (m : Machine) (filename : List UInt8) (selected : Nat) (c : Int) : Machine :=
  match emConfirmKey selected c with
  | .stay selected => { m with control := .dialog filename selected }
  | .answer true => m.openEm filename
  | .answer false => { m with control := .prompt }

def editKey (m : Machine) (c : Int) : Option Machine := do
  let ⟨closed, em, fs⟩ ← emKey m.em m.shell.fs c
  some
    { m with
        shell := { m.shell with fs := fs }
        em := em
        control := if closed then .prompt else .editing }

def step (others : Shell → Argv → Int × List UInt8) (m : Machine) (input : Input)
    : Option Machine :=
  match m.control, input with
  | .prompt, .command line => some (m.command others line)
  | .dialog filename selected, .key c => some (m.dialogKey filename selected c)
  | .editing, .key c => m.editKey c
  | _, _ => none

end Machine

-- A command fits the line buffer and is free of NULs.
def Input.Valid : Input → Prop
  | .command line => NulFree line ∧ line.length < CMD_MAX_LEN
  | .key _ => True

def MachineStep (others : Shell → Argv → Int × List UInt8) (m : Machine) (input : Input)
    (m' : Machine) : Prop :=
  input.Valid ∧ m.step others input = some m'

end DismasmOS
