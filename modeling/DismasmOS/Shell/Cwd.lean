import DismasmOS.Shell.Line
import DismasmOS.Shell.Op

/-!
This module contains what the working directory of the shell should be, an existing directory, and the
inputs that may leave it without one. `lsf` lists the working directory if it gets no other.
-/

namespace DismasmOS

-- The last argument that is no flag.
def lsfTarget (argv : Argv) : Option (List UInt8) :=
  argv.tail.foldl (fun target arg => if arg.headD NUL = chr '-' then target else some arg) none

-- The status, without the listing.
def cmdLsf (s : Shell) (argv : Argv) : Int :=
  let resolved :=
    match lsfTarget argv with
    | some target => s.resolve target
    | none => (cstr s.cwd).take (FS_MAX_PATH - 1)
  if fsIsDir s.fs.table resolved then 0 else 1

-- `cd` and `cd ~` do not look whether the directory exists.
def Argv.GoesHome (argv : Argv) : Prop :=
  argv.arg 0 = str "cd" ∧ (argv.length < 2 ∨ argv.arg 1 = str "~")

namespace Shell

def InDirectory (s : Shell) : Prop :=
  s.cwd = str "/" ∨ s.fs.table.lookup s.cwd = some .dir

end Shell

namespace Machine

def RemovesCwd (m : Machine) (input : Input) : Prop := m.op input = some ⟨.rm, m.shell.cwd⟩

def GoesHomeless (m : Machine) (input : Input) : Prop :=
  ∃ line argv, input = .command line ∧ lineCall line = .execute argv ∧ argv.GoesHome
    ∧ m.shell.fs.table.lookup (str "/home") ≠ some .dir

end Machine

-- A step that neither removes the working directory nor enters `/home` while it is no directory.
def SettledStep (others : Shell → Argv → Int × List UInt8) (m : Machine) (input : Input)
    (m' : Machine) : Prop :=
  MachineStep others m input m' ∧ ¬m.RemovesCwd input ∧ ¬m.GoesHomeless input

end DismasmOS
