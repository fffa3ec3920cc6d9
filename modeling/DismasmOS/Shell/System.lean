import DismasmOS.Proc.Impl
import DismasmOS.Shell.Line
import DismasmOS.Shell.Op

/-!
This module contains the shell together with the process table, and the execution of a whole chain of
commands. A command that opens the editor returns when the user has closed it.
-/

namespace DismasmOS

structure System where
  machine : Machine
  procs : ProcTable

namespace System

def boot : System where
  machine := Machine.boot
  procs := procInit

def shell (s : System) : Shell := s.machine.shell

def table (s : System) : FileTable := s.machine.shell.fs.table

end System

section Pr

-- The call that `cmd_pr` makes, it drops the result.
def prCall (argv : Argv) : Option ProcCall :=
  let isArg := fun (name : String) => strcmp (argv.arg 1) (str name) = 0
  if argv.length < 2 then
    none
  else if isArg "start" then
    if argv.length < 3 then none else some (.start (argv.arg 2))
  else if isArg "kill" then
    if argv.length < 3 then none else some (.kill (argv.arg 2))
  else if isArg "status" then
    none
  else if isArg "-c" then
    if argv.length < 4 then
      none
    else
      let comment := List.intercalate (str " ") (argv.drop 2).dropLast
      some (.setComment (argv.arg (argv.length - 1)) comment)
  else
    some (.start (argv.arg 1))

def cmdPr (t : ProcTable) (argv : Argv) : ProcTable :=
  match prCall argv with
  | some call => (call.exec t).2
  | none => t

end Pr

def Argv.IsPr (argv : Argv) : Prop := argv.length ≠ 0 ∧ strcmp (argv.arg 0) (str "pr") = 0

instance (argv : Argv) : Decidable argv.IsPr := inferInstanceAs (Decidable (_ ∧ _))

-- `em` with the name of a file.
def Argv.IsEm (argv : Argv) : Prop := 2 ≤ argv.length ∧ strcmp (argv.arg 0) (str "em") = 0

namespace System

-- What `proc.c` prints comes from `others`, too.
def executor (others : Shell → Argv → Int × List UInt8) (s : System)
    : Executor (Outcome × ProcTable) where
  execute := fun argv =>
    if argv.IsPr then
      ⟨.exit 0 (s.shell.puts (others s.shell argv).2), cmdPr s.procs argv⟩
    else
      ⟨executeCommand others s.shell argv, s.procs⟩
  echoTo := fun text target => ⟨(shellExecutor others s.shell).echoTo text target, s.procs⟩
  noTarget := ⟨(shellExecutor others s.shell).noTarget, s.procs⟩

def handleSingleCommand (others : Shell → Argv → Int × List UInt8) (s : System) (line : List UInt8)
    : Outcome × ProcTable :=
  handleSingleText (s.executor others) line

end System

-- The keys of a dialog and an editor session.
def Machine.typeKeys (others : Shell → Argv → Int × List UInt8) (m : Machine) (keys : List Int)
    : Option Machine :=
  match keys with
  | [] => some m
  | c :: keys => do
    let m ← m.step others (.key c)
    m.typeKeys others keys

-- The machine in which `em_run` waits for its first key.
def System.enterEm (s : System) (filename : List UInt8) (shell : Shell) : Machine :=
  Machine.enterEm { s.machine with shell := shell } filename

-- The status and the state when a command returns, if it does after exactly these keys. Machine code that
-- `asm` calls is not followed.
def System.execute (others : Shell → Argv → Int × List UInt8) (s : System) (line : List UInt8)
    (keys : List Int)
    : Option (Int × System) :=
  match s.handleSingleCommand others line with
  | ⟨.exit status shell, procs⟩ =>
    if keys = [] then
      some ⟨status, { machine := { s.machine with shell := shell }, procs := procs }⟩
    else
      none
  | ⟨.em filename shell, procs⟩ => do
    let m ← (s.enterEm filename shell).typeKeys others keys
    match m.control with
    | .prompt => some ⟨0, { machine := m, procs := procs }⟩
    | _ => none
  | ⟨.native _ _, _⟩ => none

-- A command of a chain that has been executed.
structure Executed where
  before : System
  line : List UInt8
  keys : List Int
  status : Int
  after : System

-- `executed` are the commands of the chain up to the first one with another status than 0.
inductive ChainRun (others : Shell → Argv → Int × List UInt8)
    : System → List (List UInt8) → List Executed → System → Prop
  | nil (s : System) : ChainRun others s [] [] s
  | stop {s t : System} {line : List UInt8} {keys : List Int} {status : Int}
      (commands : List (List UInt8)) (hexec : s.execute others line keys = some ⟨status, t⟩)
      (hstatus : status ≠ 0)
      : ChainRun others s (line :: commands) [⟨s, line, keys, status, t⟩] t
  | next {s t u : System} {line : List UInt8} {keys : List Int} {commands : List (List UInt8)}
      {executed : List Executed} (hexec : s.execute others line keys = some ⟨0, t⟩)
      (htail : ChainRun others t commands executed u)
      : ChainRun others s (line :: commands) (⟨s, line, keys, 0, t⟩ :: executed) u

def ValidCommand (line : List UInt8) : Prop := NulFree line ∧ line.length < CMD_MAX_LEN

-- A line typed at the prompt.
def LineStep (others : Shell → Argv → Int × List UInt8) (s : System) (line : List UInt8)
    (t : System) : Prop :=
  ValidCommand line ∧ ∃ executed, ChainRun others s (pieces line) executed t

namespace Machine

-- A call on the file table returns -1.
def InputFails (m : Machine) (input : Input) : Prop :=
  ∃ op p, m.op input = some ⟨op, p⟩ ∧ op.TableFails m.shell.fs.table p

-- The name is a directory, or there is neither a file nor a free slot.
def SavesInVain (m : Machine) (input : Input) : Prop :=
  ∃ op p, m.op input = some ⟨op, p⟩
    ∧ (m.shell.fs.table.lookup p = some .dir
      ∨ m.shell.fs.table.lookup p = none ∧ fsFindSlot m.shell.fs.table = none)

-- One of the keys has the property when it is typed.
def SomeKey (others : Shell → Argv → Int × List UInt8) (P : Machine → Input → Prop) (m : Machine)
    (keys : List Int)
    : Prop :=
  match keys with
  | [] => False
  | c :: keys => P m (.key c) ∨ ∃ m', m.step others (.key c) = some m' ∧ m'.SomeKey others P keys

end Machine

namespace ProcCall

-- A call of `proc_start` or `proc_kill` returns -1.
def Fails (t : ProcTable) (call : ProcCall) : Prop :=
  match call with
  | start name => (procStart t name).1 = -1
  | kill name => (procKill t name).1 = -1
  | setComment _ _ => False

-- There is no room for a new process, or none that may be killed.
def Refused (t : ProcTable) (call : ProcCall) : Prop :=
  match call with
  | start name => procFind t name = none ∧ procFindSlot t = none
  | kill name => strcmp name (str "system") = 0 ∨ procFind t name = none
  | setComment _ _ => False

end ProcCall

namespace Executed

variable (others : Shell → Argv → Int × List UInt8) (e : Executed)

def Pr (P : ProcTable → ProcCall → Prop) : Prop :=
  ∃ argv call, lineCall e.line = .execute argv ∧ argv.IsPr ∧ prCall argv = some call
    ∧ P e.before.procs call

def Edits (P : Machine → Input → Prop) : Prop :=
  ∃ argv, lineCall e.line = .execute argv ∧ argv.IsEm
    ∧ (e.before.enterEm (e.before.shell.resolve (argv.arg 1)) e.before.shell).SomeKey others P e.keys

-- An operation on the file table or the process table has failed.
def Fails : Prop :=
  e.before.machine.InputFails (.command e.line) ∨ e.Pr ProcCall.Fails
    ∨ e.Edits others Machine.InputFails

-- `echo` to a directory, `pr` without effect, or an editor that cannot save.
def Swallows : Prop :=
  (∃ op p, e.before.machine.op (.command e.line) = some ⟨op, p⟩
      ∧ op.WritesDirectory e.before.table p)
    ∨ e.Pr ProcCall.Refused ∨ e.Edits others Machine.SavesInVain

end Executed

-- A command that fails reports it and is the last one.
def FailsFast (others : Shell → Argv → Int × List UInt8) (executed : List Executed) : Prop :=
  ∀ i e, executed[i]? = some e → e.Fails others → e.status ≠ 0 ∧ executed.length = i + 1

end DismasmOS
