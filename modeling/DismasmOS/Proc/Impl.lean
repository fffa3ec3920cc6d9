import DismasmOS.Str.Impl

/-!
This module contains the process table of `src/proc/proc.c`: 16 control blocks searched by name. A
block is never given back, so `next_pid` stays below 17.
-/

namespace DismasmOS

def MAX_PROCS : Nat := 16
def PROC_NAME_MAX : Nat := 32
def PROC_AGENT_MAX : Nat := 32
def PROC_COMMENT_MAX : Nat := 64

inductive ProcState where
  | stopped
  | running
  deriving DecidableEq

structure Process where
  pid : Int
  name : CharArray PROC_NAME_MAX
  agent : CharArray PROC_AGENT_MAX
  state : ProcState
  memKib : UInt32
  memBytes : UInt32
  comment : CharArray PROC_COMMENT_MAX
  used : Bool

def Process.zero : Process where
  pid := 0
  name := CharArray.zero _
  agent := CharArray.zero _
  state := .stopped
  memKib := 0
  memBytes := 0
  comment := CharArray.zero _
  used := false

structure ProcTable where
  procs : List Process
  length_procs : procs.length = MAX_PROCS
  nextPid : Int

namespace ProcTable

def zero : ProcTable where
  procs := List.replicate MAX_PROCS Process.zero
  length_procs := by simp
  nextPid := 2

def get (t : ProcTable) (i : Nat) : Process := t.procs.getD i Process.zero

def modify (t : ProcTable) (i : Nat) (f : Process → Process) : ProcTable where
  procs := t.procs.modify i f
  length_procs := by rw [List.length_modify, t.length_procs]
  nextPid := t.nextPid

end ProcTable

def procInit : ProcTable :=
  let t := ProcTable.zero.modify 0 fun p =>
    { p with
        pid := 0
        name := p.name.strncpy (str "system") (PROC_NAME_MAX - 1)
        agent := p.agent.strncpy (str "service.prf") (PROC_AGENT_MAX - 1)
        state := .running
        memKib := 16
        memBytes := 16384
        comment := p.comment.strncpy (str "core system kernel") (PROC_COMMENT_MAX - 1)
        used := true }
  t.modify 1 fun p =>
    { p with
        pid := 1
        name := p.name.strncpy (str "shell") (PROC_NAME_MAX - 1)
        agent := p.agent.strncpy (str "service.prf") (PROC_AGENT_MAX - 1)
        state := .running
        memKib := 8
        memBytes := 8192
        comment := p.comment.strncpy (str "command line shell") (PROC_COMMENT_MAX - 1)
        used := true }

-- The search loop `proc_start`, `proc_kill` and `proc_set_comment` have in common.
def procFind (t : ProcTable) (name : List UInt8) : Option Nat :=
  t.procs.findIdx? fun p => p.used && strcmp p.name.chars name = 0

def procFindSlot (t : ProcTable) : Option Nat := t.procs.findIdx? fun p => !p.used

def Process.occupy (p : Process) (pid : Int) (name : List UInt8) : Process :=
  { p with
      used := true
      pid := pid
      name := p.name.assign name
      agent := p.agent.assign (str "service.prf")
      state := .running
      memKib := 4
      memBytes := 4096
      comment := p.comment.assign (str "user service worker") }

def procStart (t : ProcTable) (name : List UInt8) : Int × ProcTable :=
  match procFind t name with
  | some i =>
    if (t.get i).state = .running then
      ⟨0, t⟩
    else
      ⟨0, t.modify i fun p => { p with state := .running }⟩
  | none =>
    match procFindSlot t with
    | some i => ⟨0, { t.modify i (·.occupy t.nextPid name) with nextPid := t.nextPid + 1 }⟩
    | none => ⟨-1, t⟩

def procKill (t : ProcTable) (name : List UInt8) : Int × ProcTable :=
  if strcmp name (str "system") = 0 then
    ⟨-1, t⟩
  else
    match procFind t name with
    | some i => ⟨0, t.modify i fun p => { p with state := .stopped }⟩
    | none => ⟨-1, t⟩

def procSetComment (t : ProcTable) (name comment : List UInt8) : Int × ProcTable :=
  match procFind t name with
  | some i => ⟨0, t.modify i fun p => { p with comment := p.comment.assign comment }⟩
  | none => ⟨-1, t⟩

inductive ProcCall where
  | start (name : List UInt8)
  | kill (name : List UInt8)
  | setComment (name comment : List UInt8)

namespace ProcCall

def exec (t : ProcTable) : ProcCall → Int × ProcTable
  | start name => procStart t name
  | kill name => procKill t name
  | setComment name comment => procSetComment t name comment

def name : ProcCall → List UInt8
  | start name | kill name | setComment name _ => name

end ProcCall

end DismasmOS
