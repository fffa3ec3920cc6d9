import DismasmOS.Lib.Run
import DismasmOS.Proc.Impl

/-!
This module contains what the process table is meant to be: a map from names to processes in which a
name given to `proc_start` can be found again.
-/

namespace DismasmOS

-- A token of a command line, which holds 127 characters.
def ShellToken (s : List UInt8) : Prop :=
  s ≠ [] ∧ s.length ≤ 127 ∧ ∀ c ∈ s, c ≠ NUL ∧ isBlank c = false

namespace ProcTable

structure Entry (t : ProcTable) (i : Nat) (name : List UInt8) : Prop where
  lt : i < MAX_PROCS
  used : (t.get i).used = true
  name : (t.get i).name.str = name

def Distinct (t : ProcTable) : Prop :=
  ∀ i j n k, t.Entry i n → t.Entry j k → n = k ∨ (t.get i).pid = (t.get j).pid → i = j

def SystemRuns (t : ProcTable) : Prop := ∃ i, t.Entry i (str "system") ∧ (t.get i).state = .running

def stop (t : ProcTable) (i : Nat) : ProcTable := t.modify i fun p => { p with state := .stopped }

-- `proc_start(name)` has returned 0.
def Started (t : ProcTable) (name : List UInt8) : Prop :=
  ∃ i, t.Entry i name ∧ (∀ j, t.Entry j name → j = i) ∧ (t.get i).state = .running
    ∧ procStart t name = ⟨0, t⟩
    ∧ (name ≠ str "system" → procKill t name = ⟨0, t.stop i⟩)

end ProcTable

namespace ProcCall

def Honoured (t : ProcTable) (call : ProcCall) : Prop :=
  ((call.exec t).1 = -1 → (call.exec t).2 = t)
    ∧ ∀ name, call = .start name → (call.exec t).1 = 0 → (call.exec t).2.Started name

-- A name that is about to be stored has room in `name[PROC_NAME_MAX]`.
def Fits (t : ProcTable) (call : ProcCall) : Prop :=
  ∀ name, call = .start name → name.length < PROC_NAME_MAX ∨ procFindSlot t = none

end ProcCall

def ProcStep (t : ProcTable) (call : ProcCall) (t' : ProcTable) : Prop :=
  ShellToken call.name ∧ t' = (call.exec t).2

end DismasmOS
