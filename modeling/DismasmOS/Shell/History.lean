import DismasmOS.Lib.History
import DismasmOS.Shell.Repl

/-!
This module contains what the keys at the prompt are for: they edit a line, submit it, or recall one
of the last lines that were submitted.
-/

namespace DismasmOS

structure PromptRef where
  line : List UInt8
  history : History UInt8

namespace PromptRef

def start : PromptRef := ⟨[], .empty⟩

def recalling (history : History UInt8) : PromptRef := ⟨history.recalled HIST_MAX, history⟩

def up (r : PromptRef) : PromptRef :=
  if r.history.kept HIST_MAX = [] then r else recalling (r.history.older HIST_MAX)

def down (r : PromptRef) : PromptRef :=
  if r.history.back = none then r else recalling r.history.newer

def key (r : PromptRef) (c : Int) : PromptRef :=
  if c = KEY_NEWLINE then
    recalling (r.history.submit r.line)
  else if c = KEY_BACKSPACE then
    { r with line := r.line.dropLast }
  else if c = KEY_UP then
    r.up
  else if c = KEY_DOWN then
    r.down
  else if ((c ≥ 32 ∧ c ≤ 255) ∧ c ≠ 127) ∧ r.line.length < CMD_MAX_LEN - 1 then
    { r with line := r.line ++ [UInt8.ofNat c.toNat] }
  else
    r

def keys (r : PromptRef) (cs : List Int) : PromptRef := cs.foldl key r

end PromptRef

-- The lines that `shell_run` hands to `handle_line`.
def Repl.handled (s : Repl) (inputs : List ReplInput) : List (List UInt8) :=
  match inputs with
  | [] => []
  | input :: inputs =>
    let line := if input.key = KEY_NEWLINE then [(s.cmdBuf.set s.cmdLen NUL).str] else []
    match s.step input with
    | some s' => line ++ s'.handled inputs
    | none => line

end DismasmOS
