import DismasmOS.Kbd.Lemmas.Decode
import DismasmOS.Shell.Lemmas.History
import DismasmOS.Shell.Line

/-!
This module contains the way of a line from the keyboard to the shell: what is typed is what `handle_line`
gets, however the interrupts of the keyboard and of the mouse and the shell take turns.
-/

namespace DismasmOS

-- The commands that may take keys for themselves: the manual reader, the editor, and whatever machine code does.
def readingCommands : List (List UInt8) := ["wdid", "man", "em", "asm"].map str

def Unattended (line : List UInt8) : Prop :=
  ∀ piece ∈ pieces line, ∀ argv, lineCall piece = .execute argv
    → ∀ name ∈ readingCommands, strcmp (argv.arg 0) name ≠ 0

section Characters

variable {c : UInt8} {lines : List (List UInt8)}

end Characters

namespace PromptRef

variable {r : PromptRef} {c : UInt8} {line : List UInt8} {lines : List (List UInt8)}

theorem submitted_key (r : PromptRef) (key : Int)
    : (r.key key).history.submitted = r.history.submitted ++ if key = KEY_NEWLINE then [r.line] else [] := by
  unfold PromptRef.key
  split
  . rfl
  . rw [List.append_nil]
    split
    . rfl
    split
    . unfold PromptRef.up PromptRef.recalling
      split
      . rfl
      . exact r.history.submitted_older _
    split
    . unfold PromptRef.down PromptRef.recalling
      split
      . rfl
      . exact r.history.submitted_newer
    split <;> rfl

theorem submitted_extends (r : PromptRef) (cs : List Int)
    : r.history.submitted <+: (r.keys cs).history.submitted := by
  induction cs generalizing r with
  | nil => exact List.prefix_rfl
  | cons c cs ih =>
    apply List.IsPrefix.trans _ (ih (r.key c))
    rw [submitted_key]
    exact List.prefix_append _ _

-- What is submitted begins with the line that the first key submits, if it submits one.
theorem submitted_first {key : Int} {cs : List Int}
    (h : (r.keys (key :: cs)).history.submitted = r.history.submitted ++ lines)
    : ∃ later, lines = (if key = KEY_NEWLINE then [r.line] else []) ++ later
      ∧ ((r.key key).keys cs).history.submitted = (r.key key).history.submitted ++ later := by
  have hextends : (r.key key).history.submitted <+: r.history.submitted ++ lines := by
    rw [← h]
    exact (r.key key).submitted_extends cs
  rw [submitted_key, List.prefix_append_right_inj] at hextends
  obtain ⟨later, rfl⟩ := hextends
  refine ⟨later, rfl, ?_⟩
  rw [submitted_key, List.append_assoc]
  exact h

end PromptRef

namespace Repl

variable {s : Repl} {r : PromptRef}

theorem Follows.handed (h : s.Follows r) : (s.cmdBuf.set s.cmdLen NUL).str = r.line := by
  rw [s.cmdBuf.str_set_nul h.cmdLen_lt, h.line]
  rw [h.line]
  exact h.plain.nulFree

theorem Follows.handled (h : s.Follows r) (inputs : List ReplInput)
    : (r.keys (inputs.map (·.key))).history.submitted = r.history.submitted ++ s.handled inputs := by
  induction inputs generalizing s r with
  | nil => exact (List.append_nil _).symm
  | cons input inputs ih =>
    obtain ⟨s', hstep, hnext⟩ := h.step input
    unfold Repl.handled
    rw [hstep, h.handed]
    dsimp only
    rw [← List.append_assoc, ← PromptRef.submitted_key]
    exact ih hnext

-- With each input come the keys that its line reads when it is handed over. An unattended line reads none.
def Reads (s : Repl) (inputs : List (ReplInput × List Int)) : Prop :=
  match inputs with
  | [] => True
  | ⟨input, read⟩ :: inputs =>
    (read ≠ [] → input.key = KEY_NEWLINE ∧ ¬Unattended (s.cmdBuf.set s.cmdLen NUL).str)
      ∧ ∀ s', s.step input = some s' → s'.Reads inputs

-- All keys in the order in which they are read.
def keysRead (inputs : List (ReplInput × List Int)) : List Int := inputs.flatMap fun x => x.1.key :: x.2

theorem keysRead_cons (input : ReplInput) (read : List Int) (inputs : List (ReplInput × List Int))
    : keysRead (⟨input, read⟩ :: inputs) = input.key :: (read ++ keysRead inputs) := by
  unfold keysRead
  rw [List.flatMap_cons]
  rfl

theorem Follows.keysRead (h : s.Follows r) {inputs : List (ReplInput × List Int)} (hreads : s.Reads inputs)
    {rest : List Int} {lines : List (List UInt8)} (hlines : ∀ line ∈ lines, Unattended line)
    (hsubmitted : (r.keys (keysRead inputs ++ rest)).history.submitted = r.history.submitted ++ lines)
    : Repl.keysRead inputs = (inputs.map (·.1)).map (·.key) := by
  induction inputs generalizing s r lines with
  | nil => rfl
  | cons x inputs ih =>
    obtain ⟨input, read⟩ := x
    obtain ⟨s', hstep, hnext⟩ := h.step input
    obtain ⟨hread, hreads⟩ := hreads
    rw [keysRead_cons, List.cons_append, List.append_assoc] at hsubmitted
    obtain ⟨later, rfl, hlater⟩ := PromptRef.submitted_first hsubmitted
    have hnone : read = [] := by
      by_contra hne
      obtain ⟨hkey, hattended⟩ := hread hne
      rw [h.handed] at hattended
      apply hattended
      apply hlines
      rw [if_pos hkey]
      exact List.mem_append_left _ (List.mem_singleton_self _)
    rw [hnone, List.nil_append] at hlater
    rw [keysRead_cons, hnone, List.nil_append,
      ih hnext (hreads s' hstep) (fun line hline => hlines line (List.mem_append_right _ hline)) hlater]
    rfl

end Repl

section Typed

variable {e : KeyEvent} {es₀ es : List KeyEvent} {s₀ s t : KeySystem} {lines : List (List UInt8)}

variable {v : Vga} {cmdBuf : CharArray CMD_MAX_LEN} {cwd : List UInt8} {r₀ r : Repl}
  {inputs₀ inputs : List ReplInput}

theorem TypingStep.press (s : KeySystem) (scancode : UInt8) (hinterrupts : s.interrupts = true)
    (hshadow : s.shadow = false) (hroom : s.kbd.queue.count < 255)
    : TypingStep s (.kbdInterrupt scancode) { s.wake with kbd := kbdHandler s.kbd scancode } := by
  refine ⟨⟨.kbdInterrupt s scancode, fun _ => ⟨hinterrupts, hshadow⟩, nofun⟩, fun _ => ?_, nofun⟩
  rw [RingBuffer.length_pending]
  exact hroom

end Typed

end DismasmOS
