import DismasmOS.Kbd.MouseInit

/-!
This module contains what the initialization of the mouse does on any hardware: it comes to its end, writes the
same commands, reads only what is there and writes only when it may or has waited long enough.
-/

namespace DismasmOS

open Access

-- A write that is no delay.
def isCommand : Access → Bool
  | input _ _ => false
  | output port _ => port ≠ IO_WAIT_PORT

-- What a wait consists of: it reads the status or lets time pass.
def Wait (a : Access) : Prop := (∃ s, a = input MOUSE_PORT_STATUS s) ∨ a = output IO_WAIT_PORT 0

-- The status says no, or time passes.
def WaitsOn (ready : UInt8 → Bool) (a : Access) : Prop :=
  (∃ s, a = input MOUSE_PORT_STATUS s ∧ ready s = false) ∨ a = output IO_WAIT_PORT 0

def LastSays (ready : UInt8 → Bool) (trace : List Access) : Prop :=
  ∃ s, trace.getLast? = some (input MOUSE_PORT_STATUS s) ∧ ready s = true

-- The status has just been read `MOUSE_TIMEOUT` times, and has said no each time.
structure TimedOut (trace : List Access) : Prop where
  polls : ∃ rest polls, trace = rest ++ polls ∧ (polls.filter (!isOutput ·)).length = MOUSE_TIMEOUT
    ∧ ∀ a ∈ polls, WaitsOn canWrite a

-- What may come after a trace.
def Polite (trace : List Access) : Access → Prop
  | input port _ => port = MOUSE_PORT_DATA → LastSays canRead trace
  | output port _ => port ≠ IO_WAIT_PORT → LastSays canWrite trace ∨ TimedOut trace

theorem Wait.polite {a : Access} (h : Wait a) (trace : List Access) : Polite trace a := by
  obtain ⟨s, rfl⟩ | rfl := h
  . intro hport
    exact absurd hport (by decide)
  . intro hport
    exact absurd rfl hport

theorem Wait.isCommand {a : Access} (h : Wait a) : isCommand a = false := by
  obtain ⟨s, rfl⟩ | rfl := h
  . rfl
  . rfl

section Hardware

variable {α β : Type} {prog : StateT Hardware Option α} {f : α → StateT Hardware Option β}
  {h h' h'' : Hardware} {n n' : Nat} {ws ws' : List Access}

-- From `h` to `h'` the program has written `ws`, with at most `n` accesses.
structure Talk (h h' : Hardware) (ws : List Access) (n : Nat) : Prop where
  polite : Obeys Polite h'.trace
  grows : h.trace <+: h'.trace
  writes : h'.trace.filter isCommand = h.trace.filter isCommand ++ ws
  length : h'.trace.length ≤ h.trace.length + n

theorem Talk.refl (hpolite : Obeys Polite h.trace) : Talk h h [] 0 :=
  ⟨hpolite, List.prefix_rfl, (List.append_nil _).symm, Nat.le_refl _⟩

theorem Talk.mono (ht : Talk h h' ws n) (hle : n ≤ n') : Talk h h' ws n' :=
  ⟨ht.polite, ht.grows, ht.writes, Nat.le_trans ht.length (Nat.add_le_add_left hle _)⟩

theorem Talk.trans (h₁ : Talk h h' ws n) (h₂ : Talk h' h'' ws' n') : Talk h h'' (ws ++ ws') (n + n') := by
  have hlen := h₁.length
  have hlen' := h₂.length
  refine ⟨h₂.polite, h₁.grows.trans h₂.grows, ?_, by omega⟩
  rw [h₂.writes, h₁.writes, List.append_assoc]

def Talks (prog : StateT Hardware Option α) (ws : List Access) (n : Nat) : Prop :=
  ∀ h, Obeys Polite h.trace → Yields prog h fun _ h' => Talk h h' ws n

-- The next step of a program that has come from `h` to `h'`.
theorem Talk.next {R : β → Hardware → Prop} (ht : Talk h h' ws n) (hprog : Talks prog ws' n')
    (hf : ∀ a h'', Talk h h'' (ws ++ ws') (n + n') → Yields (f a) h'' R)
    : Yields (prog >>= f) h' R := by
  apply Yields.bind
  apply (hprog h' ht.polite).mono
  intro a h'' htalk
  exact hf a h'' (ht.trans htalk)

-- What a wait leaves behind. Between two of its polls time passes.
structure Waited (ready : UInt8 → Bool) (n : Nat) (h h' : Hardware) (result : Int) (polls : List Access)
    : Prop where
  trace : h'.trace = h.trace ++ polls
  wait : ∀ a ∈ polls, Wait a
  length_le : polls.length ≤ 2 * n - 1
  success : result = 0 → LastSays ready polls
  failure : result ≠ 0 → (polls.filter (!isOutput ·)).length = n ∧ ∀ a ∈ polls, WaitsOn ready a

section Poll

variable {ready : UInt8 → Bool} {h₁ h₂ : Hardware} {s : UInt8}

theorem Waited.refused (htrace : h₁.trace = h.trace ++ [input MOUSE_PORT_STATUS s]) (hready : ready s = false)
    : Waited ready 1 h h₁ (-1) [input MOUSE_PORT_STATUS s] := by
  refine ⟨htrace, ?_, Nat.le_refl _, ?_, ?_⟩
  . intro a ha
    exact .inl ⟨s, List.mem_singleton.mp ha⟩
  . intro hresult
    cases hresult
  . intro _
    refine ⟨rfl, ?_⟩
    intro a ha
    exact .inl ⟨s, List.mem_singleton.mp ha, hready⟩

end Poll

theorem LastSays.append {ready : UInt8 → Bool} {polls : List Access} (h : LastSays ready polls)
    (rest : List Access)
    : LastSays ready (rest ++ polls) := by
  obtain ⟨s, hlast, hready⟩ := h
  refine ⟨s, ?_, hready⟩
  rw [List.getLast?_append, hlast]
  rfl

theorem Waited.polite {ready : UInt8 → Bool} {result : Int} {polls : List Access}
    (hwaited : Waited ready n h h' result polls) (hpolite : Obeys Polite h.trace)
    : Obeys Polite h'.trace := by
  rw [hwaited.trace]
  apply hpolite.append
  intro a ha trace
  exact (hwaited.wait a ha).polite trace

-- Without an answer it is 0.
def Answered (v : UInt8) (h : Hardware) : Prop := v = 0 ∨ input MOUSE_PORT_DATA v ∈ h.trace

theorem Answered.mono {v : UInt8} (hv : Answered v h) (ht : Talk h h' ws n) : Answered v h' :=
  hv.imp_right fun hmem => ht.grows.subset hmem

end Hardware

end DismasmOS
