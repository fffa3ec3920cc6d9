import Mathlib.Data.List.Induction

/-!
This module contains programs that reach hardware through ports, what they yield, and the hardware of which
nothing is known but its answers.
-/

-- An access without a result is one the hardware does not define.
structure Ports (σ : Type) where
  inb : UInt16 → StateT σ Option UInt8
  outb : UInt16 → UInt8 → StateT σ Option Unit

section Yields

variable {σ α β : Type} {prog : StateT σ Option α} {f : α → StateT σ Option β} {s : σ} {Q Q' : α → σ → Prop}
  {R : β → σ → Prop}

-- From `s` the program comes to an end, in a state with `Q`.
def Yields (prog : StateT σ Option α) (s : σ) (Q : α → σ → Prop) : Prop :=
  ∃ a s', prog s = some ⟨a, s'⟩ ∧ Q a s'

namespace Yields

theorem pure {a : α} (h : Q a s) : Yields (Pure.pure a) s Q := ⟨a, s, rfl, h⟩

theorem bind (h : Yields prog s fun a s' => Yields (f a) s' R) : Yields (prog >>= f) s R := by
  obtain ⟨a, s', hprog, b, s'', hf, hR⟩ := h
  refine ⟨b, s'', ?_, hR⟩
  show (prog s).bind (fun p => f p.1 p.2) = some ⟨b, s''⟩
  rw [hprog]
  exact hf

theorem step {a : α} {s' : σ} (h : prog s = some ⟨a, s'⟩) (hf : Yields (f a) s' R) : Yields (prog >>= f) s R :=
  bind ⟨a, s', h, hf⟩

theorem mono (h : Yields prog s Q) (himp : ∀ a s', Q a s' → Q' a s') : Yields prog s Q' := by
  obtain ⟨a, s', hprog, hQ⟩ := h
  exact ⟨a, s', hprog, himp a s' hQ⟩

theorem lift {o : Option α} {a : α} (ho : o = some a) (h : Q a s) : Yields (StateT.lift o) s Q := by
  refine ⟨a, s, ?_, h⟩
  rw [ho]
  rfl

end Yields

end Yields

section Obeys

variable {α : Type} {allowed : List α → α → Prop} {trace : List α} {a : α}

-- Everything in the trace is allowed after what came before it.
def Obeys (allowed : List α → α → Prop) (trace : List α) : Prop :=
  ∀ pre a post, trace = pre ++ a :: post → allowed pre a

theorem obeys_concat : Obeys allowed (trace ++ [a]) ↔ Obeys allowed trace ∧ allowed trace a := by
  constructor
  . intro h
    refine ⟨?_, h trace a [] rfl⟩
    intro pre b post heq
    apply h pre b (post ++ [a])
    rw [heq, List.append_assoc, List.cons_append]
  . rintro ⟨h, ha⟩ pre b post heq
    cases post using List.reverseRecOn with
    | nil =>
      obtain ⟨rfl, hb⟩ := List.append_inj' heq rfl
      cases hb
      exact ha
    | append_singleton post c =>
      rw [← List.cons_append, ← List.append_assoc] at heq
      exact h pre b post (List.append_inj' heq rfl).1

-- What is allowed at any time.
theorem Obeys.append {seg : List α} (h : Obeys allowed trace) (hseg : ∀ a ∈ seg, ∀ pre, allowed pre a)
    : Obeys allowed (trace ++ seg) := by
  induction seg using List.reverseRecOn with
  | nil =>
    rw [List.append_nil]
    exact h
  | append_singleton seg a ih =>
    rw [← List.append_assoc, obeys_concat]
    refine ⟨ih fun b hb => hseg b (List.mem_append_left _ hb), hseg a (by simp) _⟩

end Obeys

inductive Access where
  | input (port : UInt16) (v : UInt8)
  | output (port : UInt16) (v : UInt8)

namespace Access

def isOutput : Access → Bool
  | input _ _ => false
  | output _ _ => true

end Access

-- `trace` is what happened on the ports.
structure Hardware where
  answers : Nat → UInt8
  trace : List Access

namespace Hardware

def ports : Ports Hardware where
  inb port := fun h => some ⟨h.answers 0, ⟨fun n => h.answers (n + 1), h.trace ++ [.input port (h.answers 0)]⟩⟩
  outb port v := fun h => some ⟨(), { h with trace := h.trace ++ [.output port v] }⟩

section Access

variable {h : Hardware} {port : UInt16} {v : UInt8}

end Access

end Hardware
