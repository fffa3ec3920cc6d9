import DismasmOS.Lib.Ports

/-!
This module contains the PS/2 controller of a PC with a pointing device behind it. Both take their time: after
a write the controller is busy, and what it has to deliver comes late.
-/

namespace I8042

-- A device with a wheel becomes one of the kind 3 by the sample rates 200, 100 and 80. `rates` has the last one
-- first.
structure Pointer where
  wheel : Bool
  id : UInt8
  reporting : Bool
  awaitsRate : Bool
  rates : List UInt8

namespace Pointer

def receive (d : Pointer) (v : UInt8) : Pointer × List UInt8 :=
  if d.awaitsRate then
    let rates := v :: d.rates
    let id := if d.wheel ∧ rates.take 3 = [80, 100, 200] then 3 else d.id
    ⟨{ d with awaitsRate := false, rates := rates, id := id }, [0xFA]⟩
  else if v = 0xF2 then
    ⟨d, [0xFA, d.id]⟩
  else if v = 0xF3 then
    ⟨{ d with awaitsRate := true }, [0xFA]⟩
  else if v = 0xF4 then
    ⟨{ d with reporting := true }, [0xFA]⟩
  else if v = 0xF6 then
    ⟨{ d with reporting := false }, [0xFA]⟩
  else
    ⟨d, [0xFE]⟩

section Receive

variable {d : Pointer}

end Receive

end Pointer

inductive Target where
  | config
  | pointer

-- `output` is what can be read, `expects` is where the next byte of data goes.
structure Core where
  config : UInt8
  expects : Option Target
  output : List UInt8
  pointer : Pointer

namespace Core

def command (c : Core) (v : UInt8) : Option Core :=
  if v = 0x20 then some { c with output := c.output ++ [c.config] }
  else if v = 0x60 then some { c with expects := some .config }
  else if v = 0xA8 then some { c with config := c.config &&& ~~~0x20 }
  else if v = 0xD4 then some { c with expects := some .pointer }
  else none

-- Bit 5 of the configuration stops the clock of the pointing device.
def data (c : Core) (v : UInt8) : Option Core :=
  match c.expects with
  | none => none
  | some .config => some { c with config := v, expects := none }
  | some .pointer =>
    if c.config &&& 0x20 = 0 then
      let r := c.pointer.receive v
      some { c with expects := none, pointer := r.1, output := c.output ++ r.2 }
    else
      none

end Core

-- How often the status has to be read until the controller takes a byte, and until it has one. The delays to
-- come are in `delays`.
structure Timing where
  busy : Nat
  late : Nat
  delays : Nat → Nat

namespace Timing

def look (t : Timing) : Timing := { t with busy := t.busy - 1, late := t.late - 1 }

def afterRead (t : Timing) : Timing := { t with late := t.delays 0, delays := fun n => t.delays (n + 1) }

def afterWrite (t : Timing) (empty : Bool) : Timing where
  busy := t.delays 0
  late := if empty then t.delays 1 else t.late
  delays := fun n => t.delays (n + 2)

structure Prompt (t : Timing) (limit : Nat) : Prop where
  busy : t.busy < limit
  late : t.late < limit
  delays : ∀ n, t.delays n < limit

end Timing

structure Controller where
  core : Core
  timing : Timing

namespace Controller

def status (c : Controller) : UInt8 :=
  (if c.core.output ≠ [] ∧ c.timing.late = 0 then 0x01 else 0) ||| (if c.timing.busy ≠ 0 then 0x02 else 0)

def dataPort : UInt16 := 0x60
def commandPort : UInt16 := 0x64

def inb (port : UInt16) : StateT Controller Option UInt8 := fun c =>
  if port = commandPort then
    some ⟨c.status, { c with timing := c.timing.look }⟩
  else if port = dataPort then
    match c.core.output with
    | [] => none
    | b :: output =>
      if c.timing.late = 0 then
        some ⟨b, { c with core := { c.core with output := output }, timing := c.timing.afterRead }⟩
      else
        none
  else
    none

def write (c : Controller) (core : Core) : Controller :=
  { c with core := core, timing := c.timing.afterWrite c.core.output.isEmpty }

-- Other ports have nothing to do with the controller.
def outb (port : UInt16) (v : UInt8) : StateT Controller Option Unit := fun c =>
  if port = commandPort then
    if c.timing.busy = 0 then (c.core.command v).map fun core => ⟨(), c.write core⟩ else none
  else if port = dataPort then
    if c.timing.busy = 0 then (c.core.data v).map fun core => ⟨(), c.write core⟩ else none
  else
    some ⟨(), c⟩

def ports : Ports Controller := ⟨inb, outb⟩

section Access

variable {c : Core} {t : Timing} {v b : UInt8} {output : List UInt8}

end Access

end Controller

namespace Timing.Prompt

variable {t : Timing} {limit : Nat}

theorem look (h : t.Prompt limit) : t.look.Prompt limit :=
  ⟨Nat.lt_of_le_of_lt (Nat.sub_le _ _) h.busy, Nat.lt_of_le_of_lt (Nat.sub_le _ _) h.late, h.delays⟩

theorem afterRead (h : t.Prompt limit) : t.afterRead.Prompt limit :=
  ⟨h.busy, h.delays 0, fun n => h.delays (n + 1)⟩

theorem afterWrite (h : t.Prompt limit) (empty : Bool) : (t.afterWrite empty).Prompt limit := by
  refine ⟨h.delays 0, ?_, fun n => h.delays (n + 2)⟩
  cases empty with
  | true => exact h.delays 1
  | false => exact h.late

end Timing.Prompt

section Does

variable {α β : Type} {limit : Nat} {prog : StateT Controller Option α} {f : α → StateT Controller Option β}
  {c c' c'' : Core} {a : α} {b : β}

-- As long as every delay is below the limit, the program does the same, however long they are.
def Does (limit : Nat) (prog : StateT Controller Option α) (c : Core) (a : α) (c' : Core) : Prop :=
  ∀ t : Timing, t.Prompt limit
    → Yields prog ⟨c, t⟩ fun a' s => a' = a ∧ s.core = c' ∧ s.timing.Prompt limit

theorem Does.pure : Does limit (Pure.pure a) c a c := fun _ ht => .pure ⟨rfl, rfl, ht⟩

theorem Does.bind (h : Does limit prog c a c') (hf : Does limit (f a) c' b c'')
    : Does limit (prog >>= f) c b c'' := by
  intro t ht
  apply Yields.bind
  apply (h t ht).mono
  rintro _ ⟨_, t'⟩ ⟨rfl, rfl, ht'⟩
  exact hf t' ht'

theorem Does.lift {o : Option α} (ho : o = some a) : Does limit (StateT.lift o) c a c :=
  fun _ ht => .lift ho ⟨rfl, rfl, ht⟩

end Does

end I8042
