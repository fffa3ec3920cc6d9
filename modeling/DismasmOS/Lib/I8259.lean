import Mathlib.Data.Fin.Basic
import Mathlib.Data.List.FinRange

/-!
This module contains two cascaded 8259A interrupt controllers: initialization, edge triggered requests, fully
nested priorities and the non-specific end of interrupt. Commands outside of that have no result.
-/

namespace I8259

-- Which word of the initialization the chip waits for.
inductive Stage where
  | ready
  | icw2
  | icw3
  | icw4
  deriving DecidableEq, Repr

structure Chip where
  stage : Stage
  base : UInt8
  cascade : UInt8
  imr : UInt8
  irr : Fin 8 → Bool
  isr : Fin 8 → Bool

namespace Chip

def lines : List (Fin 8) := List.finRange 8

def masked (c : Chip) (i : Fin 8) : Bool := c.imr.toNat.testBit i

-- The request with the highest priority, if nothing of the same or a higher priority is in service.
def request (c : Chip) : Option (Fin 8) :=
  if c.stage = .ready then
    lines.find? fun i => c.irr i && !c.masked i && lines.all fun j => !c.isr j || i < j
  else
    none

def accept (c : Chip) (i : Fin 8) : Chip :=
  { c with irr := Function.update c.irr i false, isr := Function.update c.isr i true }

def endOfInterrupt (c : Chip) : Chip :=
  match lines.find? c.isr with
  | some i => { c with isr := Function.update c.isr i false }
  | none => c

-- ICW1 for a cascaded chip with edge triggered inputs and an ICW4, or the non-specific end of interrupt.
def writeCommand (c : Chip) (v : UInt8) : Option Chip :=
  if v &&& 0x1B = 0x11 then
    some { c with stage := .icw2, imr := 0, irr := fun _ => false }
  else if v = 0x20 then
    some c.endOfInterrupt
  else
    none

-- ICW4 is for a processor of the 8086 family without automatic end of interrupt.
def writeData (c : Chip) (v : UInt8) : Option Chip :=
  match c.stage with
  | .ready => some { c with imr := v }
  | .icw2 => some { c with stage := .icw3, base := v &&& 0xF8 }
  | .icw3 => some { c with stage := .icw4, cascade := v }
  | .icw4 => if v = 0x01 then some { c with stage := .ready } else none

end Chip

structure Pair where
  master : Chip
  slave : Chip

-- Where a PC has the controllers, and the input of the first one that the second one is wired to.
def masterCommand : UInt16 := 0x20
def masterData : UInt16 := 0x21
def slaveCommand : UInt16 := 0xA0
def slaveData : UInt16 := 0xA1
def cascadeLine : Fin 8 := 2

namespace Pair

def outb (p : Pair) (port : UInt16) (v : UInt8) : Option Pair :=
  if port = masterCommand then (p.master.writeCommand v).map fun c => { p with master := c }
  else if port = masterData then (p.master.writeData v).map fun c => { p with master := c }
  else if port = slaveCommand then (p.slave.writeCommand v).map fun c => { p with slave := c }
  else if port = slaveData then (p.slave.writeData v).map fun c => { p with slave := c }
  else some p

-- The data ports deliver the mask.
def inb (p : Pair) (port : UInt16) : UInt8 := if port = masterData then p.master.imr else p.slave.imr

-- A device raises one of the sixteen lines.
def raise (p : Pair) (line : Fin 16) : Pair :=
  if h : line.val < 8 then
    if line.val = cascadeLine.val then p
    else { p with master := { p.master with irr := Function.update p.master.irr ⟨line, h⟩ true } }
  else
    { p with slave := { p.slave with irr := Function.update p.slave.irr ⟨line - 8, by omega⟩ true } }

-- The first controller sees the output of the second one.
def wired (p : Pair) : Chip :=
  { p.master with irr := Function.update p.master.irr cascadeLine p.slave.request.isSome }

-- The processor asks for a vector.
def ack (p : Pair) : Option (UInt8 × Pair) :=
  match p.wired.request with
  | none => none
  | some i =>
    if i = cascadeLine ∧ p.master.cascade.toNat.testBit i then
      match p.slave.request with
      | none => none
      | some j =>
        if p.slave.cascade &&& 7 = UInt8.ofNat cascadeLine then
          some ⟨p.slave.base + UInt8.ofNat j, ⟨p.wired.accept i, p.slave.accept j⟩⟩
        else
          none
    else
      some ⟨p.master.base + UInt8.ofNat i, { p with master := p.wired.accept i }⟩

end Pair

end I8259
