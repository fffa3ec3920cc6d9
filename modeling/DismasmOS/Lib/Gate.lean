import DismasmOS.Lib.LongMode
import DismasmOS.Lib.X86

/-!
This module contains the interrupt descriptor table as an x86-64 processor reads it. Only interrupt gates on
the current stack are delivered.
-/

namespace X86

structure Gate where
  offset : Nat
  selector : Nat
  ist : Nat
  type : Nat
  dpl : Nat
  present : Bool
  deriving DecidableEq, Repr

-- `lidt` loads the address of the table and the offset of its last byte.
structure Idtr where
  limit : Nat
  base : Nat

def interruptGate : Nat := 0xE

namespace Gate

variable (m : ByteMem) (a : Nat)

-- The descriptor at `a`. The type has five bits, the highest is clear for gates.
def read : Gate where
  offset := m.readLE a 2 + 2 ^ 16 * m.readLE (a + 6) 2 + 2 ^ 32 * m.readLE (a + 8) 4
  selector := m.readLE (a + 2) 2
  ist := m.readLE (a + 4) 1 % 8
  type := m.readLE (a + 5) 1 % 32
  dpl := m.readLE (a + 5) 1 / 32 % 4
  present := m.readLE (a + 5) 1 / 128 % 2 = 1

theorem read_congr {m m' : ByteMem} {a : Nat} (h : ByteMem.AgreeOn m m' a 16) : read m' a = read m a := by
  unfold read
  rw [ByteMem.readLE_congr (h.mono (by omega) (by omega)), ByteMem.readLE_congr (h.mono (by omega) (by omega)),
    ByteMem.readLE_congr (h.mono (by omega) (by omega)), ByteMem.readLE_congr (h.mono (by omega) (by omega)),
    ByteMem.readLE_congr (h.mono (by omega) (by omega)), ByteMem.readLE_congr (h.mono (by omega) (by omega))]

end Gate

-- What the processor does with vector `v`, `code` is the error code of an exception that has one.
def deliver (idtr : Idtr) (s : Cpu) (v : Nat) (code : Option (BitVec 64)) : Option Cpu :=
  let gate := Gate.read s.mem (idtr.base + 16 * v)
  if 16 * v + 15 ≤ idtr.limit ∧ gate.present = true ∧ gate.type = interruptGate ∧ gate.ist = 0
      ∧ LongMode.Canonical gate.offset then
    some (s.interrupt (BitVec.ofNat 16 gate.selector) (BitVec.ofNat 64 gate.offset) code)
  else
    none

end X86
