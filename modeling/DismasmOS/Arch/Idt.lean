import DismasmOS.Lib.ByteMem

/-!
This module contains the interrupt descriptor table of `src/arch/idt.c`.
-/

namespace DismasmOS

-- `sizeof(struct idt_entry)`, the structure is packed.
def IDT_ENTRY_SIZE : Nat := 16

-- `idt` is the address of the table.
def idtSetGate (m : ByteMem) (idt : Nat) (num : UInt8) (base : UInt64) (sel : UInt16) (flags : UInt8) : ByteMem :=
  let entry := idt + IDT_ENTRY_SIZE * num.toNat
  let m := m.writeLE entry 2 (base &&& 0xFFFF).toUInt16.toNat
  let m := m.writeLE (entry + 2) 2 sel.toNat
  let m := m.writeLE (entry + 4) 1 0
  let m := m.writeLE (entry + 5) 1 flags.toNat
  let m := m.writeLE (entry + 6) 2 (base >>> 16 &&& 0xFFFF).toUInt16.toNat
  let m := m.writeLE (entry + 8) 4 (base >>> 32 &&& 0xFFFFFFFF).toUInt32.toNat
  m.writeLE (entry + 12) 4 0

-- The loop of `idt_init` up to `n`.
def idtSetDefaults (m : ByteMem) (idt : Nat) (isrDefault : UInt64) (n : Nat) : ByteMem :=
  match n with
  | 0 => m
  | n + 1 => idtSetGate (idtSetDefaults m idt isrDefault n) idt (UInt8.ofNat n) isrDefault 0x08 0x8E

-- The limit that `idt_load` loads.
def idtLimit : UInt16 := UInt16.ofNat (IDT_ENTRY_SIZE * 256 - 1)

-- The addresses of the entry points in `src/arch/idt_asm.s`.
structure IsrAddresses where
  isrDefault : UInt64
  isrKbdEntry : UInt64
  isrMouseEntry : UInt64

def idtInit (m : ByteMem) (idt : Nat) (isr : IsrAddresses) : ByteMem :=
  let m := m.fill (2 ^ 64) idt 0 (IDT_ENTRY_SIZE * 256)
  let m := idtSetDefaults m idt isr.isrDefault 256
  let m := idtSetGate m idt 33 isr.isrKbdEntry 0x08 0x8E
  idtSetGate m idt 44 isr.isrMouseEntry 0x08 0x8E

end DismasmOS
