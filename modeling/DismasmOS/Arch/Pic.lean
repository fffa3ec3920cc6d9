import DismasmOS.Lib.I8259
import DismasmOS.Lib.Run

/-!
This module contains the interrupt controller driver of `src/arch/pic.c` and the machine around it: devices
raise lines at any moment, the processor takes interrupts and the handlers write their end of interrupt.
-/

namespace DismasmOS

open I8259

def PIC1_COMMAND : UInt16 := 0x20
def PIC1_DATA : UInt16 := 0x21
def PIC2_COMMAND : UInt16 := 0xA0
def PIC2_DATA : UInt16 := 0xA1
def PIC_EOI : UInt8 := 0x20

def ioWait (p : Pair) : Option Pair := p.outb 0x80 0

-- The writes of `pic_send_eoi` in their order.
def picSendEoi (irq : UInt8) : List (UInt16 × UInt8) :=
  (if irq ≥ 8 then [(PIC2_COMMAND, PIC_EOI)] else []) ++ [(PIC1_COMMAND, PIC_EOI)]

def picRemap (p : Pair) (offset1 offset2 : Int) : Option Pair := do
  let p ← p.outb PIC1_COMMAND 0x11
  let p ← ioWait p
  let p ← p.outb PIC2_COMMAND 0x11
  let p ← ioWait p
  let p ← p.outb PIC1_DATA (UInt8.ofInt offset1)
  let p ← ioWait p
  let p ← p.outb PIC2_DATA (UInt8.ofInt offset2)
  let p ← ioWait p
  let p ← p.outb PIC1_DATA 4
  let p ← ioWait p
  let p ← p.outb PIC2_DATA 2
  let p ← ioWait p
  let p ← p.outb PIC1_DATA 0x01
  let p ← ioWait p
  let p ← p.outb PIC2_DATA 0x01
  let p ← ioWait p
  let p ← p.outb PIC1_DATA 0xFD
  p.outb PIC2_DATA 0xFF

def picUnmaskIrq (p : Pair) (irq : UInt8) : Option Pair :=
  let port := if irq < 8 then PIC1_DATA else PIC2_DATA
  let irq := if irq < 8 then irq else irq - 8
  let value := p.inb port &&& ~~~UInt8.ofNat (1 <<< irq.toNat)
  p.outb port value

-- What `kmain` does to the controllers: the calls in `kmain`, `kbd_init` and `mouse_init`.
def bootPics (p : Pair) : Option Pair := do
  let p ← picRemap p 0x20 0x28
  let p ← picUnmaskIrq p 1
  let p ← picUnmaskIrq p 2
  picUnmaskIrq p 12

-- The writes of the code at the entry point for a vector.
def isrWrites (vector : UInt8) : List (UInt16 × UInt8) :=
  if vector = 33 then picSendEoi 1
  else if vector = 44 then picSendEoi 12
  else [(PIC2_COMMAND, PIC_EOI), (PIC1_COMMAND, PIC_EOI)]

-- `writes` is what the running handler has not written yet, with it interrupts are off.
structure IrqSystem where
  pics : Pair
  writes : List (UInt16 × UInt8)

inductive IrqEvent where
  | raise (line : Fin 16)
  | ack (vector : UInt8)
  | out
  deriving DecidableEq

inductive IrqStep : IrqSystem → IrqEvent → IrqSystem → Prop
  | raise (s : IrqSystem) (line : Fin 16) : IrqStep s (.raise line) { s with pics := s.pics.raise line }
  | ack (s : IrqSystem) (vector : UInt8) (pics : Pair) (hidle : s.writes = [])
      (hack : s.pics.ack = some ⟨vector, pics⟩)
      : IrqStep s (.ack vector) ⟨pics, isrWrites vector⟩
  | out (s : IrqSystem) (port : UInt16) (v : UInt8) (writes : List (UInt16 × UInt8)) (pics : Pair)
      (hwrites : s.writes = (port, v) :: writes) (hout : s.pics.outb port v = some pics)
      : IrqStep s .out ⟨pics, writes⟩

end DismasmOS
