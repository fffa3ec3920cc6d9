import DismasmOS.Lib.X86

/-!
This module contains the interrupt entry points of `src/arch/idt_asm.s`.
-/

namespace DismasmOS

open X86

def isrDefault : List Instr := [
  .push .rax,
  .movAl 0x20,
  .outAl 0xA0,
  .outAl 0x20,
  .pop .rax,
  .iretq
]

-- `isr_kbd_entry` and `isr_mouse_entry` differ in the handler they call, `next` is the address behind the call.
def isrEntry (next : BitVec 64) (handler : Cpu → Cpu) : List Instr := [
  .push .rax,
  .push .rcx,
  .push .rdx,
  .push .rbx,
  .push .rbp,
  .push .rsi,
  .push .rdi,
  .push .r8,
  .push .r9,
  .push .r10,
  .push .r11,
  .push .r12,
  .push .r13,
  .push .r14,
  .push .r15,
  .cld,
  .call next handler,
  .pop .r15,
  .pop .r14,
  .pop .r13,
  .pop .r12,
  .pop .r11,
  .pop .r10,
  .pop .r9,
  .pop .r8,
  .pop .rdi,
  .pop .rsi,
  .pop .rbp,
  .pop .rbx,
  .pop .rdx,
  .pop .rcx,
  .pop .rax,
  .iretq
]

-- The compiled handlers and the addresses behind the calls of them.
structure IsrCalls where
  kbdHandler : Cpu → Cpu
  kbdNext : BitVec 64
  mouseHandler : Cpu → Cpu
  mouseNext : BitVec 64

def isrKbdEntry (calls : IsrCalls) : List Instr := isrEntry calls.kbdNext calls.kbdHandler

def isrMouseEntry (calls : IsrCalls) : List Instr := isrEntry calls.mouseNext calls.mouseHandler

end DismasmOS
