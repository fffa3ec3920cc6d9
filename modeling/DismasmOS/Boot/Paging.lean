import DismasmOS.Lib.LongMode

/-!
This module contains the page tables that `src/boot/boot.s` builds before it switches the processor to
long mode: the stores of `_start`, with registers of 32 bits.
-/

namespace DismasmOS

def reg32 (v : Nat) : Nat := v % 2 ^ 32

-- `rep stosl`
def repStosl (m : ByteMem) (edi eax : Nat) (ecx : Nat) : ByteMem :=
  match ecx with
  | 0 => m
  | ecx + 1 => repStosl (m.writeLE edi 4 eax) (reg32 (edi + 4)) eax ecx

-- The loop at `1:`, `loop` counts `ecx` down to zero.
def mapLoop (m : ByteMem) (edi ebx : Nat) (ecx : Nat) : ByteMem :=
  match ecx with
  | 0 => m
  | ecx + 1 => mapLoop (m.writeLE edi 4 ebx) (reg32 (edi + 8)) (reg32 (ebx + 0x200000)) ecx

-- The three tables follow each other in `.bss`, 4096 bytes each.
def pageTablesSize : Nat := 3 * 4096

def setupPageTables (m : ByteMem) (pml4Table : Nat) : ByteMem :=
  let pdptTable := pml4Table + 4096
  let pdTable := pdptTable + 4096
  let m := repStosl m pml4Table 0 3072
  let m := m.writeLE pml4Table 4 (pdptTable ||| 0x03)
  let m := m.writeLE pdptTable 4 (pdTable ||| 0x03)
  mapLoop m pdTable 0x83 512

end DismasmOS
