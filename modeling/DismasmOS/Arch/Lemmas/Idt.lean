import DismasmOS.Arch.Idt
import DismasmOS.Lib.Gate
import DismasmOS.Lib.Objects

/-!
This module contains the lemmas that the processor reads back the gates the kernel writes, whatever lies in
the memory of the table before.
-/

namespace DismasmOS

open ByteMem X86

-- A gate of the kernel: an interrupt gate for ring 0 on the current stack.
def kernelGate (base : UInt64) : Gate where
  offset := base.toNat
  selector := 0x08
  ist := 0
  type := interruptGate
  dpl := 0
  present := true

section Gates

variable {m : ByteMem} {idt : Nat} {num : UInt8} {base : UInt64} {sel : UInt16} {flags : UInt8}

theorem readLE_writeLE_ne {a n p k v : Nat} (h : p + k ≤ a ∨ a + n ≤ p)
    : (m.writeLE p k v).readLE a n = m.readLE a n :=
  readLE_congr (agreeOn_writeLE m p k v h)

theorem base_parts (base : UInt64)
    : (base &&& 0xFFFF).toUInt16.toNat + 2 ^ 16 * (base >>> 16 &&& 0xFFFF).toUInt16.toNat
        + 2 ^ 32 * (base >>> 32 &&& 0xFFFFFFFF).toUInt32.toNat = base.toNat := by
  have hlt := base.toNat_lt
  have hlow : (base &&& 0xFFFF).toUInt16.toNat = base.toNat % 2 ^ 16 := by
    rw [UInt64.toNat_toUInt16, UInt64.toNat_and]
    have := Nat.and_two_pow_sub_one_eq_mod base.toNat 16
    exact (congrArg (· % 2 ^ 16) this).trans (Nat.mod_mod _ _)
  have hmid : (base >>> 16 &&& 0xFFFF).toUInt16.toNat = base.toNat / 2 ^ 16 % 2 ^ 16 := by
    rw [UInt64.toNat_toUInt16, UInt64.toNat_and, UInt64.toNat_shiftRight, Nat.shiftRight_eq_div_pow]
    have := Nat.and_two_pow_sub_one_eq_mod (base.toNat / 2 ^ 16) 16
    exact (congrArg (· % 2 ^ 16) this).trans (Nat.mod_mod _ _)
  have hhigh : (base >>> 32 &&& 0xFFFFFFFF).toUInt32.toNat = base.toNat / 2 ^ 32 % 2 ^ 32 := by
    rw [UInt64.toNat_toUInt32, UInt64.toNat_and, UInt64.toNat_shiftRight, Nat.shiftRight_eq_div_pow]
    have := Nat.and_two_pow_sub_one_eq_mod (base.toNat / 2 ^ 32) 32
    exact (congrArg (· % 2 ^ 32) this).trans (Nat.mod_mod _ _)
  rw [hlow, hmid, hhigh]
  omega

theorem read_idtSetGate (m : ByteMem) (idt : Nat) (num : UInt8) (base : UInt64) (sel : UInt16) (flags : UInt8)
    : Gate.read (idtSetGate m idt num base sel flags) (idt + 16 * num.toNat) = {
        offset := base.toNat
        selector := sel.toNat
        ist := 0
        type := flags.toNat % 32
        dpl := flags.toNat / 32 % 4
        present := flags.toNat / 128 % 2 = 1 } := by
  have hflags := flags.toNat_lt
  have hsel := sel.toNat_lt
  unfold idtSetGate IDT_ENTRY_SIZE Gate.read
  simp (disch := omega) only [readLE_writeLE_ne, readLE_writeLE_same]
  rw [Nat.mod_eq_of_lt (b := 256 ^ 2) (base &&& 0xFFFF).toUInt16.toNat_lt,
    Nat.mod_eq_of_lt (b := 256 ^ 2) (base >>> 16 &&& 0xFFFF).toUInt16.toNat_lt,
    Nat.mod_eq_of_lt (b := 256 ^ 4) (base >>> 32 &&& 0xFFFFFFFF).toUInt32.toNat_lt,
    Nat.mod_eq_of_lt (b := 256 ^ 2) sel.toNat_lt,
    Nat.mod_eq_of_lt (a := flags.toNat) (b := 256 ^ 1) flags.toNat_lt, base_parts]
  rfl

theorem idtSetGate_outside {x : Nat} (h : x < idt + 16 * num.toNat ∨ idt + 16 * num.toNat + 16 ≤ x)
    : idtSetGate m idt num base sel flags x = m x := by
  unfold idtSetGate IDT_ENTRY_SIZE
  simp (disch := omega) only [writeLE_outside]

theorem read_idtSetGate_ne {v : Nat} (h : v ≠ num.toNat)
    : Gate.read (idtSetGate m idt num base sel flags) (idt + 16 * v) = Gate.read m (idt + 16 * v) := by
  apply Gate.read_congr
  intro x hlo hhi
  apply idtSetGate_outside
  omega

theorem read_idtSetGate_kernel {v : Nat} (h : v = num.toNat)
    : Gate.read (idtSetGate m idt num base 0x08 0x8E) (idt + 16 * v) = kernelGate base := by
  rw [h, read_idtSetGate]
  rfl

-- The loop has set the gates below `n`.
theorem read_idtSetDefaults {isrDefault : UInt64} {n v : Nat} (hn : n ≤ 256) (hv : v < n)
    : Gate.read (idtSetDefaults m idt isrDefault n) (idt + 16 * v) = kernelGate isrDefault := by
  induction n with
  | zero => omega
  | succ n ih =>
    have hnum : (UInt8.ofNat n).toNat = n := by
      rw [UInt8.toNat_ofNat']
      omega
    unfold idtSetDefaults
    by_cases heq : v = n
    . apply read_idtSetGate_kernel
      rw [hnum, heq]
    . rw [read_idtSetGate_ne (by rw [hnum]; exact heq)]
      exact ih (by omega) (by omega)

end Gates

-- Where an interrupt with vector `v` goes.
def IsrAddresses.handler (isr : IsrAddresses) (v : Nat) : UInt64 :=
  if v = 33 then isr.isrKbdEntry else if v = 44 then isr.isrMouseEntry else isr.isrDefault

theorem read_idtInit {m : ByteMem} {idt : Nat} {isr : IsrAddresses} {v : Nat} (hv : v < 256)
    : Gate.read (idtInit m idt isr) (idt + 16 * v) = kernelGate (isr.handler v) := by
  unfold idtInit IsrAddresses.handler
  by_cases hmouse : v = 44
  . rw [read_idtSetGate_kernel hmouse, if_neg (by omega), if_pos hmouse]
  . rw [read_idtSetGate_ne hmouse]
    by_cases hkbd : v = 33
    . rw [read_idtSetGate_kernel hkbd, if_pos hkbd]
    . rw [read_idtSetGate_ne hkbd, read_idtSetDefaults (Nat.le_refl 256) hv, if_neg hkbd, if_neg hmouse]

end DismasmOS
