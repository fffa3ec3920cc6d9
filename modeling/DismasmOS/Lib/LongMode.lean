import DismasmOS.Lib.ByteMem

/-!
This module contains the address translation of x86-64 processors in long mode: a walk through four
levels of tables in physical memory, with pages of 4 KiB, 2 MiB and 1 GiB.
-/

namespace LongMode

-- Where a virtual address leads, and what the entries on the way allow.
structure Mapping where
  phys : Nat
  writable : Bool
  user : Bool
  deriving DecidableEq, Repr

namespace Entry

def present (e : Nat) : Bool := e % 2 = 1
def writable (e : Nat) : Bool := e / 2 % 2 = 1
def user (e : Nat) : Bool := e / 4 % 2 = 1
def pageSize (e : Nat) : Bool := e / 128 % 2 = 1

-- The address in the bits `k` to `51`.
def frame (e k : Nat) : Nat := e % 2 ^ 52 / 2 ^ k * 2 ^ k

-- Between the flags and the address of a large page there are only zeros.
def reservedClear (e k : Nat) : Bool := e / 2 ^ 13 % 2 ^ (k - 13) = 0

end Entry

open Entry

-- A page that an entry of level `level` maps has `2 ^ pageBits level` bytes.
def pageBits (level : Nat) : Nat := 12 + 9 * level

def index (va level : Nat) : Nat := va / 2 ^ pageBits level % 512

def entry (m : ByteMem) (table va level : Nat) : Nat := m.readLE (table + 8 * index va level) 8

def mapping (e va level : Nat) (rights : Bool × Bool) : Mapping where
  phys := frame e (pageBits level) + va % 2 ^ pageBits level
  writable := rights.1 && writable e
  user := rights.2 && user e

/--
The walk from a table of level `level` on. Level 3 has no pages, the pages of level 2 and 1 are those with
the page size bit.
-/
def walk (m : ByteMem) (table va : Nat) (rights : Bool × Bool) : Nat → Option Mapping
  | 0 =>
    let e := entry m table va 0
    if present e then some (mapping e va 0 rights) else none
  | level + 1 =>
    let e := entry m table va (level + 1)
    if !present e then
      none
    else if !pageSize e then
      walk m (frame e 12) va ⟨rights.1 && writable e, rights.2 && user e⟩ level
    else if level + 1 < 3 && reservedClear e (pageBits (level + 1)) then
      some (mapping e va (level + 1) rights)
    else
      none

-- The bits above bit 47 repeat it.
def Canonical (va : Nat) : Prop := va < 2 ^ 47 ∨ 2 ^ 64 - 2 ^ 47 ≤ va ∧ va < 2 ^ 64

instance (va : Nat) : Decidable (Canonical va) := inferInstanceAs (Decidable (_ ∨ _))

def translate (m : ByteMem) (cr3 va : Nat) : Option Mapping :=
  if Canonical va then walk m (frame cr3 12) va ⟨true, true⟩ 3 else none

section Walk

variable {m : ByteMem} {table va level : Nat} {rights : Bool × Bool}

theorem walk_of_not_present (h : entry m table va level = 0)
    : walk m table va rights level = none := by
  cases level with
  | zero =>
    unfold walk
    rw [h]
    rfl
  | succ level =>
    unfold walk
    dsimp only
    rw [h]
    rfl

theorem walk_table {e : Nat} (h : entry m table va (level + 1) = e) (hpresent : present e = true)
    (hsize : pageSize e = false)
    : walk m table va rights (level + 1)
        = walk m (frame e 12) va ⟨rights.1 && writable e, rights.2 && user e⟩ level := by
  rw [walk, h, hpresent, hsize]
  rfl

theorem walk_page {e : Nat} (h : entry m table va (level + 1) = e) (hpresent : present e = true)
    (hsize : pageSize e = true) (hlevel : level + 1 < 3)
    (hclear : reservedClear e (pageBits (level + 1)) = true)
    : walk m table va rights (level + 1) = some (mapping e va (level + 1) rights) := by
  rw [walk, h, hpresent, hsize, hclear]
  simp [hlevel]

end Walk

end LongMode
