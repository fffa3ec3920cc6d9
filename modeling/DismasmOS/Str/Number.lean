import DismasmOS.Lib.ByteText
import DismasmOS.Str.Lemmas

/-!
This module contains the conversions of numbers of `src/lib/string.c` on the memory that they write to.
-/

namespace DismasmOS

-- A string and its terminator stand in the memory from address `p` on.
structure StringAt (m : ByteMem) (p : Nat) (s : List UInt8) : Prop where
  holds : m.Holds p (s ++ [NUL])
  nulFree : NulFree s

-- `while (n != 0)`, with the index behind the last digit.
def itoaEmit (m : ByteMem) (p i : Nat) (n : Int) : ByteMem × Nat :=
  if n = 0 then
    ⟨m, i⟩
  else
    let rem := n.tmod 10
    itoaEmit (m.setByte (p + i) (UInt8.ofNat (rem + (chr '0').toNat).toNat)) p (i + 1) (n.tdiv 10)
termination_by n.natAbs
decreasing_by
  rw [Int.natAbs_tdiv]
  apply Nat.div_lt_self
  . omega
  . decide

def itoaAt (m : ByteMem) (p : Nat) (n : Int) : ByteMem :=
  if n = 0 then
    (m.setByte p (chr '0')).setByte (p + 1) NUL
  else
    let isNeg := n < 0
    let n := if isNeg then (-n).bmod (2 ^ 32) else n
    let r := itoaEmit m p 0 n
    let r := if isNeg then ⟨r.1.setByte (p + r.2) (chr '-'), r.2 + 1⟩ else r
    let m := r.1.setByte (p + r.2) NUL
    m.reverse p (p + (r.2 - 1))

-- `str[j] = buf[i - 1 - j]` for the first `j` characters.
def copyBack (m : ByteMem) (p : Nat) (buf : List UInt8) (j : Nat) : ByteMem :=
  match j with
  | 0 => m
  | j + 1 => (copyBack m p buf j).setByte (p + j) (buf.getD (buf.length - 1 - j) NUL)

def utoaHexAt (m : ByteMem) (p : Nat) (n : UInt64) : ByteMem :=
  if n = 0 then
    (m.setByte p (chr '0')).setByte (p + 1) NUL
  else
    let buf := utoaHexDigits 16 n
    (copyBack m p buf buf.length).setByte (p + buf.length) NUL

section Strings

variable {m : ByteMem} {p : Nat} {s t : List UInt8}

theorem StringAt.length_le (hs : StringAt m p s) (ht : StringAt m p t) : t.length ≤ s.length := by
  apply Nat.le_of_not_lt
  intro hlt
  have hend := (ByteMem.holds_cons_iff.mp (ByteMem.holds_append_iff.mp hs.holds).2).1
  have hchar := (ByteMem.holds_append_iff.mp ht.holds).1 s.length hlt
  apply ht.nulFree
  rw [← hend, hchar]
  apply List.getElem_mem

theorem StringAt.unique (hs : StringAt m p s) (ht : StringAt m p t) : s = t := by
  have hlen := Nat.le_antisymm (ht.length_le hs) (hs.length_le ht)
  apply List.ext_getElem hlen
  intro i hi hi'
  rw [← (ByteMem.holds_append_iff.mp hs.holds).1 i hi, (ByteMem.holds_append_iff.mp ht.holds).1 i hi']

end Strings

section Itoa

variable {m : ByteMem} {p i fuel : Nat} {n : Int}

theorem itoaEmit_spec (hn : n.natAbs < 10 ^ fuel)
    : (itoaEmit m p i n).2 = i + (itoaDigits fuel n).length
        ∧ (itoaEmit m p i n).1.Holds (p + i) (itoaDigits fuel n)
        ∧ ∀ x, x < p + i ∨ p + i + (itoaDigits fuel n).length ≤ x → (itoaEmit m p i n).1 x = m x := by
  induction fuel generalizing m i n with
  | zero =>
    have hzero : n = 0 := by omega
    rw [itoaEmit, if_pos hzero]
    exact ⟨rfl, ByteMem.holds_nil, fun _ _ => rfl⟩
  | succ fuel ih =>
    rw [itoaEmit, itoaDigits]
    by_cases hzero : n = 0
    . rw [if_pos hzero, if_pos hzero]
      exact ⟨rfl, ByteMem.holds_nil, fun _ _ => rfl⟩
    . rw [if_neg hzero, if_neg hzero]
      dsimp only
      have hlt : (n.tdiv 10).natAbs < 10 ^ fuel := by
        rw [Int.natAbs_tdiv]
        exact Nat.div_lt_of_lt_mul (by rwa [Nat.pow_succ'] at hn)
      obtain ⟨hend, hholds, hsame⟩ := ih (m := m.setByte (p + i) _) (i := i + 1) hlt
      rw [List.length_cons]
      refine ⟨?_, ?_, ?_⟩
      . rw [hend]
        omega
      . rw [ByteMem.holds_cons_iff]
        refine ⟨?_, hholds⟩
        rw [hsame _ (.inl (by omega)), ByteMem.setByte_same]
      . intro x hx
        rw [hsame x (by omega), ByteMem.setByte_ne _ _ _ _ (by omega)]

-- An `int` is negated without a change when it is the least one.
theorem bmod_neg (hn : -2 ^ 31 ≤ n) (hneg : n < 0)
    : (-n).bmod (2 ^ 32) = if n = -2 ^ 31 then n else -n := by
  split
  . next hmin =>
    rw [hmin]
    decide
  . next hmin =>
    apply Int.bmod_eq_of_le
    . omega
    . omega

-- What is left of an `int` for the loop, it has ten digits at most.
theorem itoa_magnitude (hlow : -2 ^ 31 ≤ n) (hhigh : n < 2 ^ 31) (hzero : n ≠ 0)
    : (if n < 0 then (-n).bmod (2 ^ 32) else n).natAbs < 10 ^ 10
        ∧ (if n < 0 then (-n).bmod (2 ^ 32) else n) ≠ 0 := by
  split
  . next hneg =>
    rw [bmod_neg hlow hneg]
    split
    . omega
    . omega
  . omega

-- The digits and the sign from the last to the first, a terminator, and all of it turned around.
theorem stringAt_itoaAt (m : ByteMem) (p : Nat) (hlow : -2 ^ 31 ≤ n) (hhigh : n < 2 ^ 31)
    : StringAt (itoaAt m p n) p (itoa n) := by
  refine ⟨?_, nulFree_itoa n⟩
  unfold itoaAt itoa
  by_cases hzero : n = 0
  . rw [if_pos hzero, if_pos hzero]
    exact (ByteMem.holds_nil.snoc (chr '0')).snoc NUL
  . rw [if_neg hzero, if_neg hzero]
    dsimp only
    have hsize := itoa_magnitude hlow hhigh hzero
    generalize (if n < 0 then (-n).bmod (2 ^ 32) else n) = k at hsize ⊢
    have hdigits : itoaDigits 10 k ≠ [] := by
      rw [itoaDigits, if_neg hsize.2]
      exact List.cons_ne_nil _ _
    obtain ⟨hend, hholds, _⟩ := itoaEmit_spec (m := m) (p := p) (i := 0) hsize.1
    rw [Nat.zero_add] at hend
    rw [hend]
    by_cases hneg : n < 0
    . have hsigned := hholds.snoc (chr '-')
      have hall := hsigned.snoc_reverse (List.append_ne_nil_of_left_ne_nil hdigits _) NUL
      rw [List.length_append] at hall
      rw [if_pos hneg, if_pos hneg]
      exact hall
    . have hall := hholds.snoc_reverse hdigits NUL
      rw [if_neg hneg, if_neg hneg, hend]
      exact hall

end Itoa

section UtoaHex

variable {m : ByteMem} {p : Nat} {buf : List UInt8} {n : UInt64}

theorem copyBack_holds {j : Nat} (hj : j ≤ buf.length)
    : (copyBack m p buf j).Holds p (buf.reverse.take j) := by
  induction j with
  | zero => exact ByteMem.holds_nil
  | succ j ih =>
    have hlt : j < buf.reverse.length := by
      rw [List.length_reverse]
      exact hj
    have hget : buf.getD (buf.length - 1 - j) NUL = buf.reverse[j] := by
      rw [List.getElem_reverse, List.getD_eq_getElem?_getD, List.getElem?_eq_getElem (by omega),
        Option.getD_some]
    have hsnoc := (ih (Nat.le_of_succ_le hj)).snoc buf.reverse[j]
    rw [List.length_take_of_le hlt.le, ← List.take_succ_eq_append_getElem hlt] at hsnoc
    rw [copyBack, hget]
    exact hsnoc

theorem stringAt_utoaHexAt (m : ByteMem) (p : Nat) (n : UInt64)
    : StringAt (utoaHexAt m p n) p (utoaHex n) := by
  refine ⟨?_, nulFree_utoaHex n⟩
  unfold utoaHexAt utoaHex
  by_cases hzero : n = 0
  . rw [if_pos hzero, if_pos hzero]
    exact (ByteMem.holds_nil.snoc (chr '0')).snoc NUL
  . rw [if_neg hzero, if_neg hzero]
    dsimp only
    have hcopy := copyBack_holds (m := m) (p := p) (Nat.le_refl (utoaHexDigits 16 n).length)
    rw [List.take_of_length_le (List.length_reverse).le] at hcopy
    have hall := hcopy.snoc NUL
    rw [List.length_reverse] at hall
    exact hall

end UtoaHex

end DismasmOS
