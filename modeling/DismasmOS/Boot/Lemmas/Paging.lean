import DismasmOS.Boot.Paging
import DismasmOS.Lib.Objects

/-!
This module contains the theorem that the page tables of the boot code map the first GiB of memory to
itself, for the kernel only, and nothing else.
-/

namespace DismasmOS

open ByteMem LongMode

section Stores

variable {m : ByteMem} {edi ebx ecx x i : Nat}

theorem writeLE_zero (h : edi + 4 ≤ 2 ^ 32) : m.writeLE edi 4 0 = m.fill (2 ^ 32) edi 0 4 := by
  simp only [writeLE, fill]
  rw [Nat.mod_eq_of_lt (by omega), Nat.mod_eq_of_lt (by omega), Nat.mod_eq_of_lt (by omega),
    Nat.mod_eq_of_lt (by omega)]
  rfl

theorem repStosl_zero (h : edi + 4 * ecx ≤ 2 ^ 32)
    : repStosl m edi 0 ecx = m.fill (2 ^ 32) edi 0 (4 * ecx) := by
  induction ecx generalizing m edi with
  | zero => rfl
  | succ ecx ih =>
    have hlen : 4 * (ecx + 1) = 4 + 4 * ecx := by omega
    rw [repStosl, hlen, fill_add, ← writeLE_zero (by omega)]
    cases ecx with
    | zero => rfl
    | succ ecx =>
      have hnext : reg32 (edi + 4) = edi + 4 := Nat.mod_eq_of_lt (by omega)
      rw [hnext]
      exact ih (by omega)

-- Only the low half of an entry is written.
theorem mapLoop_skips (hfit : edi + 8 * ecx ≤ 2 ^ 32) (h : ∀ i < ecx, x < edi + 8 * i ∨ edi + 8 * i + 4 ≤ x)
    : mapLoop m edi ebx ecx x = m x := by
  induction ecx generalizing m edi ebx with
  | zero => rfl
  | succ ecx ih =>
    have hhead := h 0 (Nat.zero_lt_succ ecx)
    rw [mapLoop]
    cases ecx with
    | zero =>
      exact writeLE_outside _ _ _ _ _ hhead
    | succ ecx =>
      have hnext : reg32 (edi + 8) = edi + 8 := Nat.mod_eq_of_lt (by omega)
      rw [hnext, ih (by omega)]
      . exact writeLE_outside _ _ _ _ _ hhead
      . intro i hi
        have := h (i + 1) (by omega)
        omega

theorem mapLoop_agreeOn {a n : Nat} (hfit : edi + 8 * ecx ≤ 2 ^ 32) (h : a + n ≤ edi)
    : AgreeOn m (mapLoop m edi ebx ecx) a n := by
  intro x hlo hhi
  apply mapLoop_skips hfit
  omega

theorem mapLoop_entry (hfit : edi + 8 * ecx ≤ 2 ^ 32) (hvalue : ebx + 0x200000 * ecx ≤ 2 ^ 32) (hi : i < ecx)
    : (mapLoop m edi ebx ecx).readLE (edi + 8 * i) 4 = ebx + 0x200000 * i := by
  induction ecx generalizing m edi ebx i with
  | zero => omega
  | succ ecx ih =>
    rw [mapLoop]
    cases i with
    | zero =>
      have hkeep : AgreeOn (m.writeLE edi 4 ebx)
          (mapLoop (m.writeLE edi 4 ebx) (reg32 (edi + 8)) (reg32 (ebx + 0x200000)) ecx) edi 4 := by
        intro x hlo hhi
        cases ecx with
        | zero => rfl
        | succ ecx =>
          have hnext : reg32 (edi + 8) = edi + 8 := Nat.mod_eq_of_lt (by omega)
          rw [hnext]
          apply mapLoop_skips (by omega)
          omega
      simp only [Nat.mul_zero, Nat.add_zero]
      rw [readLE_congr hkeep]
      apply readLE_writeLE_of_lt
      omega
    | succ i =>
      have hedi : reg32 (edi + 8) = edi + 8 := Nat.mod_eq_of_lt (by omega)
      have hebx : reg32 (ebx + 0x200000) = ebx + 0x200000 := Nat.mod_eq_of_lt (by omega)
      have hpos : edi + 8 * (i + 1) = edi + 8 + 8 * i := by omega
      rw [hedi, hebx, hpos, ih (by omega) (by omega) (by omega)]
      omega

end Stores

section Tables

variable {m : ByteMem} {pml4Table va i x : Nat}

-- The tables lie below 4 GiB, each on a page of its own.
structure TablesFit (pml4Table : Nat) : Prop where
  aligned : 4096 ∣ pml4Table
  below : pml4Table + pageTablesSize ≤ 2 ^ 32

theorem TablesFit.aligned_pdpt (hfit : TablesFit pml4Table) : 4096 ∣ pml4Table + 4096 :=
  (Nat.dvd_add_right hfit.aligned).mpr (Nat.dvd_refl 4096)

theorem TablesFit.aligned_pd (hfit : TablesFit pml4Table) : 4096 ∣ pml4Table + 8192 :=
  (Nat.dvd_add_right hfit.aligned).mpr (Nat.dvd_mul_left 4096 2)

theorem tableEntry_eq {p : Nat} (hp : 4096 ∣ p) : p ||| 0x03 = p + 3 := by
  obtain ⟨k, hk⟩ := hp
  have hpow : p = 2 ^ 12 * k := by omega
  rw [hpow]
  exact (Nat.two_pow_add_eq_or_of_lt (by omega) k).symm

theorem setupPageTables_eq
    : setupPageTables m pml4Table
        = mapLoop (((repStosl m pml4Table 0 3072).writeLE pml4Table 4 (pml4Table + 4096 ||| 0x03)).writeLE
            (pml4Table + 4096) 4 (pml4Table + 8192 ||| 0x03)) (pml4Table + 8192) 0x83 512 := by
  unfold setupPageTables
  rw [Nat.add_assoc pml4Table 4096 4096]

theorem setupPageTables_outside (hfit : TablesFit pml4Table)
    (h : x < pml4Table ∨ pml4Table + pageTablesSize ≤ x)
    : setupPageTables m pml4Table x = m x := by
  have hbelow := hfit.below
  unfold pageTablesSize at hbelow h
  rw [setupPageTables_eq, mapLoop_skips (by omega), writeLE_outside, writeLE_outside, repStosl_zero (by omega),
    fill_outside]
  . omega
  . omega
  . omega
  . omega
  . intro i hi
    omega

-- What is not the low half of an entry that the code fills in is zero.
theorem setupPageTables_zero (hfit : TablesFit pml4Table)
    (hx : pml4Table ≤ x ∧ x < pml4Table + pageTablesSize)
    (hpml4 : x < pml4Table ∨ pml4Table + 4 ≤ x)
    (hpdpt : x < pml4Table + 4096 ∨ pml4Table + 4096 + 4 ≤ x)
    (hpd : ∀ i < 512, x < pml4Table + 8192 + 8 * i ∨ pml4Table + 8192 + 8 * i + 4 ≤ x)
    : setupPageTables m pml4Table x = 0 := by
  have hbelow := hfit.below
  unfold pageTablesSize at hbelow hx
  rw [setupPageTables_eq, mapLoop_skips (by omega) hpd, writeLE_outside _ _ _ _ _ hpdpt,
    writeLE_outside _ _ _ _ _ hpml4, repStosl_zero (by omega)]
  have hpos : x = pml4Table + (x - pml4Table) := by omega
  rw [hpos]
  apply fill_inside
  . omega
  . omega

theorem readLE_low_half {a : Nat} (h : ∀ i < 4, m (a + 4 + i) = 0) : m.readLE a 8 = m.readLE a 4 := by
  rw [readLE_add (n := 4) (k := 4), readLE_eq_zero h, Nat.mul_zero, Nat.add_zero]

theorem setupPageTables_pml4 (hfit : TablesFit pml4Table) (hi : i < 512)
    : (setupPageTables m pml4Table).readLE (pml4Table + 8 * i) 8
        = if i = 0 then pml4Table + 4096 + 3 else 0 := by
  have hbelow := hfit.below
  unfold pageTablesSize at hbelow
  split
  next hzero =>
    have hlow : (setupPageTables m pml4Table).readLE pml4Table 4 = pml4Table + 4096 + 3 := by
      rw [setupPageTables_eq, readLE_congr (mapLoop_agreeOn (by omega) (by omega)),
        readLE_congr (agreeOn_writeLE _ _ _ _ (by omega)), tableEntry_eq hfit.aligned_pdpt,
        readLE_writeLE_of_lt]
      omega
    rw [hzero, Nat.mul_zero, Nat.add_zero, readLE_low_half, hlow]
    intro j hj
    apply setupPageTables_zero hfit
    . unfold pageTablesSize; omega
    . omega
    . omega
    . omega
  next hzero =>
    apply readLE_eq_zero
    intro j hj
    apply setupPageTables_zero hfit
    . unfold pageTablesSize; omega
    . omega
    . omega
    . omega

theorem setupPageTables_pdpt (hfit : TablesFit pml4Table) (hi : i < 512)
    : (setupPageTables m pml4Table).readLE (pml4Table + 4096 + 8 * i) 8
        = if i = 0 then pml4Table + 8192 + 3 else 0 := by
  have hbelow := hfit.below
  unfold pageTablesSize at hbelow
  split
  next hzero =>
    have hlow : (setupPageTables m pml4Table).readLE (pml4Table + 4096) 4 = pml4Table + 8192 + 3 := by
      rw [setupPageTables_eq, readLE_congr (mapLoop_agreeOn (by omega) (by omega)),
        tableEntry_eq hfit.aligned_pd, readLE_writeLE_of_lt]
      omega
    rw [hzero, Nat.mul_zero, Nat.add_zero, readLE_low_half, hlow]
    intro j hj
    apply setupPageTables_zero hfit
    . unfold pageTablesSize; omega
    . omega
    . omega
    . omega
  next hzero =>
    apply readLE_eq_zero
    intro j hj
    apply setupPageTables_zero hfit
    . unfold pageTablesSize; omega
    . omega
    . omega
    . omega

theorem setupPageTables_pd (hfit : TablesFit pml4Table) (hi : i < 512)
    : (setupPageTables m pml4Table).readLE (pml4Table + 8192 + 8 * i) 8 = 0x83 + 0x200000 * i := by
  have hbelow := hfit.below
  unfold pageTablesSize at hbelow
  rw [readLE_low_half]
  . rw [setupPageTables_eq]
    exact mapLoop_entry (by omega) (by omega) hi
  . intro j hj
    apply setupPageTables_zero hfit
    . unfold pageTablesSize; omega
    . omega
    . omega
    . intro k hk
      omega

end Tables

section Translate

variable {m : ByteMem} {pml4Table va : Nat}

theorem frame_table {p : Nat} (hp : 4096 ∣ p) (hlt : p < 2 ^ 52) : Entry.frame p 12 = p := by
  unfold Entry.frame
  rw [Nat.mod_eq_of_lt hlt]
  exact Nat.div_mul_cancel hp

-- An entry that leads to a table: present, writable, for the kernel only.
theorem walk_setup_table {table level next : Nat} {user : Bool} (hnext : 4096 ∣ next) (hlt : next < 2 ^ 32)
    (he : entry m table va (level + 1) = next + 3)
    : walk m table va ⟨true, user⟩ (level + 1) = walk m next va ⟨true, false⟩ level := by
  have hpresent : Entry.present (next + 3) = true := by
    unfold Entry.present
    rw [decide_eq_true_iff]
    omega
  have hsize : Entry.pageSize (next + 3) = false := by
    unfold Entry.pageSize
    rw [decide_eq_false_iff_not]
    omega
  have hwritable : Entry.writable (next + 3) = true := by
    unfold Entry.writable
    rw [decide_eq_true_iff]
    omega
  have huser : Entry.user (next + 3) = false := by
    unfold Entry.user
    rw [decide_eq_false_iff_not]
    omega
  have hframe : Entry.frame (next + 3) 12 = next := by
    unfold Entry.frame
    omega
  rw [walk_table he hpresent hsize, hwritable, huser, hframe, Bool.and_false]
  rfl

-- An entry of the page directory: a page of 2 MiB, writable, for the kernel only.
theorem walk_setup_page {table i : Nat} (hi : i < 512) (he : entry m table va 1 = 0x83 + 0x200000 * i)
    : walk m table va ⟨true, false⟩ 1 = some ⟨0x200000 * i + va % 0x200000, true, false⟩ := by
  have hpresent : Entry.present (0x83 + 0x200000 * i) = true := by
    unfold Entry.present
    rw [decide_eq_true_iff]
    omega
  have hsize : Entry.pageSize (0x83 + 0x200000 * i) = true := by
    unfold Entry.pageSize
    rw [decide_eq_true_iff]
    omega
  have hclear : Entry.reservedClear (0x83 + 0x200000 * i) (pageBits 1) = true := by
    have hbits : 2 ^ (pageBits 1 - 13) = 256 := rfl
    unfold Entry.reservedClear
    rw [decide_eq_true_iff, hbits]
    omega
  have hmapping : mapping (0x83 + 0x200000 * i) va 1 ⟨true, false⟩
      = ⟨0x200000 * i + va % 0x200000, true, false⟩ := by
    have hbits : 2 ^ pageBits 1 = 0x200000 := rfl
    have hframe : Entry.frame (0x83 + 0x200000 * i) (pageBits 1) = 0x200000 * i := by
      unfold Entry.frame
      rw [hbits]
      omega
    have hwritable : Entry.writable (0x83 + 0x200000 * i) = true := by
      unfold Entry.writable
      rw [decide_eq_true_iff]
      omega
    unfold mapping
    rw [hframe, hbits, hwritable, Bool.false_and]
    rfl
  rw [walk_page he hpresent hsize (by decide) hclear, hmapping]

theorem index_lt (va level : Nat) : index va level < 512 := Nat.mod_lt _ (by decide)

theorem entry_setup_pml4 (hfit : TablesFit pml4Table)
    : entry (setupPageTables m pml4Table) pml4Table va 3
        = if index va 3 = 0 then pml4Table + 4096 + 3 else 0 :=
  setupPageTables_pml4 hfit (index_lt va 3)

theorem entry_setup_pdpt (hfit : TablesFit pml4Table)
    : entry (setupPageTables m pml4Table) (pml4Table + 4096) va 2
        = if index va 2 = 0 then pml4Table + 8192 + 3 else 0 :=
  setupPageTables_pdpt hfit (index_lt va 2)

theorem entry_setup_pd (hfit : TablesFit pml4Table)
    : entry (setupPageTables m pml4Table) (pml4Table + 8192) va 1 = 0x83 + 0x200000 * index va 1 :=
  setupPageTables_pd hfit (index_lt va 1)

-- The first GiB is where the first entry of the two upper tables leads.
theorem lt_gib_iff (hva : Canonical va) : va < 2 ^ 30 ↔ index va 3 = 0 ∧ index va 2 = 0 := by
  have h3 : index va 3 = va / 2 ^ 39 % 512 := rfl
  have h2 : index va 2 = va / 2 ^ 30 % 512 := rfl
  rw [h3, h2]
  unfold Canonical at hva
  omega

/--
After the switch to long mode every address below 1 GiB stands for itself, nothing else is mapped, and
only the tables are written.
-/
theorem page_tables_map_first_gib (m : ByteMem) (pml4Table : Nat) (hfit : TablesFit pml4Table)
    : (∀ va, LongMode.translate (setupPageTables m pml4Table) pml4Table va
        = if va < 2 ^ 30 then some ⟨va, true, false⟩ else none)
      ∧ ∀ x, x < pml4Table ∨ pml4Table + pageTablesSize ≤ x → setupPageTables m pml4Table x = m x := by
  refine ⟨?_, fun x => setupPageTables_outside hfit⟩
  intro va
  have hbelow := hfit.below
  unfold pageTablesSize at hbelow
  unfold LongMode.translate
  by_cases hcanonical : Canonical va
  . rw [if_pos hcanonical, frame_table hfit.aligned (by omega)]
    by_cases hpml4 : index va 3 = 0
    . have hentry3 : entry (setupPageTables m pml4Table) pml4Table va 3 = _ := entry_setup_pml4 hfit
      rw [if_pos hpml4] at hentry3
      rw [walk_setup_table hfit.aligned_pdpt (by omega) hentry3]
      by_cases hpdpt : index va 2 = 0
      . have hentry2 : entry (setupPageTables m pml4Table) (pml4Table + 4096) va 2 = _ :=
          entry_setup_pdpt hfit
        rw [if_pos hpdpt] at hentry2
        have hva := (lt_gib_iff hcanonical).mpr ⟨hpml4, hpdpt⟩
        have hindex : index va 1 = va / 0x200000 % 512 := rfl
        have hphys : 0x200000 * (va / 0x200000 % 512) + va % 0x200000 = va := by omega
        rw [walk_setup_table hfit.aligned_pd (by omega) hentry2,
          walk_setup_page (index_lt va 1) (entry_setup_pd hfit), if_pos hva, hindex, hphys]
      . have hentry2 : entry (setupPageTables m pml4Table) (pml4Table + 4096) va 2 = _ :=
          entry_setup_pdpt hfit
        rw [if_neg hpdpt] at hentry2
        have hva : ¬va < 2 ^ 30 := fun h => hpdpt ((lt_gib_iff hcanonical).mp h).2
        rw [walk_of_not_present hentry2, if_neg hva]
    . have hentry3 : entry (setupPageTables m pml4Table) pml4Table va 3 = _ := entry_setup_pml4 hfit
      rw [if_neg hpml4] at hentry3
      have hva : ¬va < 2 ^ 30 := fun h => hpml4 ((lt_gib_iff hcanonical).mp h).1
      rw [walk_of_not_present hentry3, if_neg hva]
  . have hva : ¬va < 2 ^ 30 := by
      unfold Canonical at hcanonical
      omega
    rw [if_neg hcanonical, if_neg hva]

-- Tables at 1 MiB.
theorem page_tables_map_first_gib_at
    : TablesFit 0x100000
      ∧ LongMode.translate (setupPageTables (fun _ => 0xFF) 0x100000) 0x100000 0xB8000
        = some ⟨0xB8000, true, false⟩ := by
  have hfit : TablesFit 0x100000 := ⟨by decide, by decide⟩
  exact ⟨hfit, (page_tables_map_first_gib (fun _ => 0xFF) 0x100000 hfit).1 0xB8000⟩

end Translate

end DismasmOS
