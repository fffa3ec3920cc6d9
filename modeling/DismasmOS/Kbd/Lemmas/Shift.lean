import DismasmOS.Kbd.Machine

/-!
This module contains the shift keys: when the one flag that the driver keeps for both of them tells
whether one of them is held.
-/

namespace DismasmOS

-- A scancode without its prefix 0xE0.
structure ScanCode where
  extended : Bool
  code : UInt8
  deriving DecidableEq

def scanCodes (extended : Bool) (stream : List UInt8) : List ScanCode :=
  match stream with
  | [] => []
  | c :: stream =>
    if c = 0xE0 then scanCodes true stream else ⟨extended, c⟩ :: scanCodes false stream

section Keys

variable (codes : List ScanCode)

-- The key was pressed, and not released since. Its codes have no prefix.
def Held (make brk : UInt8) : Prop :=
  (codes.filter fun c => !c.extended && (c.code = make || c.code = brk)).getLast? = some ⟨false, make⟩

instance (make brk : UInt8) : Decidable (Held codes make brk) := by
  unfold Held
  infer_instance

def ShiftHeld : Prop := Held codes 0x2A 0xAA ∨ Held codes 0x36 0xB6

instance : Decidable (ShiftHeld codes) := inferInstanceAs (Decidable (_ ∨ _))

def ScanCode.isShiftMake (c : ScanCode) : Bool := c.code = 0x2A || c.code = 0x36

def ScanCode.isShiftBreak (c : ScanCode) : Bool := !c.extended && (c.code = 0xAA || c.code = 0xB6)

-- The last code that the driver takes for one of a shift key.
def lastShiftCode : Option ScanCode := (codes.filter fun c => c.isShiftMake || c.isShiftBreak).getLast?

-- It belongs to no shift key that is held, or it releases one of the two that are.
def ShiftMistaken : Prop :=
  ∃ c, lastShiftCode codes = some c
    ∧ (c.isShiftMake ∧ c.extended ∧ ¬ShiftHeld codes ∨ c.isShiftBreak ∧ ShiftHeld codes)

end Keys

section Flags

theorem kbdEnqueueKey_flags (k : Kbd) (key : Int)
    : (kbdEnqueueKey k key).shiftPressed = k.shiftPressed
        ∧ (kbdEnqueueKey k key).extended = k.extended := by
  unfold kbdEnqueueKey
  split
  . exact ⟨rfl, rfl⟩
  . exact ⟨rfl, rfl⟩

theorem kbdHandlePlain_flags (k : Kbd) (scancode : UInt8)
    : (kbdHandlePlain k scancode).extended = k.extended
        ∧ (kbdHandlePlain k scancode).shiftPressed
          = if scancode = 0x2A ∨ scancode = 0x36 then true
            else if scancode = 0xAA ∨ scancode = 0xB6 then false
            else k.shiftPressed := by
  unfold kbdHandlePlain
  split
  . exact ⟨rfl, rfl⟩
  split
  . exact ⟨rfl, rfl⟩
  split
  . exact (kbdEnqueueKey_flags k _).symm
  split
  . exact ⟨rfl, rfl⟩
  split
  . exact ⟨rfl, rfl⟩
  dsimp only
  split
  . exact (kbdEnqueueKey_flags k _).symm
  . exact ⟨rfl, rfl⟩

theorem isShiftMake_iff (c : ScanCode) : c.isShiftMake ↔ c.code = 0x2A ∨ c.code = 0x36 := by
  unfold ScanCode.isShiftMake
  simp

theorem isShiftBreak_iff (c : ScanCode)
    : c.isShiftBreak ↔ c.extended = false ∧ (c.code = 0xAA ∨ c.code = 0xB6) := by
  unfold ScanCode.isShiftBreak
  simp

-- Behind the prefix the driver goes on to the other codes if it knows no key, 0x2A and 0x36 among them.
theorem kbdHandler_extended (k : Kbd) {scancode : UInt8} (hcode : scancode ≠ 0xE0)
    (hext : k.extended = true)
    : (kbdHandler k scancode).extended = false
        ∧ (kbdHandler k scancode).shiftPressed
          = if scancode = 0x2A ∨ scancode = 0x36 then true else k.shiftPressed := by
  have hmake : ∀ c : UInt8, c = 0x2A ∨ c = 0x36
      → c ≠ 0x38 ∧ c ≠ 0xB8 ∧ c &&& 0x80 = 0 ∧ kbdExtendedKey c = 0 := by
    rintro c (rfl | rfl) <;> decide
  have hbreak : ∀ c : UInt8, c = 0xAA ∨ c = 0xB6 → c &&& 0x80 ≠ 0 := by
    rintro c (rfl | rfl) <;> decide
  unfold kbdHandler
  rw [if_neg hcode, if_pos hext]
  dsimp only
  split
  . next halt =>
    rw [if_neg (fun h => (hmake _ h).1 halt)]
    exact ⟨rfl, rfl⟩
  split
  . next halt =>
    rw [if_neg (fun h => (hmake _ h).2.1 halt)]
    exact ⟨rfl, rfl⟩
  split
  . next hhigh =>
    rw [if_neg (fun h => hhigh (hmake _ h).2.2.1)]
    exact ⟨rfl, rfl⟩
  . next hlow =>
    split
    . next hkey =>
      rw [if_neg (fun h => hkey (hmake _ h).2.2.2)]
      exact (kbdEnqueueKey_flags _ _).symm
    . have hplain := kbdHandlePlain_flags { k with extended := false } scancode
      rw [if_neg (fun h => hlow (hbreak _ h))] at hplain
      exact hplain

theorem kbdHandler_flags (k : Kbd) {scancode : UInt8} (hcode : scancode ≠ 0xE0)
    : (kbdHandler k scancode).extended = false
        ∧ (kbdHandler k scancode).shiftPressed
          = if (⟨k.extended, scancode⟩ : ScanCode).isShiftMake then true
            else if (⟨k.extended, scancode⟩ : ScanCode).isShiftBreak then false
            else k.shiftPressed := by
  simp only [isShiftMake_iff, isShiftBreak_iff]
  cases hext : k.extended with
  | true =>
    simp only [Bool.true_eq_false, false_and, if_false]
    exact kbdHandler_extended k hcode hext
  | false =>
    have hplain := kbdHandlePlain_flags k scancode
    unfold kbdHandler
    rw [if_neg hcode, if_neg (by simp [hext])]
    rw [hext] at hplain
    simp only [true_and]
    exact hplain

end Flags

section Runs

variable {codes : List ScanCode}

theorem filter_concat {α : Type} (p : α → Bool) (l : List α) (x : α)
    : ((l ++ [x]).filter p).getLast? = if p x then some x else (l.filter p).getLast? := by
  rw [List.filter_append]
  by_cases hx : p x
  . rw [if_pos hx, List.filter_cons_of_pos hx, List.filter_nil, List.getLast?_concat]
  . rw [if_neg hx, List.filter_cons_of_neg hx, List.filter_nil, List.append_nil]

theorem getLast?_filter_imp {α : Type} {p q : α → Bool} {l : List α} {x : α}
    (hlast : (l.filter p).getLast? = some x) (himp : ∀ y, q y → p y) (hx : q x)
    : (l.filter q).getLast? = some x := by
  obtain ⟨init, hinit⟩ := List.getLast?_eq_some_iff.mp hlast
  have hfilter : l.filter q = (l.filter p).filter q := by
    rw [List.filter_filter]
    apply List.filter_congr
    intro y _
    by_cases hy : q y
    . simp [hy, himp y hy]
    . simp [hy]
  rw [hfilter, hinit, filter_concat, if_pos hx]

theorem shiftHeld_of_lastShiftCode {c : ScanCode} (hlast : lastShiftCode codes = some c)
    (hmake : c.isShiftMake) (hext : c.extended = false)
    : ShiftHeld codes := by
  rw [isShiftMake_iff] at hmake
  obtain ⟨extended, code⟩ := c
  dsimp only at hmake hext
  rw [hext] at hlast
  have hheld : ∀ make brk : UInt8, (make = 0x2A ∧ brk = 0xAA ∨ make = 0x36 ∧ brk = 0xB6)
      → code = make → Held codes make brk := by
    intro make brk hkey hcode
    rw [hcode] at hlast
    apply getLast?_filter_imp hlast
    . intro y hy
      unfold ScanCode.isShiftMake ScanCode.isShiftBreak
      grind
    . simp
  exact hmake.imp (hheld _ _ (.inl ⟨rfl, rfl⟩)) (hheld _ _ (.inr ⟨rfl, rfl⟩))

theorem not_shiftHeld_of_lastShiftCode (hlast : lastShiftCode codes = none) : ¬ShiftHeld codes := by
  have hnone : ∀ make brk : UInt8, (make = 0x2A ∨ make = 0x36) → ¬Held codes make brk := by
    intro make brk hmake hheld
    have hmem := List.mem_of_getLast? hheld
    unfold lastShiftCode at hlast
    rw [List.getLast?_eq_none_iff, List.filter_eq_nil_iff] at hlast
    apply hlast _ (List.mem_of_mem_filter hmem)
    unfold ScanCode.isShiftMake
    simp [hmake]
  intro hheld
  cases hheld with
  | inl hleft => exact hnone _ _ (.inl rfl) hleft
  | inr hright => exact hnone _ _ (.inr rfl) hright

-- The flag is what the last code of a shift key has left.
theorem shiftPressed_run (k : Kbd) (stream : List UInt8)
    (h : k.shiftPressed = (lastShiftCode codes).any ScanCode.isShiftMake)
    : (stream.foldl kbdHandler k).shiftPressed
        = (lastShiftCode (codes ++ scanCodes k.extended stream)).any ScanCode.isShiftMake := by
  induction stream generalizing k codes with
  | nil =>
    unfold scanCodes
    rw [List.append_nil]
    exact h
  | cons c stream ih =>
    rw [List.foldl_cons]
    unfold scanCodes
    by_cases hprefix : c = 0xE0
    . have hnext : kbdHandler k c = { k with extended := true } := if_pos hprefix
      rw [if_pos hprefix, hnext]
      exact ih { k with extended := true } h
    . obtain ⟨hext, hshift⟩ := kbdHandler_flags k hprefix
      rw [if_neg hprefix, ← List.singleton_append, ← List.append_assoc, ih, hext]
      rw [hshift, h]
      unfold lastShiftCode
      rw [filter_concat]
      by_cases hmake : (⟨k.extended, c⟩ : ScanCode).isShiftMake
      . simp [hmake]
      . by_cases hbreak : (⟨k.extended, c⟩ : ScanCode).isShiftBreak
        . simp [hmake, hbreak]
        . simp [hmake, hbreak]

-- The flag is right unless the last code was mistaken.
theorem shiftPressed_iff (k : Kbd) (stream : List UInt8)
    : let codes := scanCodes false stream
      ((stream.foldl kbdHandler (kbdInit k)).shiftPressed = true ↔ ShiftHeld codes)
        ↔ ¬ShiftMistaken codes := by
  intro codes
  have hstart : (kbdInit k).shiftPressed = (lastShiftCode []).any ScanCode.isShiftMake := rfl
  have hflag : (stream.foldl kbdHandler (kbdInit k)).shiftPressed
      = (lastShiftCode codes).any ScanCode.isShiftMake := shiftPressed_run (kbdInit k) stream hstart
  rw [hflag]
  unfold ShiftMistaken
  cases hlast : lastShiftCode codes with
  | none => simp [not_shiftHeld_of_lastShiftCode hlast]
  | some c =>
    have hshift : c.isShiftMake || c.isShiftBreak := (List.mem_filter.mp (List.mem_of_getLast? hlast)).2
    simp only [Option.any_some, Option.some.injEq, exists_eq_left']
    by_cases hmake : c.isShiftMake
    . have hbreak : ¬c.isShiftBreak := by
        rw [isShiftMake_iff] at hmake
        rw [isShiftBreak_iff]
        rintro ⟨_, h | h⟩ <;> rw [h] at hmake <;> revert hmake <;> decide
      cases hext : c.extended with
      | false => simp [hmake, hbreak, shiftHeld_of_lastShiftCode hlast hmake hext]
      | true => simp [hmake, hbreak]
    . have hbreak : c.isShiftBreak := by
        rw [Bool.or_eq_true] at hshift
        exact hshift.resolve_left hmake
      simp [hmake, hbreak]

-- The delete key, with the fake codes around it that leave the flag set.
theorem shiftPressed_fake
    : ¬∀ (k : Kbd) (stream : List UInt8),
        (stream.foldl kbdHandler (kbdInit k)).shiftPressed = true
          ↔ ShiftHeld (scanCodes false stream) := by
  intro h
  have hfake := h KeySystem.boot.kbd [0xE0, 0x2A, 0xE0, 0x53, 0xE0, 0xD3, 0xE0, 0xAA]
  revert hfake
  decide

end Runs

end DismasmOS
