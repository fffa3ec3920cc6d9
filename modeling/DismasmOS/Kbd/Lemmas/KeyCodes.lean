import DismasmOS.Kbd.Lemmas.Queue

/-!
This module contains which codes the driver puts into the queue: those that the shell and the editor
take, except for the letters of the German layout that a `char` holds as a negative number.
-/

namespace DismasmOS

section KeyCodes

-- The test for characters in `shell_run` and `em_run`.
def Printable (c : Int) : Prop := (c ≥ 32 ∧ c ≤ 255) ∧ c ≠ 127

def specialKeys : List Int :=
  [8, 9, 10, 27, KEY_UP, KEY_DOWN, KEY_LEFT, KEY_RIGHT, KEY_HOME, KEY_END, KEY_PGUP, KEY_PGDN,
    KEY_INSERT, KEY_DELETE, KEY_ALT, KEY_SCROLL_UP, KEY_SCROLL_DOWN]

def KeyCode (c : Int) : Prop := c ∈ specialKeys ∨ Printable c

instance (c : Int) : Decidable (KeyCode c) :=
  inferInstanceAs (Decidable (_ ∨ ((_ ∧ _) ∧ _)))

-- The scancodes for a character from 0x80 on, and for the paragraph sign, which is 0x15.
def lostNormal : List UInt8 := [0x0C, 0x1A, 0x27, 0x28]
def lostShifted : List UInt8 := [0x04, 0x1A, 0x27, 0x28, 0x29]
def lostAltgr : List UInt8 := [0x03, 0x04, 0x32]

def LostKey (k : Kbd) (scancode : UInt8) : Prop :=
  k.currentLayout = .de
    ∧ scancode ∈ if k.altgrPressed then lostAltgr else if k.shiftPressed then lostShifted else lostNormal

theorem keymap_get_mem {map : Keymap} {scancode : UInt8} (h : map.get scancode ≠ 0)
    : ∃ c, (scancode, c) ∈ map ∧ map.get scancode = charKey c := by
  unfold Keymap.get at *
  cases hlookup : map.lookup scancode with
  | none =>
    rw [hlookup] at h
    exact absurd rfl h
  | some c =>
    obtain ⟨before, after, heq, _⟩ := List.lookup_eq_some_iff.mp hlookup
    refine ⟨c, ?_, rfl⟩
    rw [heq]
    simp

def Keymap.LosesOnly (map : Keymap) (lost : List UInt8) : Prop :=
  ∀ e ∈ map, e.1 ∈ lost ∨ KeyCode (charKey e.2)

instance (map : Keymap) (lost : List UInt8) : Decidable (map.LosesOnly lost) :=
  List.decidableBAll (p := fun e : UInt8 × UInt8 => e.1 ∈ lost ∨ KeyCode (charKey e.2)) map

theorem Keymap.LosesOnly.keyCode {map : Keymap} {lost : List UInt8} (h : map.LosesOnly lost)
    {scancode : UInt8} (hlost : scancode ∉ lost)
    : map.get scancode = 0 ∨ KeyCode (map.get scancode) := by
  by_cases hkey : map.get scancode = 0
  . exact .inl hkey
  . right
    obtain ⟨c, hmem, heq⟩ := keymap_get_mem hkey
    rw [heq]
    exact (h _ hmem).resolve_left hlost

theorem deNormal_losesOnly : kbdMapDeNormal.LosesOnly lostNormal := by decide
theorem deShifted_losesOnly : kbdMapDeShifted.LosesOnly lostShifted := by decide
theorem enNormal_losesOnly : kbdMapEnNormal.LosesOnly [] := by decide
theorem enShifted_losesOnly : kbdMapEnShifted.LosesOnly [] := by decide

theorem keyCode_ite {p : Prop} [Decidable p] {x y : Int} (hx : p → x = 0 ∨ KeyCode x)
    (hy : ¬p → y = 0 ∨ KeyCode y)
    : (if p then x else y) = 0 ∨ KeyCode (if p then x else y) := by
  split
  . next h => exact hx h
  . next h => exact hy h

theorem kbdExtendedKey_keyCode (scancode : UInt8)
    : kbdExtendedKey scancode = 0 ∨ KeyCode (kbdExtendedKey scancode) := by
  unfold kbdExtendedKey
  repeat'
    apply keyCode_ite
    . intro _
      decide
    intro _
  decide

theorem kbdAltgrKey_keyCode {scancode : UInt8} (hlost : scancode ∉ lostAltgr)
    : kbdAltgrKey scancode = 0 ∨ KeyCode (kbdAltgrKey scancode) := by
  unfold kbdAltgrKey
  repeat'
    apply keyCode_ite
    . intro hcode
      rw [hcode] at hlost
      revert hlost
      decide
    intro _
  decide

theorem kbdKey_keyCode {k : Kbd} {scancode : UInt8} (hlost : ¬LostKey k scancode)
    : kbdKey k scancode = 0 ∨ KeyCode (kbdKey k scancode) := by
  unfold kbdKey
  iterate 9
    apply keyCode_ite
    . intro _
      decide
    intro _
  apply keyCode_ite
  . intro hde
    unfold LostKey at hlost
    rw [not_and] at hlost
    have hcode := hlost hde
    split at hcode
    . next haltgr =>
      rw [if_pos haltgr]
      exact kbdAltgrKey_keyCode hcode
    . next haltgr =>
      rw [if_neg haltgr]
      apply keyCode_ite
      . intro _
        split at hcode
        . next hshift =>
          rw [if_pos hshift]
          exact deShifted_losesOnly.keyCode hcode
        . next hshift =>
          rw [if_neg hshift]
          exact deNormal_losesOnly.keyCode hcode
      . intro _
        decide
  . intro _
    apply keyCode_ite
    . intro _
      apply keyCode_ite
      . intro _
        exact enShifted_losesOnly.keyCode List.not_mem_nil
      . intro _
        exact enNormal_losesOnly.keyCode List.not_mem_nil
    . intro _
      decide

def navCodes : List UInt8 := [0x48, 0x50, 0x4B, 0x4D, 0x47, 0x4F, 0x49, 0x51, 0x53]

theorem kbdKey_of_notMem {k : Kbd} {scancode : UInt8} (hnav : scancode ∉ navCodes)
    (hde : k.currentLayout = .de) (hlow : scancode < 128)
    : kbdKey k scancode
        =
      if k.altgrPressed then kbdAltgrKey scancode
      else if k.shiftPressed then kbdMapDeShifted.get scancode
      else kbdMapDeNormal.get scancode := by
  unfold navCodes at hnav
  simp only [List.mem_cons, List.not_mem_nil, or_false, not_or] at hnav
  unfold kbdKey
  simp only [hnav, if_false, hde, if_true, hlow]

-- What the handler does with such a scancode: there is no other use for it.
theorem lost_spec
    : ∀ c ∈ lostNormal ++ lostShifted ++ lostAltgr,
        c ∉ navCodes ∧ c < 128 ∧ c ≠ 0xE0 ∧ c &&& 0x80 = 0 ∧ kbdExtendedKey c = 0
          ∧ c ∉ [0x2A, 0x36, 0xAA, 0xB6, 0x38, 0xB8] := by
  decide +kernel

theorem LostKey.mem {k : Kbd} {scancode : UInt8} (h : LostKey k scancode)
    : scancode ∈ lostNormal ++ lostShifted ++ lostAltgr := by
  have hmem := h.2
  rw [List.mem_append, List.mem_append]
  split at hmem
  . exact .inr hmem
  split at hmem
  . exact .inl (.inr hmem)
  . exact .inl (.inl hmem)

theorem LostKey.not_keyCode {k : Kbd} {scancode : UInt8} (h : LostKey k scancode)
    : kbdKey k scancode ≠ 0 ∧ ¬KeyCode (kbdKey k scancode) := by
  obtain ⟨hnav, hlow, _⟩ := lost_spec scancode h.mem
  have hmem := h.2
  have haltgr : ∀ c ∈ lostAltgr, kbdAltgrKey c ≠ 0 ∧ ¬KeyCode (kbdAltgrKey c) := by
    decide +kernel
  have hshifted : ∀ c ∈ lostShifted,
      kbdMapDeShifted.get c ≠ 0 ∧ ¬KeyCode (kbdMapDeShifted.get c) := by
    decide +kernel
  have hnormal : ∀ c ∈ lostNormal,
      kbdMapDeNormal.get c ≠ 0 ∧ ¬KeyCode (kbdMapDeNormal.get c) := by
    decide +kernel
  rw [kbdKey_of_notMem hnav h.1 hlow]
  split at hmem
  . next hpressed =>
    rw [if_pos hpressed]
    exact haltgr _ hmem
  . next hpressed =>
    rw [if_neg hpressed]
    split at hmem
    . next hshift =>
      rw [if_pos hshift]
      exact hshifted _ hmem
    . next hshift =>
      rw [if_neg hshift]
      exact hnormal _ hmem

end KeyCodes

section Handler

def Kbd.HasRoom (k : Kbd) : Prop := RingBuffer.advance k.queue.head ≠ k.queue.tail

instance (k : Kbd) : Decidable k.HasRoom := inferInstanceAs (Decidable (_ ≠ _))

theorem kbdEnqueueKey_accepted (k : Kbd) (key : Int)
    : (kbdEnqueueKey k key).accepted = if k.HasRoom then k.accepted ++ [key] else k.accepted := by
  unfold kbdEnqueueKey
  by_cases hroom : k.HasRoom
  . have hpush : k.queue.push key = some _ := if_pos hroom
    rw [hpush, if_pos hroom]
  . have hpush : k.queue.push key = none := if_neg hroom
    rw [hpush, if_neg hroom]

-- At most one key was put into the queue, and it has a code.
def Kbd.Adds (accepted : List Int) (k : Kbd) : Prop :=
  k.accepted = accepted ∨ ∃ key, KeyCode key ∧ k.accepted = accepted ++ [key]

theorem kbdEnqueueKey_adds (k : Kbd) {key : Int} (hkey : KeyCode key)
    : (kbdEnqueueKey k key).Adds k.accepted := by
  unfold Kbd.Adds
  rw [kbdEnqueueKey_accepted]
  split
  . exact .inr ⟨key, hkey, rfl⟩
  . exact .inl rfl

theorem kbdHandlePlain_adds {k : Kbd} {scancode : UInt8} (hlost : ¬LostKey k scancode)
    : (kbdHandlePlain k scancode).Adds k.accepted := by
  unfold kbdHandlePlain
  split
  . exact .inl rfl
  split
  . exact .inl rfl
  split
  . exact kbdEnqueueKey_adds k (by decide)
  split
  . exact .inl rfl
  split
  . exact .inl rfl
  dsimp only
  split
  . next hkey => exact kbdEnqueueKey_adds k ((kbdKey_keyCode hlost).resolve_left hkey)
  . exact .inl rfl

theorem kbdHandler_adds {k : Kbd} {scancode : UInt8} (hlost : ¬LostKey k scancode)
    : (kbdHandler k scancode).Adds k.accepted := by
  unfold kbdHandler
  split
  . exact .inl rfl
  split
  . dsimp only
    split
    . exact .inl rfl
    split
    . exact .inl rfl
    split
    . exact .inl rfl
    split
    . next hkey =>
      exact kbdEnqueueKey_adds { k with extended := false }
        ((kbdExtendedKey_keyCode scancode).resolve_left hkey)
    . exact kbdHandlePlain_adds (k := { k with extended := false }) hlost
  . exact kbdHandlePlain_adds hlost

theorem kbdHandlePlain_lost {k : Kbd} {scancode : UInt8} (hlost : LostKey k scancode)
    : kbdHandlePlain k scancode = kbdEnqueueKey k (kbdKey k scancode) := by
  obtain ⟨_, _, _, hlow, _, hplain⟩ := lost_spec scancode hlost.mem
  simp only [List.mem_cons, List.not_mem_nil, or_false, not_or] at hplain
  unfold kbdHandlePlain
  simp only [hplain, hlow, or_false, if_false, ne_eq, not_true_eq_false, hlost.not_keyCode.1,
    not_false_eq_true, if_true]

theorem kbdHandler_lost {k : Kbd} {scancode : UInt8} (hlost : LostKey k scancode)
    : (kbdHandler k scancode).accepted = (kbdEnqueueKey k (kbdKey k scancode)).accepted := by
  obtain ⟨_, _, hprefix, hlow, hextended, hplain⟩ := lost_spec scancode hlost.mem
  simp only [List.mem_cons, List.not_mem_nil, or_false, not_or] at hplain
  unfold kbdHandler
  rw [if_neg hprefix]
  split
  . have hstep := kbdHandlePlain_lost (k := { k with extended := false }) hlost
    simp only [hplain, hlow, hextended, if_false, ne_eq, not_true_eq_false]
    rw [hstep, kbdEnqueueKey_accepted, kbdEnqueueKey_accepted]
    rfl
  . rw [kbdHandlePlain_lost hlost]

theorem kbdHandler_keyCodes_iff (k : Kbd) (scancode : UInt8)
    : (∀ key ∈ (kbdHandler k scancode).accepted, KeyCode key)
        ↔ (∀ key ∈ k.accepted, KeyCode key) ∧ ¬(k.HasRoom ∧ LostKey k scancode) := by
  by_cases hlost : LostKey k scancode
  . rw [kbdHandler_lost hlost, kbdEnqueueKey_accepted]
    split
    . next hroom =>
      rw [List.forall_mem_append, List.forall_mem_singleton]
      constructor
      . intro h
        exact absurd h.2 hlost.not_keyCode.2
      . intro h
        exact absurd ⟨hroom, hlost⟩ h.2
    . next hroom => simp [hroom]
  . have hstep : ¬(k.HasRoom ∧ LostKey k scancode) := fun h => hlost h.2
    rw [iff_true_intro hstep, and_true]
    cases kbdHandler_adds hlost with
    | inl hsame => rw [hsame]
    | inr hadds =>
      obtain ⟨key, hkey, heq⟩ := hadds
      rw [heq, List.forall_mem_append, List.forall_mem_singleton]
      exact and_iff_left hkey

end Handler

section Stream

-- Whatever the reader of the queue does, it takes keys away.
inductive KbdEvent where
  | scan (scancode : UInt8)
  | setLayout (layout : KbdLayout)
  | take
  deriving DecidableEq

def KbdEvent.apply (k : Kbd) (e : KbdEvent) : Kbd :=
  match e with
  | scan scancode => kbdHandler k scancode
  | setLayout layout => kbdSetLayout k layout
  | take => if k.queue.head = k.queue.tail then k else { k with queue := k.queue.pop }

def kbdStream (k : Kbd) (events : List KbdEvent) : Kbd := events.foldl KbdEvent.apply k

theorem keyEvent_keyCodes_iff (k : Kbd) (e : KbdEvent)
    : (∀ key ∈ (e.apply k).accepted, KeyCode key)
        ↔ (∀ key ∈ k.accepted, KeyCode key)
          ∧ ∀ scancode, e = .scan scancode → ¬(k.HasRoom ∧ LostKey k scancode) := by
  cases e with
  | scan scancode =>
    have hstep := kbdHandler_keyCodes_iff k scancode
    simp only [KbdEvent.scan.injEq, forall_eq']
    exact hstep
  | setLayout layout =>
    simp only [reduceCtorEq, false_implies, implies_true, and_true]
    rfl
  | take =>
    have hsame : (KbdEvent.take.apply k).accepted = k.accepted := by
      show (if k.queue.head = k.queue.tail then k else { k with queue := k.queue.pop }).accepted = _
      split <;> rfl
    simp only [reduceCtorEq, false_implies, implies_true, and_true, hsame]

theorem kbdStream_keyCodes_iff (k : Kbd) (events : List KbdEvent)
    : (∀ key ∈ (kbdStream k events).accepted, KeyCode key)
        ↔ (∀ key ∈ k.accepted, KeyCode key)
          ∧ ∀ before scancode after, events = before ++ .scan scancode :: after
            → ¬((kbdStream k before).HasRoom ∧ LostKey (kbdStream k before) scancode) := by
  induction events generalizing k with
  | nil =>
    have hnone : ∀ before scancode after, ¬[] = before ++ KbdEvent.scan scancode :: after := by
      intro before scancode after
      simp
    simp only [hnone, false_implies, implies_true, and_true]
    rfl
  | cons e events ih =>
    show (∀ key ∈ (kbdStream (e.apply k) events).accepted, KeyCode key) ↔ _
    rw [ih, keyEvent_keyCodes_iff]
    constructor
    . rintro ⟨⟨hkeys, hhead⟩, htail⟩
      refine ⟨hkeys, ?_⟩
      intro before scancode after heq
      cases before with
      | nil =>
        rw [List.nil_append, List.cons.injEq] at heq
        exact hhead scancode heq.1
      | cons d before =>
        rw [List.cons_append, List.cons.injEq] at heq
        rw [← heq.1]
        exact htail before scancode after heq.2
    . rintro ⟨hkeys, hall⟩
      refine ⟨⟨hkeys, ?_⟩, ?_⟩
      . intro scancode heq
        exact hall [] scancode events (by rw [heq]; rfl)
      . intro before scancode after heq
        exact hall (e :: before) scancode after (by rw [heq]; rfl)

theorem kbd_keyCodes_iff (k : Kbd) (events : List KbdEvent)
    : (∀ key ∈ (kbdStream (kbdInit k) events).accepted, KeyCode key)
        ↔ ∀ before scancode after, events = before ++ .scan scancode :: after
            → let s := kbdStream (kbdInit k) before
              ¬(s.HasRoom ∧ LostKey s scancode) := by
  rw [kbdStream_keyCodes_iff]
  apply and_iff_right
  intro key hkey
  cases hkey

-- The key `ü` arrives as -127.
theorem kbd_umlaut_lost
    : ¬∀ (k : Kbd) (events : List KbdEvent),
        ∀ key ∈ (kbdStream (kbdInit k) events).accepted, KeyCode key := by
  intro h
  have hkey := h KeySystem.boot.kbd [.scan 0x1A] (-127) (by decide)
  revert hkey
  decide

end Stream

end DismasmOS
