import DismasmOS.Kbd.Machine

/-!
This module contains the correctness of the key queue: `kbd_getchar` returns the accepted keys in their
order, whatever interrupts it.
-/

namespace DismasmOS

@[simp]
theorem kbdInit_accepted (k : Kbd) : (kbdInit k).accepted = [] := rfl

theorem kbdInit_pending (k : Kbd) : (kbdInit k).queue.pending = [] := by
  rw [RingBuffer.pending_eq_nil_iff]
  rfl

-- What a producer can do to the queue: nothing, or a single try to put a key into it.
inductive Kbd.Produced (k k' : Kbd) : Prop
  | quiet (queue : k'.queue = k.queue) (accepted : k'.accepted = k.accepted)
  | key (c : Int) (queue : k'.queue = (kbdEnqueueKey k c).queue)
      (accepted : k'.accepted = (kbdEnqueueKey k c).accepted)

theorem Kbd.Produced.refl (k : Kbd) : k.Produced k := .quiet rfl rfl

theorem kbdEnqueueKey_produced (k : Kbd) (c : Int) : k.Produced (kbdEnqueueKey k c) := .key c rfl rfl

theorem kbdEnqueueKey_congr {k k' : Kbd} (hqueue : k'.queue = k.queue)
    (haccepted : k'.accepted = k.accepted) (c : Int)
    : k.Produced (kbdEnqueueKey k' c) := by
  apply Kbd.Produced.key c
  . unfold kbdEnqueueKey
    rw [hqueue]
    cases k.queue.push c with
    | none => exact hqueue
    | some queue => rfl
  . unfold kbdEnqueueKey
    rw [hqueue]
    cases k.queue.push c with
    | none => exact haccepted
    | some queue =>
      dsimp only
      rw [haccepted]

theorem kbdHandlePlain_produced {k k' : Kbd} (hqueue : k'.queue = k.queue)
    (haccepted : k'.accepted = k.accepted) (scancode : UInt8)
    : k.Produced (kbdHandlePlain k' scancode) := by
  unfold kbdHandlePlain
  split
  . exact .quiet hqueue haccepted
  split
  . exact .quiet hqueue haccepted
  split
  . exact kbdEnqueueKey_congr hqueue haccepted _
  split
  . exact .quiet hqueue haccepted
  split
  . exact .quiet hqueue haccepted
  dsimp only
  split
  . exact kbdEnqueueKey_congr hqueue haccepted _
  . exact .quiet hqueue haccepted

theorem kbdHandler_produced (k : Kbd) (scancode : UInt8) : k.Produced (kbdHandler k scancode) := by
  unfold kbdHandler
  split
  . exact .quiet rfl rfl
  split
  . dsimp only
    split
    . exact .quiet rfl rfl
    split
    . exact .quiet rfl rfl
    split
    . exact .quiet rfl rfl
    split
    . apply kbdEnqueueKey_congr <;> rfl
    . apply kbdHandlePlain_produced <;> rfl
  . apply kbdHandlePlain_produced <;> rfl

theorem mouseHandler_produced (m : Mouse) (k : Kbd) (status data : UInt8)
    : k.Produced (mouseHandler m k status data).2 := by
  unfold mouseHandler
  split
  . split
    . split
      . exact .refl k
      . exact .refl k
    split
    . exact .refl k
    split
    . exact .refl k
    split
    . dsimp only
      split
      . exact kbdEnqueueKey_produced k _
      split
      . exact kbdEnqueueKey_produced k _
      . exact .refl k
    . exact .refl k
  . exact .refl k

theorem kbdEnqueueKey_cases (k : Kbd) (c : Int)
    : ((kbdEnqueueKey k c).accepted = k.accepted ++ [c]
          ∧ (kbdEnqueueKey k c).queue.pending = k.queue.pending ++ [c])
        ∨ (kbdEnqueueKey k c = k ∧ k.queue.pending.length = 255) := by
  unfold kbdEnqueueKey
  cases hpush : k.queue.push c with
  | some queue =>
    left
    exact ⟨rfl, RingBuffer.pending_push hpush⟩
  | none =>
    right
    have hfull := RingBuffer.push_eq_none hpush
    have hsize : KBD_BUF_SIZE = 256 := rfl
    exact ⟨rfl, by omega⟩

theorem Kbd.Produced.cases {k k' : Kbd} (h : k.Produced k')
    : ∃ keys,
        k'.accepted = k.accepted ++ keys ∧ k'.queue.pending = k.queue.pending ++ keys := by
  cases h with
  | quiet queue accepted =>
    apply Exists.intro []
    rw [queue, accepted, List.append_nil, List.append_nil]
    exact ⟨rfl, rfl⟩
  | key c queue accepted =>
    rw [queue, accepted]
    cases kbdEnqueueKey_cases k c with
    | inl h => exact ⟨[c], h⟩
    | inr h =>
      rw [h.1]
      apply Exists.intro []
      rw [List.append_nil, List.append_nil]
      exact ⟨rfl, rfl⟩

namespace KeySystem

@[simp]
theorem wake_kbd (s : KeySystem) : s.wake.kbd = s.kbd := by
  unfold wake
  split <;> rfl

@[simp]
theorem wake_returned (s : KeySystem) : s.wake.returned = s.returned := by
  unfold wake
  split <;> rfl

@[simp]
theorem wake_shadow (s : KeySystem) : s.wake.shadow = s.shadow := by
  unfold wake
  split <;> rfl

theorem wake_pc (s : KeySystem) : s.wake.pc = if s.pc = .halted then .test else s.pc := by
  unfold wake
  split
  . next h => rw [if_pos h]
  . next h => rw [if_neg h]

-- `kbd_getchar` has read nothing, a pending key, or the oldest one.
def Reading (pc : GetcharPc) (pending : List Int) : Prop :=
  match pc with
  | .read => pending ≠ []
  | .advance c => pending.head? = some c
  | _ => True

structure Fifo (s : KeySystem) : Prop where
  accepted : s.kbd.accepted = s.returned ++ s.kbd.queue.pending
  reading : Reading s.pc s.kbd.queue.pending

theorem Reading.append {pc : GetcharPc} {pending : List Int} (h : Reading pc pending) (keys : List Int)
    : Reading pc (pending ++ keys) := by
  unfold Reading at *
  split
  . dsimp only at h
    simp [h]
  . next c =>
    dsimp only at h
    rw [List.head?_append, h]
    rfl
  . trivial

theorem Reading.wake {s : KeySystem} {pending : List Int} (h : Reading s.pc pending)
    : Reading s.wake.pc pending := by
  rw [wake_pc]
  split
  . trivial
  . exact h

theorem Fifo.produced {s t : KeySystem} (h : s.Fifo) (hkbd : s.kbd.Produced t.kbd)
    (hreturned : t.returned = s.returned)
    (hpc : ∀ pending, Reading s.pc pending → Reading t.pc pending)
    : t.Fifo := by
  obtain ⟨keys, haccepted, hpending⟩ := hkbd.cases
  constructor
  . rw [haccepted, hpending, hreturned, h.accepted, List.append_assoc]
  . rw [hpending]
    apply hpc
    exact h.reading.append keys

theorem Fifo.step {s t : KeySystem} {e : KeyEvent} (h : s.Fifo) (hstep : KeyStep s e t) : t.Fifo := by
  cases hstep with
  | kbdInterrupt scancode =>
    exact h.produced (kbdHandler_produced _ _) (wake_returned s) fun _ => Reading.wake
  | mouseInterrupt status data =>
    exact h.produced (mouseHandler_produced _ _ _ _) (wake_returned s) fun _ => Reading.wake
  | otherInterrupt =>
    apply h.produced _ (wake_returned s) fun _ => Reading.wake
    rw [wake_kbd]
    exact .refl _
  | enqueueKey key => exact h.produced (kbdEnqueueKey_produced _ _) rfl fun _ => id
  | setLayout layout hpc => exact h.produced (.quiet rfl rfl) rfl fun _ => id
  | setInterrupts enabled hpc => exact h.produced (.refl _) rfl fun _ => id
  | call hpc => exact h.produced (.refl _) rfl fun _ _ => trivial
  | testEmpty hpc hempty => exact h.produced (.refl _) rfl fun _ _ => trivial
  | testPending hpc hpending =>
    constructor
    . exact h.accepted
    . rw [ne_eq, ← RingBuffer.pending_eq_nil_iff] at hpending
      exact hpending
  | sti hpc => exact h.produced (.refl _) rfl fun _ _ => trivial
  | hlt hpc => exact h.produced (.refl _) rfl fun _ _ => trivial
  | read hpc =>
    constructor
    . exact h.accepted
    . have hreading := h.reading
      rw [hpc] at hreading
      have hne : s.kbd.queue.head ≠ s.kbd.queue.tail := by
        rw [ne_eq, ← RingBuffer.pending_eq_nil_iff]
        exact hreading
      unfold Reading
      dsimp only
      rw [RingBuffer.pending_pop hne]
      rfl
  | advance c hpc =>
    have hreading := h.reading
    rw [hpc] at hreading
    unfold Reading at hreading
    dsimp only at hreading
    have hne : s.kbd.queue.head ≠ s.kbd.queue.tail := by
      rw [ne_eq, ← RingBuffer.pending_eq_nil_iff]
      intro hnil
      rw [hnil] at hreading
      cases hreading
    have hpop := RingBuffer.pending_pop hne
    have hfront : s.kbd.queue.front = c := by
      rw [hpop] at hreading
      exact Option.some.inj hreading
    constructor
    . dsimp only
      rw [h.accepted, hpop, hfront, List.append_assoc]
      rfl
    . trivial

theorem init_fifo (kbd : Kbd) (mouse : Mouse) (interrupts : Bool) : (init kbd mouse interrupts).Fifo := by
  constructor
  . unfold init
    dsimp only
    rw [kbdInit_pending, kbdInit_accepted]
    rfl
  . trivial

theorem run_fifo {kbd : Kbd} {mouse : Mouse} {interrupts : Bool} {es : List KeyEvent} {s : KeySystem}
    (hrun : Run KeyStep (init kbd mouse interrupts) es s)
    : s.Fifo := by
  apply hrun.invariant Fifo
  . intro s e t _ h
    exact h.step
  . exact init_fifo kbd mouse interrupts

end KeySystem

open KeySystem in
theorem kbd_getchar_fifo {kbd : Kbd} {mouse : Mouse} {interrupts : Bool} {es : List KeyEvent}
    {s : KeySystem} (hrun : Run KeyStep (init kbd mouse interrupts) es s)
    : s.kbd.accepted = s.returned ++ s.kbd.queue.pending
        ∧ (∀ c, s.pc = .advance c → s.kbd.accepted[s.returned.length]? = some c)
        ∧ ∀ key,
            (kbdEnqueueKey s.kbd key).accepted = s.kbd.accepted ++ [key]
              ∨ (kbdEnqueueKey s.kbd key = s.kbd ∧ s.kbd.queue.pending.length = 255) := by
  have hfifo := run_fifo hrun
  refine ⟨hfifo.accepted, ?_, ?_⟩
  . intro c hpc
    have hreading := hfifo.reading
    rw [hpc] at hreading
    rw [hfifo.accepted, List.getElem?_append_right (Nat.le_refl _), Nat.sub_self,
      ← List.head?_eq_getElem?]
    exact hreading
  . intro key
    cases kbdEnqueueKey_cases s.kbd key with
    | inl h => exact .inl h.1
    | inr h => exact .inr h

-- A second key arrives between the read of the first one and the update of the tail.
theorem kbd_getchar_fifo_interrupted
    : ∃ s,
        Run KeyStep KeySystem.boot
          [.kbdInterrupt 0x1E, .call, .test, .read, .kbdInterrupt 0x30, .advance] s
          ∧ s.returned = [charKey (chr 'a')]
          ∧ s.kbd.accepted = s.returned ++ s.kbd.queue.pending := by
  have hkey : KeyStep KeySystem.boot (.kbdInterrupt 0x1E) _ := .kbdInterrupt _ _
  have hrun : Run KeyStep KeySystem.boot
      [.kbdInterrupt 0x1E, .call, .test, .read, .kbdInterrupt 0x30, .advance] _ :=
    .cons hkey
      (.cons (.call _ rfl)
        (.cons (.testPending _ rfl (by decide))
          (.cons (.read _ rfl)
            (.cons (.kbdInterrupt _ _) (.cons (.advance _ (charKey (chr 'a')) rfl) (.nil _))))))
  exact ⟨_, hrun, rfl, (kbd_getchar_fifo hrun).1⟩

-- Keys one after the other, those without room are lost.
def kbdEnqueueKeys (k : Kbd) (keys : List Int) : Kbd := keys.foldl kbdEnqueueKey k

theorem kbdEnqueueKeys_append (k : Kbd) (keys1 keys2 : List Int)
    : kbdEnqueueKeys k (keys1 ++ keys2) = kbdEnqueueKeys (kbdEnqueueKeys k keys1) keys2 :=
  List.foldl_append

theorem kbdEnqueueKeys_pending (k : Kbd) (keys : List Int)
    (hroom : k.queue.pending.length + keys.length < KBD_BUF_SIZE)
    : (kbdEnqueueKeys k keys).queue.pending = k.queue.pending ++ keys := by
  induction keys generalizing k with
  | nil => exact (List.append_nil _).symm
  | cons key keys ih =>
    rw [List.length_cons] at hroom
    have hpush : (kbdEnqueueKey k key).queue.pending = k.queue.pending ++ [key] := by
      unfold kbdEnqueueKey
      split
      next queue h => exact RingBuffer.pending_push h
      next h =>
        have := RingBuffer.push_eq_none h
        omega
    have hrest := ih (kbdEnqueueKey k key) (by
      rw [hpush, List.length_append, List.length_singleton]
      omega)
    rw [hpush, List.append_assoc] at hrest
    exact hrest

end DismasmOS
