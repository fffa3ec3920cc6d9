import DismasmOS.Kbd.Lemmas.Typing

/-!
This module contains the meaning of a stream of scancodes: the keys that come out of it do not depend on how
the interrupts and the reader of the queue take turns, as long as the queue never fills up.
-/

namespace DismasmOS

-- The keys that a wheel is turned into. The prompt does not know them.
def notScroll (key : Int) : Bool := key ≠ KEY_SCROLL_UP ∧ key ≠ KEY_SCROLL_DOWN

namespace Kbd

variable {k k' : Kbd} {scancode : UInt8} {scancodes : List UInt8}

-- What the driver has remembered of the scancodes before.
def drained (k : Kbd) : Kbd := { k with queue := KeySystem.boot.kbd.queue, accepted := [] }

-- The keys for the next scancodes.
def emitted (k : Kbd) (scancodes : List UInt8) : List Int :=
  match scancodes with
  | [] => []
  | scancode :: scancodes =>
    (kbdHandler k.drained scancode).accepted ++ (kbdHandler k.drained scancode).emitted scancodes

theorem length_drained (k : Kbd) : k.drained.queue.pending.length = 0 := by
  have hpending : KeySystem.boot.kbd.queue.pending = [] := kbdInit_pending _
  show KeySystem.boot.kbd.queue.pending.length = 0
  rw [hpending]
  rfl

theorem drained_enqueueKey (k : Kbd) (key : Int) : (kbdEnqueueKey k key).drained = k.drained := by
  unfold kbdEnqueueKey
  cases k.queue.push key with
  | none => rfl
  | some queue => rfl

theorem drained_enqueueKeys (k : Kbd) (keys : List Int) : (kbdEnqueueKeys k keys).drained = k.drained := by
  unfold kbdEnqueueKeys
  induction keys generalizing k with
  | nil => rfl
  | cons key keys ih => exact (ih _).trans (drained_enqueueKey k key)

-- A scancode changes the flags and brings one key at most, whatever is in the queue.
def Emits (k : Kbd) (handler : Kbd → Kbd) : Prop :=
  ∃ (k' : Kbd) (keys : List Int), keys.length ≤ 1
    ∧ ∀ queue accepted, handler { k with queue := queue, accepted := accepted }
      = kbdEnqueueKeys { k' with queue := queue, accepted := accepted } keys

theorem Emits.quiet {handler : Kbd → Kbd} (k' : Kbd)
    (h : ∀ queue accepted, handler { k with queue := queue, accepted := accepted }
      = { k' with queue := queue, accepted := accepted })
    : k.Emits handler :=
  ⟨k', [], Nat.zero_le 1, h⟩

theorem Emits.key {handler : Kbd → Kbd} (k' : Kbd) (key : Int)
    (h : ∀ queue accepted, handler { k with queue := queue, accepted := accepted }
      = kbdEnqueueKey { k' with queue := queue, accepted := accepted } key)
    : k.Emits handler :=
  ⟨k', [key], Nat.le_refl 1, h⟩

theorem emits_handlePlain (k : Kbd) (scancode : UInt8) : k.Emits (kbdHandlePlain · scancode) := by
  unfold kbdHandlePlain
  split
  . exact .quiet { k with shiftPressed := true } fun _ _ => rfl
  split
  . exact .quiet { k with shiftPressed := false } fun _ _ => rfl
  split
  . exact .key k KEY_ALT fun _ _ => rfl
  split
  . exact .quiet k fun _ _ => rfl
  split
  . exact .quiet k fun _ _ => rfl
  . by_cases hkey : kbdKey k scancode = 0
    . exact .quiet k fun _ _ => if_neg (not_not_intro hkey)
    . exact .key k (kbdKey k scancode) fun _ _ => if_pos hkey

theorem emits_handler (k : Kbd) (scancode : UInt8) : k.Emits (kbdHandler · scancode) := by
  obtain ⟨queue, shift, altgr, extended, layout, accepted⟩ := k
  unfold kbdHandler
  split
  . exact .quiet ⟨queue, shift, altgr, true, layout, accepted⟩ fun _ _ => rfl
  . cases extended with
    | false => exact emits_handlePlain ⟨queue, shift, altgr, false, layout, accepted⟩ scancode
    | true =>
      dsimp only
      split
      . exact .quiet ⟨queue, shift, true, false, layout, accepted⟩ fun _ _ => rfl
      split
      . exact .quiet ⟨queue, shift, false, false, layout, accepted⟩ fun _ _ => rfl
      split
      . exact .quiet ⟨queue, shift, altgr, false, layout, accepted⟩ fun _ _ => rfl
      split
      . exact .key ⟨queue, shift, altgr, false, layout, accepted⟩ (kbdExtendedKey scancode) fun _ _ => rfl
      . exact emits_handlePlain ⟨queue, shift, altgr, false, layout, accepted⟩ scancode

theorem handler_drained (k : Kbd) (scancode : UInt8)
    : (kbdHandler k scancode).drained = (kbdHandler k.drained scancode).drained := by
  obtain ⟨k', keys, -, heq⟩ := emits_handler k scancode
  have hk : kbdHandler k scancode = _ := heq k.queue k.accepted
  have hdrained : kbdHandler k.drained scancode = _ := heq _ _
  rw [hk, hdrained, drained_enqueueKeys, drained_enqueueKeys]
  rfl

theorem handler_accepted (hroom : k.queue.pending.length < 255) (scancode : UInt8)
    : (kbdHandler k scancode).accepted = k.accepted ++ (kbdHandler k.drained scancode).accepted
      ∧ (kbdHandler k scancode).queue.pending.length ≤ k.queue.pending.length + 1 := by
  obtain ⟨k', keys, hlen, heq⟩ := emits_handler k scancode
  have hk : kbdHandler k scancode = _ := heq k.queue k.accepted
  have hdrained : kbdHandler k.drained scancode = _ := heq KeySystem.boot.kbd.queue []
  have hone : ∀ k : Kbd, k.queue.pending.length < 255 → (kbdEnqueueKeys k keys).accepted = k.accepted ++ keys
      ∧ (kbdEnqueueKeys k keys).queue.pending.length ≤ k.queue.pending.length + 1 := by
    intro k hk
    match keys, hlen with
    | [], _ => exact ⟨(List.append_nil _).symm, Nat.le_succ _⟩
    | [key], _ =>
      obtain ⟨haccepted, hpending⟩ | ⟨-, hfull⟩ := kbdEnqueueKey_cases k key
      . refine ⟨haccepted, ?_⟩
        show (kbdEnqueueKey k key).queue.pending.length ≤ _
        rw [hpending, List.length_append, List.length_singleton]
      . omega
  have hempty := hone { k' with queue := KeySystem.boot.kbd.queue, accepted := [] } (by
    show k.drained.queue.pending.length < 255
    rw [length_drained]
    decide)
  have hfull := hone { k' with queue := k.queue, accepted := k.accepted } hroom
  rw [hk, hdrained, hempty.1]
  exact hfull

theorem emitted_congr (h : k'.drained = k.drained) : k'.emitted scancodes = k.emitted scancodes := by
  cases scancodes with
  | nil => rfl
  | cons scancode scancodes =>
    unfold emitted
    rw [h]

theorem foldl_drained (h : k'.drained = k.drained) (scancodes : List UInt8)
    : (scancodes.foldl kbdHandler k').drained = (scancodes.foldl kbdHandler k).drained := by
  induction scancodes generalizing k k' with
  | nil => exact h
  | cons scancode scancodes ih =>
    apply ih
    rw [handler_drained, h, ← handler_drained]

theorem emitted_append (k : Kbd) (before after : List UInt8)
    : k.emitted (before ++ after) = k.emitted before ++ (before.foldl kbdHandler k).emitted after := by
  induction before generalizing k with
  | nil => rfl
  | cons scancode before ih =>
    have hsame : (kbdHandler k.drained scancode).drained = (kbdHandler k scancode).drained :=
      (handler_drained k scancode).symm
    rw [List.cons_append, emitted, emitted, ih, emitted_congr (foldl_drained hsame before), List.append_assoc]
    rfl

theorem emitted_singleton (k : Kbd) (scancode : UInt8)
    : k.emitted [scancode] = (kbdHandler k.drained scancode).accepted :=
  List.append_nil _

end Kbd

-- The scancodes of a run.
def KeyEvent.scancode (e : KeyEvent) : List UInt8 :=
  match e with
  | .kbdInterrupt scancode => [scancode]
  | _ => []

def scancodes (es : List KeyEvent) : List UInt8 := es.flatMap KeyEvent.scancode

-- The layout stays, and an interrupt finds room in the queue.
def TypingStep (s : KeySystem) (e : KeyEvent) (t : KeySystem) : Prop :=
  CpuStep s e t ∧ (e.isInterrupt → s.kbd.queue.pending.length < 255) ∧ ∀ layout, e ≠ .setLayout layout

section Run

variable {s₀ s t : KeySystem} {e : KeyEvent} {es : List KeyEvent}

-- The driver has decoded the scancodes so far.
structure Decoded (s₀ : KeySystem) (es : List KeyEvent) (s : KeySystem) : Prop where
  drained : s.kbd.drained = ((scancodes es).foldl kbdHandler s₀.kbd).drained
  accepted : s.kbd.accepted.filter notScroll
    = (s₀.kbd.accepted ++ s₀.kbd.emitted (scancodes es)).filter notScroll

theorem scancodes_snoc (es : List KeyEvent) (e : KeyEvent)
    : scancodes (es ++ [e]) = scancodes es ++ e.scancode := by
  unfold scancodes
  rw [List.flatMap_append, List.flatMap_singleton]

theorem Decoded.quiet (h : Decoded s₀ es s) (hdrained : t.kbd.drained = s.kbd.drained)
    (haccepted : t.kbd.accepted.filter notScroll = s.kbd.accepted.filter notScroll) (hcode : e.scancode = [])
    : Decoded s₀ (es ++ [e]) t := by
  constructor
  . rw [scancodes_snoc, hcode, List.append_nil, hdrained, h.drained]
  . rw [scancodes_snoc, hcode, List.append_nil, haccepted, h.accepted]

theorem mouse_scrolls (m : Mouse) (k : Kbd) (status data : UInt8)
    : (mouseHandler m k status data).2 = k
      ∨ (mouseHandler m k status data).2 = kbdEnqueueKey k KEY_SCROLL_UP
      ∨ (mouseHandler m k status data).2 = kbdEnqueueKey k KEY_SCROLL_DOWN := by
  unfold mouseHandler
  dsimp only
  split
  . split
    . split
      . exact .inl rfl
      . exact .inl rfl
    split
    . exact .inl rfl
    split
    . exact .inl rfl
    split
    . split
      . exact .inr (.inl rfl)
      split
      . exact .inr (.inr rfl)
      . exact .inl rfl
    . exact .inl rfl
  . exact .inl rfl

theorem enqueue_scroll (k : Kbd) {key : Int} (hkey : notScroll key = false)
    : (kbdEnqueueKey k key).accepted.filter notScroll = k.accepted.filter notScroll := by
  obtain ⟨haccepted, -⟩ | ⟨hsame, -⟩ := kbdEnqueueKey_cases k key
  . rw [haccepted, List.filter_append, List.filter_singleton, hkey]
    exact List.append_nil _
  . rw [hsame]

theorem Decoded.step (h : Decoded s₀ es s) (hstep : TypingStep s e t) : Decoded s₀ (es ++ [e]) t := by
  obtain ⟨⟨hkey, -, henqueue⟩, hroom, hlayout⟩ := hstep
  cases hkey with
  | kbdInterrupt scancode =>
    obtain ⟨haccepted, -⟩ := Kbd.handler_accepted (hroom rfl) scancode
    have hsnoc : scancodes (es ++ [.kbdInterrupt scancode]) = scancodes es ++ [scancode] := scancodes_snoc es _
    constructor
    . rw [hsnoc, List.foldl_append]
      exact (Kbd.foldl_drained h.drained [scancode])
    . show (kbdHandler s.kbd scancode).accepted.filter notScroll = _
      rw [hsnoc, haccepted, Kbd.emitted_append, ← Kbd.emitted_congr h.drained, Kbd.emitted_singleton,
        ← List.append_assoc, List.filter_append, h.accepted, ← List.filter_append]
  | mouseInterrupt status data =>
    obtain hsame | hup | hdown := mouse_scrolls s.mouse s.kbd status data
    . apply h.quiet
      . exact congrArg Kbd.drained hsame
      . exact congrArg (fun k : Kbd => k.accepted.filter notScroll) hsame
      . rfl
    . apply h.quiet
      . exact (congrArg Kbd.drained hup).trans (Kbd.drained_enqueueKey _ _)
      . exact (congrArg (fun k : Kbd => k.accepted.filter notScroll) hup).trans (enqueue_scroll _ rfl)
      . rfl
    . apply h.quiet
      . exact (congrArg Kbd.drained hdown).trans (Kbd.drained_enqueueKey _ _)
      . exact (congrArg (fun k : Kbd => k.accepted.filter notScroll) hdown).trans (enqueue_scroll _ rfl)
      . rfl
  | otherInterrupt =>
    have hwake := KeySystem.wake_kbd s
    exact h.quiet (congrArg Kbd.drained hwake) (congrArg (fun k : Kbd => k.accepted.filter notScroll) hwake) rfl
  | enqueueKey key => exact absurd rfl (henqueue key)
  | setLayout layout => exact absurd rfl (hlayout layout)
  | setInterrupts => exact h.quiet rfl rfl rfl
  | call => exact h.quiet rfl rfl rfl
  | testEmpty => exact h.quiet rfl rfl rfl
  | testPending => exact h.quiet rfl rfl rfl
  | sti => exact h.quiet rfl rfl rfl
  | hlt => exact h.quiet rfl rfl rfl
  | read => exact h.quiet rfl rfl rfl
  | advance => exact h.quiet rfl rfl rfl

end Run

end DismasmOS
