import DismasmOS.Lib.Run
import DismasmOS.Kbd.Impl

/-!
This module contains the machine around the key queue: `kbd_getchar` instruction by instruction,
interrupted by the handlers of the keyboard and the mouse.
-/

namespace DismasmOS

inductive GetcharPc where
  | idle
  | test
  | sti
  | hlt
  | halted
  | read
  | advance (c : Int)
  deriving DecidableEq

-- `interrupts` is the interrupt flag. `shadow` holds between an `sti` that sets it and the end of the
-- next instruction, where the processor takes no interrupt yet. `returned` is not part of the
-- machine, it remembers the results of all calls of `kbd_getchar`.
structure KeySystem where
  kbd : Kbd
  mouse : Mouse
  interrupts : Bool
  shadow : Bool
  pc : GetcharPc
  returned : List Int

inductive KeyEvent where
  | kbdInterrupt (scancode : UInt8)
  | mouseInterrupt (status data : UInt8)
  | otherInterrupt
  | enqueueKey (key : Int)
  | setLayout (layout : KbdLayout)
  | setInterrupts (enabled : Bool)
  | call
  | test
  | sti
  | hlt
  | read
  | advance
  deriving DecidableEq

def KeyEvent.isInterrupt (e : KeyEvent) : Bool :=
  match e with
  | .kbdInterrupt _ | .mouseInterrupt _ _ | .otherInterrupt => true
  | _ => false

namespace KeySystem

-- An interrupt ends `hlt`.
def wake (s : KeySystem) : KeySystem :=
  match s.pc with
  | .halted => { s with pc := .test }
  | _ => s

def init (kbd : Kbd) (mouse : Mouse) (interrupts : Bool) : KeySystem where
  kbd := kbdInit kbd
  mouse := mouse
  interrupts := interrupts
  shadow := false
  pc := .idle
  returned := []

-- The static variables start as zero. The kernel has executed `sti` before its first `kbd_getchar`.
def boot : KeySystem :=
  init
    { queue := ⟨Vector.replicate KBD_BUF_SIZE 0, ⟨0, KBD_BUF_SIZE_pos⟩, ⟨0, KBD_BUF_SIZE_pos⟩⟩
      shiftPressed := false
      altgrPressed := false
      extended := false
      currentLayout := .de
      accepted := [] }
    { cycle := 0, packet := Vector.replicate 4 0, hasWheel := false }
    true

end KeySystem

-- The handlers run at any moment, each as a single step.
inductive KeyStep : KeySystem → KeyEvent → KeySystem → Prop
  | kbdInterrupt (s : KeySystem) (scancode : UInt8)
      : KeyStep s (.kbdInterrupt scancode) { s.wake with kbd := kbdHandler s.kbd scancode }
  | mouseInterrupt (s : KeySystem) (status data : UInt8)
      : KeyStep s (.mouseInterrupt status data)
          { s.wake with
              kbd := (mouseHandler s.mouse s.kbd status data).2
              mouse := (mouseHandler s.mouse s.kbd status data).1 }
  | otherInterrupt (s : KeySystem) : KeyStep s .otherInterrupt s.wake
  | enqueueKey (s : KeySystem) (key : Int)
      : KeyStep s (.enqueueKey key) { s with kbd := kbdEnqueueKey s.kbd key }
  | setLayout (s : KeySystem) (layout : KbdLayout) (hpc : s.pc = .idle)
      : KeyStep s (.setLayout layout) { s with kbd := kbdSetLayout s.kbd layout }
  | setInterrupts (s : KeySystem) (enabled : Bool) (hpc : s.pc = .idle)
      : KeyStep s (.setInterrupts enabled) { s with interrupts := enabled }
  | call (s : KeySystem) (hpc : s.pc = .idle) : KeyStep s .call { s with pc := .test }
  | testEmpty (s : KeySystem) (hpc : s.pc = .test) (hempty : s.kbd.queue.head = s.kbd.queue.tail)
      : KeyStep s .test { s with pc := .sti }
  | testPending (s : KeySystem) (hpc : s.pc = .test) (hpending : s.kbd.queue.head ≠ s.kbd.queue.tail)
      : KeyStep s .test { s with pc := .read }
  | sti (s : KeySystem) (hpc : s.pc = .sti)
      : KeyStep s .sti { s with interrupts := true, shadow := !s.interrupts, pc := .hlt }
  | hlt (s : KeySystem) (hpc : s.pc = .hlt) : KeyStep s .hlt { s with shadow := false, pc := .halted }
  | read (s : KeySystem) (hpc : s.pc = .read)
      : KeyStep s .read { s with pc := .advance s.kbd.queue.front }
  | advance (s : KeySystem) (c : Int) (hpc : s.pc = .advance c)
      : KeyStep s .advance
          { s with
              kbd := { s.kbd with queue := s.kbd.queue.pop }
              pc := .idle
              returned := s.returned ++ [c] }

-- On the processor an interrupt waits for the interrupt flag, and keys come from interrupts only.
def CpuStep (s : KeySystem) (e : KeyEvent) (t : KeySystem) : Prop :=
  KeyStep s e t
    ∧ (e.isInterrupt → s.interrupts = true ∧ s.shadow = false)
    ∧ ∀ key, e ≠ .enqueueKey key

end DismasmOS
