import DismasmOS.Kbd.Lemmas.Queue

/-!
This module contains when `kbd_getchar` halts the processor with a key in the queue: `sti; hlt` takes no
interrupt between its two instructions, but only if interrupts were off when the queue was tested.
-/

namespace DismasmOS

-- A step in which an empty queue is found with interrupts off only.
def MaskedStep (s : KeySystem) (e : KeyEvent) (t : KeySystem) : Prop :=
  CpuStep s e t
    ∧ (e = .test → s.kbd.queue.head = s.kbd.queue.tail → s.interrupts = false)

-- No `hlt` that follows the next test finds a key in the queue, whatever interrupts it.
def SleepsSafely (s : KeySystem) : Prop :=
  ∀ es t u,
    Run CpuStep s (.test :: es) t
      → .test ∉ es
      → CpuStep t .hlt u
      → t.kbd.queue.head = t.kbd.queue.tail

namespace KeySystem

structure Asleep (s : KeySystem) : Prop where
  sti : s.pc = .sti → s.kbd.queue.head = s.kbd.queue.tail ∧ s.interrupts = false
  hlt : s.pc = .hlt → s.kbd.queue.head = s.kbd.queue.tail ∧ s.shadow = true

theorem asleep_of_pc {s : KeySystem} (hsti : s.pc ≠ .sti) (hhlt : s.pc ≠ .hlt) : s.Asleep :=
  ⟨fun h => absurd h hsti, fun h => absurd h hhlt⟩

theorem wake_pc_eq {s : KeySystem} {pc : GetcharPc} (htest : pc ≠ .test) (h : s.wake.pc = pc)
    : s.pc = pc := by
  rw [wake_pc] at h
  split at h
  . exact absurd h.symm htest
  . exact h

-- An interrupt is not taken between the test and `hlt`.
theorem Asleep.interrupted {s t : KeySystem} (h : s.Asleep)
    (htaken : s.interrupts = true ∧ s.shadow = false) (hpc : t.pc = s.wake.pc)
    : t.Asleep := by
  apply asleep_of_pc
  . intro hsti
    rw [hpc] at hsti
    have hmasked := (h.sti (wake_pc_eq (by decide) hsti)).2
    rw [htaken.1] at hmasked
    cases hmasked
  . intro hhlt
    rw [hpc] at hhlt
    have hmasked := (h.hlt (wake_pc_eq (by decide) hhlt)).2
    rw [htaken.2] at hmasked
    cases hmasked

theorem Asleep.step {s t : KeySystem} {e : KeyEvent} (h : s.Asleep) (hstep : MaskedStep s e t)
    : t.Asleep := by
  obtain ⟨⟨hkey, htaken, hproduced⟩, hmasked⟩ := hstep
  cases hkey with
  | kbdInterrupt scancode => exact h.interrupted (htaken rfl) rfl
  | mouseInterrupt status data => exact h.interrupted (htaken rfl) rfl
  | otherInterrupt => exact h.interrupted (htaken rfl) rfl
  | enqueueKey key => exact absurd rfl (hproduced key)
  | setLayout layout hpc => apply asleep_of_pc <;> simp [hpc]
  | setInterrupts enabled hpc => apply asleep_of_pc <;> simp [hpc]
  | call hpc => apply asleep_of_pc <;> simp
  | testEmpty hpc hempty =>
    constructor
    . intro _
      exact ⟨hempty, hmasked rfl hempty⟩
    . simp
  | testPending hpc hpending => apply asleep_of_pc <;> simp
  | sti hpc =>
    obtain ⟨hempty, hoff⟩ := h.sti hpc
    constructor
    . simp
    . intro _
      refine ⟨hempty, ?_⟩
      dsimp only
      rw [hoff]
      rfl
  | hlt hpc => apply asleep_of_pc <;> simp
  | read hpc => apply asleep_of_pc <;> simp
  | advance c hpc => apply asleep_of_pc <;> simp

theorem Asleep.hlt_empty {s t : KeySystem} (h : s.Asleep) (hstep : CpuStep s .hlt t)
    : s.kbd.queue.head = s.kbd.queue.tail := by
  cases hstep.1 with
  | hlt hpc => exact (h.hlt hpc).1

-- The shadow of `sti` lies on `hlt` alone.
theorem shadow_step {s t : KeySystem} {e : KeyEvent} (h : s.shadow = true → s.pc = .hlt)
    (hstep : CpuStep s e t)
    : t.shadow = true → t.pc = .hlt := by
  obtain ⟨hkey, htaken, hproduced⟩ := hstep
  cases hkey with
  | kbdInterrupt scancode | mouseInterrupt status data | otherInterrupt =>
    intro hshadow
    simp [(htaken rfl).2] at hshadow
  | enqueueKey key => exact absurd rfl (hproduced key)
  | sti hpc => exact fun _ => rfl
  | hlt hpc => simp
  | setLayout layout hpc => exact h
  | setInterrupts enabled hpc => exact h
  | call hpc | testEmpty hpc _ | testPending hpc _ | read hpc | advance _ hpc =>
    intro hshadow
    have hhlt := h hshadow
    rw [hpc] at hhlt
    cases hhlt

end KeySystem

-- 0x48 is a key in every state of the driver.
theorem kbdHandler_up (k : Kbd) : (kbdHandler k 0x48).queue = (kbdEnqueueKey k KEY_UP).queue := by
  have hplain : (kbdHandlePlain k 0x48).queue = (kbdEnqueueKey k KEY_UP).queue := rfl
  have hextended : (kbdEnqueueKey { k with extended := false } KEY_UP).queue
      = (kbdEnqueueKey k KEY_UP).queue := by
    unfold kbdEnqueueKey
    dsimp only
    cases k.queue.push KEY_UP <;> rfl
  unfold kbdHandler
  rw [if_neg (by decide)]
  split
  . exact hextended
  . exact hplain

theorem kbdHandler_up_pending {k : Kbd} (hempty : k.queue.head = k.queue.tail)
    : (kbdHandler k 0x48).queue.head ≠ (kbdHandler k 0x48).queue.tail := by
  rw [← RingBuffer.pending_eq_nil_iff] at hempty
  rw [ne_eq, ← RingBuffer.pending_eq_nil_iff, kbdHandler_up]
  cases kbdEnqueueKey_cases k KEY_UP with
  | inl h =>
    rw [h.2]
    simp
  | inr h =>
    rw [hempty] at h
    cases h.2

theorem KeyStep.cpuStep {s t : KeySystem} {e : KeyEvent} (h : KeyStep s e t)
    (hinterrupt : e.isInterrupt = false) (hkey : ∀ key, e ≠ .enqueueKey key)
    : CpuStep s e t := by
  refine ⟨h, ?_, hkey⟩
  rw [hinterrupt]
  intro htrue
  cases htrue

-- A key can come between the test and `sti` when interrupts are on there.
theorem not_sleepsSafely {s : KeySystem} (hpc : s.pc = .test)
    (hempty : s.kbd.queue.head = s.kbd.queue.tail) (hon : s.interrupts = true)
    (hshadow : s.shadow = false)
    : ¬SleepsSafely s := by
  intro hsafe
  have htest : CpuStep s .test _ := (KeyStep.testEmpty s hpc hempty).cpuStep rfl (by simp)
  have hkey : CpuStep { s with pc := .sti } (.kbdInterrupt 0x48) _ :=
    ⟨.kbdInterrupt _ _, fun _ => ⟨hon, hshadow⟩, by simp⟩
  have hsti : CpuStep { s with pc := .sti, kbd := kbdHandler s.kbd 0x48 } .sti _ :=
    (KeyStep.sti _ rfl).cpuStep rfl (by simp)
  have hrun := Run.cons htest (Run.cons hkey (Run.cons hsti (Run.nil _)))
  have hfull := hsafe _ _ _ hrun (by decide) ((KeyStep.hlt _ rfl).cpuStep rfl (by simp))
  exact kbdHandler_up_pending hempty hfull

theorem sleepsSafely_of_masked {s : KeySystem} (hpc : s.pc = .test) (hoff : s.interrupts = false)
    : SleepsSafely s := by
  intro es t u hrun hes hhlt
  cases hrun with
  | cons htest hrun =>
    have hasleep : s.Asleep := KeySystem.asleep_of_pc (by simp [hpc]) (by simp [hpc])
    have hstart := hasleep.step ⟨htest, fun _ _ => hoff⟩
    have hend : t.Asleep := by
      apply hrun.invariant KeySystem.Asleep
      . intro s e t he h hstep
        apply h.step
        refine ⟨hstep, ?_⟩
        intro heq
        rw [heq] at he
        exact absurd he hes
      . exact hstart
    exact hend.hlt_empty hhlt

theorem kbd_getchar_sleeps_iff (kbd : Kbd) (mouse : Mouse) (interrupts : Bool)
    : (∀ es s t,
        Run MaskedStep (KeySystem.init kbd mouse interrupts) es s
          → CpuStep s .hlt t
          → s.kbd.queue.head = s.kbd.queue.tail)
        ∧ ∀ es s,
            Run CpuStep (KeySystem.init kbd mouse interrupts) es s
              → s.pc = .test
              → s.kbd.queue.head = s.kbd.queue.tail
              → (SleepsSafely s ↔ s.interrupts = false) := by
  constructor
  . intro es s t hrun hhlt
    have hasleep : s.Asleep := by
      apply hrun.invariant KeySystem.Asleep
      . intro s e t _ h
        exact h.step
      . apply KeySystem.asleep_of_pc <;> simp [KeySystem.init]
    exact hasleep.hlt_empty hhlt
  . intro es s hrun hpc hempty
    have hshadow : s.shadow = true → s.pc = .hlt := by
      apply hrun.invariant fun s => s.shadow = true → s.pc = .hlt
      . intro s e t _ h
        exact KeySystem.shadow_step h
      . simp [KeySystem.init]
    constructor
    . intro hsafe
      cases hon : s.interrupts with
      | false => rfl
      | true =>
        cases hlit : s.shadow with
        | false => exact absurd hsafe (not_sleepsSafely hpc hempty hon hlit)
        | true =>
          have hhlt := hshadow hlit
          rw [hpc] at hhlt
          cases hhlt
    . exact sleepsSafely_of_masked hpc

-- After `asm cli` in the shell the first sleep is safe.
theorem kbd_getchar_sleeps_masked
    : ∃ s t,
        Run MaskedStep KeySystem.boot [.setInterrupts false, .call, .test, .sti] s
          ∧ CpuStep s .hlt t
          ∧ s.kbd.queue.head = s.kbd.queue.tail := by
  have hcli : MaskedStep KeySystem.boot (.setInterrupts false) _ :=
    ⟨(KeyStep.setInterrupts _ _ rfl).cpuStep rfl (by simp), by simp⟩
  have hcall : MaskedStep { KeySystem.boot with interrupts := false } .call _ :=
    ⟨(KeyStep.call _ rfl).cpuStep rfl (by simp), by simp⟩
  have htest : MaskedStep { KeySystem.boot with interrupts := false, pc := .test } .test _ :=
    ⟨(KeyStep.testEmpty _ rfl rfl).cpuStep rfl (by simp), fun _ _ => rfl⟩
  have hsti : MaskedStep { KeySystem.boot with interrupts := false, pc := .sti } .sti _ :=
    ⟨(KeyStep.sti _ rfl).cpuStep rfl (by simp), by simp⟩
  have hrun := Run.cons hcli (Run.cons hcall (Run.cons htest (Run.cons hsti (Run.nil _))))
  have hhlt := (KeyStep.hlt
    { KeySystem.boot with shadow := true, pc := .hlt } rfl).cpuStep rfl (by simp)
  exact ⟨_, _, hrun, hhlt, (kbd_getchar_sleeps_iff _ _ _).1 _ _ _ hrun hhlt⟩

theorem kbd_getchar_halts_pending
    : ∃ s t,
        Run CpuStep KeySystem.boot [.call, .test, .kbdInterrupt 0x1E, .sti] s
          ∧ CpuStep s .hlt t
          ∧ s.kbd.queue.head ≠ s.kbd.queue.tail := by
  have hcall : CpuStep KeySystem.boot .call _ := (KeyStep.call _ rfl).cpuStep rfl (by simp)
  have htest : CpuStep { KeySystem.boot with pc := .test } .test _ :=
    (KeyStep.testEmpty _ rfl rfl).cpuStep rfl (by simp)
  have hkey : CpuStep { KeySystem.boot with pc := .sti } (.kbdInterrupt 0x1E) _ :=
    ⟨.kbdInterrupt _ _, fun _ => ⟨rfl, rfl⟩, by simp⟩
  have hsti : CpuStep
      { KeySystem.boot with pc := .sti, kbd := kbdHandler KeySystem.boot.kbd 0x1E } .sti _ :=
    (KeyStep.sti _ rfl).cpuStep rfl (by simp)
  have hrun := Run.cons hcall (Run.cons htest (Run.cons hkey (Run.cons hsti (Run.nil _))))
  have hhlt := (KeyStep.hlt
    { KeySystem.boot with pc := .hlt, kbd := kbdHandler KeySystem.boot.kbd 0x1E } rfl).cpuStep
      rfl (by simp)
  exact ⟨_, _, hrun, hhlt, by decide⟩

end DismasmOS
