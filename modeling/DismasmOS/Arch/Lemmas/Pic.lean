import Mathlib.Data.Fintype.Basic
import Mathlib.Tactic.FinCases
import DismasmOS.Arch.Pic

/-!
This module contains the theorems about interrupts from the line of a device to the end of the handler, for
every order in which devices, processor and handlers act.
-/

namespace DismasmOS

open I8259

section Driver

variable (p : Pair) (v : UInt8)

theorem outb_pic1Command
    : p.outb PIC1_COMMAND v = (p.master.writeCommand v).map fun c => { p with master := c } :=
  rfl

theorem outb_pic1Data : p.outb PIC1_DATA v = (p.master.writeData v).map fun c => { p with master := c } :=
  rfl

theorem outb_pic2Command
    : p.outb PIC2_COMMAND v = (p.slave.writeCommand v).map fun c => { p with slave := c } :=
  rfl

theorem outb_pic2Data : p.outb PIC2_DATA v = (p.slave.writeData v).map fun c => { p with slave := c } :=
  rfl

theorem ioWait_eq : ioWait p = some p := rfl

theorem writeCommand_icw1 (c : Chip)
    : c.writeCommand 0x11 = some { c with stage := .icw2, imr := 0, irr := fun _ => false } :=
  rfl

theorem writeCommand_eoi (c : Chip) : c.writeCommand PIC_EOI = some c.endOfInterrupt := rfl

theorem writeData_ready {c : Chip} (h : c.stage = .ready) : c.writeData v = some { c with imr := v } := by
  cases c
  cases h
  rfl

-- Whatever the controllers did before.
theorem picRemap_eq (p : Pair) (offset1 offset2 : Int)
    : picRemap p offset1 offset2 = some {
        master := ⟨.ready, UInt8.ofInt offset1 &&& 0xF8, 4, 0xFD, fun _ => false, p.master.isr⟩
        slave := ⟨.ready, UInt8.ofInt offset2 &&& 0xF8, 2, 0xFF, fun _ => false, p.slave.isr⟩ } := by
  simp only [picRemap, outb_pic1Command, outb_pic1Data, outb_pic2Command, outb_pic2Data, ioWait_eq,
    writeCommand_icw1, Option.map_some, Option.bind_eq_bind, Option.bind_some, Chip.writeData, if_true]

theorem picUnmaskIrq_pic1 {irq : UInt8} (h : irq < 8) (hready : p.master.stage = .ready)
    : picUnmaskIrq p irq = some {
        p with
        master := { p.master with imr := p.master.imr &&& ~~~UInt8.ofNat (1 <<< irq.toNat) } } := by
  unfold picUnmaskIrq
  rw [if_pos h, if_pos h, outb_pic1Data, writeData_ready _ hready]
  rfl

theorem picUnmaskIrq_pic2 {irq : UInt8} (h : ¬irq < 8) (hready : p.slave.stage = .ready)
    : picUnmaskIrq p irq = some {
        p with
        slave := { p.slave with imr := p.slave.imr &&& ~~~UInt8.ofNat (1 <<< (irq - 8).toNat) } } := by
  unfold picUnmaskIrq
  rw [if_neg h, if_neg h, outb_pic2Data, writeData_ready _ hready]
  rfl

theorem bootPics_eq (p : Pair)
    : bootPics p = some {
        master := ⟨.ready, 0x20, 4, 0xF9, fun _ => false, p.master.isr⟩
        slave := ⟨.ready, 0x28, 2, 0xEF, fun _ => false, p.slave.isr⟩ } := by
  have hbase1 : UInt8.ofInt 0x20 &&& 0xF8 = 0x20 := by decide
  have hbase2 : UInt8.ofInt 0x28 &&& 0xF8 = 0x28 := by decide
  have hmask1 : ((0xFD : UInt8) &&& ~~~UInt8.ofNat (1 <<< (1 : UInt8).toNat))
      &&& ~~~UInt8.ofNat (1 <<< (2 : UInt8).toNat) = 0xF9 := by decide
  have hmask2 : (0xFF : UInt8) &&& ~~~UInt8.ofNat (1 <<< ((12 : UInt8) - 8).toNat) = 0xEF := by decide
  unfold bootPics
  rw [picRemap_eq]
  dsimp only [Option.bind_eq_bind, Option.bind_some]
  rw [picUnmaskIrq_pic1 _ (by decide) rfl, Option.bind_some, picUnmaskIrq_pic1 _ (by decide) rfl,
    Option.bind_some, picUnmaskIrq_pic2 _ (by decide) rfl]
  dsimp only
  rw [hbase1, hbase2, hmask1, hmask2]

end Driver

-- The controllers as the kernel sets them up: only the lines 1, 2 and 12 are let through.
structure Configured (p : Pair) : Prop where
  masterStage : p.master.stage = .ready
  masterBase : p.master.base = 0x20
  masterCascade : p.master.cascade = 4
  masterImr : p.master.imr = 0xF9
  slaveStage : p.slave.stage = .ready
  slaveBase : p.slave.base = 0x28
  slaveCascade : p.slave.cascade = 2
  slaveImr : p.slave.imr = 0xEF

def none8 : Fin 8 → Bool := fun _ => false

def only (i : Fin 8) : Fin 8 → Bool := Function.update none8 i true

section Request

variable {c : Chip}

theorem lines_eq : Chip.lines = [0, 1, 2, 3, 4, 5, 6, 7] := rfl

-- Nothing is in service.
theorem request_idle (hready : c.stage = .ready) (hisr : c.isr = none8)
    : c.request = Chip.lines.find? fun i => c.irr i && !c.masked i := by
  unfold Chip.request
  rw [if_pos hready, hisr]
  congr 1
  funext i
  have hall : (Chip.lines.all fun j => !none8 j || decide (i < j)) = true := by
    rw [List.all_eq_true]
    intro j _
    rfl
  rw [hall, Bool.and_true]

theorem request_slave (hready : c.stage = .ready) (hisr : c.isr = none8) (himr : c.imr = 0xEF)
    : c.request = if c.irr 4 then some 4 else none := by
  have hmask : ∀ i, (!c.masked i) = decide (i = 4) := by
    unfold Chip.masked
    rw [himr]
    decide
  simp only [request_idle hready hisr, hmask, Bool.and_comm (c.irr _)]
  rw [lines_eq]
  cases h : c.irr 4 <;> simp [List.find?, h]

theorem request_master (hready : c.stage = .ready) (hisr : c.isr = none8) (himr : c.imr = 0xF9)
    : c.request = if c.irr 1 then some 1 else if c.irr 2 then some 2 else none := by
  have hmask : ∀ i, (!c.masked i) = decide (i = 1 ∨ i = 2) := by
    unfold Chip.masked
    rw [himr]
    decide
  simp only [request_idle hready hisr, hmask, Bool.and_comm (c.irr _)]
  rw [lines_eq]
  cases h1 : c.irr 1 <;> cases h2 : c.irr 2 <;> simp [List.find?, h1, h2]

theorem isr_accept (i : Fin 8) (h : c.isr = none8) : (c.accept i).isr = only i := by
  unfold Chip.accept only
  rw [h]

theorem find_only : ∀ i, Chip.lines.find? (only i) = some i := by decide

theorem endOfInterrupt_only {i : Fin 8} (h : c.isr = only i) : c.endOfInterrupt = { c with isr := none8 } := by
  unfold Chip.endOfInterrupt
  rw [h, find_only]
  have hcleared : Function.update (only i) i false = none8 := by
    unfold only
    rw [Function.update_idem]
    exact Function.update_eq_self i none8
  dsimp only
  rw [hcleared]

end Request

section Pair

variable {p q : Pair}

-- The processor gets the keyboard first, and the mouse over both controllers.
theorem ack_idle (hc : Configured p) (hmaster : p.master.isr = none8) (hslave : p.slave.isr = none8)
    : p.ack
        = if p.master.irr 1 then some ⟨33, { p with master := p.wired.accept 1 }⟩
          else if p.slave.irr 4 then some ⟨44, ⟨p.wired.accept 2, p.slave.accept 4⟩⟩
          else none := by
  have hrequest := request_slave hc.slaveStage hslave hc.slaveImr
  have hwired : p.wired.request = if p.master.irr 1 then some 1 else if p.slave.irr 4 then some 2 else none := by
    have hmaster := request_master (c := p.wired) hc.masterStage hmaster hc.masterImr
    have hkbd : p.wired.irr 1 = p.master.irr 1 := rfl
    have hmouse : p.wired.irr 2 = p.slave.irr 4 := by
      show p.slave.request.isSome = p.slave.irr 4
      rw [hrequest]
      cases p.slave.irr 4 <;> rfl
    rw [hmaster, hkbd, hmouse]
  unfold Pair.ack
  rw [hwired]
  cases hkbd : p.master.irr 1 with
  | true =>
    rw [if_pos rfl, if_pos rfl, hc.masterBase]
    rfl
  | false =>
    rw [if_neg Bool.false_ne_true, if_neg Bool.false_ne_true]
    cases hmouse : p.slave.irr 4 with
    | true =>
      have hcascade : (2 : Fin 8) = cascadeLine ∧ p.master.cascade.toNat.testBit (2 : Fin 8) = true := by
        rw [hc.masterCascade]
        decide
      rw [if_pos rfl, if_pos rfl]
      dsimp only
      rw [if_pos hcascade, hrequest, hmouse, hc.slaveCascade, hc.slaveBase]
      rfl
    | false => rfl

theorem Configured.raise (hc : Configured p) (line : Fin 16) : Configured (p.raise line) := by
  unfold Pair.raise
  split
  . split
    . exact hc
    . exact ⟨hc.1, hc.2, hc.3, hc.4, hc.5, hc.6, hc.7, hc.8⟩
  . exact ⟨hc.1, hc.2, hc.3, hc.4, hc.5, hc.6, hc.7, hc.8⟩

theorem isr_raise (p : Pair) (line : Fin 16)
    : (p.raise line).master.isr = p.master.isr ∧ (p.raise line).slave.isr = p.slave.isr := by
  unfold Pair.raise
  split
  . split
    . exact ⟨rfl, rfl⟩
    . exact ⟨rfl, rfl⟩
  . exact ⟨rfl, rfl⟩

theorem kbdRequest_raise (p : Pair) (line : Fin 16)
    : (p.raise line).master.irr 1 = (decide (line = 1) || p.master.irr 1) := by
  fin_cases line <;> rfl

theorem mouseRequest_raise (p : Pair) (line : Fin 16)
    : (p.raise line).slave.irr 4 = (decide (line = 12) || p.slave.irr 4) := by
  fin_cases line <;> rfl

end Pair

-- What is in service is what the running handler still has to end.
inductive Service (s : IrqSystem) : Prop
  | idle (hwrites : s.writes = []) (hmaster : s.pics.master.isr = none8)
      (hslave : s.pics.slave.isr = none8)
      : Service s
  | master (i : Fin 8) (hwrites : s.writes = [(PIC1_COMMAND, PIC_EOI)])
      (hmaster : s.pics.master.isr = only i) (hslave : s.pics.slave.isr = none8)
      : Service s
  | both (i j : Fin 8) (hwrites : s.writes = [(PIC2_COMMAND, PIC_EOI), (PIC1_COMMAND, PIC_EOI)])
      (hmaster : s.pics.master.isr = only i) (hslave : s.pics.slave.isr = only j)
      : Service s

section Step

variable {s t : IrqSystem} {line : Fin 16} {vector : UInt8} {pics : Pair}

theorem Service.raise (h : Service s) : Service { s with pics := s.pics.raise line } := by
  have hisr := isr_raise s.pics line
  cases h with
  | idle hwrites hmaster hslave => exact .idle hwrites (hisr.1.trans hmaster) (hisr.2.trans hslave)
  | master i hwrites hmaster hslave => exact .master i hwrites (hisr.1.trans hmaster) (hisr.2.trans hslave)
  | both i j hwrites hmaster hslave => exact .both i j hwrites (hisr.1.trans hmaster) (hisr.2.trans hslave)

theorem Service.of_writes_nil (h : Service s) (hwrites : s.writes = [])
    : s.pics.master.isr = none8 ∧ s.pics.slave.isr = none8 := by
  cases h with
  | idle _ hmaster hslave => exact ⟨hmaster, hslave⟩
  | master i h => cases h.symm.trans hwrites
  | both i j h => cases h.symm.trans hwrites

-- What an accepted interrupt is: the vector of a pending line, which is pending no more.
theorem ack_cases (hc : Configured s.pics) (h : Service s) (hidle : s.writes = [])
    (hack : s.pics.ack = some ⟨vector, pics⟩)
    : Configured pics ∧ Service ⟨pics, isrWrites vector⟩
      ∧ ((vector = 33 ∧ s.pics.master.irr 1 = true ∧ pics.master.irr 1 = false
          ∧ pics.slave.irr 4 = s.pics.slave.irr 4)
        ∨ (vector = 44 ∧ s.pics.slave.irr 4 = true ∧ pics.slave.irr 4 = false
          ∧ pics.master.irr 1 = s.pics.master.irr 1)) := by
  obtain ⟨hmaster, hslave⟩ := h.of_writes_nil hidle
  rw [ack_idle hc hmaster hslave] at hack
  split at hack
  next hkbd =>
    cases hack
    refine ⟨⟨hc.1, hc.2, hc.3, hc.4, hc.5, hc.6, hc.7, hc.8⟩, ?_, .inl ⟨rfl, hkbd, rfl, rfl⟩⟩
    exact .master 1 rfl (isr_accept 1 hmaster) hslave
  next =>
    split at hack
    next hmouse =>
      cases hack
      refine ⟨⟨hc.1, hc.2, hc.3, hc.4, hc.5, hc.6, hc.7, hc.8⟩, ?_, .inr ⟨rfl, hmouse, rfl, rfl⟩⟩
      exact .both 2 4 rfl (isr_accept 2 hmaster) (isr_accept 4 hslave)
    next => cases hack

-- One write of a handler: it is an end of interrupt, and no request changes.
theorem out_cases (hc : Configured s.pics) (h : Service s) {port : UInt16} {v : UInt8}
    {writes : List (UInt16 × UInt8)} (hwrites : s.writes = (port, v) :: writes)
    (hout : s.pics.outb port v = some pics)
    : Configured pics ∧ Service ⟨pics, writes⟩ ∧ pics.master.irr 1 = s.pics.master.irr 1
      ∧ pics.slave.irr 4 = s.pics.slave.irr 4 := by
  cases h with
  | idle h => cases h.symm.trans hwrites
  | master i h hmaster hslave =>
    cases h.symm.trans hwrites
    rw [outb_pic1Command, writeCommand_eoi, endOfInterrupt_only hmaster] at hout
    cases hout
    exact ⟨⟨hc.1, hc.2, hc.3, hc.4, hc.5, hc.6, hc.7, hc.8⟩, .idle rfl rfl hslave, rfl, rfl⟩
  | both i j h hmaster hslave =>
    cases h.symm.trans hwrites
    rw [outb_pic2Command, writeCommand_eoi, endOfInterrupt_only hslave] at hout
    cases hout
    exact ⟨⟨hc.1, hc.2, hc.3, hc.4, hc.5, hc.6, hc.7, hc.8⟩, .master i rfl hmaster rfl, rfl, rfl⟩

end Step

-- `pending` is what the requests `a` and the answers `b` so far have left.
structure Accounted (a b : IrqEvent) (pending : Bool) (es : List IrqEvent) : Prop where
  unanswered : pending = true ↔ Unanswered a b es
  count : es.count b + pending.toNat ≤ es.count a

section Accounted

variable {a b e : IrqEvent} {pending : Bool} {es : List IrqEvent}

theorem Accounted.nil : Accounted a b false [] := by
  refine ⟨?_, Nat.le_refl 0⟩
  constructor
  . intro h
    cases h
  . intro h
    exact absurd h not_unanswered_nil

theorem Accounted.request (h : Accounted a b pending es) (hne : a ≠ b) : Accounted a b true (es ++ [a]) := by
  constructor
  . exact ⟨fun _ => unanswered_snoc_self, fun _ => rfl⟩
  . have := h.count
    rw [List.count_append, List.count_append, List.count_singleton_self, List.count_singleton,
      if_neg (by simpa using hne)]
    simp only [Bool.toNat_true]
    omega

theorem Accounted.answer (h : Accounted a b true es) (hne : a ≠ b) : Accounted a b false (es ++ [b]) := by
  constructor
  . constructor
    . intro h
      cases h
    . intro h
      exact absurd h (not_unanswered_snoc hne)
  . have := h.count
    rw [List.count_append, List.count_append, List.count_singleton_self, List.count_singleton,
      if_neg (by simpa using hne.symm)]
    simp only [Bool.toNat_true, Bool.toNat_false] at this ⊢
    omega

theorem Accounted.other (h : Accounted a b pending es) (ha : e ≠ a) (hb : e ≠ b)
    : Accounted a b pending (es ++ [e]) := by
  constructor
  . rw [unanswered_snoc ha hb]
    exact h.unanswered
  . have := h.count
    rw [List.count_append, List.count_append, List.count_singleton, List.count_singleton,
      if_neg (by simpa using hb), if_neg (by simpa using ha)]
    omega

end Accounted

-- The events of a device that the kernel listens to.
def kbdRaise : IrqEvent := .raise 1
def mouseRaise : IrqEvent := .raise 12
def kbdAck : IrqEvent := .ack 33
def mouseAck : IrqEvent := .ack 44

structure IrqInv (es : List IrqEvent) (s : IrqSystem) : Prop where
  configured : Configured s.pics
  service : Service s
  kbd : Accounted kbdRaise kbdAck (s.pics.master.irr 1) es
  mouse : Accounted mouseRaise mouseAck (s.pics.slave.irr 4) es
  vectors : ∀ v, .ack v ∈ es → v = 33 ∨ v = 44

namespace IrqInv

variable {es : List IrqEvent} {s t : IrqSystem} {e : IrqEvent}

theorem raise (h : IrqInv es s) (line : Fin 16)
    : IrqInv (es ++ [.raise line]) { s with pics := s.pics.raise line } := by
  constructor
  . exact h.configured.raise line
  . exact h.service.raise
  . rw [kbdRequest_raise]
    by_cases hline : line = 1
    . rw [hline]
      exact h.kbd.request (by decide)
    . rw [decide_eq_false hline, Bool.false_or]
      exact h.kbd.other (fun heq => hline (IrqEvent.raise.inj heq)) (fun heq => by cases heq)
  . rw [mouseRequest_raise]
    by_cases hline : line = 12
    . rw [hline]
      exact h.mouse.request (by decide)
    . rw [decide_eq_false hline, Bool.false_or]
      exact h.mouse.other (fun heq => hline (IrqEvent.raise.inj heq)) (fun heq => by cases heq)
  . intro v hv
    rw [List.mem_append, List.mem_singleton] at hv
    exact h.vectors v (hv.resolve_right (fun heq => by cases heq))

theorem ack (h : IrqInv es s) {vector : UInt8} {pics : Pair} (hidle : s.writes = [])
    (hack : s.pics.ack = some ⟨vector, pics⟩)
    : IrqInv (es ++ [.ack vector]) ⟨pics, isrWrites vector⟩ := by
  obtain ⟨hconfigured, hservice, hcase⟩ := ack_cases h.configured h.service hidle hack
  have hkbd := h.kbd
  have hmouse := h.mouse
  obtain ⟨rfl, hpending, hdone, hother⟩ | ⟨rfl, hpending, hdone, hother⟩ := hcase
  . rw [hpending] at hkbd
    refine ⟨hconfigured, hservice, ?_, ?_, ?_⟩
    . rw [hdone]
      exact hkbd.answer (by decide)
    . rw [hother]
      exact hmouse.other (by decide) (by decide)
    . intro v hv
      rw [List.mem_append, List.mem_singleton] at hv
      exact hv.elim (h.vectors v) (fun heq => .inl (IrqEvent.ack.inj heq))
  . rw [hpending] at hmouse
    refine ⟨hconfigured, hservice, ?_, ?_, ?_⟩
    . rw [hother]
      exact hkbd.other (by decide) (by decide)
    . rw [hdone]
      exact hmouse.answer (by decide)
    . intro v hv
      rw [List.mem_append, List.mem_singleton] at hv
      exact hv.elim (h.vectors v) (fun heq => .inr (IrqEvent.ack.inj heq))

theorem out (h : IrqInv es s) {port : UInt16} {v : UInt8} {writes : List (UInt16 × UInt8)} {pics : Pair}
    (hwrites : s.writes = (port, v) :: writes) (hout : s.pics.outb port v = some pics)
    : IrqInv (es ++ [.out]) ⟨pics, writes⟩ := by
  obtain ⟨hconfigured, hservice, hkbd, hmouse⟩ := out_cases h.configured h.service hwrites hout
  refine ⟨hconfigured, hservice, ?_, ?_, ?_⟩
  . rw [hkbd]
    exact h.kbd.other (by decide) (by decide)
  . rw [hmouse]
    exact h.mouse.other (by decide) (by decide)
  . intro v hv
    rw [List.mem_append, List.mem_singleton] at hv
    exact h.vectors v (hv.resolve_right (fun heq => by cases heq))

theorem step (h : IrqInv es s) (hstep : IrqStep s e t) : IrqInv (es ++ [e]) t := by
  cases hstep with
  | raise line => exact h.raise line
  | ack vector pics hidle hack => exact h.ack hidle hack
  | out port v writes pics hwrites hout => exact h.out hwrites hout

end IrqInv

-- What is asked for and not answered is served next, the keyboard first, and a handler gets to its end.
structure IrqProgress (es : List IrqEvent) (s : IrqSystem) : Prop where
  writes : s.writes.length ≤ 2
  out : s.writes ≠ [] → ∃ t, IrqStep s .out t
  kbd : s.writes = [] → Unanswered kbdRaise kbdAck es → ∃ t, IrqStep s kbdAck t
  mouse : s.writes = [] → ¬Unanswered kbdRaise kbdAck es → Unanswered mouseRaise mouseAck es
    → ∃ t, IrqStep s mouseAck t

section Run

variable {es : List IrqEvent} {s : IrqSystem} {p q : Pair}

theorem Service.out (h : Service s) (hwrites : s.writes ≠ []) : ∃ t, IrqStep s .out t := by
  cases h with
  | idle h => exact absurd h hwrites
  | master i h => exact ⟨_, .out s _ _ _ _ h rfl⟩
  | both i j h => exact ⟨_, .out s _ _ _ _ h rfl⟩

theorem IrqInv.progress (h : IrqInv es s) : IrqProgress es s := by
  constructor
  . cases h.service with
    | idle h => rw [h]; decide
    | master i h => rw [h]; decide
    | both i j h => rw [h]; decide
  . exact h.service.out
  . intro hidle hkbd
    obtain ⟨hmaster, hslave⟩ := h.service.of_writes_nil hidle
    refine ⟨_, .ack s 33 { s.pics with master := s.pics.wired.accept 1 } hidle ?_⟩
    rw [ack_idle h.configured hmaster hslave, if_pos (h.kbd.unanswered.mpr hkbd)]
  . intro hidle hkbd hmouse
    obtain ⟨hmaster, hslave⟩ := h.service.of_writes_nil hidle
    refine ⟨_, .ack s 44 ⟨s.pics.wired.accept 2, s.pics.slave.accept 4⟩ hidle ?_⟩
    rw [ack_idle h.configured hmaster hslave, if_neg (fun hpending => hkbd (h.kbd.unanswered.mp hpending)),
      if_pos (h.mouse.unanswered.mpr hmouse)]

theorem IrqInv.boot (hboot : bootPics p = some q) (hmaster : p.master.isr = none8)
    (hslave : p.slave.isr = none8)
    : IrqInv [] ⟨q, []⟩ := by
  rw [bootPics_eq] at hboot
  cases hboot
  constructor
  . exact ⟨rfl, rfl, rfl, rfl, rfl, rfl, rfl, rfl⟩
  . exact .idle rfl hmaster hslave
  . exact Accounted.nil
  . exact Accounted.nil
  . intro v hv
    cases hv

/--
In whatever order lines are raised, interrupts are taken and handlers write: only the vectors of the keyboard
and of the mouse come, none comes without a request of its own, a request waits until it is answered, and
nothing keeps it from that.
-/
theorem interrupts_are_answered (p : Pair) (hmaster : p.master.isr = none8) (hslave : p.slave.isr = none8)
    : ∃ q, bootPics p = some q ∧ ∀ es s, Run IrqStep ⟨q, []⟩ es s →
      (∀ v, .ack v ∈ es → v = 33 ∨ v = 44)
      ∧ es.count kbdAck ≤ es.count kbdRaise ∧ es.count mouseAck ≤ es.count mouseRaise
      ∧ (s.pics.master.irr 1 = true ↔ Unanswered kbdRaise kbdAck es)
      ∧ (s.pics.slave.irr 4 = true ↔ Unanswered mouseRaise mouseAck es)
      ∧ IrqProgress es s := by
  refine ⟨_, bootPics_eq p, ?_⟩
  intro es s hrun
  have hinv := hrun.invariant_trace IrqInv (fun _ _ _ _ h => h.step)
    (IrqInv.boot (bootPics_eq p) hmaster hslave)
  have hkbd := hinv.kbd.count
  have hmouse := hinv.mouse.count
  exact ⟨hinv.vectors, by omega, by omega, hinv.kbd.unanswered, hinv.mouse.unanswered, hinv.progress⟩

-- Controllers as the firmware leaves them, with everything masked.
theorem interrupts_are_answered_firmware
    : let chip : Chip := ⟨.ready, 0x08, 4, 0xFF, fun _ => true, none8⟩
      ∃ q, bootPics ⟨chip, chip⟩ = some q ∧ ∀ es s, Run IrqStep ⟨q, []⟩ es s →
        (∀ v, .ack v ∈ es → v = 33 ∨ v = 44) ∧ IrqProgress es s := by
  intro chip
  obtain ⟨q, hboot, hall⟩ := interrupts_are_answered ⟨chip, chip⟩ rfl rfl
  refine ⟨q, hboot, ?_⟩
  intro es s hrun
  obtain ⟨hvectors, -, -, -, -, hprogress⟩ := hall es s hrun
  exact ⟨hvectors, hprogress⟩

end Run

end DismasmOS
