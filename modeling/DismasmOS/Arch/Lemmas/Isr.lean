import DismasmOS.Arch.Isr
import DismasmOS.Arch.Lemmas.Idt

/-!
This module contains the theorem that an interrupt leaves the interrupted code as it was, whichever vector
it has.
-/

namespace DismasmOS

open X86

section Entry

variable {bottom top depth : Nat} {s : Cpu} {selector : BitVec 16} {offset next : BitVec 64}
variable {handler : Cpu → Cpu}

def savedRegs : List Reg := [
  .rax, .rcx, .rdx, .rbx, .rbp, .rsi, .rdi, .r8, .r9, .r10, .r11, .r12, .r13, .r14, .r15
]

theorem mem_savedRegs {r : Reg} (h : r ≠ .rsp) : r ∈ savedRegs := by
  cases r <;> first | decide | exact absurd rfl h

theorem isrEntry_eq
    : isrEntry next handler
        = (savedRegs.map .push ++ [.cld, .call next handler] ++ savedRegs.reverse.map .pop) ++ [.iretq] :=
  rfl

-- `cld` and `call` meet the demands of the handler when the stack is aligned.
theorem call_sameStack {u : Cpu} (hhandler : Callable bottom top depth handler) (halign : u.rsp % 16 = 0)
    (hroom : bottom + depth + 8 ≤ u.rsp) (htop : u.rsp ≤ top)
    : SameStack top u (exec [.cld, .call next handler] u) := by
  have hclear : (Instr.cld.exec u).rflags &&& directionFlag = 0 := by
    show u.rflags &&& ~~~directionFlag &&& directionFlag = 0
    rw [BitVec.and_assoc, BitVec.and_comm (~~~directionFlag), BitVec.and_not_self]
    exact BitVec.and_zero
  have hcalled := hhandler.returns (Instr.cld.exec u) next hclear halign hroom htop
  exact ⟨hcalled.rsp, hcalled.live⟩

-- 40 bytes of the processor and 120 bytes of the entry point keep the stack aligned for the call.
theorem isrEntry_transparent (hhandler : Callable bottom top depth handler)
    (hroom : bottom + depth + 184 ≤ s.rsp) (htop : s.rsp ≤ top)
    : Transparent top s (exec (isrEntry next handler) (s.interrupt selector offset none)) := by
  have hrsp : (s.interrupt selector offset none).rsp = _ := rsp_interrupt (by omega)
  have hlen : savedRegs.length = 15 := rfl
  have hrestored : Restored top savedRegs (s.interrupt selector offset none) (exec
      (savedRegs.map .push ++ [.cld, .call next handler] ++ savedRegs.reverse.map .pop)
      (s.interrupt selector offset none)) := by
    apply exec_push_pop
    . decide
    . omega
    . omega
    . intro u hu hflags
      apply call_sameStack hhandler
      . omega
      . omega
      . omega
  rw [isrEntry_eq, exec_append]
  apply Transparent.of_iretq
  . exact interrupt_iretq (by omega) htop hrestored.stack
  . intro r hr
    rw [hrestored.regs r (mem_savedRegs hr), regs_interrupt_ne hr]

theorem setWidth_movAl (v : BitVec 64) (w : BitVec 8)
    : (v &&& ~~~0xFF ||| w.setWidth 64).setWidth 8 = w := by
  have hmask : (~~~0xFF : BitVec 64).setWidth 8 = 0 := rfl
  rw [BitVec.setWidth_or, BitVec.setWidth_and, hmask, BitVec.setWidth_setWidth_of_le _ (by decide),
    BitVec.setWidth_eq]
  exact (congrArg (· ||| w) BitVec.and_zero).trans BitVec.zero_or

def eoiBoth : List Instr := [.movAl 0x20, .outAl 0xA0, .outAl 0x20]

theorem regs_eoiBoth {r : Reg} (u : Cpu) (h : r ≠ .rax) : (exec eoiBoth u).regs r = u.regs r :=
  regs_setReg_ne u (u.regs .rax &&& ~~~0xFF ||| BitVec.setWidth 64 0x20) h

theorem eoiBoth_sameStack (u : Cpu) : SameStack top u (exec eoiBoth u) :=
  ⟨regs_eoiBoth u (by decide), fun _ _ _ => rfl⟩

theorem ports_eoiBoth (u : Cpu) : (exec eoiBoth u).ports = u.ports ++ [(0xA0, 0x20), (0x20, 0x20)] := by
  let al : BitVec 8 := (((Instr.movAl 0x20).exec u).regs .rax).setWidth 8
  have hal : al = 0x20 := by
    show ((u.setReg .rax (u.regs .rax &&& ~~~0xFF ||| BitVec.setWidth 64 0x20)).regs .rax).setWidth 8 = 0x20
    rw [regs_setReg, setWidth_movAl]
  have hports : (exec eoiBoth u).ports = u.ports ++ [(0xA0, al)] ++ [(0x20, al)] := rfl
  rw [hports, hal, List.append_assoc]
  rfl

theorem isrDefault_eq
    : isrDefault = ([Reg.rax].map .push ++ eoiBoth ++ [Reg.rax].reverse.map .pop) ++ [.iretq] :=
  rfl

-- The end of interrupt goes to both controllers.
theorem isrDefault_transparent (hroom : 64 ≤ s.rsp) (htop : s.rsp ≤ top)
    : Transparent top s (exec isrDefault (s.interrupt selector offset none))
      ∧ (exec isrDefault (s.interrupt selector offset none)).ports
        = s.ports ++ [(0xA0, 0x20), (0x20, 0x20)] := by
  have hrsp : (s.interrupt selector offset none).rsp = _ := rsp_interrupt (by omega)
  have hrestored : Restored top [.rax] (s.interrupt selector offset none) _ :=
    exec_push_pop [.rax] eoiBoth (by decide) (by show 8 ≤ _; omega) (by omega)
      (fun u _ _ => eoiBoth_sameStack u)
  rw [isrDefault_eq, exec_append]
  constructor
  . apply Transparent.of_iretq
    . exact interrupt_iretq (by omega) htop hrestored.stack
    . intro r hr
      have hregs : (s.interrupt selector offset none).regs r = s.regs r := regs_interrupt_ne hr
      rw [← hregs]
      by_cases hrax : r = .rax
      . exact hrestored.regs r (List.mem_singleton.mpr hrax)
      . show (Cpu.setReg (Cpu.dropWord (exec eoiBoth (Cpu.pushWord _ _))) .rax _).regs r = _
        rw [regs_setReg_ne _ _ hrax, regs_dropWord_ne _ hr, regs_eoiBoth _ hrax, regs_pushWord_ne _ _ hr]
  . exact ports_eoiBoth _

-- The entry point takes no error code off the stack, so every word is read one place too low.
theorem isrDefault_code {code : BitVec 64} (hroom : 72 ≤ s.rsp) (htop : s.rsp ≤ top)
    : (exec isrDefault (s.interrupt selector offset (some code))).rip = code
      ∧ (exec isrDefault (s.interrupt selector offset (some code))).regs .rsp = s.rflags := by
  have halign := rsp_aligned s
  have hlen : s.interruptFrame.length = 5 := rfl
  have hframe := rsp_pushWords (s := s.aligned) (s.interruptFrame ++ [code]) (by
    rw [List.length_append, hlen]
    show 48 ≤ _
    omega)
  rw [List.length_append, hlen, halign] at hframe
  have hrsp : (s.interrupt selector offset (some code)).rsp = s.rsp - s.rsp % 16 - 48 := hframe
  have hrestored : Restored top [.rax] (s.interrupt selector offset (some code)) _ :=
    exec_push_pop [.rax] eoiBoth (by decide) (by show 8 ≤ _; omega) (by omega)
      (fun u _ _ => eoiBoth_sameStack u)
  have h0 : SameStack top ((s.interruptFrame ++ [code]).foldl Cpu.pushWord s.aligned) _ :=
    ⟨hrestored.stack.rsp, hrestored.stack.live⟩
  obtain ⟨hrip, h1⟩ := h0.pop _ (by show 48 ≤ _; omega) (by omega)
  obtain ⟨-, h2⟩ := h1.pop [s.ss.setWidth 64, s.regs .rsp, s.rflags, s.cs.setWidth 64]
    (by show 40 ≤ _; omega) (by omega)
  obtain ⟨-, h3⟩ := h2.pop [s.ss.setWidth 64, s.regs .rsp, s.rflags] (by show 32 ≤ _; omega) (by omega)
  obtain ⟨hflags, -⟩ := h3.pop [s.ss.setWidth 64, s.regs .rsp] (by show 24 ≤ _; omega) (by omega)
  rw [isrDefault_eq, exec_append]
  exact ⟨hrip, (rsp_iretq _).trans hflags⟩

end Entry

-- The code at the address of the entry for vector `v`.
def isrCode (calls : IsrCalls) (v : Nat) : List Instr :=
  if v = 33 then isrKbdEntry calls else if v = 44 then isrMouseEntry calls else isrDefault

-- The processor uses the table that `idt_init` has written, and its entries lead to code.
structure IdtLoaded (m : ByteMem) (idt : Nat) (isr : IsrAddresses) (s : Cpu) : Prop where
  table : ByteMem.AgreeOn (idtInit m idt isr) s.mem idt 4096
  canonical : ∀ v, LongMode.Canonical (isr.handler v).toNat

section Deliver

variable {m : ByteMem} {idt v : Nat} {isr : IsrAddresses} {s : Cpu}

theorem deliver_idtInit (hidt : IdtLoaded m idt isr s) (hv : v < 256) (code : Option (BitVec 64))
    : deliver ⟨idtLimit.toNat, idt⟩ s v code
        = some (s.interrupt 0x08 (BitVec.ofNat 64 (isr.handler v).toNat) code) := by
  have hlimit : idtLimit.toNat = 4095 := rfl
  have hgate : Gate.read s.mem (idt + 16 * v) = kernelGate (isr.handler v) := by
    rw [Gate.read_congr (hidt.table.mono (by omega) (by omega)), read_idtInit hv]
  unfold deliver
  dsimp only
  rw [hgate, if_pos]
  . rfl
  . exact ⟨by omega, rfl, rfl, rfl, hidt.canonical v⟩

/--
Every interrupt reaches its entry point in ring 0 with interrupts off, and the interrupted code goes on with
the registers, the flags and the stack it had. An exception with an error code does not come back: the
entry point for it takes the error code for the address to return to.
-/
theorem interrupts_are_transparent (bottom top depth : Nat) (calls : IsrCalls) (m : ByteMem) (idt : Nat)
    (isr : IsrAddresses) (s : Cpu) (hidt : IdtLoaded m idt isr s)
    (hkbd : Callable bottom top depth calls.kbdHandler)
    (hmouse : Callable bottom top depth calls.mouseHandler) (hroom : bottom + depth + 184 ≤ s.rsp)
    (htop : s.rsp ≤ top)
    : ∀ v < 256,
      (∃ t, deliver ⟨idtLimit.toNat, idt⟩ s v none = some t ∧ t.rip.toNat = (isr.handler v).toNat
        ∧ t.cs = 0x08 ∧ t.rflags &&& interruptFlag = 0 ∧ Transparent top s (exec (isrCode calls v) t))
      ∧ (v ≠ 33 → v ≠ 44 → ∀ code, ∃ t, deliver ⟨idtLimit.toNat, idt⟩ s v (some code) = some t
        ∧ (exec (isrCode calls v) t).rip = code ∧ (exec (isrCode calls v) t).regs .rsp = s.rflags) := by
  intro v hv
  constructor
  . refine ⟨_, deliver_idtInit hidt hv none, ?_, rfl, ?_, ?_⟩
    . show (BitVec.ofNat 64 (isr.handler v).toNat).toNat = _
      rw [BitVec.toNat_ofNat, Nat.mod_eq_of_lt (isr.handler v).toNat_lt]
    . show s.rflags &&& ~~~(trapFlag ||| interruptFlag ||| nestedTaskFlag ||| resumeFlag) &&& interruptFlag = 0
      rw [BitVec.and_assoc]
      exact BitVec.and_zero
    . unfold isrCode
      by_cases h33 : v = 33
      . rw [if_pos h33]
        exact isrEntry_transparent hkbd hroom htop
      . rw [if_neg h33]
        by_cases h44 : v = 44
        . rw [if_pos h44]
          exact isrEntry_transparent hmouse hroom htop
        . rw [if_neg h44]
          exact (isrDefault_transparent (by omega) htop).1
  . intro h33 h44 code
    have hcode : isrCode calls v = isrDefault := by
      unfold isrCode
      rw [if_neg h33, if_neg h44]
    refine ⟨_, deliver_idtInit hidt hv (some code), ?_⟩
    rw [hcode]
    exact isrDefault_code (by omega) htop

-- Handlers that return at once.
theorem interrupts_are_transparent_ret
    : let isr : IsrAddresses := ⟨0x100000, 0x100100, 0x100200⟩
      let calls : IsrCalls := ⟨Cpu.dropWord, 0x100140, Cpu.dropWord, 0x100240⟩
      let s : Cpu := ⟨fun _ => 0x8000, 0x101000, 0x202, 0x08, 0x10, idtInit (fun _ => 0) 0x200000 isr, []⟩
      ∃ t, deliver ⟨idtLimit.toNat, 0x200000⟩ s 33 none = some t ∧ t.rip.toNat = 0x100100 ∧ t.cs = 0x08
        ∧ t.rflags &&& interruptFlag = 0 ∧ Transparent 0x10000 s (exec (isrCode calls 33) t) := by
  intro isr calls s
  have hidt : IdtLoaded (fun _ => 0) 0x200000 isr s := by
    refine ⟨fun _ _ _ => rfl, ?_⟩
    intro v
    unfold IsrAddresses.handler
    split
    . decide
    . split
      . decide
      . decide
  have hret : Callable 0 0x10000 0 Cpu.dropWord :=
    ⟨fun s next _ _ hroom htop => (SameStack.refl (s.pushWord next)).dropWord (by omega) htop⟩
  have hrsp : s.rsp = 0x8000 := rfl
  exact (interrupts_are_transparent 0 0x10000 0 calls (fun _ => 0) 0x200000 isr s hidt hret hret (by omega)
    (by omega) 33 (by decide)).1

end Deliver

end DismasmOS
