import Mathlib.Logic.Function.Basic
import DismasmOS.Lib.ByteMem
import DismasmOS.Lib.Word

/-!
This module contains the part of an x86-64 processor in long mode that interrupt handlers rest on: the
registers, the stack, the delivery of an interrupt and the return from it.
-/

namespace X86

inductive Reg where
  | rax | rcx | rdx | rbx | rsp | rbp | rsi | rdi
  | r8 | r9 | r10 | r11 | r12 | r13 | r14 | r15
  deriving DecidableEq, Repr

-- `ports` is every byte that was written to a port, in order.
structure Cpu where
  regs : Reg → BitVec 64
  rip : BitVec 64
  rflags : BitVec 64
  cs : BitVec 16
  ss : BitVec 16
  mem : ByteMem
  ports : List (BitVec 16 × BitVec 8)

-- The flags TF, IF, DF, NT and RF.
def trapFlag : BitVec 64 := 0x100
def interruptFlag : BitVec 64 := 0x200
def directionFlag : BitVec 64 := 0x400
def nestedTaskFlag : BitVec 64 := 0x4000
def resumeFlag : BitVec 64 := 0x10000

namespace Cpu

def rsp (s : Cpu) : Nat := (s.regs .rsp).toNat

def setReg (s : Cpu) (r : Reg) (v : BitVec 64) : Cpu := { s with regs := Function.update s.regs r v }

def pushWord (s : Cpu) (v : BitVec 64) : Cpu :=
  let sp := s.regs .rsp - 8
  { s.setReg .rsp sp with mem := s.mem.writeLE sp.toNat 8 v.toNat }

def top (s : Cpu) : BitVec 64 := BitVec.ofNat 64 (s.mem.readLE s.rsp 8)

def dropWord (s : Cpu) : Cpu := s.setReg .rsp (s.regs .rsp + 8)

/--
An interrupt through an interrupt gate, without a change of the privilege level: the stack is aligned, the
state of the interrupted code and the error code, if there is one, are pushed.
-/
def interrupt (s : Cpu) (selector : BitVec 16) (offset : BitVec 64) (code : Option (BitVec 64)) : Cpu :=
  let old := s.regs .rsp
  let s1 := s.setReg .rsp (old &&& ~~~0xF)
  let s2 := (((((s1.pushWord (s.ss.setWidth 64)).pushWord old).pushWord s.rflags).pushWord
    (s.cs.setWidth 64)).pushWord s.rip)
  let s3 := match code with
    | some e => s2.pushWord e
    | none => s2
  { s3 with
      rip := offset
      cs := selector
      rflags := s.rflags &&& ~~~(trapFlag ||| interruptFlag ||| nestedTaskFlag ||| resumeFlag) }

def iretq (s : Cpu) : Cpu :=
  let s1 := s.dropWord
  let s2 := s1.dropWord
  let s3 := s2.dropWord
  let s4 := s3.dropWord
  { s4.dropWord.setReg .rsp s3.top with
      rip := s.top
      cs := s1.top.setWidth 16
      rflags := s2.top
      ss := s4.top.setWidth 16 }

end Cpu

-- `call` pushes the address behind it, `f` is what the called code does up to the return.
inductive Instr where
  | push (r : Reg)
  | pop (r : Reg)
  | cld
  | movAl (v : BitVec 8)
  | outAl (port : BitVec 8)
  | call (next : BitVec 64) (f : Cpu → Cpu)
  | iretq

def Instr.exec (s : Cpu) (i : Instr) : Cpu :=
  match i with
  | .push r => s.pushWord (s.regs r)
  | .pop r => s.dropWord.setReg r s.top
  | .cld => { s with rflags := s.rflags &&& ~~~directionFlag }
  | .movAl v => s.setReg .rax (s.regs .rax &&& ~~~0xFF ||| v.setWidth 64)
  | .outAl port => { s with ports := s.ports ++ [(port.setWidth 16, (s.regs .rax).setWidth 8)] }
  | .call next f => f (s.pushWord next)
  | .iretq => s.iretq

def exec (code : List Instr) (s : Cpu) : Cpu := code.foldl Instr.exec s

@[simp]
theorem exec_cons (i : Instr) (code : List Instr) (s : Cpu) : exec (i :: code) s = exec code (i.exec s) := rfl

theorem exec_append (code1 code2 : List Instr) (s : Cpu) : exec (code1 ++ code2) s = exec code2 (exec code1 s) :=
  List.foldl_append

open ByteMem

-- The stack of `s` up to `top` is still there in `t`.
structure SameStack (top : Nat) (s t : Cpu) : Prop where
  rsp : t.regs .rsp = s.regs .rsp
  live : AgreeOn s.mem t.mem s.rsp (top - s.rsp)

section Stack

variable {top : Nat} {s t : Cpu} {v : BitVec 64} {r : Reg}

theorem SameStack.refl (s : Cpu) : SameStack top s s := ⟨rfl, fun _ _ _ => rfl⟩

theorem SameStack.rsp_eq (h : SameStack top s t) : t.rsp = s.rsp := by
  unfold Cpu.rsp
  rw [h.rsp]

@[simp]
theorem rsp_setReg (s : Cpu) (v : BitVec 64) : (s.setReg .rsp v).rsp = v.toNat := by
  simp [Cpu.rsp, Cpu.setReg]

theorem regs_setReg_ne (s : Cpu) (v : BitVec 64) {r r' : Reg} (h : r' ≠ r) : (s.setReg r v).regs r' = s.regs r' :=
  Function.update_of_ne h _ _

@[simp]
theorem regs_setReg (s : Cpu) (v : BitVec 64) (r : Reg) : (s.setReg r v).regs r = v :=
  Function.update_self _ _ _

theorem regs_pushWord_ne (s : Cpu) (v : BitVec 64) (h : r ≠ .rsp) : (s.pushWord v).regs r = s.regs r :=
  Function.update_of_ne h _ _

theorem rsp_pushWord (hroom : 8 ≤ s.rsp) : (s.pushWord v).rsp = s.rsp - 8 := by
  have h : (s.pushWord v).rsp = (s.regs .rsp - 8).toNat := rsp_setReg s _
  rw [h]
  unfold Cpu.rsp at hroom ⊢
  bv_omega

theorem top_pushWord (s : Cpu) (v : BitVec 64) : (s.pushWord v).top = v := by
  have hrsp : (s.pushWord v).rsp = (s.regs .rsp - 8).toNat := rsp_setReg s _
  have hword : (s.mem.writeLE (s.regs .rsp - 8).toNat 8 v.toNat).readLE (s.regs .rsp - 8).toNat 8 = v.toNat :=
    readLE_writeLE_of_lt _ _ _ _ v.isLt
  unfold Cpu.top
  rw [hrsp]
  apply BitVec.eq_of_toNat_eq
  rw [BitVec.toNat_ofNat]
  exact (congrArg (· % 2 ^ 64) hword).trans (Nat.mod_eq_of_lt v.isLt)

-- Code that keeps the stack behind a `push` finds the word again.
theorem SameStack.top_eq (h : SameStack top (s.pushWord v) t) (hroom : 8 ≤ s.rsp) (htop : s.rsp ≤ top)
    : t.top = v := by
  have hrsp := rsp_pushWord (v := v) hroom
  have hlive := h.live.mono (b := (s.pushWord v).rsp) (k := 8) (Nat.le_refl _) (by omega)
  unfold Cpu.top
  rw [h.rsp_eq, readLE_congr hlive]
  exact top_pushWord s v

theorem SameStack.dropWord (h : SameStack top (s.pushWord v) t) (hroom : 8 ≤ s.rsp) (htop : s.rsp ≤ top)
    : SameStack top s t.dropWord := by
  constructor
  . have hpush : (s.pushWord v).regs .rsp = s.regs .rsp - 8 := regs_setReg s (s.regs .rsp - 8) .rsp
    have hdrop : t.dropWord.regs .rsp = t.regs .rsp + 8 := regs_setReg t _ _
    rw [hdrop, h.rsp, hpush]
    bv_omega
  . have hrsp := rsp_pushWord (v := v) hroom
    have hwrite : AgreeOn s.mem (s.pushWord v).mem s.rsp (top - s.rsp) := by
      apply agreeOn_writeLE
      have : (s.regs .rsp - 8).toNat = s.rsp - 8 := by
        unfold Cpu.rsp at hroom ⊢
        bv_omega
      omega
    exact hwrite.trans (h.live.mono (by omega) (by omega))

theorem regs_dropWord_ne (s : Cpu) (h : r ≠ .rsp) : s.dropWord.regs r = s.regs r :=
  Function.update_of_ne h _ _

end Stack

section Frame

variable {top : Nat} {s t : Cpu}

-- The registers that `saved` names are the same again, and so is the stack.
structure Restored (top : Nat) (saved : List Reg) (s t : Cpu) : Prop where
  stack : SameStack top s t
  regs : ∀ r ∈ saved, t.regs r = s.regs r

/--
Registers that are pushed before a piece of code and popped in the opposite order behind it survive, no
matter what the code does with them, if it keeps the stack.
-/
theorem exec_push_pop (saved : List Reg) (code : List Instr) (hrsp : ∀ r ∈ saved, r ≠ .rsp)
    (hroom : 8 * saved.length ≤ s.rsp) (htop : s.rsp ≤ top)
    (hcode : ∀ u, u.rsp = s.rsp - 8 * saved.length → u.rflags = s.rflags → SameStack top u (exec code u))
    : Restored top saved s (exec (saved.map .push ++ code ++ saved.reverse.map .pop) s) := by
  induction saved generalizing s with
  | nil =>
    rw [List.map_nil, List.nil_append, List.reverse_nil, List.map_nil, List.append_nil]
    refine ⟨hcode s rfl rfl, ?_⟩
    intro r hr
    cases hr
  | cons r saved ih =>
    have hne : r ≠ .rsp := hrsp r (List.mem_cons_self)
    rw [List.length_cons] at hroom hcode
    have hpush := rsp_pushWord (s := s) (v := s.regs r) (by omega)
    have hinner := ih (s := s.pushWord (s.regs r)) (fun r' hr' => hrsp r' (List.mem_cons_of_mem _ hr'))
      (by omega) (by omega) (fun u hu hflags => hcode u (by omega) hflags)
    have hcode_eq : (r :: saved).map Instr.push ++ code ++ (r :: saved).reverse.map Instr.pop
        = .push r :: ((saved.map .push ++ code ++ saved.reverse.map .pop) ++ [.pop r]) := by
      simp
    rw [hcode_eq, exec_cons, exec_append]
    let t := exec (saved.map .push ++ code ++ saved.reverse.map .pop) (s.pushWord (s.regs r))
    have htop_eq : t.top = s.regs r := hinner.stack.top_eq (by omega) htop
    have hdrop : SameStack top s t.dropWord := hinner.stack.dropWord (by omega) htop
    have hpop : exec [.pop r] t = t.dropWord.setReg r (s.regs r) := by
      rw [← htop_eq]
      rfl
    show Restored top (r :: saved) s (exec [.pop r] t)
    rw [hpop]
    constructor
    . exact ⟨(regs_setReg_ne _ _ hne.symm).trans hdrop.rsp, hdrop.live⟩
    . intro r' hr'
      by_cases heq : r' = r
      . rw [heq, regs_setReg]
      . have hmem : r' ∈ saved := (List.mem_cons.mp hr').resolve_left heq
        have hne' : r' ≠ .rsp := hrsp r' hr'
        rw [regs_setReg_ne _ _ heq, regs_dropWord_ne _ hne', hinner.regs r' hmem]
        exact regs_pushWord_ne s _ hne'

end Frame

section Interrupt

variable {top : Nat} {s t : Cpu} {selector : BitVec 16} {offset : BitVec 64}

theorem toNat_align (v : BitVec 64) : (v &&& ~~~0xF).toNat = v.toNat - v.toNat % 16 := by
  have hmask : (~~~0xF : BitVec 64).toNat = Word.not (2 ^ 4 - 1) := rfl
  have hword := Word.land_not_two_pow_sub_one v.toNat 4 v.isLt (by decide)
  rw [BitVec.toNat_and, hmask, hword]
  omega

theorem rsp_pushWords (ws : List (BitVec 64)) (hroom : 8 * ws.length ≤ s.rsp)
    : (ws.foldl Cpu.pushWord s).rsp = s.rsp - 8 * ws.length := by
  induction ws generalizing s with
  | nil => rfl
  | cons w ws ih =>
    rw [List.length_cons] at hroom ⊢
    have hpush := rsp_pushWord (s := s) (v := w) (by omega)
    rw [List.foldl_cons, ih (by omega), hpush]
    omega

-- The stack of the handler below the error code.
def Cpu.interruptFrame (s : Cpu) : List (BitVec 64) :=
  [s.ss.setWidth 64, s.regs .rsp, s.rflags, s.cs.setWidth 64, s.rip]

def Cpu.aligned (s : Cpu) : Cpu := s.setReg .rsp (s.regs .rsp &&& ~~~0xF)

theorem rsp_aligned (s : Cpu) : s.aligned.rsp = s.rsp - s.rsp % 16 := by
  unfold Cpu.aligned
  rw [rsp_setReg, toNat_align]
  rfl

theorem rsp_interrupt (hroom : 56 ≤ s.rsp)
    : (s.interrupt selector offset none).rsp = s.rsp - s.rsp % 16 - 40 := by
  have halign := rsp_aligned s
  have hframe : 8 * s.interruptFrame.length ≤ s.aligned.rsp := by
    rw [halign]
    show 40 ≤ _
    omega
  have h := rsp_pushWords s.interruptFrame hframe
  rw [halign] at h
  exact h

-- `t` goes on where `s` was.
structure Resumed (top : Nat) (s t : Cpu) : Prop where
  rip : t.rip = s.rip
  rflags : t.rflags = s.rflags
  cs : t.cs = s.cs
  ss : t.ss = s.ss
  stack : SameStack top s t

-- The top of the stack and what is below it, after pushes.
theorem SameStack.pop (ws : List (BitVec 64)) {w : BitVec 64}
    (h : SameStack top ((ws ++ [w]).foldl Cpu.pushWord s) t) (hroom : 8 * (ws.length + 1) ≤ s.rsp)
    (htop : s.rsp ≤ top)
    : t.top = w ∧ SameStack top (ws.foldl Cpu.pushWord s) t.dropWord := by
  have hrsp := rsp_pushWords (s := s) ws (by omega)
  rw [List.foldl_append] at h
  exact ⟨h.top_eq (by omega) (by omega), h.dropWord (by omega) (by omega)⟩

theorem rsp_iretq (t : Cpu) : t.iretq.regs .rsp = t.dropWord.dropWord.dropWord.top :=
  regs_setReg t.dropWord.dropWord.dropWord.dropWord.dropWord t.dropWord.dropWord.dropWord.top .rsp

/--
Whatever a handler does, if it keeps the stack, its `iretq` goes back to the interrupted code.
-/
theorem interrupt_iretq (hroom : 56 ≤ s.rsp) (htop : s.rsp ≤ top)
    (h : SameStack top (s.interrupt selector offset none) t)
    : Resumed top s t.iretq := by
  have halign := rsp_aligned s
  have h0 : SameStack top (s.interruptFrame.foldl Cpu.pushWord s.aligned) t := ⟨h.rsp, h.live⟩
  obtain ⟨hrip, h1⟩ := h0.pop [s.ss.setWidth 64, s.regs .rsp, s.rflags, s.cs.setWidth 64]
    (by show 40 ≤ _; omega) (by omega)
  obtain ⟨hcs, h2⟩ := h1.pop [s.ss.setWidth 64, s.regs .rsp, s.rflags] (by show 32 ≤ _; omega)
    (by omega)
  obtain ⟨hflags, h3⟩ := h2.pop [s.ss.setWidth 64, s.regs .rsp] (by show 24 ≤ _; omega) (by omega)
  obtain ⟨hrsp, h4⟩ := h3.pop [s.ss.setWidth 64] (by show 16 ≤ _; omega) (by omega)
  obtain ⟨hss, h5⟩ := h4.pop [] (by show 8 ≤ _; omega) (by omega)
  have hwiden : ∀ v : BitVec 16, (v.setWidth 64).setWidth 16 = v := by
    intro v
    rw [BitVec.setWidth_setWidth_of_le _ (by decide), BitVec.setWidth_eq]
  constructor
  . exact hrip
  . exact hflags
  . exact (congrArg (BitVec.setWidth 16) hcs).trans (hwiden s.cs)
  . exact (congrArg (BitVec.setWidth 16) hss).trans (hwiden s.ss)
  . constructor
    . exact (rsp_iretq t).trans hrsp
    . have hlive : AgreeOn s.mem t.mem s.aligned.rsp (top - s.aligned.rsp) := h5.live
      exact hlive.mono (by omega) (by omega)

-- Of the registers only the stack pointer changes.
theorem regs_iretq_ne {r : Reg} (h : r ≠ .rsp) : t.iretq.regs r = t.regs r := by
  have hregs : t.iretq.regs r
      = (t.dropWord.dropWord.dropWord.dropWord.dropWord.setReg .rsp t.dropWord.dropWord.dropWord.top).regs r := rfl
  rw [hregs, regs_setReg_ne _ _ h]
  repeat rw [regs_dropWord_ne _ h]

theorem regs_pushWords_ne {r : Reg} (ws : List (BitVec 64)) (h : r ≠ .rsp)
    : (ws.foldl Cpu.pushWord s).regs r = s.regs r := by
  induction ws generalizing s with
  | nil => rfl
  | cons w ws ih => rw [List.foldl_cons, ih, regs_pushWord_ne _ _ h]

theorem regs_interrupt_ne {r : Reg} (h : r ≠ .rsp)
    : (s.interrupt selector offset none).regs r = s.regs r := by
  have hframe := regs_pushWords_ne (s := s.aligned) s.interruptFrame h
  exact hframe.trans (regs_setReg_ne _ _ h)

-- Nothing has happened to the interrupted code.
structure Transparent (top : Nat) (s t : Cpu) : Prop where
  resumed : Resumed top s t
  regs : ∀ r, t.regs r = s.regs r

theorem Transparent.of_iretq (hresumed : Resumed top s t.iretq) (h : ∀ r, r ≠ .rsp → t.regs r = s.regs r)
    : Transparent top s t.iretq := by
  refine ⟨hresumed, ?_⟩
  intro r
  by_cases hr : r = .rsp
  . rw [hr, hresumed.stack.rsp]
  . rw [regs_iretq_ne hr, h r hr]

end Interrupt

/--
Compiled code that is called as its binary interface demands, with the stack aligned and DF clear, and that
has `depth` bytes of stack, gives the stack back.
-/
structure Callable (bottom top depth : Nat) (f : Cpu → Cpu) : Prop where
  returns : ∀ s next, s.rflags &&& directionFlag = 0 → s.rsp % 16 = 0 → bottom + depth + 8 ≤ s.rsp
    → s.rsp ≤ top → SameStack top s (f (s.pushWord next))

end X86
