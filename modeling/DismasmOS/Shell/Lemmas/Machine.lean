import DismasmOS.Fs.Lemmas.Log
import DismasmOS.Em.Lemmas.Save
import DismasmOS.Shell.Lemmas.Dispatch

/-!
This module contains the simulation of the finite map by the whole machine: what holds in all its
states, and that every input leaves the map and the audit log the operation it stands for says.
-/

namespace DismasmOS

namespace Fs.Viewed

variable {fs fs' : Fs}

theorem table (h : fs.Viewed fs') : fs'.table = fs.table := by
  obtain ⟨events, _, hfs⟩ := h
  rw [hfs, table_logEvents]

theorem logs (h : fs.Viewed fs') (hlogs : fs.Logs) : fs'.Logs := by
  obtain ⟨events, hevents, hfs⟩ := h
  rw [hfs]
  apply hlogs.logEvents
  intro ev hev
  obtain ⟨p, hp, heq⟩ := hevents ev hev
  rw [heq]
  exact rootEvent_storable hp ⟨by decide, by decide⟩

end Fs.Viewed

namespace Machine

-- What a state of the machine keeps besides the file table.
def ControlInv (m : Machine) : Prop :=
  match m.control with
  | .prompt => True
  | .dialog filename _ => Resolved filename
  | .editing => m.em.Inv ∧ Resolved m.em.curFilename
  | .native _ => True

structure Inv (m : Machine) (map : FsMap) : Prop where
  represents : m.shell.fs.table.Represents map
  resolved : ∀ p ∈ map, Resolved p
  logs : m.shell.fs.Logs
  cwd : WorkingDir m.shell.cwd
  control : m.ControlInv

variable {others : Shell → Argv → Int × List UInt8} {m m' : Machine} {map : FsMap} {input : Input}

theorem Inv.viewed (h : m.Inv map) (hfs : m.shell.fs.Viewed m'.shell.fs)
    (hcwd : WorkingDir m'.shell.cwd) (hcontrol : m'.ControlInv)
    : m'.Inv map := by
  constructor
  . rw [hfs.table]
    exact h.represents
  . exact h.resolved
  . exact hfs.logs h.logs
  . exact hcwd
  . exact hcontrol

theorem Inv.simulated (h : m.Inv map) {op : FileOp} {p : List UInt8} (hp : Resolved p)
    (hsim : op.Simulated m.shell.fs map p m'.shell.fs) (hcwd : WorkingDir m'.shell.cwd)
    (hcontrol : m'.ControlInv)
    : m'.Inv (op.spec map p).map := by
  constructor
  . exact hsim.represents
  . intro q hq
    cases FileOp.mem_of_mem_spec hq with
    | inl heq =>
      rw [heq]
      exact hp
    | inr hmem => exact h.resolved q hmem
  . exact hsim.logs hp h.logs
  . exact hcwd
  . exact hcontrol

theorem openEm_viewed (m : Machine) {filename : List UInt8} (hname : Resolved filename)
    : m.shell.fs.Viewed (m.openEm filename).shell.fs ∧ (m.openEm filename).ControlInv :=
  ⟨Fs.Viewed.single _ hname, (emOpen_refines m.em m.shell.fs filename).inv, hname⟩

theorem Inv.openEm (h : m.Inv map) {filename : List UInt8} (hname : Resolved filename)
    : (m.openEm filename).Inv map :=
  h.viewed (openEm_viewed m hname).1 h.cwd (openEm_viewed m hname).2

-- What a step does according to the operation of its input.
def Follows (m : Machine) (map : FsMap) (input : Input) (m' : Machine) : Prop :=
  match m.op input with
  | none => m.shell.fs.Viewed m'.shell.fs
  | some (op, p) => Resolved p ∧ op.Simulated m.shell.fs map p m'.shell.fs

theorem op_prompt (hcontrol : m.control = .prompt) (line : List UInt8)
    : m.op (.command line) = (lineOp line).map fun (op, path) => (op, m.shell.resolve path) := by
  unfold Machine.op
  rw [hcontrol]

theorem op_editing (hcontrol : m.control = .editing) (c : Int)
    : m.op (.key c)
        = if m.em.Saves c then some ⟨.save m.em.text, m.em.curFilename⟩ else none := by
  unfold Machine.op
  rw [hcontrol]

theorem Inv.command (h : m.Inv map) (hcontrol : m.control = .prompt) {line : List UInt8}
    (hline : NulFree line) (hlen : line.length < CMD_MAX_LEN)
    : (m.command others line).Inv (m.nextMap map (.command line))
        ∧ m.Follows map (.command line) (m.command others line) := by
  unfold nextMap Follows Machine.command
  rw [op_prompt hcontrol]
  cases hlineOp : lineOp line with
  | none =>
    have hharmless := handleSingleCommand_harmless others h.cwd hline hlineOp
    cases hout : handleSingleCommand others m.shell line with
    | exit status s' =>
      rw [hout] at hharmless
      cases hharmless with
      | exit hfs hcwd =>
        refine ⟨h.viewed hfs hcwd ?_, hfs⟩
        unfold ControlInv
        dsimp only
        rw [hcontrol]
        trivial
    | em filename s' =>
      rw [hout] at hharmless
      cases hharmless with
      | em hname =>
        dsimp only [Option.map_none]
        unfold enterEm
        split
        . exact ⟨h.viewed (Fs.Viewed.refl _) h.cwd hname, Fs.Viewed.refl _⟩
        . exact ⟨h.openEm hname, (openEm_viewed m hname).1⟩
    | native payload s' =>
      rw [hout] at hharmless
      cases hharmless
      exact ⟨h.viewed (Fs.Viewed.refl _) h.cwd trivial, Fs.Viewed.refl _⟩
  | some operation =>
    obtain ⟨op, path⟩ := operation
    obtain ⟨hpath, status, s', hexit, hperf⟩ := handleSingleCommand_op others
      h.represents h.cwd hline hlen hlineOp
    have hresolved := h.cwd.resolve hpath
    rw [hexit]
    dsimp only [Option.map_some]
    refine ⟨h.simulated hresolved hperf.simulated ?_ ?_, hresolved, hperf.simulated⟩
    . dsimp only
      rw [hperf.cwd]
      exact h.cwd
    . unfold ControlInv
      dsimp only
      rw [hcontrol]
      trivial

theorem Inv.dialogKey (h : m.Inv map) {filename : List UInt8} {selected : Nat}
    (hcontrol : m.control = .dialog filename selected) (c : Int)
    : (m.dialogKey filename selected c).Inv map
        ∧ m.shell.fs.Viewed (m.dialogKey filename selected c).shell.fs := by
  have hname := h.control
  unfold ControlInv at hname
  rw [hcontrol] at hname
  unfold Machine.dialogKey
  split
  . exact ⟨h.viewed (Fs.Viewed.refl _) h.cwd hname, Fs.Viewed.refl _⟩
  . exact ⟨h.openEm hname, (openEm_viewed m hname).1⟩
  . exact ⟨h.viewed (Fs.Viewed.refl _) h.cwd trivial, Fs.Viewed.refl _⟩

theorem Inv.session (h : m.Inv map) (hcontrol : m.control = .editing)
    : m.em.Session m.shell.fs := by
  have hem := h.control
  unfold ControlInv at hem
  rw [hcontrol] at hem
  exact ⟨hem.1, hem.2, _, h.represents⟩

theorem Inv.editKey_cases (h : m.Inv map) (hcontrol : m.control = .editing) {c : Int}
    (hkey : m.editKey c = some m')
    : ∃ closed e' fs', emKey m.em m.shell.fs c = some ⟨closed, e', fs'⟩
        ∧ e'.Session fs' ∧ e'.curFilename = m.em.curFilename
        ∧ m' =
          { m with
              shell := { m.shell with fs := fs' }
              em := e'
              control := if closed then .prompt else .editing } := by
  obtain ⟨closed, e', fs', hem', hnext, hname⟩ := (h.session hcontrol).key c
  unfold Machine.editKey at hkey
  rw [hem'] at hkey
  cases hkey
  exact ⟨closed, e', fs', hem', hnext, hname, rfl⟩

theorem Inv.editKey (h : m.Inv map) (hcontrol : m.control = .editing) {c : Int}
    (hkey : m.editKey c = some m')
    : m'.Inv (m.nextMap map (.key c)) ∧ m.Follows map (.key c) m' := by
  have hem := h.session hcontrol
  obtain ⟨closed, e', fs', hem', hnext, _, rfl⟩ := h.editKey_cases hcontrol hkey
  have hcontrol' : ControlInv
      { m with
          shell := { m.shell with fs := fs' }
          em := e'
          control := if closed then .prompt else .editing } := by
    unfold ControlInv
    cases closed with
    | true => trivial
    | false => exact ⟨hnext.inv, hnext.filename⟩
  unfold nextMap Follows
  by_cases hsaves : m.em.Saves c
  . have hsim := (Em.emKey_saved h.represents hem.inv hem.filename hsaves hem').1
    rw [op_editing hcontrol, if_pos hsaves]
    exact ⟨h.simulated hem.filename hsim h.cwd hcontrol', hem.filename, hsim⟩
  . have hfs := Em.emKey_of_not_saves hem.inv hsaves hem'
    rw [op_editing hcontrol, if_neg hsaves]
    have hviewed : m.shell.fs.Viewed fs' := by
      rw [hfs]
      exact Fs.Viewed.refl _
    exact ⟨h.viewed hviewed h.cwd hcontrol', hviewed⟩

theorem Inv.step (h : m.Inv map) (hstep : MachineStep others m input m')
    : m'.Inv (m.nextMap map input) ∧ m.Follows map input m' := by
  obtain ⟨hvalid, hstep⟩ := hstep
  unfold Machine.step at hstep
  split at hstep
  . next hcontrol =>
    cases hstep
    exact h.command hcontrol hvalid.1 hvalid.2
  . next filename selected c hcontrol =>
    cases hstep
    have hop : m.op (.key c) = none := by
      unfold op
      rw [hcontrol]
    unfold nextMap Follows
    rw [hop]
    exact h.dialogKey hcontrol c
  . next hcontrol => exact h.editKey hcontrol hstep
  . cases hstep

theorem boot_inv : boot.Inv initMap := by
  constructor
  . exact fsInit_represents
  . exact initMap_resolved
  . exact fsInit_logs
  . exact ⟨by decide, by decide⟩
  . trivial

theorem Inv.run {inputs : List Input} (hrun : Run (MachineStep others) boot inputs m)
    : ∃ map, m.Inv map := by
  apply hrun.invariant (fun m => ∃ map, Inv m map)
  . intro m input m' _ h hstep
    obtain ⟨map, h⟩ := h
    exact ⟨_, (h.step hstep).1⟩
  . exact ⟨_, boot_inv⟩

theorem boot_op_eq {line path p : List UInt8} {op : FileOp} (hline : lineOp line = some ⟨op, path⟩)
    (hp : boot.shell.resolve path = p)
    : boot.op (.command line) = some ⟨op, p⟩ := by
  rw [op_prompt rfl, hline, Option.map_some]
  dsimp only
  rw [hp]

end Machine

end DismasmOS
