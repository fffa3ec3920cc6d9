import DismasmOS.Shell.Lemmas.Exact
import DismasmOS.Shell.Lemmas.Machine

/-!
This module contains which inputs change the files below `/boot` and `/krnl`. The editor asks before it
opens one of them, the commands of the shell do not.
-/

namespace DismasmOS

-- At or beneath `/boot` or `/krnl`.
def Protected (p : List UInt8) : Prop :=
  p = str "/boot" ∨ str "/boot/" <+: p ∨ p = str "/krnl" ∨ str "/krnl/" <+: p

theorem Protected.isSystemPath {p : List UInt8} (h : Protected p) : isSystemPath p = true := by
  have hboot : str "/boot" <+: p → DismasmOS.isSystemPath p = true := by
    intro hp
    have hcmp : strncmp p (str "/boot") 5 = 0 := (strncmp_eq_zero_iff (by decide) (by decide)).mpr hp
    unfold DismasmOS.isSystemPath
    rw [hcmp]
    rfl
  have hkrnl : str "/krnl" <+: p → DismasmOS.isSystemPath p = true := by
    intro hp
    have hcmp : strncmp p (str "/krnl") 5 = 0 := (strncmp_eq_zero_iff (by decide) (by decide)).mpr hp
    unfold DismasmOS.isSystemPath
    rw [hcmp]
    simp
  rcases h with rfl | h | rfl | h
  . exact hboot (List.prefix_refl _)
  . exact hboot ((List.prefix_append (str "/boot") (str "/")).trans h)
  . exact hkrnl (List.prefix_refl _)
  . exact hkrnl ((List.prefix_append (str "/krnl") (str "/")).trans h)

theorem Protected.ne_root {p : List UInt8} (h : Protected p) : p ≠ str "/" := by
  rintro rfl
  unfold Protected at h
  revert h
  decide

-- A file operation for which there is nothing to do.
def FileOp.NothingToDo (op : FileOp) (t : FileTable) (p : List UInt8) : Prop :=
  match op with
  | touch | makedir => t.lookup p ≠ none ∨ fsFindSlot t = none
  | rm => t.lookup p = none
  | echo text | save text =>
    t.lookup p = some .dir ∨ t.lookup p = some (.file text)
      ∨ t.lookup p = none ∧ fsFindSlot t = none

theorem FileOp.nothingToDo_iff {op : FileOp} {t : FileTable} {m : FsMap} {p : List UInt8}
    (h : t.Represents m) (hp : NulFree p) (hroot : p ≠ str "/")
    : op.NothingToDo t p ↔ (op.spec m p).map.lookup p = m.lookup p := by
  have hmem : m.lookup p = none ↔ p ∉ m := Finmap.lookup_eq_none
  have hidle : (op.spec m p).map.lookup p = m.lookup p ↔ op.Idle m p True := by
    rw [← idle_iff]
    simp
  rw [hidle]
  unfold NothingToDo Idle
  rw [h.lookup_eq hp, h.findSlot_none_iff]
  cases op with
  | touch =>
    dsimp only
    rw [ne_eq, hmem]
    tauto
  | makedir =>
    dsimp only
    rw [ne_eq, hmem, not_not, or_iff_right hroot]
  | rm => exact hmem
  | echo text | save text =>
    dsimp only
    rw [hmem, and_true, or_assoc]

namespace Machine

variable {others : Shell → Argv → Int × List UInt8} {m m' : Machine} {map : FsMap} {input : Input}
  {inputs : List Input} {p : List UInt8}

-- The input is the key that answers the dialog for `p` with OK.
def AnswersOk (m : Machine) (p : List UInt8) (input : Input) : Prop :=
  ∃ selected c, m.control = .dialog p selected ∧ input = .key c
    ∧ emConfirmKey selected c = .answer true

def EditStep (others : Shell → Argv → Int × List UInt8) (m : Machine) (input : Input)
    (m' : Machine) : Prop :=
  MachineStep others m input m' ∧ m'.control = .editing

-- The last of the inputs since boot lie in the session of the editor that an OK for `p` has opened.
def Confirmed (others : Shell → Argv → Int × List UInt8) (inputs : List Input) (m : Machine)
    (p : List UInt8) : Prop :=
  ∃ before ok after asked opened,
    inputs = before ++ ok :: after
      ∧ Run (MachineStep others) boot before asked
      ∧ asked.AnswersOk p ok
      ∧ EditStep others asked ok opened
      ∧ Run (EditStep others) opened after m

-- Entries of the system change only after an OK.
def ProtectsSystem (others : Shell → Argv → Int × List UInt8) (inputs : List Input)
    (m m' : Machine) : Prop :=
  ∀ p, NulFree p → Protected p → m'.shell.fs.table.lookup p ≠ m.shell.fs.table.lookup p
    → Confirmed others inputs m p

-- No command is about to do something to an entry of the system.
def SparesSystem (m : Machine) (input : Input) : Prop :=
  ∀ op p, m.control = .prompt → m.op input = some ⟨op, p⟩ → Protected p
    → op.NothingToDo m.shell.fs.table p

theorem EditStep.confirmed (h : Confirmed others inputs m p) (hstep : EditStep others m input m')
    : Confirmed others (inputs ++ [input]) m' p := by
  obtain ⟨before, ok, after, asked, opened, hinputs, hbefore, hok, hopened, hafter⟩ := h
  refine ⟨before, ok, after ++ [input], asked, opened, ?_, hbefore, hok, hopened, ?_⟩
  . rw [hinputs]
    simp
  . exact hafter.snoc hstep

-- The editor has no system file open without an OK.
structure SessionInv (others : Shell → Argv → Int × List UInt8) (inputs : List Input) (m : Machine)
    : Prop where
  run : Run (MachineStep others) boot inputs m
  confirmed : m.control = .editing → Protected m.em.curFilename
    → Confirmed others inputs m m.em.curFilename

theorem command_not_protected (hcontrol : m.control = .prompt) {line : List UInt8}
    (hediting : (m.command others line).control = .editing)
    : ¬Protected (m.command others line).em.curFilename := by
  unfold Machine.command at hediting ⊢
  cases hout : handleSingleCommand others m.shell line with
  | exit status s =>
    rw [hout] at hediting
    dsimp only at hediting
    rw [hcontrol] at hediting
    cases hediting
  | em filename s =>
    rw [hout] at hediting
    dsimp only at hediting ⊢
    unfold enterEm at hediting ⊢
    split at hediting
    . cases hediting
    . next hsystem =>
      rw [if_neg hsystem]
      intro hprotected
      apply hsystem
      unfold fsIsSystem
      exact if_pos hprotected.isSystemPath
  | native payload s =>
    rw [hout] at hediting
    cases hediting

theorem SessionInv.step (h : SessionInv others inputs m) (hstep : MachineStep others m input m')
    : SessionInv others (inputs ++ [input]) m' := by
  refine ⟨h.run.snoc hstep, ?_⟩
  intro hediting hprotected
  obtain ⟨map, hinv⟩ := Inv.run h.run
  have hnext := hstep.2
  unfold Machine.step at hnext
  split at hnext
  . next line hcontrol =>
    cases hnext
    exact absurd hprotected (command_not_protected hcontrol hediting)
  . next filename selected c hcontrol =>
    cases hnext
    unfold Machine.dialogKey at hediting hprotected ⊢
    split at hediting
    . cases hediting
    . next hok =>
      refine ⟨inputs, _, [], m, _, rfl, h.run, ⟨selected, c, hcontrol, rfl, hok⟩, ⟨hstep, ?_⟩, ?_⟩
      . unfold Machine.dialogKey
        rw [hok]
        rfl
      . unfold Machine.dialogKey
        rw [hok]
        exact .nil _
    . cases hediting
  . next c hcontrol =>
    obtain ⟨_, e', _, _, _, hname, heq⟩ := hinv.editKey_cases hcontrol hnext
    have hopen : m'.em.curFilename = m.em.curFilename := by
      rw [heq]
      exact hname
    rw [hopen] at hprotected ⊢
    exact EditStep.confirmed (h.confirmed hcontrol hprotected) ⟨hstep, hediting⟩
  . cases hnext

theorem SessionInv.of_run (hrun : Run (MachineStep others) boot inputs m)
    : SessionInv others inputs m := by
  apply hrun.invariant_trace (SessionInv others)
  . intro inputs m input m' h
    exact h.step
  . refine ⟨.nil _, ?_⟩
    intro hediting
    cases hediting

theorem Confirmed.editing (h : Confirmed others inputs m p) : m.control = .editing := by
  obtain ⟨before, ok, after, asked, opened, _, _, _, hopened, hafter⟩ := h
  apply hafter.invariant fun m => m.control = .editing
  . intro m input m' _ _ hstep
    exact hstep.2
  . exact hopened.2

theorem op_of_control {op : FileOp} (hop : m.op input = some ⟨op, p⟩)
    : m.control = .prompt ∨ m.control = .editing ∧ m.em.curFilename = p := by
  unfold Machine.op at hop
  split at hop
  . next hcontrol => exact .inl hcontrol
  . next hcontrol =>
    split at hop
    . cases hop
      exact .inr ⟨hcontrol, rfl⟩
    . cases hop
  . cases hop

theorem system_files_protected_iff (hrun : Run (MachineStep others) boot inputs m)
    (hstep : MachineStep others m input m')
    : ProtectsSystem others inputs m m' ↔ m.SparesSystem input := by
  obtain ⟨map, hinv⟩ := Inv.run hrun
  obtain ⟨hinv', hfollows⟩ := hinv.step hstep
  have hsession := SessionInv.of_run hrun
  have hrep := hinv.represents
  have hrep' := hinv'.represents
  unfold nextMap at hrep'
  unfold Follows at hfollows
  unfold ProtectsSystem SparesSystem
  cases hop : m.op input with
  | none =>
    rw [hop] at hrep'
    apply iff_of_true
    . intro p hp _ hchange
      rw [hrep.lookup_eq hp, hrep'.lookup_eq hp] at hchange
      exact absurd rfl hchange
    . simp
  | some operation =>
    obtain ⟨op, q⟩ := operation
    rw [hop] at hrep' hfollows
    dsimp only at hrep' hfollows
    have hq := hfollows.1.nulFree
    constructor
    . intro hprotects op' p hprompt heq hprotected
      cases heq
      rw [FileOp.nothingToDo_iff hrep hq hprotected.ne_root]
      by_contra hchange
      rw [← hrep.lookup_eq hq, ← hrep'.lookup_eq hq] at hchange
      have hediting := (hprotects q hq hprotected hchange).editing
      rw [hprompt] at hediting
      cases hediting
    . intro hspares p hp hprotected hchange
      rw [hrep.lookup_eq hp, hrep'.lookup_eq hp] at hchange
      have hpq : p = q := by
        by_contra hne
        exact hchange (FileOp.spec_lookup_ne hne)
      rw [← hpq] at hop hchange hq
      cases op_of_control hop with
      | inl hprompt =>
        have hidle := hspares op p hprompt (by rw [hpq]) hprotected
        rw [FileOp.nothingToDo_iff hrep hq hprotected.ne_root] at hidle
        exact absurd hidle hchange
      | inr hediting =>
        rw [← hediting.2] at hprotected ⊢
        exact hsession.confirmed hediting.1 hprotected

theorem system_files_protected_touch
    : ProtectsSystem noOthers [] boot (boot.command noOthers (str "touch notes"))
        ↔ boot.SparesSystem (.command (str "touch notes")) :=
  system_files_protected_iff (Run.nil boot) ⟨⟨by decide, by decide⟩, rfl⟩

theorem rm_boot_not_protected
    : ¬ProtectsSystem noOthers [] boot (boot.command noOthers (str "rm /boot")) := by
  have hstep : MachineStep noOthers boot (.command (str "rm /boot"))
      (boot.command noOthers (str "rm /boot")) := ⟨⟨by decide, by decide⟩, rfl⟩
  have hresolve : boot.shell.resolve (str "/boot") = str "/boot" := by decide +kernel
  obtain ⟨hinv, _⟩ := boot_inv.step hstep
  have hrep := hinv.represents
  unfold nextMap at hrep
  rw [boot_op_eq (show lineOp (str "rm /boot") = some ⟨.rm, str "/boot"⟩ from rfl) hresolve] at hrep
  have hboot : str "/boot" ∈ initDirs := by decide +kernel
  have hlookup := lookup_initMap_dir hboot
  have hmem := Finmap.mem_of_lookup_eq_some hlookup
  intro hprotects
  have hchange : (boot.command noOthers (str "rm /boot")).shell.fs.table.lookup (str "/boot")
      ≠ boot.shell.fs.table.lookup (str "/boot") := by
    rw [hrep.lookup_eq (by decide), boot_inv.represents.lookup_eq (by decide), hlookup]
    unfold FileOp.spec
    dsimp only
    rw [if_pos hmem, Finmap.lookup_erase]
    simp
  obtain ⟨before, ok, after, _, _, hinputs, _⟩ := hprotects (str "/boot") (by decide) (.inl rfl) hchange
  simp at hinputs

end Machine

end DismasmOS
