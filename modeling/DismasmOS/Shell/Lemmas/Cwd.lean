import DismasmOS.Shell.Cwd
import DismasmOS.Shell.Lemmas.Chain
import DismasmOS.Shell.Lemmas.Machine

/-!
This module contains the invariant of the working directory: it is an existing directory in all runs in
which it is neither removed nor entered unchecked.
-/

namespace DismasmOS

section Commands

variable {s : Shell} {argv : Argv}

-- How a command changes the working directory.
inductive Outcome.Moves (s : Shell) (argv : Argv) : Outcome → Prop
  | stay {status : Int} {s' : Shell} (hcwd : s'.cwd = s.cwd) : Moves s argv (.exit status s')
  | home {status : Int} {s' : Shell} (hgoes : argv.GoesHome) (hcwd : s'.cwd = str "/home")
      : Moves s argv (.exit status s')
  | enter {status : Int} {s' : Shell} (hdir : fsIsDir s.fs.table s'.cwd = true)
      : Moves s argv (.exit status s')
  | em {filename : List UInt8} : Moves s argv (.em filename s)
  | native {payload : List UInt8} : Moves s argv (.native payload s)

theorem Outcome.Moves.ite {c : Prop} [Decidable c] {o o' : Outcome} (h : c → o.Moves s argv)
    (h' : ¬c → o'.Moves s argv)
    : (if c then o else o').Moves s argv := by
  split
  . next hc => exact h hc
  . next hc => exact h' hc

theorem fsIsDir_iff (t : FileTable) {p : List UInt8} (hp : NulFree p)
    : fsIsDir t p = true ↔ p = str "/" ∨ t.lookup p = some .dir := by
  have hnode : ∀ f : FsFile, f.node = .dir ↔ f.isDir = true := by
    intro f
    unfold FsFile.node
    cases f.isDir <;> simp
  have hroot := hp.strcmp_eq_zero_iff (show NulFree (str "/") by decide)
  unfold fsIsDir FileTable.lookup
  split
  . next heq => simp [hroot.mp heq]
  . next hne =>
    rw [hroot] at hne
    rw [or_iff_right hne]
    cases fsFind t p with
    | none => simp
    | some i => simp [hnode]

theorem cmdMakedir_cwd : (cmdMakedir s argv).2.cwd = s.cwd := by
  unfold cmdMakedir
  split
  . rfl
  dsimp only
  split
  . rfl
  split
  . rfl
  . rfl

theorem cmdRm_cwd : (cmdRm s argv).2.cwd = s.cwd := by
  unfold cmdRm
  split
  . rfl
  dsimp only
  split
  . rfl
  . rfl

theorem cmdTouch_cwd : (cmdTouch s argv).2.cwd = s.cwd := by
  unfold cmdTouch
  split
  . rfl
  dsimp only
  split
  . split
    . rfl
    . rfl
  . rfl

theorem cmdCat_cwd : (cmdCat s argv).2.cwd = s.cwd := by
  unfold cmdCat
  split
  . rfl
  dsimp only
  split
  . rfl
  . split
    . rfl
    split
    . rfl
    . rfl

theorem cmdGrep_cwd : (cmdGrep s argv).2.cwd = s.cwd := by
  unfold cmdGrep
  split
  . rfl
  dsimp only
  split
  . rfl
  . split
    . rfl
    . rfl

theorem Argv.Valid.nulFree_arg (h : argv.Valid) (i : Nat) : NulFree (argv.arg i) := by
  by_cases hi : i < argv.length
  . exact (h _ (argv.arg_mem hi)).1
  . unfold arg
    rw [List.getD_eq_getElem?_getD, List.getElem?_eq_none (by omega)]
    exact List.not_mem_nil

theorem cmdCd_moves (hargv : argv.Valid) (hname : strcmp (argv.arg 0) (str "cd") = 0)
    (hcwd : WorkingDir s.cwd)
    : Outcome.Moves s argv (.exit (cmdCd s argv).1 (cmdCd s argv).2) := by
  rw [(hargv.nulFree_arg 0).strcmp_eq_zero_iff (by decide)] at hname
  unfold cmdCd
  dsimp only
  split
  . next hhome =>
    rw [(hargv.nulFree_arg 1).strcmp_eq_zero_iff (by decide)] at hhome
    exact .home ⟨hname, hhome⟩ rfl
  . next hargs =>
    rw [not_or] at hargs
    split
    . exact .enter rfl
    . split
      . next hdir =>
        have hresolved := hcwd.resolve (hargv _ (argv.arg_mem (show 1 < argv.length by omega)))
        have hlen := hresolved.length_lt
        apply Outcome.Moves.enter
        dsimp only
        rw [hresolved.nulFree.cstr, List.take_of_length_le (by omega)]
        exact hdir
      . exact .stay rfl

theorem executeCommand_moves (others : Shell → Argv → Int × List UInt8) (hcwd : WorkingDir s.cwd)
    (hargv : argv.Valid)
    : (executeCommand others s argv).Moves s argv := by
  have hecho : Outcome.Moves s argv (.exit 0 (cmdEcho s argv)) := .stay rfl
  unfold executeCommand
  dsimp only
  apply Outcome.Moves.ite (fun _ => .stay rfl); intro hlength
  apply Outcome.Moves.ite (fun _ => hecho); intro _
  apply Outcome.Moves.ite (fun hname => cmdCd_moves hargv hname hcwd); intro _
  apply Outcome.Moves.ite (fun _ => .stay cmdMakedir_cwd); intro _
  apply Outcome.Moves.ite (fun _ => .stay cmdRm_cwd); intro _
  apply Outcome.Moves.ite (fun _ => .stay cmdCat_cwd); intro _
  apply Outcome.Moves.ite (fun _ => .stay cmdGrep_cwd); intro _
  apply Outcome.Moves.ite (fun _ => .stay cmdTouch_cwd); intro _
  apply Outcome.Moves.ite
  . intro _
    unfold cmdEm
    exact Outcome.Moves.ite (fun _ => .stay rfl) fun _ => .em
  intro _
  apply Outcome.Moves.ite
  . intro _
    unfold callAsm
    split
    . exact .native
    . exact .stay rfl
  intro _
  exact Outcome.Moves.ite (fun _ => .stay rfl) fun _ => .stay rfl

end Commands

namespace Machine

variable {others : Shell → Argv → Int × List UInt8} {m m' : Machine} {map : FsMap} {input : Input}
  {inputs : List Input}

theorem enterEm_cwd (m : Machine) (filename : List UInt8)
    : (m.enterEm filename).shell.cwd = m.shell.cwd := by
  unfold enterEm
  split <;> rfl

variable (others) in
theorem command_cwd (hcwd : WorkingDir m.shell.cwd) {line : List UInt8} (hline : NulFree line)
    (hop : lineOp line = none)
    : (m.command others line).shell.cwd = m.shell.cwd
        ∨ (∃ argv, lineCall line = .execute argv ∧ argv.GoesHome
            ∧ (m.command others line).shell.cwd = str "/home")
        ∨ fsIsDir m.shell.fs.table (m.command others line).shell.cwd = true := by
  unfold Machine.command
  rw [handleSingleCommand_eq]
  rw [lineOp_eq] at hop
  cases hcall : lineCall line with
  | execute argv =>
    have hmoves := executeCommand_moves others hcwd (lineCall_valid hline hcall)
    have hrun : (LineCall.execute argv).run (shellExecutor others m.shell)
        = executeCommand others m.shell argv := rfl
    rw [hrun]
    cases hout : executeCommand others m.shell argv with
    | exit status s =>
      rw [hout] at hmoves
      cases hmoves with
      | stay hcwd => exact .inl hcwd
      | home hgoes hcwd => exact .inr (.inl ⟨argv, rfl, hgoes, hcwd⟩)
      | enter hdir => exact .inr (.inr hdir)
    | em filename s =>
      rw [hout] at hmoves
      cases hmoves
      exact .inl (enterEm_cwd _ _)
    | native payload s =>
      rw [hout] at hmoves
      cases hmoves
      exact .inl rfl
  | echoTo text target =>
    rw [hcall] at hop
    cases hop
  | noTarget => exact .inl rfl

theorem lookup_dir_of_not_rm {op : FileOp} {p : List UInt8} (hdir : map.lookup p = some .dir)
    {q : List UInt8} (hop : ¬(op = .rm ∧ q = p))
    : (op.spec map q).map.lookup p = some .dir := by
  by_cases hpq : p = q
  . have hmem := Finmap.mem_of_lookup_eq_some hdir
    rw [← hpq] at hop ⊢
    apply FileOp.spec_dir hdir
    unfold FileOp.spec FileOp.store FsMap.overwrite
    cases op with
    | touch =>
      dsimp only
      rw [if_pos hmem]
      exact hmem
    | makedir =>
      dsimp only
      rw [if_pos (.inl hmem)]
      exact hmem
    | rm => exact absurd ⟨rfl, rfl⟩ hop
    | echo text | save text =>
      dsimp only
      rw [if_neg (fun hnew => hnew.1 hmem), if_pos hdir]
      exact hmem
  . rw [FileOp.spec_lookup_ne hpq]
    exact hdir

theorem Inv.inDirectory_iff (h : m.Inv map)
    : m.shell.InDirectory ↔ m.shell.cwd = str "/" ∨ map.lookup m.shell.cwd = some .dir := by
  unfold Shell.InDirectory
  rw [h.represents.lookup_eq h.cwd.nulFree]

theorem key_cwd {c : Int} (hstep : m.step others (.key c) = some m')
    : m'.shell.cwd = m.shell.cwd := by
  unfold Machine.step at hstep
  split at hstep
  . next heq => cases heq
  . next heq =>
    cases hstep
    unfold Machine.dialogKey
    split <;> rfl
  . next heq =>
    unfold Machine.editKey at hstep
    obtain ⟨r, _, hr⟩ := Option.bind_eq_some_iff.mp hstep
    cases hr
    rfl
  . cases hstep

theorem step_cwd (h : m.Inv map) (hstep : SettledStep others m input m')
    : m'.shell.cwd = m.shell.cwd
        ∨ m.op input = none ∧ (m'.shell.cwd = str "/" ∨ map.lookup m'.shell.cwd = some .dir) := by
  obtain ⟨⟨hvalid, hnext⟩, _, hhome⟩ := hstep
  have hinv' := (h.step ⟨hvalid, hnext⟩).1
  cases input with
  | key c => exact .inl (key_cwd hnext)
  | command line =>
    unfold Machine.step at hnext
    split at hnext
    . next hcontrol heq =>
      cases heq
      cases hnext
      rw [op_prompt hcontrol]
      cases hop : lineOp line with
      | some operation =>
        obtain ⟨op, path⟩ := operation
        obtain ⟨_, status, s', hexit, hperf⟩ := handleSingleCommand_op others
          h.represents h.cwd hvalid.1 hvalid.2 hop
        left
        unfold Machine.command
        rw [hexit]
        exact hperf.cwd
      | none =>
        rcases command_cwd others h.cwd hvalid.1 hop with
          hsame | ⟨argv, hcall, hgoes, hcwd⟩ | hdir
        . exact .inl hsame
        . refine .inr ⟨rfl, .inr ?_⟩
          rw [hcwd, ← h.represents.lookup_eq (by decide)]
          by_contra hgone
          exact hhome ⟨line, argv, rfl, hcall, hgoes, hgone⟩
        . rw [fsIsDir_iff _ hinv'.cwd.nulFree, h.represents.lookup_eq hinv'.cwd.nulFree] at hdir
          exact .inr ⟨rfl, hdir⟩
    . next hcontrol heq => cases heq
    . next hcontrol heq => cases heq
    . cases hnext

theorem Inv.inDirectory_step (h : m.Inv map) (hdir : m.shell.InDirectory)
    (hstep : SettledStep others m input m')
    : m'.shell.InDirectory := by
  obtain ⟨hinv', hfollows⟩ := h.step hstep.1
  rw [h.inDirectory_iff] at hdir
  rw [hinv'.inDirectory_iff]
  unfold nextMap
  cases step_cwd h hstep with
  | inl hsame =>
    rw [hsame]
    cases hop : m.op input with
    | none => exact hdir
    | some operation =>
      obtain ⟨op, p⟩ := operation
      apply hdir.imp_right
      intro hlookup
      apply lookup_dir_of_not_rm hlookup
      rintro ⟨rfl, rfl⟩
      exact hstep.2.1 hop
  | inr hmoved =>
    rw [hmoved.1]
    exact hmoved.2

theorem boot_inDirectory : boot.shell.InDirectory := by
  have hhome : str "/home" ∈ initDirs := by decide +kernel
  rw [boot_inv.inDirectory_iff]
  exact .inr (lookup_initMap_dir hhome)

theorem cmdLsf_eq_zero_iff {s : Shell} (hcwd : WorkingDir s.cwd)
    : cmdLsf s [str "lsf"] = 0 ↔ s.InDirectory := by
  have hlen := hcwd.length_lt
  have htarget : lsfTarget [str "lsf"] = none := rfl
  have hdir : fsIsDir s.fs.table s.cwd = true ↔ s.InDirectory := fsIsDir_iff _ hcwd.nulFree
  unfold cmdLsf
  rw [htarget]
  dsimp only
  rw [hcwd.nulFree.cstr, List.take_of_length_le (by omega), ← hdir]
  split
  . next h => simp [h]
  . next h => simp [h]

theorem working_directory_exists (hrun : Run (SettledStep others) boot inputs m)
    : m.shell.InDirectory ∧ cmdLsf m.shell [str "lsf"] = 0 := by
  have hinv : (∃ map, m.Inv map) ∧ m.shell.InDirectory := by
    apply hrun.invariant fun m => (∃ map, Inv m map) ∧ m.shell.InDirectory
    . rintro m input m' _ ⟨⟨map, h⟩, hdir⟩ hstep
      exact ⟨⟨_, (h.step hstep.1).1⟩, h.inDirectory_step hdir hstep⟩
    . exact ⟨⟨_, boot_inv⟩, boot_inDirectory⟩
  obtain ⟨⟨map, h⟩, hdir⟩ := hinv
  exact ⟨hdir, (cmdLsf_eq_zero_iff h.cwd).mpr hdir⟩

theorem working_directory_exists_etc
    : (boot.command noOthers (str "cd /etc")).shell.InDirectory
        ∧ cmdLsf (boot.command noOthers (str "cd /etc")).shell [str "lsf"] = 0 := by
  have hstep : SettledStep noOthers boot (.command (str "cd /etc"))
      (boot.command noOthers (str "cd /etc")) := by
    refine ⟨⟨⟨by decide, by decide⟩, rfl⟩, ?_, ?_⟩
    . unfold RemovesCwd
      rw [op_prompt rfl, show lineOp (str "cd /etc") = none from rfl]
      simp
    . rintro ⟨line, argv, heq, hcall, hgoes, _⟩
      cases heq
      cases hcall
      revert hgoes
      unfold Argv.GoesHome
      decide
  exact working_directory_exists (Run.cons hstep (Run.nil _))

-- `rm` does not look at the working directory.
theorem rm_home_working_directory
    : ∃ m, Run (MachineStep noOthers) boot [.command (str "rm /home")] m
        ∧ m.shell.cwd = str "/home" ∧ ¬m.shell.InDirectory ∧ cmdLsf m.shell [str "lsf"] ≠ 0 := by
  have hstep : MachineStep noOthers boot (.command (str "rm /home"))
      (boot.command noOthers (str "rm /home")) := ⟨⟨by decide, by decide⟩, rfl⟩
  have hline : lineOp (str "rm /home") = some ⟨.rm, str "/home"⟩ := rfl
  have hresolve : boot.shell.resolve (str "/home") = str "/home" := by decide +kernel
  obtain ⟨hinv, _⟩ := boot_inv.step hstep
  obtain ⟨_, status, s', hexit, hperf⟩ := handleSingleCommand_op noOthers (s := boot.shell)
    boot_inv.represents boot_inv.cwd hstep.1.1 hstep.1.2 hline
  have hcwd : (boot.command noOthers (str "rm /home")).shell.cwd = str "/home" := by
    unfold Machine.command
    rw [hexit]
    exact hperf.cwd
  have hgone : ¬(boot.command noOthers (str "rm /home")).shell.InDirectory := by
    have hmem : str "/home" ∈ initMap := by
      rw [mem_initMap]
      exact .inr (by decide +kernel)
    rw [hinv.inDirectory_iff, hcwd]
    unfold nextMap
    rw [boot_op_eq hline hresolve]
    unfold FileOp.spec
    dsimp only
    rw [if_pos hmem, Finmap.lookup_erase]
    decide
  refine ⟨_, Run.cons hstep (Run.nil _), hcwd, hgone, ?_⟩
  rw [ne_eq, cmdLsf_eq_zero_iff hinv.cwd]
  exact hgone

end Machine

end DismasmOS
