import DismasmOS.Shell.Lemmas.Audit
import DismasmOS.Shell.Lemmas.Chain
import DismasmOS.Shell.System

/-!
This module contains when a chain of commands stops at the first one whose operation on the file table or
the process table fails.
-/

namespace DismasmOS

namespace Machine

variable {others : Shell → Argv → Int × List UInt8} {m m' : Machine} {map : FsMap}

theorem Inv.typeKeys {keys : List Int} (h : ∃ map, m.Inv map)
    (hkeys : m.typeKeys others keys = some m')
    : ∃ map, m'.Inv map := by
  induction keys generalizing m with
  | nil =>
    cases hkeys
    exact h
  | cons c keys ih =>
    obtain ⟨next, hnext, hrest⟩ := Option.bind_eq_some_iff.mp hkeys
    obtain ⟨map, hinv⟩ := h
    have hstep : MachineStep others m (.key c) next := ⟨trivial, hnext⟩
    apply ih ⟨_, (hinv.step hstep).1⟩ hrest

theorem Inv.op_key (h : m.Inv map) {c : Int} {op : FileOp} {p : List UInt8}
    (hop : m.op (.key c) = some ⟨op, p⟩)
    : Resolved p ∧ ∃ text, op = .save text := by
  unfold Machine.op at hop
  split at hop
  . next heq => cases heq
  . next hediting _ =>
    split at hop
    . cases hop
      exact ⟨(h.session hediting).filename, _, rfl⟩
    . cases hop
  . cases hop

theorem Inv.inputFails_key_iff (h : m.Inv map) (c : Int)
    : m.InputFails (.key c) ↔ m.SavesInVain (.key c) := by
  unfold InputFails SavesInVain
  apply exists_congr
  intro op
  apply exists_congr
  intro p
  apply and_congr_right
  intro hop
  have hvalid : (Input.key c).Valid := trivial
  have hlen : ∀ text, op.written = some text → text.length < FS_MAX_FILESIZE :=
    fun _ => h.length_written_lt hvalid hop
  obtain ⟨hp, text, rfl⟩ := h.op_key hop
  rw [h.represents.lookup_eq hp.nulFree, h.represents.findSlot_none_iff, Finmap.lookup_eq_none, or_comm]
  exact FileOp.store_fails_iff h.represents hp (hlen text rfl)

theorem Inv.someKey_iff (h : ∃ map, m.Inv map) (keys : List Int)
    : m.SomeKey others InputFails keys ↔ m.SomeKey others SavesInVain keys := by
  induction keys generalizing m with
  | nil => exact Iff.rfl
  | cons c keys ih =>
    obtain ⟨map, hinv⟩ := h
    apply or_congr
    . apply hinv.inputFails_key_iff
    . apply exists_congr
      intro next
      apply and_congr_right
      intro hnext
      have hstep : MachineStep others m (.key c) next := ⟨trivial, hnext⟩
      apply ih ⟨_, (hinv.step hstep).1⟩

theorem command_exit {line : List UInt8} {status : Int} {s : Shell}
    (h : handleSingleCommand others m.shell line = .exit status s)
    : m.command others line = { m with shell := s } := by
  unfold Machine.command
  rw [h]

theorem command_em {line filename : List UInt8} {s : Shell}
    (h : handleSingleCommand others m.shell line = .em filename s)
    : m.command others line = enterEm { m with shell := s } filename := by
  unfold Machine.command
  rw [h]

end Machine

theorem ProcCall.fails_iff (t : ProcTable) (call : ProcCall) : call.Fails t ↔ call.Refused t := by
  unfold Fails Refused
  cases call with
  | start name =>
    dsimp only
    unfold procStart
    cases procFind t name with
    | some i =>
      dsimp only
      split <;> simp
    | none => cases procFindSlot t <;> simp
  | kill name =>
    dsimp only
    unfold procKill
    split
    . next hsystem => simp [hsystem]
    . next hsystem => cases procFind t name <;> simp [hsystem]
  | setComment name comment => exact Iff.rfl

theorem Argv.IsPr.lineOp_eq_none {argv : Argv} {line : List UInt8} (hline : NulFree line)
    (hcall : lineCall line = .execute argv) (hpr : argv.IsPr)
    : lineOp line = none := by
  have hlen : 0 < argv.length := Nat.pos_of_ne_zero hpr.1
  have harg := (lineCall_valid hline hcall) _ (argv.arg_mem hlen)
  have hname := (harg.1.strcmp_eq_zero_iff (show NulFree (str "pr") by decide)).mp hpr.2
  rw [lineOp_eq, hcall]
  dsimp only
  unfold argvOp
  rw [hname, if_neg (show str "pr" ≠ str "makedir" by decide),
    if_neg (show str "pr" ≠ str "rm" by decide), if_neg (show str "pr" ≠ str "touch" by decide),
    ite_self]

theorem valid_of_mem_pieces {line command : List UInt8} (hline : ValidCommand line)
    (hmem : command ∈ pieces line)
    : ValidCommand command := by
  unfold pieces at hmem
  rw [List.mem_filter, List.mem_map] at hmem
  obtain ⟨⟨piece, hpiece, rfl⟩, _⟩ := hmem
  have hsub := (trim_sublist piece).trans (sublist_of_mem_splitPair hpiece)
  constructor
  . apply hline.1.sublist hsub
  . apply lt_of_le_of_lt hsub.length_le hline.2

-- At the prompt, in all states between two commands.
structure System.Inv (s : System) : Prop where
  machine : ∃ map, s.machine.Inv map
  prompt : s.machine.control = .prompt

namespace System

variable {others : Shell → Argv → Int × List UInt8} {s t : System} {line : List UInt8}
  {keys : List Int} {status : Int}

theorem boot_inv : boot.Inv := by
  constructor
  . exact ⟨_, Machine.boot_inv⟩
  . rfl

variable (others s) in
-- A command is either `pr` or leaves the processes alone.
theorem handleSingleCommand_cases (line : List UInt8)
    : (∃ argv, lineCall line = .execute argv ∧ argv.IsPr
        ∧ s.handleSingleCommand others line
          = ⟨.exit 0 (s.shell.puts (others s.shell argv).2), cmdPr s.procs argv⟩)
      ∨ ((∀ argv, lineCall line = .execute argv → ¬argv.IsPr)
        ∧ s.handleSingleCommand others line
          = ⟨DismasmOS.handleSingleCommand others s.shell line, s.procs⟩) := by
  unfold handleSingleCommand
  rw [handleSingleText_eq, handleSingleCommand_eq]
  cases hcall : lineCall line with
  | execute argv =>
    unfold LineCall.run executor
    dsimp only
    by_cases hpr : argv.IsPr
    . rw [if_pos hpr]
      exact .inl ⟨argv, rfl, hpr, rfl⟩
    . rw [if_neg hpr]
      right
      constructor
      . intro argv' heq
        cases heq
        exact hpr
      . rfl
  | echoTo | noTarget =>
    right
    constructor
    . intro argv heq
      cases heq
    . rfl

theorem execute_cases (h : s.execute others line keys = some ⟨status, t⟩)
    : (∃ shell, s.handleSingleCommand others line = ⟨.exit status shell, t.procs⟩
        ∧ t.machine = { s.machine with shell := shell })
      ∨ (∃ filename shell, s.handleSingleCommand others line = ⟨.em filename shell, t.procs⟩
        ∧ (s.enterEm filename shell).typeKeys others keys = some t.machine
        ∧ t.machine.control = .prompt ∧ status = 0) := by
  unfold execute at h
  split at h
  . next hcommand =>
    split at h
    . cases h
      exact .inl ⟨_, hcommand, rfl⟩
    . cases h
  . next hcommand =>
    obtain ⟨m, hkeys, hreturn⟩ := Option.bind_eq_some_iff.mp h
    split at hreturn
    . next hprompt =>
      cases hreturn
      exact .inr ⟨_, _, hcommand, hkeys, hprompt, rfl⟩
    . cases hreturn
  . cases h

theorem Inv.enterEm (h : s.Inv) (hline : ValidCommand line) {filename : List UInt8} {shell : Shell}
    {procs : ProcTable} (hem : s.handleSingleCommand others line = ⟨.em filename shell, procs⟩)
    : ∃ map, (s.enterEm filename shell).Inv map := by
  obtain ⟨map, hinv⟩ := h.machine
  have hnext : (s.machine.command others line).Inv _ := (hinv.command h.prompt hline.1 hline.2).1
  rcases handleSingleCommand_cases others s line with ⟨argv, _, _, heq⟩ | ⟨_, heq⟩
  . rw [hem] at heq
    cases heq
  . rw [hem] at heq
    rw [Machine.command_em (Prod.mk.inj heq).1.symm] at hnext
    exact ⟨_, hnext⟩

variable (others s) in
theorem handleSingleCommand_em (hline : NulFree line) {argv : Argv}
    (hcall : lineCall line = .execute argv) (hem : argv.IsEm)
    : s.handleSingleCommand others line = ⟨.em (s.shell.resolve (argv.arg 1)) s.shell, s.procs⟩ := by
  obtain ⟨hargs, hname⟩ := hem
  have harg := (lineCall_valid hline hcall) _ (argv.arg_mem (show 0 < argv.length by omega))
  rw [harg.1.strcmp_eq_zero_iff (show NulFree (str "em") by decide)] at hname
  have hpr : ¬argv.IsPr := by
    unfold Argv.IsPr
    rw [hname]
    exact fun hpr => absurd hpr.2 (by decide)
  unfold handleSingleCommand
  rw [handleSingleText_eq, hcall]
  unfold LineCall.run executor executeCommand cmdEm
  dsimp only
  rw [if_neg hpr, if_neg (show ¬argv.length = 0 by omega), hname, if_neg (by decide),
    if_neg (by decide), if_neg (by decide), if_neg (by decide), if_neg (by decide),
    if_neg (by decide), if_neg (by decide), if_pos (by decide), if_neg (by omega)]

theorem Inv.execute (h : s.Inv) (hline : ValidCommand line)
    (hexec : s.execute others line keys = some ⟨status, t⟩)
    : t.Inv := by
  obtain ⟨map, hinv⟩ := h.machine
  rcases execute_cases hexec with ⟨shell, hexit, ht⟩ | ⟨filename, shell, hem, hkeys, hprompt, _⟩
  . rcases handleSingleCommand_cases others s line with ⟨argv, _, _, heq⟩ | ⟨_, heq⟩
    . rw [hexit] at heq
      have hshell := (Prod.mk.inj heq).1
      cases hshell
      constructor
      . rw [ht]
        exact ⟨map, hinv.viewed (Fs.Viewed.refl _) hinv.cwd hinv.control⟩
      . rw [ht]
        exact h.prompt
    . rw [hexit] at heq
      have hnext : (s.machine.command others line).Inv _ := (hinv.command h.prompt hline.1 hline.2).1
      rw [Machine.command_exit (Prod.mk.inj heq).1.symm, ← ht] at hnext
      constructor
      . exact ⟨_, hnext⟩
      . rw [ht]
        exact h.prompt
  . constructor
    . apply Machine.Inv.typeKeys (h.enterEm hline hem) hkeys
    . exact hprompt

end System

namespace Executed

variable {others : Shell → Argv → Int × List UInt8} {e : Executed}

structure Valid (others : Shell → Argv → Int × List UInt8) (e : Executed) : Prop where
  inv : e.before.Inv
  command : ValidCommand e.line
  returns : e.before.execute others e.line e.keys = some ⟨e.status, e.after⟩

theorem pr_iff (e : Executed) : e.Pr ProcCall.Fails ↔ e.Pr ProcCall.Refused := by
  unfold Pr
  simp only [ProcCall.fails_iff]

namespace Valid

variable (h : e.Valid others)
include h

theorem edits_iff
    : e.Edits others Machine.InputFails ↔ e.Edits others Machine.SavesInVain := by
  unfold Edits
  apply exists_congr
  intro argv
  apply and_congr_right
  intro hcall
  apply and_congr_right
  intro hem
  have hedit := System.handleSingleCommand_em others e.before h.command.1 hcall hem
  apply Machine.Inv.someKey_iff (h.inv.enterEm h.command hedit)

theorem status_of_pr {P : ProcTable → ProcCall → Prop} (hpr : e.Pr P) : e.status = 0 := by
  obtain ⟨argv, call, hcall, hpr, _⟩ := hpr
  rcases System.handleSingleCommand_cases others e.before e.line with ⟨argv', _, _, heq⟩ | ⟨hno, _⟩
  . rcases System.execute_cases h.returns with ⟨shell, hexit, _⟩ | ⟨_, _, _, _, _, hzero⟩
    . rw [heq] at hexit
      have hout := (Prod.mk.inj hexit).1
      exact (Outcome.exit.inj hout).1.symm
    . exact hzero
  . exact absurd hpr (hno argv hcall)

theorem status_of_edits {P : Machine → Input → Prop} (hedits : e.Edits others P)
    : e.status = 0 := by
  obtain ⟨argv, hcall, hem, _⟩ := hedits
  have hedit := System.handleSingleCommand_em others e.before h.command.1 hcall hem
  rcases System.execute_cases h.returns with ⟨shell', hexit, _⟩ | ⟨_, _, _, _, _, hzero⟩
  . rw [hedit] at hexit
    have hout := (Prod.mk.inj hexit).1
    cases hout
  . exact hzero

theorem status_of_op {map : FsMap} (hinv : e.before.machine.Inv map) {op : FileOp} {p : List UInt8}
    (hop : e.before.machine.op (.command e.line) = some ⟨op, p⟩)
    : Resolved p ∧ e.status = (op.spec map p).status := by
  rw [Machine.op_prompt h.inv.prompt] at hop
  obtain ⟨⟨op', path⟩, hlineOp, heq⟩ := Option.map_eq_some_iff.mp hop
  cases heq
  obtain ⟨hpath, status, s', hexit, hperf⟩ := handleSingleCommand_op others hinv.represents hinv.cwd
    h.command.1 h.command.2 hlineOp
  refine ⟨hinv.cwd.resolve hpath, ?_⟩
  rw [← hperf.status]
  rcases System.handleSingleCommand_cases others e.before e.line with ⟨argv, hcall, hpr, _⟩ | ⟨_, heq⟩
  . rw [hpr.lineOp_eq_none h.command.1 hcall] at hlineOp
    cases hlineOp
  . rw [show handleSingleCommand others e.before.shell e.line = .exit status s' from hexit] at heq
    rcases System.execute_cases h.returns with ⟨shell, hreturn, _⟩ | ⟨_, _, hem, _⟩
    . rw [heq] at hreturn
      exact (Outcome.exit.inj (Prod.mk.inj hreturn).1).1.symm
    . rw [heq] at hem
      cases hem

theorem command_iff
    : (e.before.machine.InputFails (.command e.line) → e.status ≠ 0)
        ↔ ¬∃ op p, e.before.machine.op (.command e.line) = some ⟨op, p⟩
          ∧ op.WritesDirectory e.before.table p := by
  obtain ⟨map, hinv⟩ := h.inv.machine
  have hvalid : (Input.command e.line).Valid := h.command
  unfold Machine.InputFails
  cases hop : e.before.machine.op (.command e.line) with
  | none => simp
  | some operation =>
    obtain ⟨op, p⟩ := operation
    obtain ⟨hp, hstatus⟩ := h.status_of_op hinv hop
    have hreports := FileOp.reports_iff hinv.represents hp fun text =>
      hinv.length_written_lt hvalid hop
    have hthis : ∀ P : FileOp → List UInt8 → Prop,
        (∃ op' p', some (op, p) = some (op', p') ∧ P op' p') ↔ P op p := by
      intro P
      constructor
      . rintro ⟨op', p', heq, hP⟩
        cases heq
        exact hP
      . intro hP
        exact ⟨op, p, rfl, hP⟩
    rw [hthis fun op p => op.TableFails _ p, hthis fun op p => op.WritesDirectory _ p, hstatus]
    exact hreports

theorem reports_iff : (e.Fails others → e.status ≠ 0) ↔ ¬e.Swallows others := by
  have hsilent : ∀ {P : Prop}, (P → e.status = 0) → ((P → e.status ≠ 0) ↔ ¬P) := by
    intro P hzero
    constructor
    . intro hreports hP
      exact hreports hP (hzero hP)
    . intro hno hP
      exact absurd hP hno
  unfold Fails Swallows
  rw [or_imp, or_imp, h.command_iff, hsilent h.status_of_pr, hsilent h.status_of_edits, e.pr_iff,
    h.edits_iff, not_or, not_or]

end Valid

end Executed

section Chain

variable {others : Shell → Argv → Int × List UInt8} {s t : System} {commands : List (List UInt8)}
  {executed : List Executed}

theorem failsFast_nil : FailsFast others [] := by
  intro i e hget
  cases hget

theorem failsFast_cons (e : Executed)
    : FailsFast others (e :: executed)
        ↔ (e.Fails others → e.status ≠ 0 ∧ executed = []) ∧ FailsFast others executed := by
  constructor
  . intro h
    constructor
    . intro hfails
      obtain ⟨hstatus, hlast⟩ := h 0 e rfl hfails
      rw [List.length_cons] at hlast
      exact ⟨hstatus, List.length_eq_zero_iff.mp (by omega)⟩
    . intro i e' hget hfails
      obtain ⟨hstatus, hlast⟩ := h (i + 1) e' hget hfails
      rw [List.length_cons] at hlast
      exact ⟨hstatus, by omega⟩
  . rintro ⟨hhead, htail⟩ i e' hget hfails
    cases i with
    | zero =>
      cases hget
      obtain ⟨hstatus, hnil⟩ := hhead hfails
      rw [hnil]
      exact ⟨hstatus, rfl⟩
    | succ i =>
      obtain ⟨hstatus, hlast⟩ := htail i e' hget hfails
      rw [List.length_cons, hlast]
      exact ⟨hstatus, rfl⟩

-- If the commands act as in this run, it is what `handle_line` does with them.
theorem ChainRun.runChain_eq {exec : System → List UInt8 → Int × System}
    (hrun : ChainRun others s commands executed t)
    (hexec : ∀ e ∈ executed, exec e.before e.line = ⟨e.status, e.after⟩)
    : runChain exec s commands = ⟨executed.map (·.line), t⟩ := by
  induction hrun with
  | nil s => rfl
  | stop commands _ hstatus =>
    unfold runChain
    rw [hexec _ (List.mem_cons_self ..)]
    exact if_pos hstatus
  | next _ _ ih =>
    unfold runChain
    rw [hexec _ (List.mem_cons_self ..)]
    dsimp only
    rw [if_neg (not_not.mpr rfl), ih fun e he => hexec e (List.mem_cons_of_mem _ he)]
    rfl

theorem ChainRun.spec (hrun : ChainRun others s commands executed t) (h : s.Inv)
    (hcommands : ∀ command ∈ commands, ValidCommand command)
    : t.Inv ∧ (FailsFast others executed ↔ ∀ e ∈ executed, ¬e.Swallows others) := by
  induction hrun with
  | nil s => exact ⟨h, by simp [failsFast_nil]⟩
  | @stop s t line keys status commands hexec hstatus =>
    have hline := hcommands line (List.mem_cons_self ..)
    have hvalid : Executed.Valid others ⟨s, line, keys, status, t⟩ := ⟨h, hline, hexec⟩
    refine ⟨h.execute hline hexec, ?_⟩
    rw [failsFast_cons, List.forall_mem_singleton, ← hvalid.reports_iff, and_iff_left failsFast_nil]
    simp
  | @next s t u line keys commands executed hexec htail ih =>
    have hline := hcommands line (List.mem_cons_self ..)
    have hvalid : Executed.Valid others ⟨s, line, keys, 0, t⟩ := ⟨h, hline, hexec⟩
    obtain ⟨hinv, htail⟩ := ih (h.execute hline hexec) fun command hmem =>
      hcommands command (List.mem_cons_of_mem _ hmem)
    refine ⟨hinv, ?_⟩
    rw [failsFast_cons, List.forall_mem_cons, ← hvalid.reports_iff, htail]
    simp

theorem System.Inv.run {lines : List (List UInt8)} (hrun : Run (LineStep others) System.boot lines s)
    : s.Inv := by
  apply hrun.invariant
  . intro s line t _ h hstep
    obtain ⟨hline, executed, hchain⟩ := hstep
    exact (hchain.spec h fun command hmem => valid_of_mem_pieces hline hmem).1
  . exact System.boot_inv

theorem chain_fails_fast_iff {lines : List (List UInt8)}
    (hreach : Run (LineStep others) System.boot lines s)
    (hcommands : ∀ command ∈ commands, ValidCommand command)
    (hrun : ChainRun others s commands executed t)
    : FailsFast others executed ↔ ∀ e ∈ executed, ¬e.Swallows others :=
  (hrun.spec (System.Inv.run hreach) hcommands).2

theorem chain_fails_fast_worker
    : ∃ executed t,
      ChainRun noOthers System.boot (pieces (str "pr worker && pr kill worker")) executed t
        ∧ (FailsFast noOthers executed ↔ ∀ e ∈ executed, ¬e.Swallows noOthers) := by
  have hpieces : pieces (str "pr worker && pr kill worker") = [str "pr worker", str "pr kill worker"] := by
    decide
  have hrun : ChainRun noOthers System.boot [str "pr worker", str "pr kill worker"]
      [⟨_, _, [], _, _⟩, ⟨_, _, [], _, _⟩] _ :=
    .next rfl (.next rfl (.nil _))
  rw [hpieces]
  refine ⟨_, _, hrun, chain_fails_fast_iff (Run.nil _) ?_ hrun⟩
  simp only [List.forall_mem_cons]
  exact ⟨⟨by decide, by decide⟩, ⟨by decide, by decide⟩, by simp⟩

-- There is no process to kill, the next command is executed all the same.
theorem pr_kill_not_failsFast
    : ∃ e e' t,
      ChainRun noOthers System.boot (pieces (str "pr kill ghost && pr worker")) [e, e'] t
        ∧ e.Fails noOthers ∧ e.status = 0 ∧ ¬FailsFast noOthers [e, e'] := by
  have hpieces : pieces (str "pr kill ghost && pr worker") = [str "pr kill ghost", str "pr worker"] := by
    decide
  have hrun : ChainRun noOthers System.boot [str "pr kill ghost", str "pr worker"]
      [⟨_, _, [], _, _⟩, ⟨_, _, [], _, _⟩] _ :=
    .next rfl (.next rfl (.nil _))
  have hcall : lineCall (str "pr kill ghost") = .execute [str "pr", str "kill", str "ghost"] := by rfl
  have hpr : Argv.IsPr [str "pr", str "kill", str "ghost"] := by decide
  have hkill : prCall [str "pr", str "kill", str "ghost"] = some (.kill (str "ghost")) := by rfl
  have hghost : (procKill procInit (str "ghost")).1 = -1 := by decide +kernel
  have hfails : ∀ after, Executed.Fails noOthers ⟨System.boot, str "pr kill ghost", [], 0, after⟩ :=
    fun after => .inr (.inl ⟨_, _, hcall, hpr, hkill, hghost⟩)
  rw [hpieces]
  refine ⟨_, _, _, hrun, hfails _, rfl, ?_⟩
  intro hfast
  exact absurd rfl (hfast 0 _ rfl (hfails _)).1

end Chain

end DismasmOS
