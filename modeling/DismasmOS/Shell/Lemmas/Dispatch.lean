import DismasmOS.Shell.Op
import DismasmOS.Shell.Lemmas.FileOp

/-!
This module contains the dispatch from a command line to the operation on files it stands for. Lines
that stand for none leave the file table alone.
-/

namespace DismasmOS

section Tokens

theorem skipBlanks_sublist (s : List UInt8) : (skipBlanks s).Sublist s := List.dropWhile_sublist _

theorem stripBlanks_sublist (s : List UInt8) : (stripBlanks s).Sublist s := by
  unfold stripBlanks
  rw [← List.reverse_sublist, List.reverse_reverse]
  exact List.dropWhile_sublist _

theorem trim_sublist (s : List UInt8) : (stripBlanks (skipBlanks s)).Sublist s :=
  (stripBlanks_sublist _).trans (skipBlanks_sublist s)

theorem token_ne_nil {s : List UInt8} (h : skipBlanks s ≠ [])
    : (skipBlanks s).takeWhile (!isBlank ·) ≠ [] := by
  have hhead := List.head_dropWhile_not isBlank h
  unfold skipBlanks at h ⊢
  cases hs : s.dropWhile isBlank with
  | nil => exact absurd hs h
  | cons c rest =>
    simp only [hs, List.head_cons] at hhead
    rw [List.takeWhile_cons_of_pos]
    . simp
    . simp [hhead]

theorem tokenize_mem {line : List UInt8} {n : Nat} {a : List UInt8} (h : a ∈ tokenize line n)
    : a ≠ [] ∧ a.Sublist line := by
  induction n generalizing line with
  | zero => simp [tokenize] at h
  | succ n ih =>
    have hsub := skipBlanks_sublist line
    unfold tokenize at h
    dsimp only at h
    split at h
    . simp at h
    . next hne =>
      split at h
      . rw [List.mem_singleton] at h
        rw [h]
        exact ⟨hne, hsub⟩
      . rw [List.mem_cons] at h
        cases h with
        | inl heq =>
          rw [heq]
          exact ⟨token_ne_nil hne, (List.takeWhile_sublist _).trans hsub⟩
        | inr hmem =>
          obtain ⟨hne, hrest⟩ := ih hmem
          exact ⟨hne, (hrest.trans (List.dropWhile_sublist _)).trans hsub⟩

end Tokens

-- Arguments as `tokenize` makes them.
def Argv.Valid (argv : Argv) : Prop := ∀ a ∈ argv, NulFree a ∧ a ≠ []

theorem tokenize_valid {line : List UInt8} (h : NulFree line) (n : Nat)
    : Argv.Valid (tokenize line n) := by
  intro a ha
  obtain ⟨hne, hsub⟩ := tokenize_mem ha
  exact ⟨h.sublist hsub, hne⟩

theorem Argv.arg_mem (argv : Argv) {i : Nat} (h : i < argv.length) : argv.arg i ∈ argv := by
  unfold arg
  rw [List.getD_eq_getElem?_getD, List.getElem?_eq_getElem h]
  exact List.getElem_mem h

-- What the shell's working directory always is.
structure WorkingDir (cwd : List UInt8) : Prop where
  nulFree : NulFree cwd
  length_lt : cwd.length < FS_MAX_PATH

theorem WorkingDir.resolve {s : Shell} (h : WorkingDir s.cwd) {path : List UInt8}
    (hpath : NulFree path ∧ path ≠ [])
    : Resolved (s.resolve path) :=
  fsResolvePath_resolved h.nulFree h.length_lt hpath.1 hpath.2

-- Nothing happened but files being looked at.
def Fs.Viewed (fs fs' : Fs) : Prop :=
  ∃ events : List FsEvent, (∀ ev ∈ events, ∃ p, Resolved p ∧ ev = rootEvent VIEW p)
    ∧ fs' = events.foldl Fs.logEvent fs

theorem Fs.Viewed.refl (fs : Fs) : fs.Viewed fs := ⟨[], by simp, rfl⟩

theorem Fs.Viewed.single (fs : Fs) {p : List UInt8} (hp : Resolved p)
    : fs.Viewed (fs.logEvent (rootEvent VIEW p)) := by
  refine ⟨[rootEvent VIEW p], ?_, rfl⟩
  intro ev hev
  rw [List.mem_singleton] at hev
  exact ⟨p, hp, hev⟩

-- What a line that is no operation on files results in.
inductive Outcome.Harmless (s : Shell) : Outcome → Prop
  | exit {status : Int} {s' : Shell} (hfs : s.fs.Viewed s'.fs) (hcwd : WorkingDir s'.cwd)
      : Harmless s (.exit status s')
  | em {filename : List UInt8} (hname : Resolved filename) : Harmless s (.em filename s)
  | native {payload : List UInt8} : Harmless s (.native payload s)

section Commands

variable {s : Shell} {argv : Argv}

theorem Outcome.Harmless.ite {c : Prop} [Decidable c] {o o' : Outcome} (h : c → o.Harmless s)
    (h' : ¬c → o'.Harmless s)
    : (if c then o else o').Harmless s := by
  split
  . next hc => exact h hc
  . next hc => exact h' hc

theorem Outcome.Harmless.same (h : WorkingDir s.cwd) {status : Int} {s' : Shell}
    (hfs : s'.fs = s.fs) (hcwd : s'.cwd = s.cwd)
    : Outcome.Harmless s (.exit status s') := by
  apply Outcome.Harmless.exit
  . rw [hfs]
    exact Fs.Viewed.refl _
  . rw [hcwd]
    exact h

theorem cmdCd_harmless (h : WorkingDir s.cwd) (hargv : argv.Valid)
    : Outcome.Harmless s (.exit (cmdCd s argv).1 (cmdCd s argv).2) := by
  have hhome : WorkingDir (str "/home") := ⟨by decide, by decide⟩
  have hroot : WorkingDir (str "/") := ⟨by decide, by decide⟩
  unfold cmdCd
  dsimp only
  split
  . exact .exit (Fs.Viewed.refl _) hhome
  . next hargs =>
    rw [not_or] at hargs
    split
    . exact .exit (Fs.Viewed.refl _) hroot
    . split
      . have hresolved := h.resolve (hargv _ (argv.arg_mem (show 1 < argv.length by omega)))
        refine .exit (Fs.Viewed.refl _) ⟨?_, ?_⟩
        . rw [hresolved.nulFree.cstr]
          exact hresolved.nulFree.sublist (List.take_sublist _ _)
        . have hpos : 0 < FS_MAX_PATH := by decide
          rw [List.length_take]
          omega
      . exact .same h rfl rfl

theorem cmdCat_harmless (h : WorkingDir s.cwd) (hargv : argv.Valid)
    : Outcome.Harmless s (.exit (cmdCat s argv).1 (cmdCat s argv).2) := by
  unfold cmdCat
  dsimp only
  split
  . exact .same h rfl rfl
  . have hresolved := h.resolve (hargv _ (argv.arg_mem (show 1 < argv.length by omega)))
    split
    . exact .same h rfl rfl
    . split
      . exact .same h rfl rfl
      . split
        . exact .exit (Fs.Viewed.single _ hresolved) h
        . exact .exit (Fs.Viewed.single _ hresolved) h

theorem cmdGrep_harmless (h : WorkingDir s.cwd) (hargv : argv.Valid)
    : Outcome.Harmless s (.exit (cmdGrep s argv).1 (cmdGrep s argv).2) := by
  unfold cmdGrep
  dsimp only
  split
  . exact .same h rfl rfl
  . have hresolved := h.resolve (hargv _ (argv.arg_mem (show 2 < argv.length by omega)))
    split
    . exact .same h rfl rfl
    . split
      . exact .same h rfl rfl
      . exact .exit (Fs.Viewed.single _ hresolved) h

theorem cmdEm_harmless (h : WorkingDir s.cwd) (hargv : argv.Valid)
    : Outcome.Harmless s (cmdEm s argv) := by
  unfold cmdEm
  split
  . exact .same h rfl rfl
  . exact .em (h.resolve (hargv _ (argv.arg_mem (show 1 < argv.length by omega))))

theorem callAsm_harmless (h : WorkingDir s.cwd) (result : Int × List UInt8)
    : (callAsm result s argv).Harmless s := by
  unfold callAsm
  split
  . exact .native
  . exact .same h rfl rfl

end Commands

section Lines

variable {others : Shell → Argv → Int × List UInt8} {m : FsMap} {s : Shell} {argv : Argv}
  {op : FileOp} {path : List UInt8}

theorem executeCommand_op (h : s.fs.table.Represents m) (hcwd : WorkingDir s.cwd)
    (hargv : argv.Valid) (hop : argvOp argv = some ⟨op, path⟩)
    : (NulFree path ∧ path ≠ [])
        ∧ ∃ status s', executeCommand others s argv = .exit status s'
          ∧ op.Performed s m (s.resolve path) ⟨status, s'⟩ := by
  unfold argvOp at hop
  split at hop
  . cases hop
  . next hlen =>
    have hargs : 2 ≤ argv.length := by omega
    have harg := hargv _ (argv.arg_mem hargs)
    have hresolved := hcwd.resolve harg
    unfold executeCommand
    dsimp only
    rw [if_neg (by omega)]
    split at hop
    . next hname =>
      cases hop
      rw [hname, if_neg (by decide), if_neg (by decide), if_pos (by decide)]
      exact ⟨harg, _, _, rfl, cmdMakedir_performed h hargs hresolved⟩
    . split at hop
      . next hname =>
        cases hop
        rw [hname, if_neg (by decide), if_neg (by decide), if_neg (by decide), if_pos (by decide)]
        exact ⟨harg, _, _, rfl, cmdRm_performed h hargs hresolved⟩
      . split at hop
        . next hname =>
          cases hop
          rw [hname, if_neg (by decide), if_neg (by decide), if_neg (by decide), if_neg (by decide),
            if_neg (by decide), if_neg (by decide), if_pos (by decide)]
          exact ⟨harg, _, _, rfl, cmdTouch_performed h hargs hresolved⟩
        . cases hop

theorem usage_of_argvOp (hargv : argv.Valid) {name : List UInt8} (hname : NulFree name)
    (hop : argvOp argv = none)
    (hops : name = str "makedir" ∨ name = str "rm" ∨ name = str "touch")
    (hcmp : strcmp (argv.arg 0) name = 0)
    : argv.length < 2 := by
  by_contra hlen
  have harg := hargv _ (argv.arg_mem (show 0 < argv.length by omega))
  rw [harg.1.strcmp_eq_zero_iff hname] at hcmp
  unfold argvOp at hop
  rw [if_neg hlen, hcmp] at hop
  rcases hops with rfl | rfl | rfl
  . rw [if_pos rfl] at hop
    cases hop
  . rw [if_neg (by decide), if_pos rfl] at hop
    cases hop
  . rw [if_neg (by decide), if_neg (by decide), if_pos rfl] at hop
    cases hop

theorem executeCommand_harmless (hcwd : WorkingDir s.cwd) (hargv : argv.Valid)
    (hop : argvOp argv = none)
    : (executeCommand others s argv).Harmless s := by
  have husage : ∀ {name : List UInt8}, NulFree name
      → (name = str "makedir" ∨ name = str "rm" ∨ name = str "touch")
      → strcmp (argv.arg 0) name = 0 → argv.length < 2 :=
    fun hname => usage_of_argvOp hargv hname hop
  have hmakedir : strcmp (argv.arg 0) (str "makedir") = 0
      → Outcome.Harmless s (.exit (cmdMakedir s argv).1 (cmdMakedir s argv).2) := by
    intro hcmp
    unfold cmdMakedir
    rw [if_pos (husage (by decide) (.inl rfl) hcmp)]
    exact .same hcwd rfl rfl
  have hrm : strcmp (argv.arg 0) (str "rm") = 0
      → Outcome.Harmless s (.exit (cmdRm s argv).1 (cmdRm s argv).2) := by
    intro hcmp
    unfold cmdRm
    rw [if_pos (husage (by decide) (.inr (.inl rfl)) hcmp)]
    exact .same hcwd rfl rfl
  have htouch : strcmp (argv.arg 0) (str "touch") = 0
      → Outcome.Harmless s (.exit (cmdTouch s argv).1 (cmdTouch s argv).2) := by
    intro hcmp
    unfold cmdTouch
    rw [if_pos (husage (by decide) (.inr (.inr rfl)) hcmp)]
    exact .same hcwd rfl rfl
  have hecho : Outcome.Harmless s (.exit 0 (cmdEcho s argv)) := .same hcwd rfl rfl
  unfold executeCommand
  dsimp only
  apply Outcome.Harmless.ite (fun _ => .same hcwd rfl rfl); intro _
  apply Outcome.Harmless.ite (fun _ => hecho); intro _
  apply Outcome.Harmless.ite (fun _ => cmdCd_harmless hcwd hargv); intro _
  apply Outcome.Harmless.ite hmakedir; intro _
  apply Outcome.Harmless.ite hrm; intro _
  apply Outcome.Harmless.ite (fun _ => cmdCat_harmless hcwd hargv); intro _
  apply Outcome.Harmless.ite (fun _ => cmdGrep_harmless hcwd hargv); intro _
  apply Outcome.Harmless.ite htouch; intro _
  apply Outcome.Harmless.ite (fun _ => cmdEm_harmless hcwd hargv); intro _
  apply Outcome.Harmless.ite (fun _ => callAsm_harmless hcwd _); intro _
  apply Outcome.Harmless.ite
  . intro _
    exact .same hcwd rfl rfl
  . intro _
    exact .same hcwd rfl rfl

theorem echoText_sublist (cmdLeft : List UInt8) : (echoText cmdLeft).Sublist cmdLeft := by
  have hsub := (skipBlanks_sublist (cmdLeft.drop 4)).trans (List.drop_sublist _ _)
  have htail := (List.tail_sublist (skipBlanks (cmdLeft.drop 4))).trans hsub
  unfold echoText
  dsimp only
  split
  . split
    . exact (List.dropLast_sublist _).trans htail
    . exact htail
  . exact hsub

variable (others) in
theorem handleSingleCommand_op (h : s.fs.table.Represents m) (hcwd : WorkingDir s.cwd)
    {line : List UInt8} (hline : NulFree line) (hlen : line.length < CMD_MAX_LEN)
    (hop : lineOp line = some ⟨op, path⟩)
    : (NulFree path ∧ path ≠ [])
        ∧ ∃ status s', handleSingleCommand others s line = .exit status s'
          ∧ op.Performed s m (s.resolve path) ⟨status, s'⟩ := by
  unfold lineOp at hop
  unfold handleSingleCommand
  cases hredir : strchr line (chr '>') with
  | none =>
    rw [hredir] at hop
    exact executeCommand_op h hcwd (tokenize_valid hline _) hop
  | some redir =>
    rw [hredir] at hop
    dsimp only at hop ⊢
    have hleft := (trim_sublist (line.take redir)).trans (List.take_sublist _ _)
    split at hop
    . cases hop
    . next htarget =>
      rw [if_neg htarget]
      split at hop
      . next hecho =>
        rw [if_pos hecho]
        cases hop
        have hsub := (trim_sublist (line.drop (redir + 1))).trans (List.drop_sublist _ _)
        have htext := (echoText_sublist (stripBlanks (skipBlanks (line.take redir)))).trans hleft
        have hpath : NulFree _ ∧ _ ≠ [] := ⟨hline.sublist hsub, htarget⟩
        have hmax : CMD_MAX_LEN < FS_MAX_FILESIZE := by decide
        have htextLen := htext.length_le
        exact ⟨hpath, _, _, rfl,
          echoTo_performed h (hline.sublist htext) (by omega) (hcwd.resolve hpath)⟩
      . next hecho =>
        rw [if_neg hecho]
        have hargs := (stripBlanks_sublist (line.take redir)).trans (List.take_sublist _ _)
        exact executeCommand_op h hcwd (tokenize_valid (hline.sublist hargs) _) hop

variable (others) in
theorem handleSingleCommand_harmless (hcwd : WorkingDir s.cwd) {line : List UInt8}
    (hline : NulFree line) (hop : lineOp line = none)
    : (handleSingleCommand others s line).Harmless s := by
  unfold lineOp at hop
  unfold handleSingleCommand
  cases hredir : strchr line (chr '>') with
  | none =>
    rw [hredir] at hop
    exact executeCommand_harmless hcwd (tokenize_valid hline _) hop
  | some redir =>
    rw [hredir] at hop
    dsimp only at hop ⊢
    split at hop
    . next htarget =>
      rw [if_pos htarget]
      exact .same hcwd rfl rfl
    . next htarget =>
      rw [if_neg htarget]
      split at hop
      . cases hop
      . next hecho =>
        rw [if_neg hecho]
        have hargs := (stripBlanks_sublist (line.take redir)).trans (List.take_sublist _ _)
        exact executeCommand_harmless hcwd (tokenize_valid (hline.sublist hargs) _) hop

end Lines

-- For examples in which no other command is used.
def noOthers (_ : Shell) (_ : Argv) : Int × List UInt8 := ⟨0, []⟩

end DismasmOS
