import DismasmOS.Fs.Lemmas.Init
import DismasmOS.Shell.Lemmas.Dispatch

/-!
This module contains the relation between the path a command acts on and the path its argument stands
for. The resolver works within limits, a command is exact if they do not matter or if there is
nothing to do at the path they leave.
-/

namespace DismasmOS

-- What is left of the resolved path within the limits of the resolver.
def keptPath (cwd path : List UInt8) : List UInt8 :=
  Path.resolveWithin (chr '/') DOT DOTDOT resolveLimits cwd path

-- The resolved path has at most 63 characters and at most 16 components.
def PathFits (cwd path : List UInt8) : Prop :=
  Path.Fits (chr '/') DOT DOTDOT resolveLimits cwd path

-- What the resolver leaves out does not count: the characters behind the 127th change nothing, no more than
-- 16 components are pending since the path was at the root the last time, and the resolved path has at most
-- 63 characters.
def PathSpared (cwd path : List UInt8) : Prop :=
  Path.Spared (chr '/') DOT DOTDOT resolveLimits cwd path

-- The command changes nothing but the path its argument stands for, it fails if that is too long.
def ActsExactly (others : Shell → Argv → Int × List UInt8) (s : Shell) (line path : List UInt8)
    : Prop :=
  ∃ status s', handleSingleCommand others s line = .exit status s'
    ∧ (∀ p, NulFree p → p ≠ resolvePath s.cwd path → s'.fs.table.lookup p = s.fs.table.lookup p)
    ∧ (¬PathFits s.cwd path → status ≠ 0 ∧ s'.fs.table = s.fs.table)

-- There is nothing to do at `p`, and a command that has to fail does.
def FileOp.Idle (op : FileOp) (m : FsMap) (p : List UInt8) (fits : Prop) : Prop :=
  match op with
  | touch => p ∈ m ∧ fits ∨ p ∉ m ∧ m.Full
  | makedir => p ∈ m ∨ p = str "/" ∨ m.Full
  | rm => p ∉ m
  | echo text | save text =>
    (m.lookup p = some .dir ∨ m.lookup p = some (.file text)) ∧ fits ∨ p ∉ m ∧ m.Full

namespace FileOp

variable {op : FileOp} {m : FsMap} {p : List UInt8}

theorem store_idle_iff (text typeIfNew : List UInt8) (fits : Prop)
    : ((store m p text typeIfNew).map.lookup p = m.lookup p
        ∧ (¬fits → (store m p text typeIfNew).status ≠ 0))
      ↔ (m.lookup p = some .dir ∨ m.lookup p = some (.file text)) ∧ fits ∨ p ∉ m ∧ m.Full := by
  unfold store FsMap.overwrite
  by_cases hfull : p ∉ m ∧ m.Full
  . rw [if_pos hfull]
    simp [hfull]
  . rw [if_neg hfull]
    by_cases hdir : m.lookup p = some .dir
    . simp [hfull, hdir]
    . simp only [hdir, if_false, Finmap.lookup_insert, hfull, false_or, or_false, ne_eq,
        not_true_eq_false, imp_false, not_not, eq_comm (a := some (FsNode.file text))]

theorem idle_iff (fits : Prop)
    : ((op.spec m p).map.lookup p = m.lookup p ∧ (¬fits → (op.spec m p).status ≠ 0))
        ↔ op.Idle m p fits := by
  have hnew : ∀ nd : FsNode, p ∉ m → some nd ≠ m.lookup p := by
    intro nd hp
    rw [Finmap.lookup_eq_none.mpr hp]
    simp
  unfold spec Idle
  cases op with
  | touch =>
    dsimp only
    by_cases hp : p ∈ m
    . simp [hp]
    . by_cases hfull : m.Full
      . simp [hp, hfull]
      . simp [hp, hfull, hnew _ hp]
  | makedir =>
    dsimp only
    split
    . next hfail =>
      simp only [true_and, hfail, iff_true]
      intro _
      decide
    . next hok =>
      rw [not_or] at hok
      simp [hok, hnew _ hok.1]
  | rm =>
    dsimp only
    split
    . next hp =>
      obtain ⟨nd, hnd⟩ := Finmap.mem_iff.mp hp
      simp [hp, hnd]
    . next hp => simp [hp]
  | echo text => exact store_idle_iff _ _ _
  | save text => exact store_idle_iff _ _ _

end FileOp

section Exact

variable {others : Shell → Argv → Int × List UInt8} {s : Shell} {m : FsMap} {op : FileOp}
  {line path : List UInt8}

theorem performed_exact_iff (h : s.fs.table.Represents m) {kept : List UInt8} (hkept : NulFree kept)
    {target : List UInt8} {fits : Prop} (hfits : kept = target → fits) {status : Int} {s' : Shell}
    (hperf : op.Performed s m kept ⟨status, s'⟩)
    : ((∀ p, NulFree p → p ≠ target → s'.fs.table.lookup p = s.fs.table.lookup p)
        ∧ (¬fits → status ≠ 0 ∧ s'.fs.table = s.fs.table))
      ↔ kept = target ∨ op.Idle m kept fits := by
  have hrep := hperf.simulated.represents
  have hstatus : status = (op.spec m kept).status := hperf.status
  have hlookup : ∀ p, NulFree p → p ≠ kept → s'.fs.table.lookup p = s.fs.table.lookup p := by
    intro p hp hne
    rw [hrep.lookup_eq hp, h.lookup_eq hp]
    exact FileOp.spec_lookup_ne hne
  rw [← FileOp.idle_iff, hstatus]
  constructor
  . rintro ⟨honly, hrefused⟩
    by_cases heq : kept = target
    . exact .inl heq
    . right
      refine ⟨?_, fun hfits => (hrefused hfits).1⟩
      have hsame := honly kept hkept heq
      rw [hrep.lookup_eq hkept, h.lookup_eq hkept] at hsame
      exact hsame
  . intro hor
    cases hor with
    | inl heq =>
      refine ⟨?_, fun hno => absurd (hfits heq) hno⟩
      rw [← heq]
      exact hlookup
    | inr hidle =>
      constructor
      . intro p hp _
        by_cases heq : p = kept
        . rw [heq, hrep.lookup_eq hkept, h.lookup_eq hkept]
          exact hidle.1
        . exact hlookup p hp heq
      . intro hno
        exact ⟨hidle.2 hno, hperf.simulated.table_of_failed (hidle.2 hno)⟩

variable (others) in
theorem handleSingleCommand_exact (h : s.fs.table.Represents m) (hcwd : WorkingDir s.cwd)
    (hline : NulFree line) (hlen : line.length < CMD_MAX_LEN)
    (hop : lineOp line = some ⟨op, path⟩)
    : ∃ status s', handleSingleCommand others s line = .exit status s'
        ∧ (((∀ p, NulFree p → p ≠ resolvePath s.cwd path
              → s'.fs.table.lookup p = s.fs.table.lookup p)
            ∧ (¬PathFits s.cwd path → status ≠ 0 ∧ s'.fs.table = s.fs.table))
          ↔ keptPath s.cwd path = resolvePath s.cwd path
            ∨ op.Idle m (keptPath s.cwd path) (PathFits s.cwd path)) := by
  obtain ⟨hpath, status, s', hexit, hperf⟩ := handleSingleCommand_op others h hcwd hline hlen hop
  have hresolved := hcwd.resolve hpath
  have hkept : s.resolve path = keptPath s.cwd path :=
    fsResolvePath_eq hcwd.nulFree hcwd.length_lt hpath.1 hpath.2
  rw [hkept] at hperf hresolved
  refine ⟨status, s', hexit, ?_⟩
  exact performed_exact_iff h hresolved.nulFree
    (Path.fits_of_resolveWithin_eq (chr '/') DOT DOTDOT resolveLimits (by decide)) hperf

theorem actsExactly_iff_kept (others : Shell → Argv → Int × List UInt8)
    (h : s.fs.table.Represents m) (hcwd : WorkingDir s.cwd) (hline : NulFree line)
    (hlen : line.length < CMD_MAX_LEN) (hop : lineOp line = some ⟨op, path⟩)
    : ActsExactly others s line path
        ↔ keptPath s.cwd path = resolvePath s.cwd path
          ∨ op.Idle m (keptPath s.cwd path) (PathFits s.cwd path) := by
  obtain ⟨status, s', hexit, hiff⟩ := handleSingleCommand_exact others h hcwd hline hlen hop
  rw [← hiff]
  unfold ActsExactly
  rw [hexit]
  constructor
  . rintro ⟨status', s'', heq, hexact⟩
    cases heq
    exact hexact
  . intro hexact
    exact ⟨status, s', rfl, hexact⟩

-- The other direction needs a text that is not cut: what is lost at its end can make up for a component that
-- was dropped before.
theorem actsExactly_within_limits (others : Shell → Argv → Int × List UInt8)
    (h : s.fs.table.Represents m) (hcwd : WorkingDir s.cwd) (hline : NulFree line)
    (hlen : line.length < CMD_MAX_LEN) (hop : lineOp line = some ⟨op, path⟩)
    : (PathSpared s.cwd path ∨ op.Idle m (keptPath s.cwd path) (PathFits s.cwd path)
        → ActsExactly others s line path)
      ∧ ((Path.join (chr '/') s.cwd path).length ≤ RESOLVE_MAX_TEXT - 1
        → ActsExactly others s line path
        → PathSpared s.cwd path ∨ op.Idle m (keptPath s.cwd path) (PathFits s.cwd path)) := by
  rw [actsExactly_iff_kept others h hcwd hline hlen hop]
  constructor
  . exact Or.imp_left (Path.Spared.resolveWithin_eq _)
  . intro htext
    exact Or.imp_left (Path.resolveWithin_eq_iff _ htext (by decide)).mp

def bootShell : Shell := Machine.boot.shell

theorem actsExactly_rm_hostname
    : ActsExactly noOthers bootShell (str "rm /etc/hostname") (str "/etc/hostname") := by
  have hlimits : InLimits bootShell.cwd (str "/etc/hostname") := ⟨by decide, by decide, by decide⟩
  have hop : lineOp (str "rm /etc/hostname") = some ⟨.rm, str "/etc/hostname"⟩ := rfl
  have h := actsExactly_within_limits noOthers (s := bootShell) fsInit_represents ⟨by decide, by decide⟩
    (by decide) (by decide) hop
  exact h.1 (.inl hlimits.spared)

-- A name of 63 characters does not fit behind `/etc`, `rm` deletes `/etc` instead.
def longName : List UInt8 := str "/etc/" ++ List.replicate 63 (chr 'a')

theorem rm_longName_not_exact : ¬ActsExactly noOthers bootShell (str "rm " ++ longName) longName := by
  have hetc : str "/etc" ∈ initDirs := by decide +kernel
  have hkept : keptPath bootShell.cwd longName = str "/etc" := by decide +kernel
  have hne : keptPath bootShell.cwd longName ≠ resolvePath bootShell.cwd longName := by
    decide +kernel
  obtain ⟨status, s', hexit, hiff⟩ := handleSingleCommand_exact noOthers (s := bootShell)
    fsInit_represents ⟨by decide, by decide⟩ (by decide) (by decide)
    (show lineOp (str "rm " ++ longName) = some ⟨.rm, longName⟩ from rfl)
  rintro ⟨status', s'', heq, hexact⟩
  rw [hexit] at heq
  cases heq
  rw [hiff, hkept] at hexact
  cases hexact with
  | inl hsame => exact hne (hkept.trans hsame)
  | inr hidle =>
    apply hidle
    exact Finmap.mem_of_lookup_eq_some (lookup_initMap_dir hetc)

end Exact

end DismasmOS
