import DismasmOS.Fs.Lemmas.Op
import DismasmOS.Shell.Impl

/-!
This module contains the refinement of the operations on the finite map by the commands of the
shell, `touch`, `makedir`, `rm` and `echo` with a redirection.
-/

namespace DismasmOS

section Commands

variable {m : FsMap} {p : List UInt8} {s : Shell} {argv : Argv}

-- A command does what the operation says and leaves the working directory alone.
structure FileOp.Performed (op : FileOp) (s : Shell) (m : FsMap) (p : List UInt8)
    (result : Int × Shell) : Prop where
  status : result.1 = (op.spec m p).status
  simulated : op.Simulated s.fs m p result.2.fs
  cwd : result.2.cwd = s.cwd

theorem FileOp.Performed.of_eq {op : FileOp} {status : Int} {map : FsMap} {events : List FsEvent}
    (hspec : op.spec m p = ⟨status, map, events⟩) {t' : FileTable} (hrep : t'.Represents map)
    (hfail : status ≠ 0 → t' = s.fs.table) {result : Int × Shell} (hstatus : result.1 = status)
    (hfs : result.2.fs = events.foldl Fs.logEvent { s.fs with table := t' })
    (hcwd : result.2.cwd = s.cwd)
    : op.Performed s m p result := by
  constructor
  . rw [hspec]
    exact hstatus
  . exact .of_eq hspec hrep hfail hfs
  . exact hcwd

theorem cmdTouch_performed (h : s.fs.table.Represents m) (hargv : 2 ≤ argv.length)
    (hp : Resolved (s.resolve (argv.arg 1)))
    : FileOp.touch.Performed s m (s.resolve (argv.arg 1)) (cmdTouch s argv) := by
  generalize hpath : s.resolve (argv.arg 1) = p at hp
  have hfind := h.find_none_iff hp.nulFree
  have hspec : FileOp.touch.spec m p = if p ∈ m then ⟨0, m, []⟩ else if m.Full then ⟨1, m, []⟩
    else ⟨0, m.insert p (.file []), [rootEvent CREATED p]⟩ := rfl
  unfold cmdTouch
  dsimp only
  rw [if_neg (by omega), hpath]
  split
  . next hnone =>
    rw [hfind] at hnone
    rw [if_neg hnone] at hspec
    cases h.create_cases hp.nulFree hp.length_lt with
    | inl hfail =>
      have hfull := hfail.2.resolve_left hnone
      rw [if_pos hfull] at hspec
      rw [hfail.1]
      exact .of_eq hspec h (fun _ => rfl) rfl rfl rfl
    | inr hok =>
      obtain ⟨t', hcreate, _, hfull, hrep, _⟩ := hok
      rw [if_neg hfull] at hspec
      rw [hcreate]
      exact .of_eq hspec hrep (by simp) rfl rfl rfl
  . next hsome =>
    rw [hfind, not_not] at hsome
    rw [if_pos hsome] at hspec
    exact .of_eq hspec h (by simp) rfl rfl rfl

theorem cmdMakedir_performed (h : s.fs.table.Represents m) (hargv : 2 ≤ argv.length)
    (hp : Resolved (s.resolve (argv.arg 1)))
    : FileOp.makedir.Performed s m (s.resolve (argv.arg 1)) (cmdMakedir s argv) := by
  generalize hpath : s.resolve (argv.arg 1) = p at hp
  have hfind := h.find_none_iff hp.nulFree
  have hroot := hp.nulFree.strcmp_eq_zero_iff (show NulFree (str "/") by decide)
  have hspec : FileOp.makedir.spec m p = if p ∈ m ∨ p = str "/" ∨ m.Full then ⟨1, m, []⟩
    else ⟨0, m.insert p .dir, [rootEvent CREATED p]⟩ := rfl
  unfold cmdMakedir
  dsimp only
  rw [if_neg (by omega), hpath]
  split
  . next hexists =>
    rw [ne_eq, hfind, not_not, hroot] at hexists
    rw [if_pos (hexists.imp_right .inl)] at hspec
    exact .of_eq hspec h (fun _ => rfl) rfl rfl rfl
  . next hexists =>
    rw [ne_eq, hfind, not_not, hroot, not_or] at hexists
    cases h.mkdir_cases hp.nulFree hp.length_lt with
    | inl hfail =>
      have hfull : m.Full := (hfail.2.resolve_left hexists.1).resolve_right hexists.2
      rw [if_pos (.inr (.inr hfull))] at hspec
      rw [hfail.1]
      exact .of_eq hspec h (fun _ => rfl) rfl rfl rfl
    | inr hok =>
      obtain ⟨t', hmkdir, _, hfull, _, hrep, _⟩ := hok
      have hnew : ¬(p ∈ m ∨ p = str "/" ∨ m.Full) := by
        rw [not_or, not_or]
        exact ⟨hexists.1, hexists.2, hfull⟩
      rw [if_neg hnew] at hspec
      rw [hmkdir]
      exact .of_eq hspec hrep (by simp) rfl rfl rfl

theorem cmdRm_performed (h : s.fs.table.Represents m) (hargv : 2 ≤ argv.length)
    (hp : Resolved (s.resolve (argv.arg 1)))
    : FileOp.rm.Performed s m (s.resolve (argv.arg 1)) (cmdRm s argv) := by
  generalize hpath : s.resolve (argv.arg 1) = p at hp
  have hspec : FileOp.rm.spec m p = if p ∈ m then ⟨0, m.erase p, [rootEvent DELETED p]⟩
    else ⟨1, m, []⟩ := rfl
  unfold cmdRm
  dsimp only
  rw [if_neg (by omega), hpath]
  cases h.delete_cases hp.nulFree with
  | inl hfail =>
    rw [if_neg hfail.2] at hspec
    rw [hfail.1]
    exact .of_eq hspec h (fun _ => rfl) rfl rfl rfl
  | inr hok =>
    obtain ⟨t', hdelete, hmem, hrep, _⟩ := hok
    rw [if_pos hmem] at hspec
    rw [hdelete]
    exact .of_eq hspec hrep (by simp) rfl rfl rfl

theorem echoTo_performed (h : s.fs.table.Represents m) {text target : List UInt8}
    (htext : NulFree text) (hlen : text.length < FS_MAX_FILESIZE) (hp : Resolved (s.resolve target))
    : (FileOp.echo text).Performed s m (s.resolve target) (echoTo s text target) := by
  generalize hpath : s.resolve target = p at hp
  have hfind := h.find_none_iff hp.nulFree
  have hspec : (FileOp.echo text).spec m p = FileOp.store m p text CREATED := rfl
  unfold FileOp.store at hspec
  unfold echoTo
  dsimp only
  rw [hpath, htext.strlen_eq]
  have hcreated : (if (fsFind s.fs.table p).isSome then (⟨0, s.fs.table⟩ : Int × FileTable)
      else fsCreate s.fs.table p)
        = if fsFind s.fs.table p = none then fsCreate s.fs.table p else ⟨0, s.fs.table⟩ := by
    cases fsFind s.fs.table p <;> rfl
  have hstore := h.store hp (Nat.le_refl text.length) hlen hcreated
  rw [List.take_length] at hstore
  cases hstore with
  | inl hfail =>
    rw [if_pos hfail.1] at hspec
    rw [hfail.2]
    exact .of_eq hspec h (fun _ => rfl) rfl rfl rfl
  | inr hok =>
    obtain ⟨hroom, hzero, hrep, _⟩ := hok
    rw [if_neg hroom] at hspec
    generalize (if (fsFind s.fs.table p).isSome then (⟨0, s.fs.table⟩ : Int × FileTable)
      else fsCreate s.fs.table p) = created at *
    rw [if_neg (by simp [hzero])]
    cases hsome : fsFind s.fs.table p with
    | none =>
      rw [if_neg (hfind.mp hsome)] at hspec
      exact .of_eq hspec hrep (by simp) rfl rfl rfl
    | some i =>
      have hmem : p ∈ m := by
        rw [← not_not (a := p ∈ m), ← hfind, hsome]
        simp
      rw [if_pos hmem] at hspec
      exact .of_eq hspec hrep (by simp) rfl rfl rfl

end Commands

end DismasmOS
