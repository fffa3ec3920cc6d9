import DismasmOS.Shell.Lemmas.Machine

/-!
This module contains what the paths of the file table look like in all runs, and in which runs every
entry has a directory above it. The table is flat, no command looks at the parent of a path.
-/

namespace DismasmOS

def parentPath (p : List UInt8) : List UInt8 := Path.parent (chr '/') p

namespace FileTable

def HasParent (t : FileTable) (p : List UInt8) : Prop :=
  parentPath p = str "/" ∨ t.lookup (parentPath p) = some .dir

-- Entries are made below directories, directories are removed when nothing is below them.
structure Orderly (t t' : FileTable) : Prop where
  created : ∀ p, NulFree p → t.lookup p = none → t'.lookup p ≠ none → t.HasParent p
  deleted : ∀ p, NulFree p → p ≠ str "/" → t.lookup p = some .dir → t'.lookup p = none
    → ∀ q, NulFree q → t.lookup q ≠ none → parentPath q ≠ p

variable {t t' : FileTable} {m m' : FsMap}

theorem Represents.mem_of_used (h : t.Represents m) {i : Nat} (hi : i < FS_MAX_FILES)
    (hused : (t.get i).used = true)
    : (t.get i).path.str ∈ m :=
  h.path_mem (get_mem hi) hused

theorem Represents.exists_used (h : t.Represents m) {p : List UInt8} (hp : p ∈ m)
    : ∃ i, i < FS_MAX_FILES ∧ (t.get i).used = true ∧ (t.get i).path.str = p := by
  rw [h.slots.mem_iff] at hp
  obtain ⟨i, nd, hslot⟩ := hp
  have hi := lt_of_slots_getElem hslot
  rw [slots_getElem hi, Option.some.injEq] at hslot
  obtain ⟨hused, hpath, _⟩ := FsFile.used_of_entry hslot
  exact ⟨i, hi, hused, hpath⟩

theorem Represents.lookup_ne_none_iff (h : t.Represents m) {p : List UInt8} (hp : NulFree p)
    : t.lookup p ≠ none ↔ p ∈ m := by
  rw [h.lookup_eq hp, ne_eq, Finmap.lookup_eq_none, not_not]

end FileTable

theorem nulFree_parentPath {p : List UInt8} (h : NulFree p) : NulFree (parentPath p) := by
  intro hmem
  cases Path.mem_render _ hmem with
  | inl hslash => exact absurd hslash (by decide)
  | inr hmem =>
    obtain ⟨c, hc, hmem⟩ := hmem
    have hcomp := Path.of_mem_components _ ((List.dropLast_sublist _).subset hc)
    exact h (hcomp.2.2.subset hmem)

namespace Machine

variable {others : Shell → Argv → Int × List UInt8} {m m' : Machine} {map : FsMap} {input : Input}

def table (m : Machine) : FileTable := m.shell.fs.table

def OrderlyStep (others : Shell → Argv → Int × List UInt8) (m : Machine) (input : Input)
    (m' : Machine) : Prop :=
  MachineStep others m input m' ∧ m.table.Orderly m'.table

theorem nextMap_dir (m : Machine) {p : List UInt8} (hdir : map.lookup p = some .dir)
    (hmem : p ∈ m.nextMap map input)
    : (m.nextMap map input).lookup p = some .dir := by
  unfold nextMap at *
  cases hop : m.op input with
  | none => exact hdir
  | some operation =>
    obtain ⟨op, q⟩ := operation
    rw [hop] at hmem
    dsimp only at hmem ⊢
    by_cases hq : p = q
    . rw [← hq] at hmem ⊢
      exact FileOp.spec_dir hdir hmem
    . rw [FileOp.spec_lookup_ne hq]
      exact hdir

theorem nextMap_changes_one (m : Machine) (map : FsMap) (input : Input)
    : ∃ k, ∀ p, p ≠ k → (m.nextMap map input).lookup p = map.lookup p := by
  unfold nextMap
  cases m.op input with
  | none => exact ⟨[], fun _ _ => rfl⟩
  | some operation => exact ⟨operation.2, fun _ hp => FileOp.spec_lookup_ne hp⟩

structure HierarchyInv (m : Machine) (map : FsMap) : Prop where
  inv : m.Inv map
  parents : ∀ p ∈ map, parentPath p = str "/" ∨ map.lookup (parentPath p) = some .dir

theorem HierarchyInv.step (h : m.HierarchyInv map) (hstep : OrderlyStep others m input m')
    : m'.HierarchyInv (m.nextMap map input) := by
  have hinv := (h.inv.step hstep.1).1
  have hrep := h.inv.represents
  have hrep' := hinv.represents
  refine ⟨hinv, ?_⟩
  intro p hp
  have hnul := (hinv.resolved p hp).nulFree
  have hparent := nulFree_parentPath hnul
  -- The parent is there before the step, for an old entry as for a new one.
  have hbefore : parentPath p = str "/" ∨ map.lookup (parentPath p) = some .dir := by
    by_cases hold : p ∈ map
    . exact h.parents p hold
    . have hcreated := hstep.2.created p hnul
      unfold table at hcreated
      rw [hrep.lookup_eq hnul, Finmap.lookup_eq_none, hrep'.lookup_ne_none_iff hnul] at hcreated
      have := hcreated hold hp
      unfold FileTable.HasParent at this
      rw [hrep.lookup_eq hparent] at this
      exact this
  by_cases hroot : parentPath p = str "/"
  . exact .inl hroot
  . right
    have hdir := hbefore.resolve_left hroot
    apply nextMap_dir m hdir
    by_contra hgone
    have hgone := Finmap.lookup_eq_none.mpr hgone
    by_cases hold : p ∈ map
    . apply hstep.2.deleted (parentPath p) hparent hroot _ _ p hnul _ rfl
      . unfold table
        rw [hrep.lookup_eq hparent]
        exact hdir
      . unfold table
        rw [hrep'.lookup_eq hparent]
        exact hgone
      . unfold table
        rw [hrep.lookup_ne_none_iff hnul]
        exact hold
    . -- One step cannot both make the entry and remove its parent.
      obtain ⟨k, hk⟩ := nextMap_changes_one m map input
      have hpk : p = k := by
        by_contra hne
        rw [← Finmap.lookup_eq_none, ← hk p hne, Finmap.lookup_eq_none] at hold
        exact hold hp
      have hparentk : parentPath p = k := by
        by_contra hne
        rw [hk _ hne, hdir] at hgone
        cases hgone
      rw [hparentk, ← hpk, Finmap.lookup_eq_none] at hgone
      exact hgone hp

-- What the step invariant asks of the table is also what a table with all parents tells.
theorem HierarchyInv.orderly (h : m.HierarchyInv map)
    (h' : m'.HierarchyInv (m.nextMap map input))
    : m.table.Orderly m'.table := by
  have hrep := h.inv.represents
  have hrep' := h'.inv.represents
  obtain ⟨k, hk⟩ := nextMap_changes_one m map input
  constructor
  . intro p hp hnone hsome
    have hparent := nulFree_parentPath hp
    unfold FileTable.HasParent
    unfold table at hnone hsome ⊢
    rw [hrep.lookup_eq hp] at hnone
    rw [hrep'.lookup_ne_none_iff hp] at hsome
    rw [hrep.lookup_eq hparent]
    have hpk : p = k := by
      by_contra hne
      rw [← hk p hne, Finmap.lookup_eq_none] at hnone
      exact hnone hsome
    cases h'.parents p hsome with
    | inl hroot => exact .inl hroot
    | inr hdir =>
      by_cases hself : parentPath p = p
      . exact .inl (Path.parent_of_fixed _ hself)
      . rw [hk _ (by rw [← hpk]; exact hself)] at hdir
        exact .inr hdir
  . intro p hp hroot hdir hnone q hq hsome hparent
    unfold table at hdir hnone hsome
    rw [hrep.lookup_eq hp] at hdir
    rw [hrep'.lookup_eq hp] at hnone
    rw [hrep.lookup_eq hq] at hsome
    have hpk : p = k := by
      by_contra hne
      rw [hk p hne, hdir] at hnone
      cases hnone
    have hqk : q ≠ k := by
      rintro rfl
      rw [hpk] at hparent
      exact hroot (hpk.trans (hparent.symm.trans (Path.parent_of_fixed _ hparent)))
    rw [← hk q hqk, ne_eq, Finmap.lookup_eq_none, not_not] at hsome
    cases h'.parents q hsome with
    | inl hqroot => exact hroot (hparent.symm.trans hqroot)
    | inr hqdir =>
      rw [hparent, hnone] at hqdir
      cases hqdir

theorem initMap_parents
    : ∀ p ∈ initMap, parentPath p = str "/" ∨ initMap.lookup (parentPath p) = some .dir := by
  have hdirs : ∀ p ∈ initDirs, parentPath p = str "/" := by decide +kernel
  have hfiles : ∀ file ∈ initFiles, parentPath file.1 ∈ initDirs := by decide +kernel
  intro p hp
  rw [mem_initMap] at hp
  cases hp with
  | inl hfile =>
    obtain ⟨file, hmem, rfl⟩ := List.mem_map.mp hfile
    exact .inr (lookup_initMap_dir (hfiles file hmem))
  | inr hdir => exact .inl (hdirs p hdir)

theorem HierarchyInv.run {inputs : List Input} (hrun : Run (OrderlyStep others) boot inputs m)
    : ∃ map, m.HierarchyInv map := by
  apply hrun.invariant (fun m => ∃ map, HierarchyInv m map)
  . intro m input m' _ h hstep
    obtain ⟨map, h⟩ := h
    exact ⟨_, h.step hstep⟩
  . exact ⟨_, boot_inv, initMap_parents⟩

-- In an orderly run a step that leaves every entry its parent is orderly, no weaker condition does.
theorem orderly_of_parents {inputs : List Input} (hrun : Run (OrderlyStep others) boot inputs m)
    (hstep : MachineStep others m input m')
    (hparents : ∀ i < FS_MAX_FILES, (m'.table.get i).used = true →
      m'.table.HasParent (m'.table.get i).path.str)
    : OrderlyStep others m input m' := by
  obtain ⟨map, h⟩ := HierarchyInv.run hrun
  have hinv := (h.inv.step hstep).1
  refine ⟨hstep, h.orderly ⟨hinv, ?_⟩⟩
  intro p hp
  obtain ⟨i, hi, hused, hname⟩ := hinv.represents.exists_used hp
  have hparent := hparents i hi hused
  unfold FileTable.HasParent table at hparent
  rw [hname, hinv.represents.lookup_eq (nulFree_parentPath (hinv.resolved p hp).nulFree)] at hparent
  exact hparent

theorem hierarchy {inputs : List Input} (hrun : Run (MachineStep others) boot inputs m)
    : (∀ i < FS_MAX_FILES, (m.table.get i).used = true →
        let p := (m.table.get i).path.str
        p = [] ∨ Canonical p)
      ∧ (Run (OrderlyStep others) boot inputs m → ∀ i < FS_MAX_FILES, (m.table.get i).used = true →
        m.table.HasParent (m.table.get i).path.str) := by
  constructor
  . intro i hi hused
    obtain ⟨map, h⟩ := Inv.run hrun
    exact (h.resolved _ (h.represents.mem_of_used hi hused)).shape
  . intro horderly i hi hused
    obtain ⟨map, h⟩ := HierarchyInv.run horderly
    have hmem := h.inv.represents.mem_of_used hi hused
    have hnul := (h.inv.resolved _ hmem).nulFree
    unfold FileTable.HasParent table
    rw [h.inv.represents.lookup_eq (nulFree_parentPath hnul)]
    exact h.parents _ hmem

theorem boot_op {line path p : List UInt8} {op : FileOp} (hline : lineOp line = some ⟨op, path⟩)
    (hp : boot.shell.resolve path = p)
    : boot.nextMap initMap (.command line) = (op.spec initMap p).map := by
  unfold nextMap
  rw [boot_op_eq hline hp]

theorem hierarchy_touch
    : let m := boot.command noOthers (str "touch notes")
      (∀ i < FS_MAX_FILES, (m.table.get i).used = true →
          let p := (m.table.get i).path.str
          p = [] ∨ Canonical p)
        ∧ ∀ i < FS_MAX_FILES, (m.table.get i).used = true →
          m.table.HasParent (m.table.get i).path.str := by
  have hhome : str "/home" ∈ initDirs := by decide +kernel
  have hpath : boot.shell.resolve (str "notes") = str "/home/notes" := by decide +kernel
  have hstep : MachineStep noOthers boot (.command (str "touch notes"))
      (boot.command noOthers (str "touch notes")) := ⟨⟨by decide, by decide⟩, rfl⟩
  have hrep := boot_inv.represents
  have hrep' := (boot_inv.step hstep).1.represents
  have hnew : str "/home/notes" ∉ initMap := by
    rw [mem_initMap]
    decide +kernel
  have hmap : boot.nextMap initMap (.command (str "touch notes"))
      = initMap.insert (str "/home/notes") (.file []) := by
    rw [boot_op (show lineOp _ = some ⟨.touch, str "notes"⟩ from rfl) hpath]
    unfold FileOp.spec
    dsimp only
    rw [if_neg hnew, if_neg initMap_not_full]
  rw [hmap] at hrep'
  have horderly : boot.table.Orderly (boot.command noOthers (str "touch notes")).table := by
    constructor
    . intro p hp hnone hsome
      unfold table at hnone hsome
      rw [hrep.lookup_eq hp, Finmap.lookup_eq_none] at hnone
      rw [hrep'.lookup_ne_none_iff hp, Finmap.mem_insert] at hsome
      rw [hsome.resolve_right hnone]
      right
      have hparent : parentPath (str "/home/notes") = str "/home" := by decide +kernel
      unfold table
      rw [hparent, hrep.lookup_eq (initDirs_resolved _ hhome).1.nulFree]
      exact lookup_initMap_dir hhome
    . intro p hp _ hdir hnone
      unfold table at hdir hnone
      rw [hrep.lookup_eq hp] at hdir
      rw [hrep'.lookup_eq hp, Finmap.lookup_eq_none, Finmap.mem_insert] at hnone
      exact absurd (.inr (Finmap.mem_of_lookup_eq_some hdir)) hnone
  have hall := hierarchy (Run.cons hstep (Run.nil _))
  exact ⟨hall.1, hall.2 (Run.cons ⟨hstep, horderly⟩ (Run.nil _))⟩

-- `touch` does not look at the parent of a path.
theorem touch_without_parent
    : ∃ m, Run (MachineStep noOthers) boot [.command (str "touch /x/y")] m
      ∧ ∃ i < FS_MAX_FILES, (m.table.get i).used = true ∧ (m.table.get i).path.str = str "/x/y"
        ∧ ¬m.table.HasParent (m.table.get i).path.str := by
  have hpath : boot.shell.resolve (str "/x/y") = str "/x/y" := by decide +kernel
  have hstep : MachineStep noOthers boot (.command (str "touch /x/y"))
      (boot.command noOthers (str "touch /x/y")) := ⟨⟨by decide, by decide⟩, rfl⟩
  have hrep := (boot_inv.step hstep).1.represents
  have hnew : str "/x/y" ∉ initMap ∧ str "/x" ∉ initMap := by
    rw [mem_initMap, mem_initMap]
    decide +kernel
  rw [boot_op (show lineOp _ = some ⟨.touch, str "/x/y"⟩ from rfl) hpath] at hrep
  unfold FileOp.spec at hrep
  dsimp only at hrep
  rw [if_neg hnew.1, if_neg initMap_not_full] at hrep
  obtain ⟨i, hi, hused, hname⟩ := hrep.exists_used (Finmap.mem_insert.mpr (.inl rfl))
  refine ⟨_, Run.cons hstep (Run.nil _), i, hi, hused, hname, ?_⟩
  have hparent : parentPath (str "/x/y") = str "/x" := by decide +kernel
  unfold FileTable.HasParent table
  rw [hname, hparent, hrep.lookup_eq (by decide), not_or]
  refine ⟨by decide, ?_⟩
  rw [Finmap.lookup_insert_of_ne _ (by decide), Finmap.lookup_eq_none.mpr hnew.2]
  simp

end Machine

end DismasmOS
