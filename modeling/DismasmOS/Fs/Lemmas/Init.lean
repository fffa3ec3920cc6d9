import DismasmOS.Fs.Init
import DismasmOS.Fs.Lemmas.Op

/-!
This module contains the finite map behind the file table at boot.
-/

namespace DismasmOS

def FsMap.insertAll (m : FsMap) (entries : List (List UInt8 × FsNode)) : FsMap :=
  entries.foldl (fun m entry => m.insert entry.1 entry.2) m

def dirEntries (paths : List (List UInt8)) : List (List UInt8 × FsNode) :=
  paths.map fun path => ⟨path, .dir⟩

def fileEntries (files : List (List UInt8 × List UInt8)) : List (List UInt8 × FsNode) :=
  files.map fun file => ⟨file.1, .file file.2⟩

theorem map_fst_dirEntries (paths : List (List UInt8)) : (dirEntries paths).map (·.1) = paths := by
  unfold dirEntries
  rw [List.map_map]
  exact List.map_id _

theorem map_fst_fileEntries (files : List (List UInt8 × List UInt8))
    : (fileEntries files).map (·.1) = files.map (·.1) := by
  unfold fileEntries
  rw [List.map_map]
  rfl

def initMap : FsMap := FsMap.insertAll (FsMap.insertAll ∅ (dirEntries initDirs)) (fileEntries initFiles)

theorem canonical_of_components {p : List UInt8}
    (hplain : ∀ c ∈ Path.components (chr '/') p, Path.Plain (chr '/') DOT DOTDOT c)
    (hrender : p = Path.render (chr '/') (Path.components (chr '/') p))
    : Canonical p :=
  ⟨_, hplain, hrender⟩

theorem initDirs_resolved : ∀ p ∈ initDirs, Resolved p ∧ p ≠ str "/" := by
  have hshape : ∀ p ∈ initDirs, (NulFree p ∧ p.length < FS_MAX_PATH ∧ p ≠ str "/")
      ∧ (∀ c ∈ Path.components (chr '/') p, Path.Plain (chr '/') DOT DOTDOT c)
      ∧ p = Path.render (chr '/') (Path.components (chr '/') p) := by
    decide +kernel
  intro p hp
  obtain ⟨⟨hnul, hlen, hroot⟩, hplain, hrender⟩ := hshape p hp
  exact ⟨⟨hnul, hlen, .inr (canonical_of_components hplain hrender)⟩, hroot⟩

theorem initFiles_resolved
    : ∀ file ∈ initFiles, Resolved file.1 ∧ NulFree file.2 ∧ file.2.length < FS_MAX_FILESIZE := by
  have hshape : ∀ file ∈ initFiles, (NulFree file.1 ∧ file.1.length < FS_MAX_PATH)
      ∧ ((∀ c ∈ Path.components (chr '/') file.1, Path.Plain (chr '/') DOT DOTDOT c)
        ∧ file.1 = Path.render (chr '/') (Path.components (chr '/') file.1))
      ∧ NulFree file.2 ∧ file.2.length < FS_MAX_FILESIZE := by
    -- To decode the literals takes the kernel longer than everything else.
    simp only [
      initFiles, str, List.map_cons, List.map_nil, String.toList_append, -String.reduceToList
    ]
    repeat rw [String.toList_ofList]
    decide +kernel
  intro file hfile
  obtain ⟨⟨hnul, hlen⟩, ⟨hplain, hrender⟩, hcontent⟩ := hshape file hfile
  exact ⟨⟨hnul, hlen, .inr (canonical_of_components hplain hrender)⟩, hcontent⟩

namespace FsMap

variable {m : FsMap} {p : List UInt8} {entries : List (List UInt8 × FsNode)}

theorem mem_insertAll : p ∈ m.insertAll entries ↔ p ∈ entries.map (·.1) ∨ p ∈ m := by
  induction entries generalizing m with
  | nil => simp [insertAll]
  | cons entry entries ih =>
    have hstep : p ∈ m.insertAll (entry :: entries)
        ↔ p ∈ entries.map (·.1) ∨ p ∈ m.insert entry.1 entry.2 := ih
    rw [hstep, Finmap.mem_insert, List.map_cons, List.mem_cons, or_left_comm, or_assoc]

theorem card_insertAll_le (m : FsMap) (entries : List (List UInt8 × FsNode))
    : (m.insertAll entries).keys.card ≤ m.keys.card + entries.length := by
  induction entries generalizing m with
  | nil => exact Nat.le_refl _
  | cons entry entries ih =>
    have hstep : (m.insertAll (entry :: entries)).keys.card
        ≤ (m.insert entry.1 entry.2).keys.card + entries.length := ih _
    have hinsert := Finset.card_insert_le entry.1 m.keys
    rw [← SlotTable.keys_insert m entry.1 entry.2] at hinsert
    rw [List.length_cons]
    omega

theorem lookup_insertAll_of_notMem (h : p ∉ entries.map (·.1))
    : (m.insertAll entries).lookup p = m.lookup p := by
  induction entries generalizing m with
  | nil => rfl
  | cons entry entries ih =>
    rw [List.map_cons, List.mem_cons, not_or] at h
    have hstep : (m.insertAll (entry :: entries)).lookup p
        = (m.insert entry.1 entry.2).lookup p := ih h.2
    rw [hstep, Finmap.lookup_insert_of_ne _ h.1]

theorem lookup_insertAll {nd : FsNode} (hnodup : (entries.map (·.1)).Nodup)
    (h : (p, nd) ∈ entries)
    : (m.insertAll entries).lookup p = some nd := by
  induction entries generalizing m with
  | nil => simp at h
  | cons entry entries ih =>
    rw [List.map_cons, List.nodup_cons] at hnodup
    cases h with
    | head =>
      have hstep : (m.insertAll ((p, nd) :: entries)).lookup p = (m.insert p nd).lookup p :=
        lookup_insertAll_of_notMem hnodup.1
      rw [hstep, Finmap.lookup_insert]
    | tail _ h => exact ih hnodup.2 h

theorem not_full {n : Nat} (h : m.keys.card + (n + 1) ≤ FS_MAX_FILES) : ¬m.Full := by
  unfold FsMap.Full
  omega

end FsMap

section Represents

variable {t : FileTable} {m : FsMap}

theorem represents_initDirs {ps : List (List UInt8)} (h : t.Represents m)
    (hps : ∀ p ∈ ps, Resolved p ∧ p ≠ str "/") (hnodup : ps.Nodup) (hnew : ∀ p ∈ ps, p ∉ m)
    (hroom : m.keys.card + ps.length ≤ FS_MAX_FILES)
    : (ps.foldl (fun t path => (fsMkdir t path).2) t).Represents (m.insertAll (dirEntries ps)) := by
  induction ps generalizing t m with
  | nil => exact h
  | cons p ps ih =>
    simp only [List.mem_cons, forall_eq_or_imp] at hps hnew
    rw [List.nodup_cons] at hnodup
    have hcard := FsMap.card_insertAll_le m [⟨p, .dir⟩]
    rw [List.foldl_cons]
    cases h.mkdir_cases hps.1.1.nulFree hps.1.1.length_lt with
    | inl hfail =>
      have hfull := FsMap.not_full hroom
      cases hfail.2 with
      | inl hmem => exact absurd hmem hnew.1
      | inr hfail => exact absurd hfail (not_or.mpr ⟨hfull, hps.1.2⟩)
    | inr hok =>
      obtain ⟨t', hmkdir, _, _, _, hrep, _⟩ := hok
      rw [hmkdir]
      apply ih hrep hps.2 hnodup.2
      . intro q hq
        rw [Finmap.mem_insert, not_or]
        refine ⟨?_, hnew.2 q hq⟩
        rintro rfl
        exact hnodup.1 hq
      . rw [List.length_cons] at hroom
        change _ ≤ _ + 1 at hcard
        change (m.insertAll [⟨p, .dir⟩]).keys.card + _ ≤ _
        omega

theorem represents_initFiles {files : List (List UInt8 × List UInt8)} (h : t.Represents m)
    (hfiles : ∀ file ∈ files,
      Resolved file.1 ∧ NulFree file.2 ∧ file.2.length < FS_MAX_FILESIZE)
    (hnodup : (files.map (·.1)).Nodup) (hnew : ∀ file ∈ files, file.1 ∉ m)
    (hroom : m.keys.card + files.length ≤ FS_MAX_FILES)
    : (files.foldl (fun t file => initFile t file.1 file.2) t).Represents
        (m.insertAll (fileEntries files)) := by
  induction files generalizing t m with
  | nil => exact h
  | cons file files ih =>
    simp only [List.mem_cons, forall_eq_or_imp] at hfiles hnew
    rw [List.map_cons, List.nodup_cons, List.mem_map] at hnodup
    rw [List.foldl_cons]
    obtain ⟨hpath, hcontent, hlen⟩ := hfiles.1
    have hcard := FsMap.card_insertAll_le m [⟨file.1, .file file.2⟩]
    have hstep : (initFile t file.1 file.2).Represents (m.insert file.1 (.file file.2)) := by
      have hnone := (h.find_none_iff hpath.nulFree).mpr hnew.1
      unfold initFile
      rw [hcontent.strlen_eq]
      cases h.store hpath (Nat.le_refl file.2.length) hlen rfl with
      | inl hfail => exact absurd hfail.1.2 (FsMap.not_full hroom)
      | inr hok =>
        have hrep := hok.2.2.1
        unfold FsMap.overwrite at hrep
        rw [if_pos hnone, List.take_length, Finmap.lookup_eq_none.mpr hnew.1, if_neg (by simp)] at hrep
        exact hrep
    apply ih hstep hfiles.2 hnodup.2
    . intro other hother
      rw [Finmap.mem_insert, not_or]
      refine ⟨?_, hnew.2 other hother⟩
      intro heq
      exact hnodup.1 ⟨other, hother, heq⟩
    . rw [List.length_cons] at hroom
      change _ ≤ _ + 1 at hcard
      change (m.insertAll [⟨file.1, .file file.2⟩]).keys.card + _ ≤ _
      omega

theorem initPaths_nodup : initDirs.Nodup ∧ (initFiles.map (·.1)).Nodup
    ∧ ∀ p ∈ initDirs, ∀ q ∈ initFiles.map (·.1), p ≠ q := by
  rw [← List.nodup_append]
  decide +kernel

theorem fsInit_represents : fsInit.table.Represents initMap := by
  have hnodup := initPaths_nodup
  have hdirs : initDirs.length = 5 := rfl
  have hfiles : initFiles.length = 10 := rfl
  have hmap : ∀ p, p ∈ FsMap.insertAll ∅ (dirEntries initDirs) ↔ p ∈ initDirs := by
    intro p
    rw [FsMap.mem_insertAll, map_fst_dirEntries, or_iff_left Finmap.notMem_empty]
  have hcard := FsMap.card_insertAll_le ∅ (dirEntries initDirs)
  have hempty : (∅ : FsMap).keys.card = 0 := rfl
  have hmax : FS_MAX_FILES = 64 := rfl
  unfold dirEntries at hcard
  rw [List.length_map] at hcard
  unfold fsInit initMap
  apply represents_initFiles
  . apply represents_initDirs FileTable.represents_zero initDirs_resolved hnodup.1
    . intro p _
      exact Finmap.notMem_empty
    . omega
  . exact initFiles_resolved
  . exact hnodup.2.1
  . intro file hfile
    rw [hmap]
    intro hmem
    exact hnodup.2.2 _ hmem _ (List.mem_map_of_mem hfile) rfl
  . unfold dirEntries
    omega

theorem mem_initMap {p : List UInt8} : p ∈ initMap ↔ p ∈ initFiles.map (·.1) ∨ p ∈ initDirs := by
  unfold initMap
  rw [FsMap.mem_insertAll, FsMap.mem_insertAll, map_fst_dirEntries, map_fst_fileEntries]
  rw [or_iff_left Finmap.notMem_empty]

theorem initMap_not_full : ¬initMap.Full := by
  have hdirs := FsMap.card_insertAll_le ∅ (dirEntries initDirs)
  have hfiles := FsMap.card_insertAll_le (FsMap.insertAll ∅ (dirEntries initDirs))
    (fileEntries initFiles)
  have hempty : (∅ : FsMap).keys.card = 0 := rfl
  have hdirsLen : (dirEntries initDirs).length = 5 := rfl
  have hfilesLen : (fileEntries initFiles).length = 10 := rfl
  have hmax : FS_MAX_FILES = 64 := rfl
  apply FsMap.not_full (n := 0)
  unfold initMap
  omega

theorem lookup_initMap_dir {p : List UInt8} (hp : p ∈ initDirs) : initMap.lookup p = some .dir := by
  have hnodup := initPaths_nodup
  unfold initMap
  rw [FsMap.lookup_insertAll_of_notMem]
  . apply FsMap.lookup_insertAll
    . rw [map_fst_dirEntries]
      exact hnodup.1
    . exact List.mem_map_of_mem hp
  . rw [map_fst_fileEntries]
    intro hmem
    exact hnodup.2.2 p hp p hmem rfl

theorem initMap_resolved : ∀ p ∈ initMap, Resolved p := by
  intro p hp
  rw [mem_initMap] at hp
  cases hp with
  | inl hfile =>
    obtain ⟨file, hmem, rfl⟩ := List.mem_map.mp hfile
    exact (initFiles_resolved file hmem).1
  | inr hdir => exact (initDirs_resolved p hdir).1

end Represents

end DismasmOS
