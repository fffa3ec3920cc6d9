import DismasmOS.Fs.Op
import DismasmOS.Fs.Lemmas.Refine
import DismasmOS.Fs.Lemmas.Resolve

/-!
This module contains what the operations on the finite map need from the file table, above all the
creation of a file followed by a write, which the shell and the editor have in common.
-/

namespace DismasmOS

variable {m : FsMap} {p : List UInt8}

theorem FsMap.overwrite_of_notMem (hp : p ∉ m) (text : List UInt8)
    : FsMap.overwrite (m.insert p (.file [])) p text = m.overwrite p text := by
  unfold FsMap.overwrite
  rw [Finmap.lookup_insert, Finmap.lookup_eq_none.mpr hp, if_neg (by simp), if_neg (by simp),
    Finmap.insert_insert]

namespace FileTable.Represents

variable {t : FileTable}

theorem overwrite (h : t.Represents m) (hp : NulFree p) (hmem : p ∈ m) {data : List UInt8}
    {size : Nat} (hsize : size ≤ data.length) (hcap : size < FS_MAX_FILESIZE)
    : (fsWrite t p data size).2.Represents (m.overwrite p (data.take size))
        ∧ ((fsWrite t p data size).1 = 0 ↔ m.lookup p ≠ some .dir) := by
  unfold FsMap.overwrite
  cases h.write_cases hp hsize with
  | inl hfail =>
    have hdir : m.lookup p = some .dir := by
      cases hlookup : m.lookup p with
      | none => exact absurd hmem (Finmap.lookup_eq_none.mp hlookup)
      | some nd =>
        cases nd with
        | dir => rfl
        | file content => exact absurd hlookup (hfail.2 content)
    rw [if_pos hdir, hfail.1]
    exact ⟨h, by simp [hdir]⟩
  | inr hok =>
    obtain ⟨t', content, hwrite, hlookup, hrep, _⟩ := hok
    rw [Nat.min_eq_left (by omega)] at hrep
    rw [hlookup, if_neg (by simp), hwrite]
    exact ⟨hrep, by simp⟩

theorem store (h : t.Represents m) (hp : Resolved p) {data : List UInt8} {size : Nat}
    (hsize : size ≤ data.length) (hcap : size < FS_MAX_FILESIZE) {created : Int × FileTable}
    (hcreated : created = if fsFind t p = none then fsCreate t p else ⟨0, t⟩)
    : ((p ∉ m ∧ m.Full) ∧ created = ⟨-1, t⟩)
        ∨ (¬(p ∉ m ∧ m.Full) ∧ created.1 = 0
          ∧ (fsWrite created.2 p data size).2.Represents (m.overwrite p (data.take size))
          ∧ ((fsWrite created.2 p data size).1 = 0 ↔ m.lookup p ≠ some .dir)) := by
  rw [hcreated]
  have hfind := h.find_none_iff hp.nulFree
  split
  . next hnone =>
    have hmem := hfind.mp hnone
    cases h.create_cases hp.nulFree hp.length_lt with
    | inl hfail =>
      cases hfail.2 with
      | inl hpresent => exact absurd hpresent hmem
      | inr hfull => exact .inl ⟨⟨hmem, hfull⟩, hfail.1⟩
    | inr hok =>
      obtain ⟨t', hcreate, _, hfull, hrep, _⟩ := hok
      have hwritten := hrep.overwrite hp.nulFree (by simp) hsize hcap
      rw [FsMap.overwrite_of_notMem hmem, Finmap.lookup_insert] at hwritten
      right
      rw [hcreate, Finmap.lookup_eq_none.mpr hmem]
      refine ⟨fun hboth => hfull hboth.2, rfl, hwritten.1, ?_⟩
      rw [hwritten.2]
      simp
  . next hsome =>
    rw [hfind, not_not] at hsome
    right
    refine ⟨fun hboth => hboth.1 hsome, rfl, ?_⟩
    exact h.overwrite hp.nulFree hsome hsize hcap

end FileTable.Represents

theorem FileOp.Simulated.of_eq {op : FileOp} {fs fs' : Fs} {status : Int} {map : FsMap}
    {events : List FsEvent} (hspec : op.spec m p = ⟨status, map, events⟩) {t' : FileTable}
    (hrep : t'.Represents map) (hfail : status ≠ 0 → t' = fs.table)
    (hfs : fs' = events.foldl Fs.logEvent { fs with table := t' })
    : op.Simulated fs m p fs' := by
  refine ⟨t', ?_⟩
  rw [hspec]
  exact ⟨hrep, hfail, hfs⟩

theorem table_logEvents (events : List FsEvent) (fs : Fs)
    : (events.foldl Fs.logEvent fs).table = fs.table := by
  induction events generalizing fs with
  | nil => rfl
  | cons ev events ih => exact ih _

theorem history_logEvents (events : List FsEvent) (fs : Fs)
    : (events.foldl Fs.logEvent fs).history = fs.history ++ events := by
  induction events generalizing fs with
  | nil => exact (List.append_nil _).symm
  | cons ev events ih =>
    rw [List.foldl_cons, ih]
    exact List.append_assoc _ _ _

namespace FileOp

variable {op : FileOp} {fs fs' : Fs}

theorem store_status_iff (text typeIfNew : List UInt8)
    : (store m p text typeIfNew).status ≠ 0 ↔ p ∉ m ∧ m.Full := by
  unfold store
  split
  . next hfull => simp [hfull]
  . next hroom => simp [hroom]

-- What storing leaves at a path that is no directory.
theorem store_of_not_dir (hdir : m.lookup p ≠ some .dir) (hroom : ¬(p ∉ m ∧ m.Full))
    (text typeIfNew : List UInt8)
    : store m p text typeIfNew
        =
      ⟨0, m.insert p (.file text), [rootEvent (if p ∈ m then EDITED else typeIfNew) p]⟩ := by
  unfold store FsMap.overwrite
  rw [if_neg hroom, if_neg hdir]

theorem spec_lookup_ne {q : List UInt8} (h : q ≠ p) : (op.spec m p).map.lookup q = m.lookup q := by
  have hstore : ∀ text typeIfNew, (store m p text typeIfNew).map.lookup q = m.lookup q := by
    intro text typeIfNew
    unfold store FsMap.overwrite
    split
    . rfl
    . dsimp only
      split
      . rfl
      . exact Finmap.lookup_insert_of_ne _ h
  unfold spec
  cases op with
  | touch =>
    dsimp only
    split
    . rfl
    . split
      . rfl
      . exact Finmap.lookup_insert_of_ne _ h
  | makedir =>
    dsimp only
    split
    . rfl
    . exact Finmap.lookup_insert_of_ne _ h
  | rm =>
    dsimp only
    split
    . exact Finmap.lookup_erase_ne h
    . rfl
  | echo text => exact hstore _ _
  | save text => exact hstore _ _

theorem spec_dir (hdir : m.lookup p = some .dir) (hmem : p ∈ (op.spec m p).map)
    : (op.spec m p).map.lookup p = some .dir := by
  have hp := Finmap.mem_of_lookup_eq_some hdir
  have hstore : ∀ text typeIfNew, (store m p text typeIfNew).map.lookup p = some .dir := by
    intro text typeIfNew
    unfold store FsMap.overwrite
    rw [if_neg (fun hfull => hfull.1 hp), if_pos hdir]
    exact hdir
  unfold spec at *
  cases op with
  | touch =>
    dsimp only
    rw [if_pos hp]
    exact hdir
  | makedir =>
    dsimp only
    rw [if_pos (.inl hp)]
    exact hdir
  | rm =>
    dsimp only at hmem
    rw [if_pos hp] at hmem
    exact absurd hmem Finmap.notMem_erase_self
  | echo text => exact hstore _ _
  | save text => exact hstore _ _

theorem mem_of_mem_spec {q : List UInt8} (h : q ∈ (op.spec m p).map) : q = p ∨ q ∈ m := by
  by_cases hq : q = p
  . exact .inl hq
  . right
    obtain ⟨nd, hnd⟩ := Finmap.mem_iff.mp h
    rw [spec_lookup_ne hq] at hnd
    exact Finmap.mem_of_lookup_eq_some hnd

namespace Simulated

theorem represents (h : op.Simulated fs m p fs') : fs'.table.Represents (op.spec m p).map := by
  obtain ⟨t', hrep, _, hfs⟩ := h
  rw [hfs, table_logEvents]
  exact hrep

theorem history (h : op.Simulated fs m p fs')
    : fs'.history = fs.history ++ (op.spec m p).events := by
  obtain ⟨t', _, _, hfs⟩ := h
  rw [hfs, history_logEvents]

theorem table_of_failed (h : op.Simulated fs m p fs') (hstatus : (op.spec m p).status ≠ 0)
    : fs'.table = fs.table := by
  obtain ⟨t', _, hfail, hfs⟩ := h
  rw [hfs, table_logEvents]
  exact hfail hstatus

end Simulated

end FileOp

end DismasmOS
