import DismasmOS.Lib.Run
import DismasmOS.Fs.Lemmas.Table

/-!
This module contains the refinement of finite maps by the file table: every operation succeeds and
fails as the one on maps does, a failing one leaves all slots alone and a successful one changes
nothing but the entry at its own path.
-/

namespace DismasmOS

theorem FsFile.used_of_entry {f : FsFile} {p : List UInt8} {nd : FsNode}
    (h : f.entry = some ⟨p, nd⟩)
    : f.used = true ∧ f.path.str = p ∧ f.node = nd := by
  unfold entry at h
  split at h
  . next hused =>
    simp only [Option.some.injEq, Prod.mk.injEq] at h
    exact ⟨hused, h⟩
  . simp at h

theorem FsFile.not_used_of_entry {f : FsFile} (h : f.entry = none) : f.used = false := by
  unfold entry at h
  cases hused : f.used with
  | false => rfl
  | true => simp [hused] at h

theorem FsFile.node_eq_file {f : FsFile} (h : f.isDir = false)
    : f.node = .file (f.data.chars.take f.size) := by
  unfold node
  rw [h]
  rfl

theorem FsFile.node_eq_dir {f : FsFile} (h : f.isDir = true) : f.node = .dir := by
  unfold node
  rw [h]
  rfl

namespace FileTable

theorem changesOnly_modify (t : FileTable) {i : Nat} (hi : i < FS_MAX_FILES) {f : FsFile → FsFile}
    {p : List UInt8} (hold : (t.get i).used = true → (t.get i).path.str = p)
    (hnew : (f (t.get i)).used = true → (f (t.get i)).path.str = p)
    : ChangesOnly p t (t.modify i f) := by
  intro j hj
  by_cases hij : i = j
  . rw [← hij, get_modify_same hi]
    exact ⟨hold, hnew⟩
  . rw [get_modify_ne hij] at hj
    exact absurd rfl hj

namespace Represents

variable {t : FileTable} {m : FsMap}

theorem wf_modify (h : t.Represents m) {i : Nat} (hi : i < FS_MAX_FILES) {f : FsFile → FsFile}
    (hf : (f (t.get i)).Wf) (j : Nat)
    : ((t.modify i f).get j).Wf := by
  by_cases hij : i = j
  . rw [← hij, get_modify_same hi]
    exact hf
  . rw [get_modify_ne hij]
    exact h.wf j

theorem find_none_iff (h : t.Represents m) {p : List UInt8} (hp : NulFree p)
    : fsFind t p = none ↔ p ∉ m := by
  rw [fsFind_eq t hp]
  exact h.slots.find_eq_none_iff p

theorem find_some (h : t.Represents m) {p : List UInt8} (hp : NulFree p) {i : Nat}
    (hfind : fsFind t p = some i)
    : i < FS_MAX_FILES ∧ (t.get i).entry = some ⟨p, (t.get i).node⟩
        ∧ m.lookup p = some (t.get i).node := by
  rw [fsFind_eq t hp] at hfind
  obtain ⟨nd, hslot⟩ := SlotTable.find_eq_some hfind
  have hi := lt_of_slots_getElem hslot
  rw [slots_getElem hi, Option.some.injEq] at hslot
  have hnode := (FsFile.used_of_entry hslot).2.2
  rw [hnode]
  refine ⟨hi, hslot, ?_⟩
  apply h.slots.lookup_of_getElem
  rw [slots_getElem hi, hslot]

theorem lookup_eq (h : t.Represents m) {p : List UInt8} (hp : NulFree p)
    : t.lookup p = m.lookup p := by
  unfold FileTable.lookup
  cases hfind : fsFind t p with
  | none =>
    rw [h.find_none_iff hp] at hfind
    rw [Option.map_none, Finmap.lookup_eq_none.mpr hfind]
  | some i =>
    rw [Option.map_some, (h.find_some hp hfind).2.2]

theorem findSlot_none_iff (h : t.Represents m) : fsFindSlot t = none ↔ m.Full := by
  rw [fsFindSlot_eq, h.slots.alloc_eq_none_iff]
  unfold FsMap.Full
  rw [t.length_slots]

theorem findSlot_some {i : Nat} (hfind : fsFindSlot t = some i)
    : i < FS_MAX_FILES ∧ (t.get i).entry = none := by
  rw [fsFindSlot_eq] at hfind
  have hslot := SlotTable.alloc_eq_some hfind
  have hi := lt_of_slots_getElem hslot
  rw [slots_getElem hi, Option.some.injEq] at hslot
  exact ⟨hi, hslot⟩

theorem occupy (h : t.Represents m) {p : List UInt8} (hp : NulFree p)
    (hlen : p.length < FS_MAX_PATH) (hmem : p ∉ m) {i : Nat} (hfind : fsFindSlot t = some i)
    (isDir : Bool)
    : (t.modify i (·.occupy p isDir)).Represents (m.insert p (if isDir then .dir else .file []))
        ∧ ChangesOnly p t (t.modify i (·.occupy p isDir)) := by
  obtain ⟨hi, hnone⟩ := findSlot_some hfind
  have hentry := (t.get i).entry_occupy hp hlen isDir
  constructor
  . constructor
    . rw [slots_modify hi, hentry]
      apply h.slots.insert
      . rw [slots_getElem hi, hnone]
      . exact hmem
    . exact h.wf_modify hi (FsFile.occupy_wf _ _ _)
  . apply changesOnly_modify t hi
    . rw [FsFile.not_used_of_entry hnone]
      simp
    . intro _
      exact (FsFile.used_of_entry hentry).2.1

theorem create_cases (h : t.Represents m) {p : List UInt8} (hp : NulFree p)
    (hlen : p.length < FS_MAX_PATH)
    : (fsCreate t p = ⟨-1, t⟩ ∧ (p ∈ m ∨ m.Full))
        ∨ ∃ t', fsCreate t p = ⟨0, t'⟩ ∧ p ∉ m ∧ ¬m.Full
          ∧ t'.Represents (m.insert p (.file [])) ∧ ChangesOnly p t t' := by
  unfold fsCreate
  split
  . next hfound =>
    rw [ne_eq, h.find_none_iff hp, not_not] at hfound
    exact .inl ⟨rfl, .inl hfound⟩
  . next hfound =>
    rw [ne_eq, h.find_none_iff hp, not_not] at hfound
    cases hslot : fsFindSlot t with
    | none => exact .inl ⟨rfl, .inr (h.findSlot_none_iff.mp hslot)⟩
    | some i =>
      have hfull : ¬m.Full := by
        rw [← h.findSlot_none_iff, hslot]
        simp
      exact .inr ⟨_, rfl, hfound, hfull, h.occupy hp hlen hfound hslot false⟩

theorem mkdir_cases (h : t.Represents m) {p : List UInt8} (hp : NulFree p)
    (hlen : p.length < FS_MAX_PATH)
    : (fsMkdir t p = ⟨-1, t⟩ ∧ (p ∈ m ∨ m.Full ∨ p = str "/"))
        ∨ ∃ t', fsMkdir t p = ⟨0, t'⟩ ∧ p ∉ m ∧ ¬m.Full ∧ p ≠ str "/"
          ∧ t'.Represents (m.insert p .dir) ∧ ChangesOnly p t t' := by
  have hroot : strcmp p (str "/") = 0 ↔ p = str "/" := by
    rw [strcmp_eq_zero_iff, hp.cstr]
    rfl
  unfold fsMkdir
  split
  . next hfound =>
    rw [hroot, ne_eq, h.find_none_iff hp, not_not] at hfound
    cases hfound with
    | inl hmem => exact .inl ⟨rfl, .inl hmem⟩
    | inr hslash => exact .inl ⟨rfl, .inr (.inr hslash)⟩
  . next hfound =>
    rw [hroot, ne_eq, h.find_none_iff hp, not_not, not_or] at hfound
    cases hslot : fsFindSlot t with
    | none => exact .inl ⟨rfl, .inr (.inl (h.findSlot_none_iff.mp hslot))⟩
    | some i =>
      have hfull : ¬m.Full := by
        rw [← h.findSlot_none_iff, hslot]
        simp
      exact .inr ⟨_, rfl, hfound.1, hfull, hfound.2, h.occupy hp hlen hfound.1 hslot true⟩

theorem write_cases (h : t.Represents m) {p : List UInt8} (hp : NulFree p) {data : List UInt8}
    {size : Nat} (hsize : size ≤ data.length)
    : (fsWrite t p data size = ⟨-1, t⟩ ∧ ∀ content, m.lookup p ≠ some (.file content))
        ∨ ∃ t' content, fsWrite t p data size = ⟨0, t'⟩ ∧ m.lookup p = some (.file content)
          ∧ t'.Represents (m.insert p (.file (data.take (min size (FS_MAX_FILESIZE - 1)))))
          ∧ ChangesOnly p t t' := by
  unfold fsWrite
  cases hfind : fsFind t p with
  | none =>
    rw [h.find_none_iff hp] at hfind
    refine .inl ⟨rfl, ?_⟩
    rw [Finmap.lookup_eq_none.mpr hfind]
    simp
  | some i =>
    obtain ⟨hi, hentry, hlookup⟩ := h.find_some hp hfind
    dsimp only
    cases hdir : (t.get i).isDir with
    | true =>
      refine .inl ⟨rfl, ?_⟩
      rw [hlookup, FsFile.node_eq_dir hdir]
      simp
    | false =>
      have hmin : (if size ≥ FS_MAX_FILESIZE then FS_MAX_FILESIZE - 1 else size)
          = min size (FS_MAX_FILESIZE - 1) := by
        split <;> omega
      have hpos : 0 < FS_MAX_FILESIZE := by decide
      have hstore := (t.get i).entry_store hentry hdir
        (show min size (FS_MAX_FILESIZE - 1) ≤ data.length by omega) (by omega)
      rw [FsFile.node_eq_file hdir] at hlookup
      rw [if_neg (by simp), hmin]
      refine .inr ⟨_, _, rfl, hlookup, ⟨?_, ?_⟩, ?_⟩
      . rw [slots_modify hi, hstore]
        apply h.slots.replace
        rw [slots_getElem hi, hentry]
      . exact h.wf_modify hi (FsFile.store_wf _ _ (by omega))
      . apply changesOnly_modify t hi
        . intro _
          exact (FsFile.used_of_entry hentry).2.1
        . intro _
          exact (FsFile.used_of_entry hstore).2.1

theorem delete_cases (h : t.Represents m) {p : List UInt8} (hp : NulFree p)
    : (fsDelete t p = ⟨-1, t⟩ ∧ p ∉ m)
        ∨ ∃ t', fsDelete t p = ⟨0, t'⟩ ∧ p ∈ m ∧ t'.Represents (m.erase p)
          ∧ ChangesOnly p t t' := by
  unfold fsDelete
  cases hfind : fsFind t p with
  | none => exact .inl ⟨rfl, (h.find_none_iff hp).mp hfind⟩
  | some i =>
    obtain ⟨hi, hentry, hlookup⟩ := h.find_some hp hfind
    refine .inr ⟨_, rfl, Finmap.mem_of_lookup_eq_some hlookup, ⟨?_, ?_⟩, ?_⟩
    . rw [slots_modify hi, FsFile.entry_release]
      apply h.slots.erase
      rw [slots_getElem hi, hentry]
    . exact h.wf_modify hi (FsFile.release_wf _)
    . apply changesOnly_modify t hi
      . intro _
        exact (FsFile.used_of_entry hentry).2.1
      . rw [FsFile.not_used_of_entry (t.get i).entry_release]
        simp

end Represents

theorem represents_zero : zero.Represents ∅ := by
  constructor
  . have hslots : zero.slots = List.replicate FS_MAX_FILES none := by
      unfold slots zero
      rw [List.map_replicate]
      rfl
    rw [hslots]
    exact SlotTable.represents_empty _
  . intro i
    rw [get_zero]
    exact FsFile.zero_wf

theorem Represents.unique_path {t : FileTable} {m : FsMap} (h : t.Represents m) {i j : Nat}
    (hi : i < FS_MAX_FILES) (hj : j < FS_MAX_FILES) (hused : (t.get i).used = true)
    (hused' : (t.get j).used = true) (hpath : (t.get i).path.str = (t.get j).path.str)
    : i = j := by
  apply h.slots.unique (k := (t.get i).path.str) (v := (t.get i).node) (w := (t.get j).node)
  . rw [slots_getElem hi]
    simp [FsFile.entry, hused]
  . rw [slots_getElem hj]
    simp [FsFile.entry, hused', hpath]

theorem Represents.card_le {t : FileTable} {m : FsMap} (h : t.Represents m)
    : m.keys.card ≤ FS_MAX_FILES := by
  rw [← t.length_slots]
  exact h.slots.card_le

theorem changesOnly_refl (p : List UInt8) (t : FileTable) : ChangesOnly p t t :=
  fun _ hne => absurd rfl hne

end FileTable

-- One call on the table is the same call on the map.
structure FsCall.Simulated (call : FsCall) (t : FileTable) (m : FsMap) : Prop where
  result : (call.exec t).1 = (call.spec m).1
  represents : (call.exec t).2.Represents (call.spec m).2
  unchanged : (call.exec t).1 = .status (-1) → (call.exec t).2 = t
  changesOnly : FileTable.ChangesOnly call.path t (call.exec t).2

theorem FsCall.simulated_of_eq {call : FsCall} {t t' : FileTable} {m m' : FsMap} {code : Int}
    (hexec : call.exec t = ⟨.status code, t'⟩) (hspec : call.spec m = ⟨.status code, m'⟩)
    (hrep : t'.Represents m') (hsame : code = -1 → t' = t)
    (honly : FileTable.ChangesOnly call.path t t')
    : call.Simulated t m := by
  constructor
  . rw [hexec, hspec]
  . rw [hexec, hspec]
    exact hrep
  . rw [hexec]
    intro hcode
    apply hsame
    simpa using hcode
  . rw [hexec]
    exact honly

theorem FsCall.simulated (call : FsCall) {t : FileTable} {m : FsMap} (h : t.Represents m)
    : call.Simulated t m := by
  have hsame := FileTable.changesOnly_refl call.path t
  cases call with
  | create p =>
    have hspec : (FsCall.create p).spec m = (m.create p.path).map .status id := rfl
    unfold FsMap.create at hspec
    cases h.create_cases p.nulFree p.length_lt with
    | inl hfail =>
      rw [if_pos hfail.2] at hspec
      apply simulated_of_eq (by simp [exec, hfail.1]) hspec h (fun _ => rfl) hsame
    | inr hok =>
      obtain ⟨t', hcall, hmem, hfull, hrep, honly⟩ := hok
      rw [if_neg (by simp [hmem, hfull])] at hspec
      apply simulated_of_eq (by simp [exec, hcall]) hspec hrep (by simp) honly
  | mkdir p =>
    have hspec : (FsCall.mkdir p).spec m = (m.mkdir p.path).map .status id := rfl
    unfold FsMap.mkdir at hspec
    cases h.mkdir_cases p.nulFree p.length_lt with
    | inl hfail =>
      rw [if_pos hfail.2] at hspec
      apply simulated_of_eq (by simp [exec, hfail.1]) hspec h (fun _ => rfl) hsame
    | inr hok =>
      obtain ⟨t', hcall, hmem, hfull, hroot, hrep, honly⟩ := hok
      rw [if_neg (by simp [hmem, hfull, hroot])] at hspec
      apply simulated_of_eq (by simp [exec, hcall]) hspec hrep (by simp) honly
  | write p data size hsize =>
    have hspec : (FsCall.write p data size hsize).spec m = (m.write p.path data size).map .status id :=
      rfl
    unfold FsMap.write at hspec
    cases h.write_cases p.nulFree hsize with
    | inl hfail =>
      have hmatch : (FsCall.write p data size hsize).spec m = ⟨.status (-1), m⟩ := by
        rw [hspec]
        split
        . next content hcontent => exact absurd hcontent (hfail.2 content)
        . rfl
      apply simulated_of_eq (by simp [exec, hfail.1]) hmatch h (fun _ => rfl) hsame
    | inr hok =>
      obtain ⟨t', content, hcall, hlookup, hrep, honly⟩ := hok
      rw [hlookup] at hspec
      apply simulated_of_eq (by simp [exec, hcall]) hspec hrep (by simp) honly
  | delete p =>
    have hspec : (FsCall.delete p).spec m = (m.delete p.path).map .status id := rfl
    unfold FsMap.delete at hspec
    cases h.delete_cases p.nulFree with
    | inl hfail =>
      rw [if_neg hfail.2] at hspec
      apply simulated_of_eq (by simp [exec, hfail.1]) hspec h (fun _ => rfl) hsame
    | inr hok =>
      obtain ⟨t', hcall, hmem, hrep, honly⟩ := hok
      rw [if_pos hmem] at hspec
      apply simulated_of_eq (by simp [exec, hcall]) hspec hrep (by simp) honly
  | find p =>
    constructor
    . simp only [exec, spec, h.lookup_eq p.nulFree]
    . exact h
    . intro _
      rfl
    . exact hsame

theorem fileTable_refines (calls : List FsCall)
    : let table := (runCalls FsCall.exec FileTable.zero calls).2
      let map := (runCalls FsCall.spec ∅ calls).2
      (runCalls FsCall.exec FileTable.zero calls).1 = (runCalls FsCall.spec ∅ calls).1
        ∧ table.Represents map
        ∧ map.keys.card ≤ FS_MAX_FILES
        ∧ (∀ i j, i < FS_MAX_FILES → j < FS_MAX_FILES → (table.get i).used = true
          → (table.get j).used = true → (table.get i).path.str = (table.get j).path.str → i = j)
        ∧ ∀ call : FsCall, call.Simulated table map := by
  have hrun := runCalls_simulates (R := FileTable.Represents)
    (fun e h => ⟨(e.simulated h).result, (e.simulated h).represents⟩) calls
    FileTable.represents_zero
  dsimp only
  refine ⟨hrun.1, hrun.2, hrun.2.card_le, ?_, ?_⟩
  . intro i j hi hj hused hused' hpath
    exact hrun.2.unique_path hi hj hused hused' hpath
  . intro call
    exact call.simulated hrun.2

end DismasmOS
