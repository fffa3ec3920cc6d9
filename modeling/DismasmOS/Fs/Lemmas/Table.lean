import DismasmOS.Str.Lemmas
import DismasmOS.Fs.Map

/-!
This module contains the spec lemmas of the operations on the file table, each in terms of the
finite map the table represents.
-/

namespace DismasmOS

namespace FileTable

variable {t : FileTable}

@[simp]
theorem get_zero (i : Nat) : zero.get i = FsFile.zero := by
  unfold get zero
  rw [List.getD_eq_getElem?_getD, List.getElem?_replicate]
  split <;> rfl

theorem get_modify_same {i : Nat} (hi : i < FS_MAX_FILES) (f : FsFile → FsFile)
    : (t.modify i f).get i = f (t.get i) := by
  unfold get modify
  have hlen : i < t.files.length := by rw [t.length_files]; exact hi
  simp only [List.getD_eq_getElem?_getD, List.getElem?_modify_eq, List.getElem?_eq_getElem hlen]
  rfl

theorem get_modify_ne {i j : Nat} (hij : i ≠ j) (f : FsFile → FsFile)
    : (t.modify i f).get j = t.get j := by
  unfold get modify
  simp only [List.getD_eq_getElem?_getD]
  rw [List.getElem?_modify_ne _ _ hij]

theorem get_mem {i : Nat} (hi : i < FS_MAX_FILES) : t.get i ∈ t.files := by
  have hlen : i < t.files.length := by rw [t.length_files]; exact hi
  unfold get
  rw [List.getD_eq_getElem?_getD, List.getElem?_eq_getElem hlen]
  exact List.getElem_mem hlen

theorem length_slots : t.slots.length = FS_MAX_FILES := by
  unfold slots
  rw [List.length_map, t.length_files]

theorem slots_getElem {i : Nat} (hi : i < FS_MAX_FILES) : t.slots[i]? = some (t.get i).entry := by
  have hlen : i < t.files.length := by rw [t.length_files]; exact hi
  unfold slots get
  rw [List.getElem?_map, List.getD_eq_getElem?_getD, List.getElem?_eq_getElem hlen]
  rfl

theorem lt_of_slots_getElem {i : Nat} {slot : Option (List UInt8 × FsNode)}
    (h : t.slots[i]? = some slot)
    : i < FS_MAX_FILES := by
  rw [← t.length_slots]
  exact (List.getElem?_eq_some_iff.mp h).1

theorem slots_modify {i : Nat} (hi : i < FS_MAX_FILES) (f : FsFile → FsFile)
    : (t.modify i f).slots = t.slots.set i (f (t.get i)).entry := by
  apply List.ext_getElem?
  intro j
  by_cases hj : j < FS_MAX_FILES
  . rw [slots_getElem hj]
    by_cases hij : i = j
    . rw [← hij, get_modify_same hi, List.getElem?_set_self]
      rw [length_slots]
      exact hi
    . rw [get_modify_ne hij, List.getElem?_set_ne hij, slots_getElem hj]
  . rw [List.getElem?_eq_none, List.getElem?_eq_none]
    . rw [List.length_set, length_slots]
      omega
    . rw [length_slots]
      omega

end FileTable

open FileTable

theorem fsFind_eq (t : FileTable) {p : List UInt8} (hp : NulFree p)
    : fsFind t p = t.slots.find p := by
  unfold fsFind SlotTable.find FileTable.slots
  rw [List.findIdx?_map]
  congr 1
  funext f
  dsimp only [Function.comp]
  unfold FsFile.entry
  cases f.used with
  | false => rfl
  | true =>
    have hcmp := strcmp_eq_zero_iff f.path.chars p
    rw [hp.cstr] at hcmp
    simp only [Bool.true_and, ↓reduceIte, Option.any_some]
    rw [decide_eq_decide, hcmp]
    rfl

theorem fsFindSlot_eq (t : FileTable) : fsFindSlot t = t.slots.alloc := by
  unfold fsFindSlot SlotTable.alloc FileTable.slots
  rw [List.findIdx?_map]
  congr 1
  funext f
  dsimp only [Function.comp]
  unfold FsFile.entry
  cases f.used <;> rfl

section Wf

theorem CharArray.get_set_self {n : Nat} (a : CharArray n) {i : Nat} (hi : i < n) (c : UInt8)
    : (a.set i c).get i = c := by
  unfold get set
  rw [List.getD_eq_getElem?_getD, List.getElem?_set_self (by rw [a.length_chars]; exact hi)]
  rfl

theorem FsFile.zero_wf : FsFile.zero.Wf := by
  constructor
  . decide
  . rfl

theorem FsFile.occupy_wf (f : FsFile) (path : List UInt8) (isDir : Bool)
    : (f.occupy path isDir).Wf := by
  constructor
  . change 0 < FS_MAX_FILESIZE
    decide
  . exact f.data.get_set_self (by decide) NUL

theorem FsFile.release_wf (f : FsFile) : f.release.Wf := by
  constructor
  . change 0 < FS_MAX_FILESIZE
    decide
  . exact f.data.get_set_self (by decide) NUL

theorem FsFile.store_wf (f : FsFile) (data : List UInt8) {size : Nat} (h : size < FS_MAX_FILESIZE)
    : (f.store data size).Wf := by
  constructor
  . exact h
  . exact (f.data.memcpy data size).get_set_self h NUL

end Wf

section Entry

theorem FsFile.entry_occupy (f : FsFile) {p : List UInt8} (hp : NulFree p)
    (hlen : p.length < FS_MAX_PATH) (isDir : Bool)
    : (f.occupy p isDir).entry = some ⟨p, if isDir then .dir else .file []⟩ := by
  unfold entry node occupy
  simp only [↓reduceIte, List.take_zero]
  rw [CharArray.str_assign _ (by decide), hp.cstr, List.take_of_length_le]
  omega

theorem FsFile.entry_store (f : FsFile) {data : List UInt8} {size : Nat} {p : List UInt8}
    {nd : FsNode} (hentry : f.entry = some ⟨p, nd⟩) (hfile : f.isDir = false)
    (hsize : size ≤ data.length) (hlt : size < FS_MAX_FILESIZE)
    : (f.store data size).entry = some ⟨p, .file (data.take size)⟩ := by
  have hlen := f.data.length_chars
  unfold entry at hentry
  split at hentry
  . next hused =>
    simp only [Option.some.injEq, Prod.mk.injEq] at hentry
    unfold entry node store
    dsimp only
    rw [hused, hfile, hentry.1]
    simp only [↓reduceIte, Bool.false_eq_true, Option.some.injEq, Prod.mk.injEq, FsNode.file.injEq,
      true_and]
    unfold CharArray.set CharArray.memcpy
    dsimp only
    rw [memcpy_eq _ _ _ hsize (by omega)]
    rw [List.take_set_of_le (Nat.le_refl _)]
    rw [List.take_append_of_le_length (by simp [hsize])]
    simp
  . simp at hentry

theorem FsFile.entry_release (f : FsFile) : f.release.entry = none := rfl

theorem FileTable.Represents.path_mem {t : FileTable} {m : FsMap} {f : FsFile} (h : t.Represents m)
    (hf : f ∈ t.files) (hused : f.used = true)
    : f.path.str ∈ m := by
  obtain ⟨i, hi, rfl⟩ := List.getElem_of_mem hf
  rw [h.slots.mem_iff]
  refine ⟨i, t.files[i].node, ?_⟩
  unfold FileTable.slots
  rw [List.getElem?_map, List.getElem?_eq_getElem hi, Option.map_some, FsFile.entry, if_pos hused]

end Entry

end DismasmOS
