import Mathlib.Data.Finmap

/-!
This module contains tables of a fixed number of slots, each either empty or holding one key with
its value. Searching the table from the front makes it a finite map of bounded size.
-/

abbrev SlotTable (κ ν : Type) := List (Option (κ × ν))

namespace SlotTable

theorem countP_set_isSome {α : Type} {t : List (Option α)} {i : Nat} {slot : Option α}
    (hslot : t[i]? = some slot) (new : Option α)
    : (t.set i new).countP (·.isSome)
        = t.countP (·.isSome) - (if slot.isSome then 1 else 0) + (if new.isSome then 1 else 0) := by
  obtain ⟨hi, hget⟩ := List.getElem?_eq_some_iff.mp hslot
  rw [List.countP_set hi, hget]

variable {κ ν : Type}

def alloc (t : SlotTable κ ν) : Option Nat := t.findIdx? (·.isNone)

theorem alloc_eq_some {t : SlotTable κ ν} {i : Nat} (h : t.alloc = some i) : t[i]? = some none := by
  unfold alloc at h
  rw [List.findIdx?_eq_some_iff_getElem] at h
  obtain ⟨hi, hslot, _⟩ := h
  rw [List.getElem?_eq_getElem hi]
  simpa using hslot

theorem alloc_eq_none_iff (t : SlotTable κ ν)
    : t.alloc = none ↔ t.countP (·.isSome) = t.length := by
  unfold alloc
  rw [List.findIdx?_eq_none_iff, List.countP_eq_length]
  simp [Option.isSome_iff_ne_none]

variable [DecidableEq κ]

def find (t : SlotTable κ ν) (k : κ) : Option Nat :=
  t.findIdx? fun slot => slot.any fun e => e.1 = k

structure Represents (t : SlotTable κ ν) (m : Finmap (fun _ : κ => ν)) : Prop where
  unique : ∀ {i j : Nat} {k : κ} {v w : ν}, t[i]? = some (some (k, v)) → t[j]? = some (some (k, w))
    → i = j
  lookup : ∀ k v, m.lookup k = some v ↔ ∃ i : Nat, t[i]? = some (some (k, v))
  size : m.keys.card = t.countP (·.isSome)

section Finmap

variable (m : Finmap (fun _ : κ => ν)) (k : κ) (v : ν)

theorem keys_insert : (m.insert k v).keys = insert k m.keys := by
  ext a
  simp [Finmap.mem_keys]

theorem card_insert_of_notMem (h : k ∉ m) : (m.insert k v).keys.card = m.keys.card + 1 := by
  rw [keys_insert]
  apply Finset.card_insert_of_notMem
  rw [Finmap.mem_keys]
  exact h

theorem card_insert_of_mem (h : k ∈ m) : (m.insert k v).keys.card = m.keys.card := by
  rw [keys_insert, Finset.insert_eq_of_mem]
  rw [Finmap.mem_keys]
  exact h

theorem card_erase_of_mem (h : k ∈ m) : (m.erase k).keys.card + 1 = m.keys.card := by
  rw [Finmap.keys_erase]
  apply Finset.card_erase_add_one
  rw [Finmap.mem_keys]
  exact h

end Finmap

section Find

theorem find_eq_some {t : SlotTable κ ν} {k : κ} {i : Nat} (h : t.find k = some i)
    : ∃ v, t[i]? = some (some (k, v)) := by
  unfold find at h
  rw [List.findIdx?_eq_some_iff_getElem] at h
  obtain ⟨hi, hslot, _⟩ := h
  rw [List.getElem?_eq_getElem hi]
  cases hcase : t[i] with
  | none => simp [hcase] at hslot
  | some e =>
    simp only [hcase, Option.any_some, decide_eq_true_eq] at hslot
    exact ⟨e.2, by rw [← hslot]⟩

theorem find_eq_none {t : SlotTable κ ν} {k : κ} (h : t.find k = none) (i : Nat) (v : ν)
    : t[i]? ≠ some (some (k, v)) := by
  unfold find at h
  rw [List.findIdx?_eq_none_iff] at h
  intro hslot
  have := h _ (List.mem_of_getElem? hslot)
  simp at this

end Find

namespace Represents

variable {t : SlotTable κ ν} {m : Finmap (fun _ : κ => ν)} (h : Represents t m)

include h

theorem mem_iff (k : κ) : k ∈ m ↔ ∃ (i : Nat) (v : ν), t[i]? = some (some (k, v)) := by
  rw [Finmap.mem_iff]
  constructor
  . rintro ⟨v, hv⟩
    obtain ⟨i, hi⟩ := (h.lookup k v).mp hv
    exact ⟨i, v, hi⟩
  . rintro ⟨i, v, hi⟩
    exact ⟨v, (h.lookup k v).mpr ⟨i, hi⟩⟩

theorem find_eq_none_iff (k : κ) : t.find k = none ↔ k ∉ m := by
  rw [h.mem_iff]
  constructor
  . rintro hfind ⟨i, v, hi⟩
    exact find_eq_none hfind i v hi
  . intro hmem
    cases hfind : t.find k with
    | none => rfl
    | some i =>
      obtain ⟨v, hv⟩ := find_eq_some hfind
      exact absurd ⟨i, v, hv⟩ hmem

theorem lookup_of_getElem {k : κ} {v : ν} {i : Nat} (hi : t[i]? = some (some (k, v)))
    : m.lookup k = some v :=
  (h.lookup k v).mpr ⟨i, hi⟩

theorem alloc_eq_none_iff : t.alloc = none ↔ m.keys.card = t.length := by
  rw [SlotTable.alloc_eq_none_iff, h.size]

theorem card_le : m.keys.card ≤ t.length := by
  rw [h.size]
  exact List.countP_le_length

-- A slot that holds `k` or nothing, before and after, says nothing about the other keys.
theorem lookup_set_of_ne {k k' : κ} {v : ν} {i : Nat} {old new : Option (κ × ν)}
    (hslot : t[i]? = some old) (hold : ∀ e ∈ old, e.1 = k) (hnew : ∀ e ∈ new, e.1 = k)
    (hk : k' ≠ k)
    : m.lookup k' = some v ↔ ∃ j : Nat, (t.set i new)[j]? = some (some (k', v)) := by
  rw [h.lookup]
  constructor
  . rintro ⟨j, hj⟩
    refine ⟨j, ?_⟩
    have hne : i ≠ j := by
      rintro rfl
      rw [hslot, Option.some.injEq] at hj
      exact hk (hold (k', v) hj)
    rw [List.getElem?_set_ne hne]
    exact hj
  . rintro ⟨j, hj⟩
    refine ⟨j, ?_⟩
    have hne : i ≠ j := by
      rintro rfl
      rw [List.getElem?_set_self (List.getElem?_eq_some_iff.mp hslot).1, Option.some.injEq] at hj
      exact hk (hnew (k', v) hj)
    rw [List.getElem?_set_ne hne] at hj
    exact hj

-- Into the only slot that may hold `k`.
theorem unique_store {k : κ} {v : ν} {i a b : Nat} {k' : κ} {v' w' : ν}
    (hother : ∀ j w, t[j]? = some (some (k, w)) → j = i)
    (ha : (t.set i (some (k, v)))[a]? = some (some (k', v')))
    (hb : (t.set i (some (k, v)))[b]? = some (some (k', w')))
    : a = b := by
  rw [List.getElem?_set] at ha hb
  have hunique := @h.unique a b k' v' w'
  have haOther := hother a v'
  have hbOther := hother b w'
  grind

theorem lookup_store {k : κ} {v : ν} {i : Nat} {old : Option (κ × ν)} (hslot : t[i]? = some old)
    (hold : ∀ e ∈ old, e.1 = k) (hother : ∀ j w, t[j]? = some (some (k, w)) → j = i) (k' : κ) (v' : ν)
    : (m.insert k v).lookup k' = some v'
        ↔ ∃ j : Nat, (t.set i (some (k, v)))[j]? = some (some (k', v')) := by
  have hi := (List.getElem?_eq_some_iff.mp hslot).1
  by_cases hkk : k' = k
  . rw [hkk, Finmap.lookup_insert]
    simp only [List.getElem?_set]
    constructor
    . rintro ⟨⟩
      exact ⟨i, by simp [hi]⟩
    . rintro ⟨j, hj⟩
      have hjOther := hother j v'
      grind
  . rw [Finmap.lookup_insert_of_ne _ hkk]
    exact h.lookup_set_of_ne hslot hold (by simp) hkk

theorem insert {k : κ} {v : ν} {i : Nat} (hslot : t[i]? = some none) (hk : k ∉ m)
    : Represents (t.set i (some (k, v))) (m.insert k v) := by
  have hother : ∀ j w, t[j]? = some (some (k, w)) → j = i := by
    intro j w hj
    rw [h.mem_iff] at hk
    exact absurd ⟨j, w, hj⟩ hk
  constructor
  . exact h.unique_store hother
  . exact h.lookup_store hslot (by simp) hother
  . rw [card_insert_of_notMem _ _ _ hk, countP_set_isSome hslot, h.size]
    simp

theorem replace {k : κ} {v w : ν} {i : Nat} (hslot : t[i]? = some (some (k, v)))
    : Represents (t.set i (some (k, w))) (m.insert k w) := by
  have hk : k ∈ m := (h.mem_iff k).mpr ⟨i, v, hslot⟩
  have hother : ∀ j w, t[j]? = some (some (k, w)) → j = i := fun j w hj => h.unique hj hslot
  constructor
  . exact h.unique_store hother
  . exact h.lookup_store hslot (by simp) hother
  . have hpos : 0 < t.countP (·.isSome) :=
      List.countP_pos_iff.mpr ⟨_, List.mem_of_getElem? hslot, rfl⟩
    rw [card_insert_of_mem _ _ _ hk, countP_set_isSome hslot, h.size]
    simp only [Option.isSome_some, ↓reduceIte]
    omega

theorem erase {k : κ} {v : ν} {i : Nat} (hslot : t[i]? = some (some (k, v)))
    : Represents (t.set i none) (m.erase k) := by
  have hk : k ∈ m := (h.mem_iff k).mpr ⟨i, v, hslot⟩
  have hcard := card_erase_of_mem _ _ hk
  constructor
  . intro a b k' v' w' ha hb
    rw [List.getElem?_set] at ha hb
    have := @h.unique a b k' v' w'
    grind
  . intro k' v'
    by_cases hkk : k' = k
    . rw [hkk, Finmap.lookup_erase]
      simp only [List.getElem?_set]
      constructor
      . rintro ⟨⟩
      . rintro ⟨j, hj⟩
        have := @h.unique i j k v v'
        grind
    . rw [Finmap.lookup_erase_ne hkk]
      exact h.lookup_set_of_ne hslot (by simp) (by simp) hkk
  . rw [h.size] at hcard
    rw [countP_set_isSome hslot]
    simp only [Option.isSome_some, ↓reduceIte, Option.isSome_none, Bool.false_eq_true]
    omega

end Represents

theorem represents_empty (n : Nat) : Represents (List.replicate n none : SlotTable κ ν) ∅ := by
  constructor
  . intro i j k v w hi
    simp [List.getElem?_replicate] at hi
  . intro k v
    simp [List.getElem?_replicate]
  . simp [List.countP_replicate]

end SlotTable
