import Mathlib.Data.List.TakeWhile

/-!
This module contains words: the maximal runs of a text in which no separator occurs.
-/

section Words

variable {α : Type} {p : α → Bool} {c : α} {s : List α}

def words (p : α → Bool) (s : List α) : List (List α) := (s.splitOnP p).filter (!·.isEmpty)

theorem words_nil : words p [] = [] := by
  unfold words
  rw [List.splitOnP_nil]
  rfl

theorem words_cons_of_pos (h : p c) : words p (c :: s) = words p s := by
  unfold words
  rw [List.splitOnP_cons_eq_if_modifyHead, if_pos h]
  rfl

theorem words_dropWhile (p : α → Bool) (s : List α) : words p (s.dropWhile p) = words p s := by
  induction s with
  | nil => rfl
  | cons c s ih =>
    rw [List.dropWhile_cons]
    split
    . next h => rw [ih, words_cons_of_pos h]
    . rfl

theorem words_run {w rest : List α} (hw : ∀ x ∈ w, p x = false) (hne : w ≠ [])
    (hrest : ∀ x ∈ rest.head?, p x)
    : words p (w ++ rest) = w :: words p rest := by
  have hkeep : !w.isEmpty := by simpa using hne
  cases rest with
  | nil =>
    rw [List.append_nil, words_nil]
    unfold words
    rw [List.splitOnP_eq_singleton hw, List.filter_cons, if_pos hkeep, List.filter_nil]
  | cons c rest =>
    have hc := hrest c rfl
    rw [words_cons_of_pos hc]
    unfold words
    rw [List.splitOnP_append_cons_of_forall_mem hw c hc, List.filter_cons, if_pos hkeep]

theorem takeWhile_ne_nil (h : p c = false) : (c :: s).takeWhile (!p ·) ≠ [] := by
  simp [h]

theorem words_cons_of_neg (h : p c = false)
    : words p (c :: s)
        =
      (c :: s).takeWhile (!p ·) :: words p ((c :: s).dropWhile (!p ·)) := by
  rw [← words_run]
  . rw [List.takeWhile_append_dropWhile]
  . intro x hx
    simpa using List.mem_takeWhile_imp hx
  . exact takeWhile_ne_nil h
  . intro x hx
    have hhead := List.head?_dropWhile_not (!p ·) (c :: s)
    rw [hx] at hhead
    simpa using hhead

-- A text behind whose last run no separator stands.
def EndsInRun (p : α → Bool) (s : List α) : Prop := ∀ c ∈ s.getLast?, p c = false

instance (p : α → Bool) (s : List α) : Decidable (EndsInRun p s) :=
  inferInstanceAs (Decidable (∀ c ∈ s.getLast?, p c = false))

theorem endsInRun_append {w rest : List α} (hw : ∀ x ∈ w, p x = false)
    : EndsInRun p (w ++ rest) ↔ EndsInRun p rest := by
  unfold EndsInRun
  rw [List.getLast?_append]
  cases hlast : rest.getLast? with
  | none =>
    simp only [Option.none_or, Option.mem_def, reduceCtorEq, false_implies, implies_true, iff_true]
    intro x hx
    exact hw x (List.mem_of_getLast? hx)
  | some x => simp

theorem endsInRun_dropWhile (h : s.dropWhile p ≠ [])
    : EndsInRun p (s.dropWhile p) ↔ EndsInRun p s := by
  unfold EndsInRun
  have hlast : (s.takeWhile p ++ s.dropWhile p).getLast? = (s.dropWhile p).getLast? := by
    rw [List.getLast?_append, List.getLast?_eq_some_getLast h, Option.some_or]
  rw [List.takeWhile_append_dropWhile] at hlast
  rw [hlast]

theorem endsInRun_of_words_nil (h : words p s = []) : EndsInRun p s ↔ s = [] := by
  have hall : ∀ x ∈ s, p x := by
    rw [← List.dropWhile_eq_nil_iff]
    rw [← words_dropWhile] at h
    cases hdrop : s.dropWhile p with
    | nil => rfl
    | cons c rest =>
      have hhead := List.head?_dropWhile_not p s
      rw [hdrop, List.head?_cons] at hhead
      rw [hdrop, words_cons_of_neg (by simpa using hhead)] at h
      cases h
  constructor
  . intro hends
    by_contra hne
    have hlast := List.getLast?_eq_some_getLast hne
    have hp := hall _ (List.getLast_mem hne)
    rw [hends _ hlast] at hp
    cases hp
  . intro hnil c hc
    rw [hnil] at hc
    cases hc

end Words
