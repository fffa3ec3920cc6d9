import Mathlib.Algebra.Ring.Nat
import Mathlib.Data.List.Basic
import DismasmOS.Lib.WordRuns

/-!
This module contains a reference editor for texts divided into lines: a list of characters with a
cursor between two of them. Movements between lines go through the rows and columns of the text
split at its newlines.
-/

structure Doc (α : Type) where
  text : List α
  cursor : Nat
  cursor_le : cursor ≤ text.length

namespace Doc

variable {α : Type} [DecidableEq α]

def moveTo (d : Doc α) (p : Nat) : Doc α where
  text := d.text
  cursor := min p d.text.length
  cursor_le := Nat.min_le_right _ _

def left (d : Doc α) : Doc α := d.moveTo (d.cursor - 1)

def right (d : Doc α) : Doc α := d.moveTo (d.cursor + 1)

def insert (capacity : Nat) (c : α) (d : Doc α) : Doc α :=
  if d.text.length < capacity then
    {
      text := d.text.take d.cursor ++ c :: d.text.drop d.cursor
      cursor := d.cursor + 1
      cursor_le := by
        have := d.cursor_le
        simp only [List.length_append, List.length_take, List.length_cons, List.length_drop]
        omega
    }
  else
    d

def delete (d : Doc α) : Doc α where
  text := d.text.take d.cursor ++ d.text.drop (d.cursor + 1)
  cursor := d.cursor
  cursor_le := by
    have := d.cursor_le
    simp only [List.length_append, List.length_take, List.length_drop]
    omega

def backspace (d : Doc α) : Doc α where
  text := d.text.take (d.cursor - 1) ++ d.text.drop d.cursor
  cursor := d.cursor - 1
  cursor_le := by
    have := d.cursor_le
    simp only [List.length_append, List.length_take, List.length_drop]
    omega

section Lines

variable (nl : α)

def lines (d : Doc α) : List (List α) := d.text.splitOn nl

def row (d : Doc α) : Nat := ((d.text.take d.cursor).splitOn nl).length - 1

def column (d : Doc α) : Nat := (((d.text.take d.cursor).splitOn nl).getLastD []).length

def lineLength (d : Doc α) (r : Nat) : Nat := ((d.lines nl).getD r []).length

def position (d : Doc α) (r c : Nat) : Nat := (((d.lines nl).take r).map (·.length + 1)).sum + c

def home (d : Doc α) : Doc α := d.moveTo (d.position nl (d.row nl) 0)

def lineEnd (d : Doc α) : Doc α := d.moveTo (d.position nl (d.row nl) (d.lineLength nl (d.row nl)))

-- The same column of another line or, if that is shorter, its end.
def toLine (d : Doc α) (r : Nat) : Doc α :=
  d.moveTo (d.position nl r (min (d.column nl) (d.lineLength nl r)))

def up (d : Doc α) : Doc α := if 0 < d.row nl then d.toLine nl (d.row nl - 1) else d

def down (d : Doc α) : Doc α :=
  if d.row nl + 1 < (d.lines nl).length then d.toLine nl (d.row nl + 1) else d

end Lines

section Words

variable (isWord : α → Bool) (isTypo : List α → Bool)

-- The first word of `xs` that is misspelt, `p` is the position of the head of `xs`.
def findTypo (p : Nat) (xs : List α) : Option Nat :=
  match xs with
  | [] => none
  | x :: xs =>
    if isWord x then
      if isTypo (x :: xs.takeWhile isWord) then
        some p
      else
        findTypo (p + 1 + (xs.takeWhile isWord).length) (xs.dropWhile isWord)
    else
      findTypo (p + 1) xs
termination_by xs.length
decreasing_by
  . have := (List.dropWhile_sublist isWord (l := xs)).length_le
    simp only [List.length_cons]
    omega
  . simp

omit [DecidableEq α] in
theorem findTypo_eq (p : Nat) (xs : List α)
    : findTypo isWord isTypo p xs = ((wordRuns isWord p xs).find? (isTypo ·.2)).map (·.1) := by
  induction p, xs using findTypo.induct isWord isTypo with
  | case1 p =>
    rw [findTypo, wordRuns_nil]
    rfl
  | case2 p x xs hword htypo =>
    rw [findTypo, if_pos hword, if_pos htypo, wordRuns_of_pos hword, List.find?_cons, htypo]
    rfl
  | case3 p x xs hword htypo ih =>
    rw [findTypo, if_pos hword, if_neg htypo, wordRuns_of_pos hword, List.find?_cons,
      Bool.eq_false_iff.mpr htypo]
    exact ih
  | case4 p x xs hword ih =>
    rw [findTypo, if_neg hword, wordRuns_of_neg hword]
    exact ih

-- Go to the next misspelt word behind the word under the cursor, starting over at the end.
def hop (d : Doc α) : Doc α :=
  let start := d.cursor + ((d.text.drop d.cursor).takeWhile isWord).length
  match findTypo isWord isTypo start (d.text.drop start) with
  | some p => d.moveTo p
  | none =>
    match findTypo isWord isTypo 0 (d.text.take start) with
    | some p => d.moveTo p
    | none => d

omit [DecidableEq α] in
theorem hop_eq (d : Doc α)
    : d.hop isWord isTypo
        =
      match nextRun isWord isTypo d.text d.cursor with
      | some w => d.moveTo w.1
      | none => d := by
  unfold hop nextRun behindWord
  simp only [findTypo_eq]
  generalize (wordRuns isWord _ _).find? _ = ahead
  generalize (wordRuns isWord 0 _).find? _ = behind
  cases ahead with
  | some w => rfl
  | none => cases behind <;> rfl

end Words

section View

variable (nl : α)

-- The whole lines above and below the cursor and the two parts of its own line.
structure View (d : Doc α) (above : List (List α)) (before after : List α)
    (below : List (List α)) : Prop where
  text : d.text = above.flatMap (· ++ [nl]) ++ (before ++ (after ++ below.flatMap (nl :: ·)))
  cursor : d.cursor = (above.flatMap (· ++ [nl])).length + before.length
  above : ∀ l ∈ above, nl ∉ l
  before : nl ∉ before
  after : nl ∉ after
  below : ∀ l ∈ below, nl ∉ l

theorem exists_lines_before (xs : List α)
    : ∃ (above : List (List α)) (l : List α),
      xs = above.flatMap (· ++ [nl]) ++ l ∧ (∀ a ∈ above, nl ∉ a) ∧ nl ∉ l := by
  induction xs with
  | nil => exact ⟨[], [], by simp⟩
  | cons x xs ih =>
    obtain ⟨above, l, hxs, habove, hl⟩ := ih
    by_cases hx : x = nl
    . refine ⟨[] :: above, l, by simp [hxs, hx], ?_, hl⟩
      simpa using habove
    . cases above with
      | nil => exact ⟨[], x :: l, by simpa using hxs, by simp, by simp [hl, Ne.symm hx]⟩
      | cons a above =>
        simp only [List.mem_cons, forall_eq_or_imp] at habove
        refine ⟨(x :: a) :: above, l, by simp [hxs], ?_, hl⟩
        simp only [List.mem_cons, forall_eq_or_imp]
        exact ⟨by simp [habove.1, Ne.symm hx], habove.2⟩

theorem exists_lines_after (xs : List α)
    : ∃ (l : List α) (below : List (List α)),
      xs = l ++ below.flatMap (nl :: ·) ∧ nl ∉ l ∧ ∀ b ∈ below, nl ∉ b := by
  induction xs with
  | nil => exact ⟨[], [], by simp⟩
  | cons x xs ih =>
    obtain ⟨l, below, hxs, hl, hbelow⟩ := ih
    by_cases hx : x = nl
    . refine ⟨[], l :: below, by simp [hxs, hx], by simp, ?_⟩
      simp only [List.mem_cons, forall_eq_or_imp]
      exact ⟨hl, hbelow⟩
    . exact ⟨x :: l, below, by simp [hxs], by simp [hl, Ne.symm hx], hbelow⟩

theorem exists_view (d : Doc α) : ∃ above before after below, d.View nl above before after below := by
  obtain ⟨above, before, htake, habove, hbefore⟩ := exists_lines_before nl (d.text.take d.cursor)
  obtain ⟨after, below, hdrop, hafter, hbelow⟩ := exists_lines_after nl (d.text.drop d.cursor)
  refine ⟨above, before, after, below, ?_, ?_, habove, hbefore, hafter, hbelow⟩
  . rw [← hdrop, ← List.append_assoc, ← htake, List.take_append_drop]
  . have := congrArg List.length htake
    have := d.cursor_le
    simp only [List.length_take, List.length_append] at *
    omega

theorem splitOn_above {above : List (List α)} (h : ∀ l ∈ above, nl ∉ l) (xs : List α)
    : (above.flatMap (· ++ [nl]) ++ xs).splitOn nl = above ++ xs.splitOn nl := by
  induction above with
  | nil => rfl
  | cons a above ih =>
    simp only [List.mem_cons, forall_eq_or_imp] at h
    rw [List.flatMap_cons, List.append_assoc, List.append_assoc, List.singleton_append]
    rw [List.splitOn_append_cons_self_of_not_mem h.1, ih h.2]
    rfl

theorem splitOn_below {l : List α} {below : List (List α)} (hl : nl ∉ l)
    (h : ∀ b ∈ below, nl ∉ b)
    : (l ++ below.flatMap (nl :: ·)).splitOn nl = l :: below := by
  induction below generalizing l with
  | nil =>
    rw [List.flatMap_nil, List.append_nil]
    exact List.splitOn_eq_singleton hl
  | cons b below ih =>
    simp only [List.mem_cons, forall_eq_or_imp] at h
    rw [List.flatMap_cons, List.cons_append]
    rw [List.splitOn_append_cons_self_of_not_mem hl, ih h.1 h.2]

omit [DecidableEq α] in
theorem sum_lengths (above : List (List α))
    : (above.map (·.length + 1)).sum = (above.flatMap (· ++ [nl])).length := by
  induction above with
  | nil => rfl
  | cons a above ih =>
    rw [List.map_cons, List.sum_cons, List.flatMap_cons, List.length_append, ih]
    simp only [List.length_append, List.length_cons, List.length_nil]

namespace View

variable {nl : α} {d : Doc α} {above below : List (List α)} {before after : List α}

theorem lines (h : d.View nl above before after below)
    : d.lines nl = above ++ (before ++ after) :: below := by
  unfold Doc.lines
  rw [h.text, splitOn_above nl h.above, ← List.append_assoc before]
  rw [splitOn_below nl _ h.below]
  rw [List.mem_append, not_or]
  exact ⟨h.before, h.after⟩

theorem splitOn_take (h : d.View nl above before after below)
    : (d.text.take d.cursor).splitOn nl = above ++ [before] := by
  have htake : d.text.take d.cursor = above.flatMap (· ++ [nl]) ++ before := by
    rw [h.text, h.cursor, ← List.append_assoc, List.take_append_of_le_length]
    . rw [List.take_of_length_le (by simp)]
    . simp
  rw [htake, splitOn_above nl h.above, List.splitOn_eq_singleton h.before]

theorem row (h : d.View nl above before after below) : d.row nl = above.length := by
  unfold Doc.row
  rw [h.splitOn_take]
  simp

theorem column (h : d.View nl above before after below) : d.column nl = before.length := by
  unfold Doc.column
  rw [h.splitOn_take]
  simp

theorem position_row (h : d.View nl above before after below) (c : Nat)
    : d.position nl above.length c = (above.flatMap (· ++ [nl])).length + c := by
  unfold Doc.position
  rw [h.lines, List.take_left, sum_lengths nl]

omit [DecidableEq α] in
theorem length_text (h : d.View nl above before after below)
    : d.text.length
        = (above.flatMap (· ++ [nl])).length
          + (before.length + (after.length + (below.flatMap (nl :: ·)).length)) := by
  rw [h.text]
  simp only [List.length_append]

theorem home (h : d.View nl above before after below)
    : (d.home nl).cursor = (above.flatMap (· ++ [nl])).length := by
  have := h.length_text
  unfold Doc.home moveTo
  dsimp only
  rw [h.row, h.position_row]
  omega

theorem lineEnd (h : d.View nl above before after below)
    : (d.lineEnd nl).cursor
        = (above.flatMap (· ++ [nl])).length + (before.length + after.length) := by
  have hlen := h.length_text
  have hline : d.lineLength nl above.length = before.length + after.length := by
    unfold lineLength
    rw [h.lines]
    simp
  unfold Doc.lineEnd moveTo
  dsimp only
  rw [h.row, h.position_row, hline]
  omega

theorem up_nil (h : d.View nl [] before after below) : d.up nl = d := by
  unfold Doc.up
  rw [h.row, if_neg (by simp)]

theorem up_concat {l : List α} (h : d.View nl (above ++ [l]) before after below)
    : (d.up nl).cursor
        = (above.flatMap (· ++ [nl])).length + min before.length l.length := by
  have hlen := h.length_text
  have hrow : d.row nl - 1 = above.length := by
    rw [h.row]
    simp
  have hline : d.lineLength nl above.length = l.length := by
    unfold lineLength
    rw [h.lines]
    simp
  have hpos : ∀ c, d.position nl above.length c = (above.flatMap (· ++ [nl])).length + c := by
    intro c
    unfold Doc.position
    rw [h.lines, List.append_assoc, List.take_left, sum_lengths nl]
  unfold Doc.up toLine moveTo
  rw [if_pos (by rw [h.row]; simp)]
  dsimp only
  rw [hrow, hline, hpos, h.column]
  simp only [List.flatMap_append, List.length_append, List.flatMap_cons, List.flatMap_nil,
    List.length_nil, List.length_cons] at hlen
  omega

theorem down_nil (h : d.View nl above before after []) : d.down nl = d := by
  unfold Doc.down
  rw [h.row, h.lines, if_neg (by simp)]

theorem down_cons {l : List α} (h : d.View nl above before after (l :: below))
    : (d.down nl).cursor
        = (above.flatMap (· ++ [nl])).length + (before.length + after.length) + 1
          + min before.length l.length := by
  have hlen := h.length_text
  have hline : d.lineLength nl (above.length + 1) = l.length := by
    unfold lineLength
    rw [h.lines]
    simp
  have hpos : ∀ c, d.position nl (above.length + 1) c
      = (above.flatMap (· ++ [nl])).length + (before.length + after.length) + 1 + c := by
    intro c
    unfold Doc.position
    rw [h.lines, List.take_append, List.take_of_length_le (by omega), Nat.add_sub_cancel_left]
    rw [List.map_append, List.sum_append, sum_lengths nl]
    simp only [List.take_succ_cons, List.take_zero, List.map_cons, List.map_nil, List.sum_cons,
      List.sum_nil, List.length_append]
    omega
  unfold Doc.down toLine moveTo
  rw [if_pos (by rw [h.row, h.lines]; simp)]
  dsimp only
  rw [h.row, hline, hpos, h.column]
  simp only [List.flatMap_cons, List.length_append, List.length_cons] at hlen
  omega

end View

end View

end Doc
