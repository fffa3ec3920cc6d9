import Mathlib.Algebra.Order.Ring.Nat
import Mathlib.Data.List.Infix

/-!
This module contains filters on the lines of a text, and what becomes of them when lines are cut off
behind a limit.
-/

section LinesFrom

variable {α : Type} [DecidableEq α] (nl : α)

-- The lines of a text whose first line has already begun with `line`.
def linesFrom (line text : List α) : List (List α) := (text.splitOn nl).modifyHead (line ++ ·)

variable {nl} {line text : List α} {c : α}

theorem linesFrom_nil : linesFrom nl line [] = [line] := by
  unfold linesFrom
  rw [List.splitOn_nil, List.modifyHead_cons, List.append_nil]

theorem linesFrom_start : linesFrom nl [] text = text.splitOn nl := by
  have hid : (([] : List α) ++ ·) = id := rfl
  unfold linesFrom
  rw [hid, List.modifyHead_id, id]

theorem linesFrom_newline : linesFrom nl line (nl :: text) = line :: linesFrom nl [] text := by
  rw [linesFrom_start]
  unfold linesFrom
  rw [List.splitOn_cons_eq_if_modifyHead, if_pos (beq_self_eq_true nl), List.modifyHead_cons,
    List.append_nil]

theorem linesFrom_cons (h : c ≠ nl)
    : linesFrom nl line (c :: text) = linesFrom nl (line ++ [c]) text := by
  unfold linesFrom
  rw [List.splitOn_cons_eq_if_modifyHead, if_neg (by rwa [beq_iff_eq]), List.modifyHead_modifyHead]
  congr 1
  funext rest
  rw [Function.comp_apply, List.append_assoc, List.singleton_append]

theorem mem_of_mem_linesFrom {l : List α} (h : l ∈ linesFrom nl line text)
    : ∀ x ∈ l, x ∈ line ++ text := by
  induction text generalizing line with
  | nil =>
    rw [linesFrom_nil, List.mem_singleton] at h
    rw [h, List.append_nil]
    exact fun _ hx => hx
  | cons c text ih =>
    intro x hx
    by_cases hc : c = nl
    . rw [hc, linesFrom_newline] at h
      cases List.mem_cons.mp h with
      | inl hfirst =>
        rw [hfirst] at hx
        exact List.mem_append_left _ hx
      | inr hrest => exact List.mem_append_right _ (List.mem_cons_of_mem _ (ih hrest x hx))
    . rw [linesFrom_cons hc] at h
      have hmem := ih h x hx
      rw [List.append_assoc] at hmem
      exact hmem

theorem mem_of_mem_splitOn {l : List α} (h : l ∈ text.splitOn nl) : ∀ x ∈ l, x ∈ text := by
  rw [← linesFrom_start] at h
  exact mem_of_mem_linesFrom h

-- A text of lines, each ended by a separator.
theorem splitOn_lines {lines : List (List α)} (h : ∀ l ∈ lines, nl ∉ l)
    : (lines.flatMap (· ++ [nl])).splitOn nl = lines ++ [[]] := by
  induction lines with
  | nil => exact List.splitOn_nil nl
  | cons l lines ih =>
    rw [List.forall_mem_cons] at h
    rw [List.flatMap_cons, List.append_assoc, List.singleton_append,
      List.splitOn_append_cons_self_of_not_mem h.1, ih h.2]
    rfl

end LinesFrom

section LineFilter

variable {α : Type} (nl : α) (keep : List α → Bool)

-- The lines to keep, each with a newline behind it.
def filterLines (lines : List (List α)) : List α := (lines.filter keep).flatMap (· ++ [nl])

variable {nl keep} {limit : Nat}

theorem filterLines_cons (line : List α) (lines : List (List α))
    : filterLines nl keep (line :: lines)
        = (if keep line then line ++ [nl] else []) ++ filterLines nl keep lines := by
  unfold filterLines
  rw [List.filter_cons]
  split
  . rw [List.flatMap_cons]
  . rfl

-- A line that is kept when it is cut off is kept as a whole.
variable (nl) (hkeep : ∀ line, keep (line.take limit) → keep line)

include hkeep

theorem length_cut_le (line : List α)
    : (if keep (line.take limit) then line.take limit ++ [nl] else []).length
        ≤ (if keep line then line ++ [nl] else []).length := by
  split
  . next hcut =>
    rw [if_pos (hkeep line hcut), List.length_append, List.length_append, List.length_take]
    omega
  . exact Nat.zero_le _

theorem length_filterLines_le (lines : List (List α))
    : (filterLines nl keep (lines.map (·.take limit))).length
        ≤ (filterLines nl keep lines).length := by
  induction lines with
  | nil => exact Nat.le_refl _
  | cons line lines ih =>
    rw [List.map_cons, filterLines_cons, filterLines_cons, List.length_append, List.length_append]
    exact Nat.add_le_add (length_cut_le nl hkeep line) ih

theorem cut_eq_iff (line : List α)
    : (if keep (line.take limit) then line.take limit ++ [nl] else [])
          = (if keep line then line ++ [nl] else [])
        ↔ (keep line → line.length ≤ limit) := by
  constructor
  . intro h hline
    rw [if_pos hline] at h
    have hlen := congrArg List.length h
    split at hlen
    . rw [List.length_append, List.length_append, List.length_take] at hlen
      omega
    . rw [List.length_append, List.length_nil, List.length_singleton] at hlen
      omega
  . intro h
    by_cases hline : keep line
    . rw [List.take_of_length_le (h hline)]
    . rw [if_neg hline, if_neg (mt (hkeep line) hline)]

theorem filterLines_cut_eq_iff (lines : List (List α))
    : filterLines nl keep (lines.map (·.take limit)) = filterLines nl keep lines
        ↔ ∀ line ∈ lines, keep line → line.length ≤ limit := by
  induction lines with
  | nil => exact iff_of_true rfl fun _ hline => nomatch hline
  | cons line lines ih =>
    have hhead := length_cut_le nl hkeep line
    have htail := length_filterLines_le nl hkeep lines
    rw [List.map_cons, filterLines_cons, filterLines_cons, List.forall_mem_cons, ← ih,
      ← cut_eq_iff nl hkeep]
    constructor
    . intro h
      have hlen := congrArg List.length h
      rw [List.length_append, List.length_append] at hlen
      exact List.append_inj h (by omega)
    . intro h
      rw [h.1, h.2]

end LineFilter
