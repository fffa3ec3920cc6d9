import Mathlib.Data.List.Basic

/-!
This module contains texts that are put together in an array of a fixed size: part after part is
appended, as long as the text and the terminator behind it fit.
-/

variable {α : Type}

def appendIn (size : Nat) (buf src : List α) : Option (List α) :=
  if buf.length + src.length < size then some (buf ++ src) else none

def appendAllIn (size : Nat) (buf : List α) (parts : List (List α)) : Option (List α) :=
  parts.foldlM (appendIn size) buf

theorem appendAllIn_append (size : Nat) (buf : List α) (parts parts' : List (List α))
    : appendAllIn size buf (parts ++ parts')
        = (appendAllIn size buf parts).bind fun buf => appendAllIn size buf parts' :=
  List.foldlM_append

theorem appendIn_some {size : Nat} {buf src out : List α} (h : appendIn size buf src = some out)
    : out = buf ++ src := by
  unfold appendIn at h
  split at h
  . cases h
    rfl
  . cases h

theorem appendAllIn_some {size : Nat} {buf out : List α} {parts : List (List α)}
    (h : appendAllIn size buf parts = some out)
    : out = buf ++ parts.flatten := by
  induction parts generalizing buf with
  | nil =>
    cases h
    exact (List.append_nil _).symm
  | cons part parts ih =>
    unfold appendAllIn at *
    rw [List.foldlM_cons, Option.bind_eq_bind, Option.bind_eq_some_iff] at h
    obtain ⟨mid, hmid, hout⟩ := h
    rw [ih hout, appendIn_some hmid, List.flatten_cons, List.append_assoc]

-- Only the whole text has to fit, since the text in the array never gets shorter.
theorem appendAllIn_eq {size : Nat} {buf : List α} (h : buf.length < size) (parts : List (List α))
    : appendAllIn size buf parts
        =
      if buf.length + parts.flatten.length < size then some (buf ++ parts.flatten) else none := by
  induction parts generalizing buf with
  | nil =>
    rw [List.flatten_nil, List.append_nil]
    exact (if_pos h).symm
  | cons part parts ih =>
    unfold appendAllIn at *
    rw [List.foldlM_cons, List.flatten_cons, List.length_append]
    by_cases hpart : buf.length + part.length < size
    . have hstep : appendIn size buf part = some (buf ++ part) := if_pos hpart
      have hlen : (buf ++ part).length < size := by
        rw [List.length_append]
        exact hpart
      rw [hstep, Option.bind_eq_bind, Option.bind_some, ih hlen, List.length_append,
        List.append_assoc, Nat.add_assoc]
    . have hstep : appendIn size buf part = none := if_neg hpart
      rw [hstep, if_neg (by omega)]
      rfl

theorem appendAllIn_isSome_iff {size : Nat} {buf : List α} (h : buf.length < size)
    (parts : List (List α))
    : (appendAllIn size buf parts).isSome ↔ buf.length + parts.flatten.length < size := by
  rw [appendAllIn_eq h]
  exact Option.isSome_ite
