import Mathlib.Data.List.Basic

/-!
This module contains decoders that cut a stream into frames of a fixed length. Between two frames elements
that cannot start one are skipped, this is how a decoder that has lost the beginning finds it again.
-/

structure Framer (α : Type) where
  size : Nat
  two_le_size : 2 ≤ size
  starts : α → Bool

namespace Framer

variable {α : Type} (f : Framer α)

structure IsFrame (p : List α) : Prop where
  length : p.length = f.size
  starts : ∃ x xs, p = x :: xs ∧ f.starts x = true

-- The frame that `x` ends, if it does, and what is there of the next one.
def feed (part : List α) (x : α) : Option (List α) × List α :=
  if part.isEmpty && !f.starts x then ⟨none, []⟩
  else if part.length + 1 = f.size then ⟨some (part ++ [x]), []⟩
  else ⟨none, part ++ [x]⟩

def run (part : List α) (xs : List α) : List (List α) × List α :=
  match xs with
  | [] => ⟨[], part⟩
  | x :: xs =>
    let ⟨frame, part⟩ := f.feed part x
    let ⟨frames, part⟩ := run part xs
    ⟨frame.toList ++ frames, part⟩

variable {f} {part xs ys : List α} {x : α}

theorem run_cons
    : f.run part (x :: xs)
        = ⟨(f.feed part x).1.toList ++ (f.run (f.feed part x).2 xs).1, (f.run (f.feed part x).2 xs).2⟩ :=
  rfl

theorem run_append
    : f.run part (xs ++ ys)
        = ⟨(f.run part xs).1 ++ (f.run (f.run part xs).2 ys).1, (f.run (f.run part xs).2 ys).2⟩ := by
  induction xs generalizing part with
  | nil => rfl
  | cons x xs ih => rw [List.cons_append, run_cons, ih, run_cons, List.append_assoc]

theorem feed_skip (h : f.starts x = false) : f.feed [] x = ⟨none, []⟩ := by
  unfold feed
  rw [h]
  rfl

theorem feed_end (hstart : part ≠ [] ∨ f.starts x = true) (hlen : part.length + 1 = f.size)
    : f.feed part x = ⟨some (part ++ [x]), []⟩ := by
  unfold feed
  rw [if_neg, if_pos hlen]
  cases part <;> simp_all

theorem feed_more (hstart : part ≠ [] ∨ f.starts x = true) (hlen : part.length + 1 ≠ f.size)
    : f.feed part x = ⟨none, part ++ [x]⟩ := by
  unfold feed
  rw [if_neg, if_neg hlen]
  cases part <;> simp_all

-- The rest of a frame that has begun.
theorem run_rest (hpart : part ≠ []) (hxs : xs ≠ []) (hlen : part.length + xs.length = f.size)
    : f.run part xs = ⟨[part ++ xs], []⟩ := by
  induction xs generalizing part with
  | nil => exact absurd rfl hxs
  | cons x xs ih =>
    rw [List.length_cons] at hlen
    cases xs with
    | nil =>
      rw [run_cons, feed_end (.inl hpart) hlen]
      rfl
    | cons y ys =>
      rw [List.length_cons] at hlen
      have hrest : f.run (part ++ [x]) (y :: ys) = _ := ih (by simp) (by simp) (by simp; omega)
      rw [run_cons, feed_more (.inl hpart) (by omega), hrest, List.append_assoc]
      rfl

theorem run_frame {p : List α} (h : f.IsFrame p) : f.run [] p = ⟨[p], []⟩ := by
  obtain ⟨x, xs, rfl, hstart⟩ := h.starts
  have hlen := h.length
  have hsize := f.two_le_size
  rw [List.length_cons] at hlen
  have hxs : xs ≠ [] := by
    rintro rfl
    rw [List.length_nil] at hlen
    omega
  have hrest : f.run [x] xs = _ := run_rest (List.cons_ne_nil x []) hxs (by
    rw [List.length_singleton]
    omega)
  rw [run_cons, feed_more (.inr hstart) (by rw [List.length_nil]; omega), List.nil_append, hrest]
  rfl

-- Every sequence of frames is decoded as it was sent.
theorem run_flatten {ps : List (List α)} (h : ∀ p ∈ ps, f.IsFrame p) : f.run [] ps.flatten = ⟨ps, []⟩ := by
  induction ps with
  | nil => rfl
  | cons p ps ih =>
    rw [List.flatten_cons, run_append, run_frame (h p List.mem_cons_self),
      ih fun q hq => h q (List.mem_cons_of_mem p hq)]
    rfl

-- Elements that start nothing lead out of any frame.
theorem run_noise (hpart : part.length < f.size) (hnoise : ∀ x ∈ xs, f.starts x = false)
    (hlen : part = [] ∨ f.size ≤ part.length + xs.length)
    : (f.run part xs).2 = [] ∧ (f.run part xs).1.length = if part = [] then 0 else 1 := by
  induction xs generalizing part with
  | nil =>
    have hnil : part = [] := hlen.resolve_right (by rw [List.length_nil]; omega)
    rw [hnil]
    exact ⟨rfl, rfl⟩
  | cons x xs ih =>
    have hx := hnoise x List.mem_cons_self
    have hxs := fun y hy => hnoise y (List.mem_cons_of_mem x hy)
    have hidle : (f.run [] xs).2 = [] ∧ (f.run [] xs).1.length = 0 :=
      ih (by have := f.two_le_size; rw [List.length_nil]; omega) hxs (.inl rfl)
    rw [run_cons]
    by_cases hnil : part = []
    . rw [hnil, feed_skip hx]
      exact hidle
    . rw [if_neg hnil]
      by_cases hend : part.length + 1 = f.size
      . rw [feed_end (.inl hnil) hend]
        refine ⟨hidle.1, ?_⟩
        rw [List.length_append, hidle.2]
        rfl
      . have hlen' : (part ++ [x]).length = part.length + 1 := by rw [List.length_append, List.length_singleton]
        have hmore : (f.run (part ++ [x]) xs).2 = [] ∧ _ := ih (by omega) hxs (.inr (by
          have := hlen.resolve_left hnil
          rw [List.length_cons] at this
          omega))
        rw [feed_more (.inl hnil) hend]
        refine ⟨hmore.1, ?_⟩
        rw [List.length_append, hmore.2, if_neg (by simp)]
        rfl

-- Whatever is decoded has the length of a frame.
theorem length_of_mem_run {p : List α} (h : p ∈ (f.run part xs).1) : p.length = f.size := by
  induction xs generalizing part with
  | nil => cases h
  | cons x xs ih =>
    rw [run_cons, List.mem_append] at h
    obtain h | h := h
    . rw [Option.mem_toList] at h
      unfold feed at h
      split at h
      . cases h
      split at h
      next hend =>
        cases h
        rw [List.length_append, List.length_singleton]
        exact hend
      next => cases h
    . exact ih h

end Framer
