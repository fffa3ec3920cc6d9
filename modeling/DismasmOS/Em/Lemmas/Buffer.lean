import Mathlib.Data.List.Induction
import DismasmOS.Str.Lemmas
import DismasmOS.Em.Reference

/-!
This module contains what the loops of the editor over its buffer compute, each for a buffer that
holds a given list of characters.
-/

namespace DismasmOS

theorem sizeSub_of_le {a b : Nat} (h : b ≤ a) : sizeSub a b = some (a - b) := by
  unfold sizeSub
  rw [if_pos h]

namespace EmBuffer

theorem length_chars (buf : EmBuffer) : buf.chars.length = EM_BUF_SIZE := CharArray.length_chars buf

theorem write_of_lt (buf : EmBuffer) {i : Nat} (hi : i < EM_BUF_SIZE) (c : UInt8)
    : buf.write i c = some (buf.set i c) := by
  unfold write
  rw [if_pos hi]

theorem read_append {buf : EmBuffer} {pre post : List UInt8} {c : UInt8}
    (h : buf.chars = pre ++ c :: post)
    : buf.read pre.length = some c := by
  unfold read
  rw [h, List.getElem?_append_right (Nat.le_refl _), Nat.sub_self, List.getElem?_cons_zero]

end EmBuffer

section Scan

variable {buf : EmBuffer}

theorem lineStart_eq {pre line post : List UInt8} (h : buf.chars = pre ++ (line ++ post))
    (hline : newline ∉ line) (hpre : ∀ c ∈ pre.getLast?, c = newline)
    : lineStart buf (pre.length + line.length) = some pre.length := by
  induction line using List.reverseRecOn generalizing post with
  | nil =>
    rw [List.length_nil, Nat.add_zero]
    cases pre.eq_nil_or_concat' with
    | inl hnil =>
      rw [hnil]
      rfl
    | inr hconcat =>
      obtain ⟨front, c, hc⟩ := hconcat
      rw [hc] at h hpre ⊢
      have hread : buf.read front.length = some c := by
        apply EmBuffer.read_append
        rw [h, List.append_assoc]
        rfl
      rw [hpre c (by simp)] at hread
      rw [List.length_append, List.length_singleton, lineStart, hread]
      simp
  | append_singleton line c ih =>
    have hread : buf.read (pre.length + line.length) = some c := by
      rw [← List.length_append]
      exact EmBuffer.read_append (show buf.chars = (pre ++ line) ++ c :: post by simp [h])
    rw [List.mem_append, not_or, List.mem_singleton] at hline
    rw [List.length_append, List.length_singleton, ← Nat.add_assoc, lineStart, hread]
    simp only [Option.bind_eq_bind, Option.bind_some, ne_eq]
    rw [if_pos (Ne.symm hline.2)]
    apply ih
    . rw [h, List.append_assoc]
    . exact hline.1

theorem lineEnd_eq {pre line post : List UInt8} {n : Nat} (h : buf.chars = pre ++ (line ++ post))
    (hline : newline ∉ line) (hn : n = line.length ∨ line.length < n ∧ post.head? = some newline)
    : lineEnd buf pre.length n = some (pre.length + line.length) := by
  induction line generalizing pre n with
  | nil =>
    cases n with
    | zero => rfl
    | succ n =>
      rw [List.length_nil] at hn
      have hpost : post.head? = some newline := by
        cases hn with
        | inl hzero => omega
        | inr hnl => exact hnl.2
      obtain ⟨rest, hrest⟩ := List.head?_eq_some_iff.mp hpost
      rw [lineEnd, EmBuffer.read_append (by rw [h, hrest]; rfl)]
      simp
  | cons c line ih =>
    rw [List.mem_cons, not_or] at hline
    cases n with
    | zero => simp at hn
    | succ n =>
      rw [lineEnd, EmBuffer.read_append (by rw [h]; rfl)]
      simp only [Option.bind_eq_bind, Option.bind_some, ne_eq]
      rw [if_pos (Ne.symm hline.1)]
      have hlen : (pre ++ [c]).length = pre.length + 1 := by simp
      rw [← hlen, ih (show buf.chars = (pre ++ [c]) ++ (line ++ post) by simp [h]) hline.2]
      . rw [hlen, List.length_cons]
        congr 1
        omega
      . simpa using hn

theorem read_eq (buf : EmBuffer) {i : Nat} (hi : i < EM_BUF_SIZE)
    : ∃ c, buf.read i = some c ∧ buf.chars.drop i = c :: buf.chars.drop (i + 1) := by
  have hlen := buf.length_chars
  refine ⟨buf.chars[i], ?_, ?_⟩
  . unfold EmBuffer.read
    rw [List.getElem?_eq_getElem]
  . rw [List.drop_eq_getElem_cons]

theorem wordEnd_eq (buf : EmBuffer) {i n : Nat} (h : i + n ≤ EM_BUF_SIZE)
    : wordEnd buf i n
        = some (i + (((buf.chars.drop i).take n).takeWhile isalpha).length) := by
  induction n generalizing i with
  | zero => rfl
  | succ n ih =>
    obtain ⟨c, hread, hdrop⟩ := read_eq buf (show i < EM_BUF_SIZE by omega)
    rw [wordEnd, hread, hdrop]
    simp only [Option.bind_eq_bind, Option.bind_some, List.take_succ_cons, List.takeWhile_cons]
    split
    . rw [ih (by omega), List.length_cons]
      congr 1
      omega
    . rfl

end Scan

section Shift

theorem shiftDown_spec (buf : EmBuffer) {k n : Nat} (h : k + n < EM_BUF_SIZE)
    : ∃ buf', shiftDown buf k n = some buf'
        ∧ ∀ j : Nat,
          buf'.chars[j]? = if k ≤ j ∧ j < k + n then buf.chars[j + 1]? else buf.chars[j]? := by
  induction n generalizing buf k with
  | zero =>
    refine ⟨buf, rfl, ?_⟩
    intro j
    rw [if_neg (by omega)]
  | succ n ih =>
    have hlen := buf.length_chars
    have hread : buf.read (k + 1) = some (buf.chars.get ⟨k + 1, by omega⟩) := by
      unfold EmBuffer.read
      rw [List.getElem?_eq_getElem (by omega), List.get_eq_getElem]
    obtain ⟨buf', hshift, hchars⟩ := ih (buf.set k (buf.chars.get ⟨k + 1, by omega⟩)) (k := k + 1)
      (by omega)
    refine ⟨buf', ?_, ?_⟩
    . rw [shiftDown, hread]
      simp only [Option.bind_eq_bind, Option.bind_some]
      rw [buf.write_of_lt (by omega)]
      exact hshift
    . intro j
      rw [hchars]
      unfold CharArray.set
      dsimp only
      simp only [List.getElem?_set]
      grind

theorem shiftUp_spec (buf : EmBuffer) {k n : Nat} (hn : n ≤ k) (h : k < EM_BUF_SIZE)
    : ∃ buf', shiftUp buf k n = some buf'
        ∧ ∀ j : Nat,
          buf'.chars[j]? = if k - n < j ∧ j ≤ k then buf.chars[j - 1]? else buf.chars[j]? := by
  induction n generalizing buf k with
  | zero =>
    refine ⟨buf, rfl, ?_⟩
    intro j
    rw [if_neg (by omega)]
  | succ n ih =>
    have hlen := buf.length_chars
    have hread : buf.read (k - 1) = some (buf.chars.get ⟨k - 1, by omega⟩) := by
      unfold EmBuffer.read
      rw [List.getElem?_eq_getElem (by omega), List.get_eq_getElem]
    obtain ⟨buf', hshift, hchars⟩ := ih (buf.set k (buf.chars.get ⟨k - 1, by omega⟩)) (k := k - 1)
      (by omega) (by omega)
    refine ⟨buf', ?_, ?_⟩
    . rw [shiftUp, sizeSub_of_le (by omega)]
      simp only [Option.bind_eq_bind, Option.bind_some]
      rw [hread]
      simp only [Option.bind_some]
      rw [buf.write_of_lt h]
      exact hshift
    . intro j
      rw [hchars]
      unfold CharArray.set
      dsimp only
      simp only [List.getElem?_set]
      grind

end Shift

end DismasmOS
