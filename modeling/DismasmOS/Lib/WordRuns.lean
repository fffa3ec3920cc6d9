import Mathlib.Algebra.Order.Ring.Nat
import Mathlib.Data.List.TakeWhile

/-!
This module contains the words of a text together with the positions at which they start: the runs of
word characters that cannot be made any longer.
-/

theorem drop_length_takeWhile {α : Type} (p : α → Bool) (s : List α)
    : s.drop (s.takeWhile p).length = s.dropWhile p := by
  have hsplit := List.takeWhile_append_dropWhile (p := p) (l := s)
  have hdrop := congrArg (List.drop (s.takeWhile p).length) hsplit
  rw [List.drop_left] at hdrop
  exact hdrop.symm

section WordRuns

variable {α : Type} (isWord : α → Bool)

-- The words of `xs` from left to right, `p` is the position of the head of `xs`.
def wordRuns (p : Nat) (xs : List α) : List (Nat × List α) :=
  match xs with
  | [] => []
  | x :: xs =>
    if isWord x then
      ⟨p, x :: xs.takeWhile isWord⟩
        :: wordRuns (p + 1 + (xs.takeWhile isWord).length) (xs.dropWhile isWord)
    else
      wordRuns (p + 1) xs
termination_by xs.length
decreasing_by
  . have := (List.dropWhile_sublist isWord (l := xs)).length_le
    simp only [List.length_cons]
    omega
  . simp

/-- `word` stands in `text` at position `start`, with no word character next to it. -/
structure IsWordRun (text : List α) (start : Nat) (word : List α) : Prop where
  ne_nil : word ≠ []
  all : ∀ c ∈ word, isWord c
  split : ∃ before after, text = before ++ (word ++ after) ∧ before.length = start
    ∧ (∀ c ∈ before.getLast?, ¬isWord c) ∧ ∀ c ∈ after.head?, ¬isWord c

-- No word goes on from one text to the other.
def Unjoined (xs ys : List α) : Prop := ∀ x ∈ xs.getLast?, ∀ y ∈ ys.head?, ¬(isWord x ∧ isWord y)

variable {isWord} {p : Nat} {x : α} {xs ys : List α}

theorem wordRuns_of_pos (h : isWord x)
    : wordRuns isWord p (x :: xs)
        = ⟨p, x :: xs.takeWhile isWord⟩
          :: wordRuns isWord (p + 1 + (xs.takeWhile isWord).length) (xs.dropWhile isWord) := by
  rw [wordRuns, if_pos h]

theorem wordRuns_of_neg (h : ¬isWord x)
    : wordRuns isWord p (x :: xs) = wordRuns isWord (p + 1) xs := by
  rw [wordRuns, if_neg h]

theorem Unjoined.tail (h : Unjoined isWord (x :: xs) ys) : Unjoined isWord xs ys := by
  intro a ha
  apply h
  cases xs with
  | nil => cases ha
  | cons x' xs =>
    rw [List.getLast?_cons_cons]
    exact ha

theorem Unjoined.dropWhile (h : Unjoined isWord xs ys) : Unjoined isWord (xs.dropWhile isWord) ys := by
  induction xs with
  | nil => exact h
  | cons x xs ih =>
    rw [List.dropWhile_cons]
    split
    . exact ih h.tail
    . exact h

-- A word that has begun in `xs` ends there.
theorem Unjoined.cut (h : Unjoined isWord (x :: xs) ys) (hword : isWord x)
    : (xs ++ ys).takeWhile isWord = xs.takeWhile isWord
      ∧ (xs ++ ys).dropWhile isWord = xs.dropWhile isWord ++ ys := by
  induction xs generalizing x with
  | nil =>
    cases ys with
    | nil => exact ⟨rfl, rfl⟩
    | cons y ys =>
      have hy : ¬isWord y := fun hy => h x rfl y rfl ⟨hword, hy⟩
      constructor
      . exact List.takeWhile_cons_of_neg hy
      . exact List.dropWhile_cons_of_neg hy
  | cons x' xs ih =>
    rw [List.cons_append]
    by_cases hword' : isWord x'
    . have hcut := ih h.tail hword'
      rw [List.takeWhile_cons_of_pos hword', List.takeWhile_cons_of_pos hword', hcut.1,
        List.dropWhile_cons_of_pos hword', List.dropWhile_cons_of_pos hword', hcut.2]
      exact ⟨rfl, rfl⟩
    . rw [List.takeWhile_cons_of_neg hword', List.takeWhile_cons_of_neg hword',
        List.dropWhile_cons_of_neg hword', List.dropWhile_cons_of_neg hword']
      exact ⟨rfl, rfl⟩

theorem wordRuns_append (h : Unjoined isWord xs ys)
    : wordRuns isWord p (xs ++ ys)
        = wordRuns isWord p xs ++ wordRuns isWord (p + xs.length) ys := by
  induction p, xs using wordRuns.induct isWord with
  | case1 p => rw [wordRuns, List.nil_append, List.nil_append, List.length_nil, Nat.add_zero]
  | case2 p x xs hword ih =>
    have hsplit := congrArg List.length (List.takeWhile_append_dropWhile (p := isWord) (l := xs))
    rw [List.length_append] at hsplit
    rw [List.cons_append, wordRuns_of_pos hword, wordRuns_of_pos hword, List.cons_append]
    rw [(h.cut hword).1, (h.cut hword).2, ih h.tail.dropWhile]
    congr 3
    rw [List.length_cons]
    omega
  | case3 p x xs hword ih =>
    rw [List.cons_append, wordRuns_of_neg hword, wordRuns_of_neg hword, ih h.tail, List.length_cons]
    congr 2
    omega

theorem wordRuns_nil : wordRuns isWord p [] = [] := by
  rw [wordRuns]

theorem wordRuns_all {w : List α} (hne : w ≠ []) (hw : ∀ c ∈ w, isWord c)
    : wordRuns isWord p w = [⟨p, w⟩] := by
  cases w with
  | nil => exact absurd rfl hne
  | cons c w =>
    rw [List.forall_mem_cons] at hw
    have htake : w.takeWhile isWord = w := by
      rw [List.takeWhile_eq_self_iff]
      exact hw.2
    have hdrop : w.dropWhile isWord = [] := by
      rw [List.dropWhile_eq_nil_iff]
      exact hw.2
    rw [wordRuns_of_pos hw.1, htake, hdrop, wordRuns_nil]

theorem wordRuns_none {w : List α} (hw : ∀ c ∈ w, ¬isWord c) : wordRuns isWord p w = [] := by
  induction w generalizing p with
  | nil => exact wordRuns_nil
  | cons c w ih =>
    rw [List.forall_mem_cons] at hw
    rw [wordRuns_of_neg hw.1, ih hw.2]

theorem IsWordRun.mem {start : Nat} {word : List α} (h : IsWordRun isWord xs start word)
    : ⟨p + start, word⟩ ∈ wordRuns isWord p xs := by
  obtain ⟨before, after, hxs, hstart, hbefore, hafter⟩ := h.split
  have hapart : Unjoined isWord before (word ++ after) := fun c hc _ _ hor => hbefore c hc hor.1
  have hapart' : Unjoined isWord word after := fun _ _ c hc hor => hafter c hc hor.2
  rw [hxs, wordRuns_append hapart, wordRuns_append hapart', wordRuns_all h.ne_nil h.all, hstart,
    List.mem_append, List.mem_append, List.mem_singleton]
  exact .inr (.inl rfl)

-- A text in front moves the words on, unless it makes the first one longer.
theorem IsWordRun.shift {start : Nat} {word : List α} (h : IsWordRun isWord ys start word)
    (hapart : Unjoined isWord xs ys)
    : IsWordRun isWord (xs ++ ys) (xs.length + start) word := by
  obtain ⟨before, after, hsplit, hstart, hbefore, hafter⟩ := h.split
  refine ⟨h.ne_nil, h.all, xs ++ before, after, ?_, ?_, ?_, hafter⟩
  . rw [hsplit, List.append_assoc]
  . rw [List.length_append, hstart]
  . cases before with
    | nil =>
      obtain ⟨c, rest, hword⟩ := List.exists_cons_of_ne_nil h.ne_nil
      have hc : isWord c := h.all c (by rw [hword]; exact List.mem_cons_self ..)
      have hhead : c ∈ ys.head? := by
        rw [hsplit, hword]
        rfl
      intro x hx hxWord
      rw [List.append_nil] at hx
      exact hapart x hx c hhead ⟨hxWord, hc⟩
    | cons b before =>
      rw [List.getLast?_append, List.getLast?_cons, Option.some_or, ← List.getLast?_cons]
      exact hbefore

theorem isWordRun_of_mem {start : Nat} {word : List α} (h : ⟨start, word⟩ ∈ wordRuns isWord p xs)
    : p ≤ start ∧ IsWordRun isWord xs (start - p) word := by
  induction p, xs using wordRuns.induct isWord with
  | case1 p =>
    rw [wordRuns_nil] at h
    cases h
  | case2 p x xs hword ih =>
    have hrest : ∀ c ∈ (xs.dropWhile isWord).head?, ¬isWord c := by
      intro c hc
      have hhead := List.head?_dropWhile_not isWord xs
      rw [Option.mem_def] at hc
      rw [hc] at hhead
      simpa using hhead
    rw [wordRuns_of_pos hword, List.mem_cons] at h
    cases h with
    | inl h =>
      cases h
      refine ⟨Nat.le_refl _, List.cons_ne_nil _ _, ?_, [], xs.dropWhile isWord, ?_, ?_, ?_, hrest⟩
      . rw [List.forall_mem_cons]
        exact ⟨hword, fun c hc => List.mem_takeWhile_imp hc⟩
      . rw [List.nil_append, List.cons_append, List.takeWhile_append_dropWhile]
      . rw [Nat.sub_self, List.length_nil]
      . exact fun _ hc => nomatch hc
    | inr h =>
      obtain ⟨hle, hrun⟩ := ih h
      have hapart : Unjoined isWord (x :: xs.takeWhile isWord) (xs.dropWhile isWord) :=
        fun _ _ c hc hor => hrest c hc hor.2
      have hshift := hrun.shift hapart
      have hpos : (x :: xs.takeWhile isWord).length + (start - (p + 1 + (xs.takeWhile isWord).length))
          = start - p := by
        rw [List.length_cons]
        omega
      rw [List.cons_append, List.takeWhile_append_dropWhile, hpos] at hshift
      exact ⟨by omega, hshift⟩
  | case3 p x xs hword ih =>
    rw [wordRuns_of_neg hword] at h
    obtain ⟨hle, hrun⟩ := ih h
    have hapart : Unjoined isWord [x] xs := by
      intro c hc _ _ hor
      cases hc
      exact hword hor.1
    have hshift := hrun.shift hapart
    have hpos : [x].length + (start - (p + 1)) = start - p := by
      rw [List.length_singleton]
      omega
    rw [List.singleton_append, hpos] at hshift
    exact ⟨by omega, hshift⟩

theorem mem_wordRuns {start : Nat} {word : List α}
    : ⟨start, word⟩ ∈ wordRuns isWord 0 xs ↔ IsWordRun isWord xs start word := by
  constructor
  . intro h
    exact (isWordRun_of_mem h).2
  . intro h
    have hmem := h.mem (p := 0)
    rw [Nat.zero_add] at hmem
    exact hmem

theorem wordRuns_sorted : (wordRuns isWord p xs).Pairwise (·.1 < ·.1) := by
  induction p, xs using wordRuns.induct isWord with
  | case1 p =>
    rw [wordRuns_nil]
    exact .nil
  | case2 p x xs hword ih =>
    rw [wordRuns_of_pos hword, List.pairwise_cons]
    refine ⟨?_, ih⟩
    intro w hw
    have hle := (isWordRun_of_mem hw).1
    dsimp only
    omega
  | case3 p x xs hword ih =>
    rw [wordRuns_of_neg hword]
    exact ih

theorem IsWordRun.end_le {start : Nat} {word : List α} (h : IsWordRun isWord xs start word)
    : start + word.length ≤ xs.length := by
  obtain ⟨before, after, hxs, hstart, _, _⟩ := h.split
  rw [hxs, List.length_append, List.length_append, hstart]
  omega

end WordRuns

section Next

variable {α : Type} (isWord : α → Bool) (P : List α → Bool) (text : List α) (cursor : Nat)

-- The end of the word under the cursor, or the cursor if there is none.
def behindWord : Nat := cursor + ((text.drop cursor).takeWhile isWord).length

-- The next word with `P` behind the word under the cursor. At the end of the text it starts over.
def nextRun : Option (Nat × List α) :=
  let start := behindWord isWord text cursor
  ((wordRuns isWord start (text.drop start)).find? (P ·.2)).or
    ((wordRuns isWord 0 (text.take start)).find? (P ·.2))

-- How far it is to position `p` on this way.
def wayTo (p : Nat) : Nat :=
  let start := behindWord isWord text cursor
  if start ≤ p then p - start else text.length - start + p

variable {isWord P text cursor} {w : Nat × List α}

theorem drop_behindWord
    : text.drop (behindWord isWord text cursor) = (text.drop cursor).dropWhile isWord := by
  unfold behindWord
  rw [← List.drop_drop, drop_length_takeWhile]

theorem behindWord_le (h : cursor ≤ text.length) : behindWord isWord text cursor ≤ text.length := by
  have hle := (List.takeWhile_sublist isWord (l := text.drop cursor)).length_le
  rw [List.length_drop] at hle
  unfold behindWord
  omega

-- No word goes over the place where the search starts.
theorem wordRuns_behindWord (h : cursor ≤ text.length)
    : wordRuns isWord 0 text
        = wordRuns isWord 0 (text.take (behindWord isWord text cursor))
          ++ wordRuns isWord (behindWord isWord text cursor)
            (text.drop (behindWord isWord text cursor)) := by
  have hlen : (text.take (behindWord isWord text cursor)).length
      = behindWord isWord text cursor := by
    rw [List.length_take, Nat.min_eq_left (behindWord_le h)]
  have hapart : Unjoined isWord (text.take (behindWord isWord text cursor))
      (text.drop (behindWord isWord text cursor)) := by
    intro x _ y hy hor
    have hhead := List.head?_dropWhile_not isWord (text.drop cursor)
    rw [drop_behindWord, Option.mem_def] at hy
    rw [hy] at hhead
    simp [hor.2] at hhead
  have happend := wordRuns_append (p := 0) hapart
  rw [List.take_append_drop, hlen, Nat.zero_add] at happend
  exact happend

theorem first_of_find {l : List (Nat × List α)} (hsorted : l.Pairwise (·.1 < ·.1))
    (h : l.find? (P ·.2) = some w)
    : ∀ w' ∈ l, P w'.2 → w.1 ≤ w'.1 := by
  obtain ⟨_, before, after, hl, hbefore⟩ := List.find?_eq_some_iff_append.mp h
  intro w' hmem hw'
  rw [hl] at hmem hsorted
  rw [List.pairwise_append, List.pairwise_cons] at hsorted
  cases List.mem_append.mp hmem with
  | inl hin =>
    have hnot := hbefore w' hin
    rw [hw'] at hnot
    cases hnot
  | inr hin =>
    cases List.mem_cons.mp hin with
    | inl heq => rw [heq]
    | inr hin => exact (hsorted.2.1.1 w' hin).le

theorem mem_split (h : cursor ≤ text.length)
    : w ∈ wordRuns isWord 0 text
        ↔ w ∈ wordRuns isWord 0 (text.take (behindWord isWord text cursor))
          ∨ w ∈ wordRuns isWord (behindWord isWord text cursor)
            (text.drop (behindWord isWord text cursor)) := by
  rw [wordRuns_behindWord h, List.mem_append]

theorem lt_of_mem_before
    (hw : w ∈ wordRuns isWord 0 (text.take (behindWord isWord text cursor)))
    : w.1 < behindWord isWord text cursor := by
  have hrun := (isWordRun_of_mem hw).2
  have hpos := List.length_pos_iff.mpr hrun.ne_nil
  have hle := hrun.end_le
  rw [List.length_take] at hle
  omega

theorem nextRun_eq_none_iff (h : cursor ≤ text.length)
    : nextRun isWord P text cursor = none ↔ ∀ p word, IsWordRun isWord text p word → ¬P word := by
  unfold nextRun
  dsimp only
  rw [Option.or_eq_none_iff, List.find?_eq_none, List.find?_eq_none]
  constructor
  . intro hnone p word hrun
    cases (mem_split h).mp (mem_wordRuns.mpr hrun) with
    | inl hbefore => exact hnone.2 _ hbefore
    | inr hbehind => exact hnone.1 _ hbehind
  . intro hnone
    have hall : ∀ w ∈ wordRuns isWord 0 text, ¬P w.2 := fun w hw =>
      hnone w.1 w.2 (mem_wordRuns.mp hw)
    constructor
    . exact fun w hw => hall w ((mem_split h).mpr (.inr hw))
    . exact fun w hw => hall w ((mem_split h).mpr (.inl hw))

-- What is behind the start of the search comes first, each part goes from left to right.
theorem wayTo_le_of_behind {p q : Nat} (hp : behindWord isWord text cursor ≤ p) (hpq : p ≤ q)
    : wayTo isWord text cursor p ≤ wayTo isWord text cursor q := by
  unfold wayTo
  dsimp only
  rw [if_pos hp, if_pos (hp.trans hpq)]
  omega

theorem wayTo_le_of_wrap {p q : Nat} (hp : behindWord isWord text cursor ≤ p) (htext : p ≤ text.length)
    (hq : q < behindWord isWord text cursor)
    : wayTo isWord text cursor p ≤ wayTo isWord text cursor q := by
  unfold wayTo
  dsimp only
  rw [if_pos hp, if_neg (Nat.not_le.mpr hq)]
  omega

theorem wayTo_le_of_before {p q : Nat} (hpq : p ≤ q) (hq : q < behindWord isWord text cursor)
    : wayTo isWord text cursor p ≤ wayTo isWord text cursor q := by
  unfold wayTo
  dsimp only
  rw [if_neg (by omega), if_neg (Nat.not_le.mpr hq)]
  omega

theorem nextRun_some (h : cursor ≤ text.length) (hnext : nextRun isWord P text cursor = some w)
    : IsWordRun isWord text w.1 w.2 ∧ P w.2
      ∧ ∀ p word, IsWordRun isWord text p word → P word
        → wayTo isWord text cursor w.1 ≤ wayTo isWord text cursor p := by
  unfold nextRun at hnext
  dsimp only at hnext
  rw [Option.or_eq_some_iff] at hnext
  cases hnext with
  | inl hbehind =>
    have hmem := List.mem_of_find?_eq_some hbehind
    have hbehindP := List.find?_some (p := fun w : Nat × List α => P w.2) hbehind
    have hle := (isWordRun_of_mem hmem).1
    have hrunHere := mem_wordRuns.mp ((mem_split h).mpr (.inr hmem))
    have hend := hrunHere.end_le
    refine ⟨hrunHere, hbehindP, ?_⟩
    intro p word hrun hword
    cases (mem_split h).mp (mem_wordRuns.mpr hrun) with
    | inl hin => exact wayTo_le_of_wrap hle (by omega) (lt_of_mem_before hin)
    | inr hin => exact wayTo_le_of_behind hle (first_of_find wordRuns_sorted hbehind _ hin hword)
  | inr hwrap =>
    have hmem := List.mem_of_find?_eq_some hwrap.2
    have hwrapP := List.find?_some (p := fun w : Nat × List α => P w.2) hwrap.2
    refine ⟨mem_wordRuns.mp ((mem_split h).mpr (.inl hmem)), hwrapP, ?_⟩
    intro p word hrun hword
    cases (mem_split h).mp (mem_wordRuns.mpr hrun) with
    | inl hin =>
      have hfirst := first_of_find wordRuns_sorted hwrap.2 _ hin hword
      exact wayTo_le_of_before hfirst (lt_of_mem_before hin)
    | inr hin => exact absurd hword (List.find?_eq_none.mp hwrap.1 _ hin)

end Next
