import DismasmOS.Lib.Words
import DismasmOS.Shell.Lemmas.Line

/-!
This module contains the arguments that `tokenize` makes of a command line: they are the runs of its
characters that are no blanks, but nothing ends the last of them.
-/

namespace DismasmOS

section Text

variable {line : List UInt8} {c : UInt8} {rest : List UInt8}

theorem words_skipBlanks (line : List UInt8) : words isBlank (skipBlanks line) = words isBlank line :=
  words_dropWhile isBlank line

theorem words_of_skipBlanks_nil (h : skipBlanks line = []) : words isBlank line = [] := by
  rw [← words_skipBlanks, h, words_nil]

theorem isBlank_of_skipBlanks (h : skipBlanks line = c :: rest) : isBlank c = false := by
  have hhead := List.head?_dropWhile_not isBlank line
  unfold skipBlanks at h
  rw [h, List.head?_cons] at hhead
  simpa using hhead

theorem words_of_skipBlanks_cons (h : skipBlanks line = c :: rest)
    : words isBlank line
        =
      (c :: rest).takeWhile (!isBlank ·) :: words isBlank ((c :: rest).dropWhile (!isBlank ·)) := by
  rw [← words_skipBlanks, h, words_cons_of_neg (isBlank_of_skipBlanks h)]

-- The number of runs leaves room for the end of the last argument, or nothing stands behind it.
def TokensEnd (line : List UInt8) (maxArgs : Nat) : Prop :=
  (words isBlank line).length < maxArgs
    ∨ (words isBlank line).length = maxArgs ∧ EndsInRun isBlank line

theorem length_tokenize (line : List UInt8) (maxArgs : Nat)
    : (tokenize line maxArgs).length = min maxArgs (words isBlank line).length := by
  induction maxArgs generalizing line with
  | zero =>
    rw [Nat.zero_min]
    rfl
  | succ maxArgs ih =>
    unfold tokenize
    dsimp only
    cases hskip : skipBlanks line with
    | nil =>
      rw [if_pos rfl, words_of_skipBlanks_nil hskip]
      simp
    | cons c rest =>
      rw [if_neg (List.cons_ne_nil c rest), words_of_skipBlanks_cons hskip, List.length_cons]
      split
      . next hzero =>
        rw [List.length_singleton]
        omega
      . rw [List.length_cons, ih]
        omega

theorem endsInRun_of_skipBlanks (h : skipBlanks line = c :: rest)
    : EndsInRun isBlank line ↔ EndsInRun isBlank ((c :: rest).dropWhile (!isBlank ·)) := by
  have hne : line.dropWhile isBlank ≠ [] := by
    unfold skipBlanks at h
    rw [h]
    exact List.cons_ne_nil c rest
  have hrun : ∀ x ∈ (c :: rest).takeWhile (!isBlank ·), isBlank x = false := by
    intro x hx
    simpa using List.mem_takeWhile_imp hx
  have happend : EndsInRun isBlank
      ((c :: rest).takeWhile (!isBlank ·) ++ (c :: rest).dropWhile (!isBlank ·))
        ↔ EndsInRun isBlank ((c :: rest).dropWhile (!isBlank ·)) := endsInRun_append hrun
  rw [List.takeWhile_append_dropWhile] at happend
  unfold skipBlanks at h
  rw [← endsInRun_dropWhile hne, h, happend]

theorem tokensEnd_one (h : skipBlanks line = c :: rest)
    : TokensEnd line 1 ↔ (c :: rest).dropWhile (!isBlank ·) = [] := by
  unfold TokensEnd
  rw [words_of_skipBlanks_cons h, endsInRun_of_skipBlanks h, List.length_cons]
  constructor
  . rintro (hlt | ⟨hlength, hends⟩)
    . omega
    . rw [← endsInRun_of_words_nil]
      . exact hends
      . exact List.eq_nil_of_length_eq_zero (by omega)
  . intro hnil
    rw [hnil, words_nil]
    exact .inr ⟨rfl, by simp [EndsInRun]⟩

theorem tokensEnd_succ (h : skipBlanks line = c :: rest) (maxArgs : Nat)
    : TokensEnd line (maxArgs + 1) ↔ TokensEnd ((c :: rest).dropWhile (!isBlank ·)) maxArgs := by
  unfold TokensEnd
  rw [words_of_skipBlanks_cons h, endsInRun_of_skipBlanks h, List.length_cons]
  simp only [Nat.add_lt_add_iff_right, Nat.add_right_cancel_iff]

theorem takeWhile_eq_self_iff (p : UInt8 → Bool) (s : List UInt8)
    : s = s.takeWhile p ↔ s.dropWhile p = [] := by
  rw [List.dropWhile_eq_nil_iff, eq_comm, List.takeWhile_eq_self_iff]

theorem tokenize_words_nil (h : skipBlanks line = []) (maxArgs : Nat)
    : tokenize line (maxArgs + 1) = (words isBlank line).take (maxArgs + 1)
        ↔ TokensEnd line (maxArgs + 1) := by
  unfold tokenize TokensEnd
  dsimp only
  rw [if_pos h, words_of_skipBlanks_nil h]
  simp

theorem tokenize_words_iff (line : List UInt8) (maxArgs : Nat)
    : tokenize line (maxArgs + 1) = (words isBlank line).take (maxArgs + 1)
        ↔ TokensEnd line (maxArgs + 1) := by
  induction maxArgs generalizing line with
  | zero =>
    cases hskip : skipBlanks line with
    | nil => exact tokenize_words_nil hskip 0
    | cons c rest =>
      unfold tokenize
      dsimp only
      rw [hskip]
      rw [if_neg (List.cons_ne_nil c rest), if_pos rfl, Nat.zero_add, tokensEnd_one hskip,
        words_of_skipBlanks_cons hskip, List.take_succ_cons, List.take_zero, List.cons_eq_cons,
        takeWhile_eq_self_iff]
      exact and_iff_left rfl
  | succ maxArgs ih =>
    cases hskip : skipBlanks line with
    | nil => exact tokenize_words_nil hskip (maxArgs + 1)
    | cons c rest =>
      unfold tokenize
      dsimp only
      rw [hskip]
      rw [if_neg (List.cons_ne_nil c rest), if_neg (Nat.succ_ne_zero maxArgs), tokensEnd_succ hskip,
        words_of_skipBlanks_cons hskip, List.take_succ_cons, List.cons_eq_cons, ih]
      exact and_iff_right rfl

end Text

section Array

variable {n : Nat}

-- What `tokenize` returns, and what the strings at its pointers read as.
structure ArgvReads (r : List Nat × CharArray n) (maxArgs : Nat) (runs : List (List UInt8)) : Prop where
  argc : r.1.length = min maxArgs runs.length
  argv : ∀ i, ∀ h : i < r.1.length, runs[i]? = some (r.2.strAt r.1[i])

theorem argvReads_iff {r : List Nat × CharArray n} {maxArgs : Nat} {runs : List (List UInt8)}
    (hargc : r.1.length = min maxArgs runs.length)
    : ArgvReads r maxArgs runs ↔ r.1.map r.2.strAt = runs.take maxArgs := by
  constructor
  . intro h
    apply List.ext_getElem?
    intro i
    rw [List.getElem?_map, List.getElem?_take]
    split
    . next hi =>
      by_cases hlt : i < r.1.length
      . rw [h.argv i hlt, List.getElem?_eq_getElem hlt]
        rfl
      . rw [List.getElem?_eq_none (by omega), List.getElem?_eq_none (by omega)]
        rfl
    . rw [List.getElem?_eq_none (by omega)]
      rfl
  . intro h
    constructor
    . exact hargc
    . intro i hi
      have heq : (r.1.map r.2.strAt)[i]? = (runs.take maxArgs)[i]? := by rw [h]
      rw [List.getElem?_map, List.getElem?_eq_getElem hi, Option.map_some,
        List.getElem?_take_of_lt] at heq
      . exact heq.symm
      . omega

theorem tokenizeAt_reads_iff (a : CharArray n) (p : Nat)
    : ArgvReads (a.tokenizeAt p MAX_ARGS) MAX_ARGS (words isBlank (a.strAt p))
        ↔ TokensEnd (a.strAt p) MAX_ARGS := by
  have h := a.tokenizeAt_tokenized p MAX_ARGS
  have hargc : (a.tokenizeAt p MAX_ARGS).1.length
      = min MAX_ARGS (words isBlank (a.strAt p)).length := by
    rw [← length_tokenize, ← h.args, List.length_map]
  rw [argvReads_iff hargc, h.args]
  exact tokenize_words_iff (a.strAt p) 15

theorem tokenize_seventeen_not_reads
    : let line := (CharArray.zero 128).assign (str "echo 1 2 3 4 5 6 7 8 9 10 11 12 13 14 15 16")
      ((line.tokenizeAt 0 MAX_ARGS).1.map (line.tokenizeAt 0 MAX_ARGS).2.strAt)[15]?
          = some (str "15 16")
        ∧ ¬ArgvReads (line.tokenizeAt 0 MAX_ARGS) MAX_ARGS (words isBlank (line.strAt 0)) := by
  constructor
  . decide
  . intro h
    have hargv := h.argv 15 (by decide)
    exact absurd hargv (by decide)

end Array

end DismasmOS
