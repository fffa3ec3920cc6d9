import Mathlib.Data.List.DropRight
import Mathlib.Data.List.TakeWhile
import DismasmOS.Lib.FixedBuffer
import DismasmOS.Lib.Occurrence
import DismasmOS.Lib.WordRuns
import DismasmOS.Str.Impl

/-!
This module contains what the functions of `string.c` compute, in terms of the characters in front
of the terminators.
-/

namespace DismasmOS

section Blanks

theorem isBlank_iff {c : UInt8} : isBlank c ↔ c = chr ' ' ∨ c = chr '\t' := by
  unfold isBlank
  rw [Bool.or_eq_true, decide_eq_true_iff, decide_eq_true_iff]

theorem dropWhile_eq_self {p : UInt8 → Bool} {s : List UInt8} (h : ¬p (s.headD NUL))
    : s.dropWhile p = s := by
  cases s with
  | nil => rfl
  | cons c s =>
    rw [List.headD_cons] at h
    rw [List.dropWhile_cons_of_neg h]

theorem skipBlanks_eq_self {s : List UInt8} (h : ¬isBlank (s.headD NUL)) : skipBlanks s = s :=
  dropWhile_eq_self h

theorem skipBlanks_skipBlanks (s : List UInt8) : skipBlanks (skipBlanks s) = skipBlanks s :=
  List.dropWhile_idempotent _ s

theorem skipBlanks_append {w : List UInt8} (hw : ∀ c ∈ w, isBlank c) (s : List UInt8)
    : skipBlanks (w ++ s) = skipBlanks s := by
  unfold skipBlanks
  exact List.dropWhile_append_of_pos hw

end Blanks

section Cstr

@[simp]
theorem cstr_nil : cstr [] = [] := rfl

theorem cstr_cons (c : UInt8) (s : List UInt8)
    : cstr (c :: s) = if c = NUL then [] else c :: cstr s := by
  unfold cstr
  rw [List.takeWhile_cons]
  by_cases hc : c = NUL <;> simp [hc]

theorem nulFree_cstr (s : List UInt8) : NulFree (cstr s) := by
  unfold NulFree cstr
  intro hmem
  have := List.mem_takeWhile_imp hmem
  simp at this

theorem NulFree.cons {c : UInt8} {s : List UInt8} : NulFree (c :: s) ↔ c ≠ NUL ∧ NulFree s := by
  unfold NulFree
  simp [eq_comm]

theorem NulFree.append {s t : List UInt8} : NulFree (s ++ t) ↔ NulFree s ∧ NulFree t := by
  unfold NulFree
  simp

theorem NulFree.sublist {s t : List UInt8} (h : NulFree t) (hst : s.Sublist t) : NulFree s :=
  fun hmem => h (hst.subset hmem)

theorem NulFree.cstr {s : List UInt8} (h : NulFree s) : cstr s = s := by
  unfold DismasmOS.cstr
  rw [List.takeWhile_eq_self_iff]
  intro c hc
  simp only [decide_not, Bool.not_eq_eq_eq_not, Bool.not_true, decide_eq_false_iff_not]
  rintro rfl
  exact h hc

theorem NulFree.cstr_append {s : List UInt8} (h : NulFree s) (t : List UInt8)
    : DismasmOS.cstr (s ++ t) = s ++ DismasmOS.cstr t := by
  induction s with
  | nil => rfl
  | cons c s ih =>
    rw [NulFree.cons] at h
    rw [List.cons_append, cstr_cons, if_neg h.1, ih h.2, List.cons_append]

theorem NulFree.cstr_append_nul {s : List UInt8} (h : NulFree s) (rest : List UInt8)
    : DismasmOS.cstr (s ++ NUL :: rest) = s := by
  rw [h.cstr_append, cstr_cons, if_pos rfl, List.append_nil]

theorem cstr_eq_headD (s : List UInt8)
    : cstr s = if s.headD NUL = NUL then [] else s.headD NUL :: cstr s.tail := by
  cases s with
  | nil => simp
  | cons c s => simp [cstr_cons]

theorem headD_eq_nul_iff (s : List UInt8) : s.headD NUL = NUL ↔ cstr s = [] := by
  rw [cstr_eq_headD]
  split
  . next h => exact iff_of_true h rfl
  . next h => exact iff_of_false h (List.cons_ne_nil _ _)

theorem strlen_eq (s : List UInt8) : strlen s = (cstr s).length := by
  induction s with
  | nil => rfl
  | cons c s ih =>
    unfold strlen
    rw [cstr_cons, ih]
    split <;> simp

theorem NulFree.strlen_eq {s : List UInt8} (h : NulFree s) : strlen s = s.length := by
  rw [DismasmOS.strlen_eq, h.cstr]

theorem getD_cstr {s : List UInt8} {i : Nat} (h : i ≤ (cstr s).length)
    : s.getD i NUL = (cstr s).getD i NUL := by
  induction s generalizing i with
  | nil => rfl
  | cons c s ih =>
    rw [cstr_cons] at h ⊢
    split
    . next hc =>
      rw [if_pos hc, List.length_nil, Nat.le_zero] at h
      rw [h, hc]
      rfl
    . next hc =>
      rw [if_neg hc] at h
      cases i with
      | zero => rfl
      | succ i =>
        rw [List.length_cons] at h
        simp only [List.getD_cons_succ]
        apply ih
        omega

theorem cstr_drop {s : List UInt8} {k : Nat} (h : k ≤ (cstr s).length)
    : cstr (s.drop k) = (cstr s).drop k := by
  induction k generalizing s with
  | zero => rfl
  | succ k ih =>
    cases s with
    | nil => rfl
    | cons c s =>
      rw [cstr_cons] at h ⊢
      split
      . next hc =>
        rw [if_pos hc] at h
        simp at h
      . next hc =>
        rw [if_neg hc, List.length_cons] at h
        rw [List.drop_succ_cons, List.drop_succ_cons]
        apply ih
        omega

theorem headD_cstr (s : List UInt8) : (cstr s).headD NUL = s.headD NUL := by
  rw [cstr_eq_headD]
  split
  . next h => exact h.symm
  . rfl

theorem length_cstr_lt {s : List UInt8} (hnul : NUL ∈ s) : (cstr s).length < s.length := by
  have hprefix : cstr s <+: s := List.takeWhile_prefix _
  apply Nat.lt_of_le_of_ne hprefix.length_le
  intro hlen
  rw [← hprefix.eq_of_length hlen] at hnul
  exact nulFree_cstr s hnul

end Cstr

section Compare

theorem toNat_sub_eq_zero (c d : UInt8) : (c.toNat : Int) - d.toNat = 0 ↔ c = d := by
  rw [← UInt8.toNat_inj]
  omega

theorem strcmp_eq_zero_iff (s1 s2 : List UInt8) : strcmp s1 s2 = 0 ↔ cstr s1 = cstr s2 := by
  induction s1 generalizing s2 with
  | nil =>
    unfold strcmp
    rw [toNat_sub_eq_zero, cstr_nil, cstr_eq_headD s2, eq_comm]
    split <;> simp_all
  | cons c s1 ih =>
    unfold strcmp
    rw [cstr_cons, cstr_eq_headD s2]
    split
    . next h =>
      rw [ih, ← h.2, if_neg h.1, if_neg h.1]
      simp
    . next h =>
      rw [toNat_sub_eq_zero]
      grind

theorem NulFree.strcmp_eq_zero_iff {s1 s2 : List UInt8} (h1 : NulFree s1) (h2 : NulFree s2)
    : strcmp s1 s2 = 0 ↔ s1 = s2 := by
  rw [DismasmOS.strcmp_eq_zero_iff, h1.cstr, h2.cstr]

theorem strncmp_eq_zero_iff {s t : List UInt8} {n : Nat} (ht : NulFree t) (hn : n ≤ t.length)
    : strncmp s t n = 0 ↔ t.take n <+: s := by
  induction n generalizing s t with
  | zero => exact iff_of_true rfl List.nil_prefix
  | succ n ih =>
    obtain ⟨d, t, rfl⟩ := List.exists_cons_of_length_pos (Nat.zero_lt_of_lt hn)
    rw [NulFree.cons] at ht
    rw [strncmp, List.headD_cons, List.tail_cons, List.take_succ_cons]
    by_cases hhead : s.headD NUL = d
    . rw [if_pos ⟨hhead ▸ ht.1, hhead⟩, ih ht.2 (Nat.le_of_succ_le_succ hn)]
      cases s with
      | nil => exact absurd hhead.symm ht.1
      | cons c s =>
        rw [List.headD_cons] at hhead
        rw [hhead, List.tail_cons, List.prefix_cons_inj]
    . rw [if_neg (fun hand => hhead hand.2), toNat_sub_eq_zero]
      refine iff_of_false hhead ?_
      rintro ⟨rest, rfl⟩
      exact hhead rfl

end Compare

section Strchr

variable {c : UInt8} {s : List UInt8}

theorem strchr_eq (hc : c ≠ NUL) (s : List UInt8) : strchr s c = (cstr s).idxOf? c := by
  induction s with
  | nil => exact if_neg hc
  | cons d s ih =>
    rw [strchr, cstr_cons, ih]
    by_cases hd : d = c
    . rw [if_pos hd, if_neg (hd ▸ hc), List.idxOf?_cons, if_pos (beq_iff_eq.mpr hd)]
    . rw [if_neg hd]
      split
      . rfl
      . rw [List.idxOf?_cons, if_neg (fun heq => hd (beq_iff_eq.mp heq))]

theorem strchr_eq_none_iff (hc : c ≠ NUL) : strchr s c = none ↔ c ∉ cstr s := by
  rw [strchr_eq hc, List.idxOf?_eq_none_iff]

theorem strchr_append (hc : c ∉ s) (hnul : NulFree s) (t : List UInt8)
    : strchr (s ++ c :: t) c = some s.length := by
  induction s with
  | nil => exact if_pos rfl
  | cons d s ih =>
    rw [NulFree.cons] at hnul
    rw [List.mem_cons, not_or] at hc
    rw [List.cons_append, strchr, if_neg (Ne.symm hc.1), if_neg hnul.1, ih hc.2 hnul.2]
    rfl

end Strchr

section Search

variable {haystack needle : List UInt8} {i : Nat}

theorem strstrHere_iff : strstrHere haystack needle ↔ cstr needle <+: cstr haystack := by
  induction needle generalizing haystack with
  | nil => exact iff_of_true rfl List.nil_prefix
  | cons n needle ih =>
    unfold strstrHere
    rw [cstr_cons]
    by_cases hn : n = NUL
    . rw [if_pos hn, if_pos hn]
      exact iff_of_true rfl List.nil_prefix
    . rw [if_neg hn, if_neg hn, cstr_eq_headD haystack]
      by_cases hhead : haystack.headD NUL = NUL
      . rw [if_pos hhead, if_neg (fun hor => hor.1 hhead), List.prefix_nil]
        exact iff_of_false Bool.false_ne_true (List.cons_ne_nil _ _)
      . rw [if_neg hhead, List.cons_prefix_cons, eq_comm (a := n)]
        by_cases heq : haystack.headD NUL = n
        . rw [if_pos ⟨hhead, heq⟩, ih, and_iff_right heq]
        . rw [if_neg (fun hor => heq hor.2)]
          exact iff_of_false Bool.false_ne_true fun hor => heq hor.1

theorem strstrLoop_eq_some_iff (hne : cstr needle ≠ [])
    : strstrLoop haystack needle = some i ↔ FirstAt (cstr needle) (cstr haystack) i := by
  induction haystack generalizing i with
  | nil => exact iff_of_false (fun h => nomatch h) (not_firstAt_nil hne)
  | cons h haystack ih =>
    have hhere : strstrHere (h :: haystack) needle ↔ cstr needle <+: cstr (h :: haystack) :=
      strstrHere_iff
    unfold strstrLoop
    by_cases hnul : h = NUL
    . rw [if_pos hnul, cstr_cons, if_pos hnul]
      exact iff_of_false (fun h => nomatch h) (not_firstAt_nil hne)
    . rw [cstr_cons, if_neg hnul] at hhere ⊢
      rw [if_neg hnul]
      by_cases hstart : cstr needle <+: h :: cstr haystack
      . have hhead : h = needle.headD NUL := by
          rw [cstr_eq_headD needle] at hstart hne
          split at hstart
          . next hend => exact absurd (if_pos hend) hne
          . rw [List.cons_prefix_cons] at hstart
            exact hstart.1.symm
        have hfirst := firstAt_zero_iff.mpr hstart
        rw [if_pos ⟨hhead, hhere.mpr hstart⟩, Option.some_inj]
        constructor
        . rintro rfl
          exact hfirst
        . exact hfirst.unique
      . rw [if_neg (fun hor => hstart (hhere.mp hor.2)), Option.map_eq_some_iff]
        cases i with
        | zero =>
          rw [firstAt_zero_iff]
          exact iff_of_false (fun ⟨j, _, hj⟩ => Nat.succ_ne_zero j hj) hstart
        | succ i =>
          rw [firstAt_succ_iff, and_iff_right hstart, ← ih]
          constructor
          . rintro ⟨j, hj, heq⟩
            rw [hj, Nat.succ.inj heq]
          . intro hloop
            exact ⟨i, hloop, rfl⟩

theorem strstr_eq_some_iff
    : strstr haystack needle = some i ↔ FirstAt (cstr needle) (cstr haystack) i := by
  unfold strstr
  by_cases hend : needle.headD NUL = NUL
  . have hfirst : FirstAt (cstr needle) (cstr haystack) 0 := by
      rw [firstAt_zero_iff, cstr_eq_headD needle, if_pos hend]
      exact List.nil_prefix
    rw [if_pos hend, Option.some_inj]
    constructor
    . rintro rfl
      exact hfirst
    . exact hfirst.unique
  . rw [if_neg hend]
    apply strstrLoop_eq_some_iff
    rw [cstr_eq_headD, if_neg hend]
    exact List.cons_ne_nil _ _

theorem strstr_isSome_iff : (strstr haystack needle).isSome ↔ cstr needle <:+: cstr haystack := by
  rw [Option.isSome_iff_exists, ← exists_firstAt_iff]
  exact exists_congr fun _ => strstr_eq_some_iff

theorem strstr_leftmost (haystack needle : List UInt8)
    : (∀ i, strstr haystack needle = some i ↔ FirstAt (cstr needle) (cstr haystack) i)
        ∧ (strstr haystack needle = none ↔ ¬cstr needle <:+: cstr haystack) := by
  constructor
  . intro i
    exact strstr_eq_some_iff
  . rw [← strstr_isSome_iff, Option.not_isSome_iff_eq_none]

end Search

section Copy

theorem memcpy_eq (dest src : List UInt8) (n : Nat) (hsrc : n ≤ src.length) (hdest : n ≤ dest.length)
    : memcpy dest src n = src.take n ++ dest.drop n := by
  induction n generalizing dest src with
  | zero => cases dest <;> simp [memcpy]
  | succ n ih =>
    cases dest with
    | nil => simp at hdest
    | cons d dest =>
      cases src with
      | nil => simp at hsrc
      | cons c src =>
        unfold memcpy
        simp only [List.headD_cons, List.tail_cons]
        rw [ih dest src (by simpa using hsrc) (by simpa using hdest)]
        simp

-- `strncpy` fills up with NULs, whether or not there was room for the terminator.
theorem strncpy_eq (dest src : List UInt8) (n : Nat) (hdest : n ≤ dest.length)
    : strncpy dest src n
        = (cstr src).take n ++ List.replicate (n - (cstr src).length) NUL ++ dest.drop n := by
  induction n generalizing dest src with
  | zero => cases dest <;> simp [strncpy]
  | succ n ih =>
    cases dest with
    | nil => simp at hdest
    | cons d dest =>
      have hn : n ≤ dest.length := by simpa using hdest
      unfold strncpy
      rw [cstr_eq_headD src]
      split
      . next h =>
        rw [ih dest src.tail hn]
        simp
      . next h =>
        rw [ih dest [] hn, if_pos (by simpa using h)]
        simp [List.replicate_succ]

end Copy

section Concat

variable {size : Nat} {dest src : List UInt8}

theorem strcatIn_eq (hdest : NulFree dest) (hsrc : NulFree src)
    : strcatIn size dest src = appendIn size dest src := by
  unfold strcatIn appendIn strcat
  rw [hdest.cstr, hsrc.cstr, List.length_append]

theorem strcatAllIn_eq {parts : List (List UInt8)} (hdest : NulFree dest)
    (hparts : ∀ part ∈ parts, NulFree part)
    : parts.foldlM (strcatIn size) dest = appendAllIn size dest parts := by
  unfold appendAllIn
  induction parts generalizing dest with
  | nil => rfl
  | cons part parts ih =>
    rw [List.forall_mem_cons] at hparts
    rw [List.foldlM_cons, List.foldlM_cons, strcatIn_eq hdest hparts.1]
    apply Option.bind_congr
    intro out hout
    apply ih _ hparts.2
    rw [appendIn_some hout, NulFree.append]
    exact ⟨hdest, hparts.1⟩

end Concat

namespace CharArray

variable {n : Nat}

theorem str_set_nul (a : CharArray n) {k : Nat} (hk : k < n) (h : NulFree (a.chars.take k))
    : (a.set k NUL).str = a.chars.take k := by
  have hlen := a.length_chars
  have hset : (a.set k NUL).chars = a.chars.take k ++ NUL :: a.chars.drop (k + 1) := by
    unfold set
    dsimp only
    rw [List.set_eq_take_append_cons_drop, if_pos (by omega)]
  unfold str
  rw [hset, h.cstr_append_nul]

theorem chars_assign (a : CharArray (n + 1)) (src : List UInt8)
    : (a.assign src).chars = (cstr src).take n ++ List.replicate (n - (cstr src).length + 1) NUL := by
  have hlen := a.length_chars
  unfold assign set strncpy
  dsimp only
  rw [Nat.add_sub_cancel]
  rw [strncpy_eq _ _ _ (by omega)]
  have hfront : ((cstr src).take n ++ List.replicate (n - (cstr src).length) NUL).length = n := by
    simp only [List.length_append, List.length_take, List.length_replicate]
    omega
  rw [List.set_append_right _ _ (by omega), hfront, Nat.sub_self]
  have hrest : ∃ c, a.chars.drop n = [c] := by
    rw [← List.length_eq_one_iff, List.length_drop]
    omega
  obtain ⟨c, hc⟩ := hrest
  rw [hc, List.set_cons_zero, List.replicate_succ', List.append_assoc]

theorem str_assign (a : CharArray n) (hn : 0 < n) (src : List UInt8)
    : (a.assign src).str = (cstr src).take (n - 1) := by
  cases n with
  | zero => omega
  | succ n =>
    have hfree : NulFree ((cstr src).take n) := (nulFree_cstr src).sublist (List.take_sublist _ _)
    unfold str
    rw [chars_assign, List.replicate_succ, hfree.cstr_append_nul]
    rfl

end CharArray

section Numbers

variable {fuel : Nat}

theorem itoaDigits_ne_nul {n : Int} : ∀ c ∈ itoaDigits fuel n, c ≠ NUL := by
  induction fuel generalizing n with
  | zero => exact fun _ hc => nomatch hc
  | succ fuel ih =>
    rw [itoaDigits]
    split
    . exact fun _ hc => nomatch hc
    . rw [List.forall_mem_cons]
      refine ⟨?_, ih⟩
      have hzero : (chr '0').toNat = 48 := rfl
      have hlt := Int.tmod_lt_of_pos n (show 0 < 10 by decide)
      have hgt : -10 < n.tmod 10 := by
        have hneg := Int.tmod_lt_of_pos (-n) (show 0 < 10 by decide)
        rw [Int.neg_tmod] at hneg
        omega
      intro heq
      have hnat := congrArg UInt8.toNat heq
      rw [UInt8.toNat_ofNat', hzero] at hnat
      change _ = 0 at hnat
      omega

theorem nulFree_itoa (n : Int) : NulFree (itoa n) := by
  unfold itoa
  split
  . decide
  . dsimp only
    intro hmem
    rw [List.mem_reverse] at hmem
    split at hmem
    . rw [List.mem_append] at hmem
      cases hmem with
      | inl hdigit => exact itoaDigits_ne_nul _ hdigit rfl
      | inr hminus => exact absurd hminus (by decide)
    . exact itoaDigits_ne_nul _ hmem rfl

theorem utoaHexDigits_ne_nul {n : UInt64} : ∀ c ∈ utoaHexDigits fuel n, c ≠ NUL := by
  induction fuel generalizing n with
  | zero => exact fun _ hc => nomatch hc
  | succ fuel ih =>
    rw [utoaHexDigits]
    split
    . rw [List.forall_mem_cons]
      refine ⟨?_, ih⟩
      have hdigits : ∀ d < 16, (str "0123456789ABCDEF").getD d NUL ≠ NUL := by decide
      apply hdigits
      have hle : (n &&& 0xF).toNat ≤ 0xF := by
        rw [UInt64.toNat_and]
        exact Nat.and_le_right
      omega
    . exact fun _ hc => nomatch hc

theorem nulFree_utoaHex (n : UInt64) : NulFree (utoaHex n) := by
  unfold utoaHex
  split
  . decide
  . intro hmem
    exact utoaHexDigits_ne_nul _ (List.mem_reverse.mp hmem) rfl

end Numbers

end DismasmOS
