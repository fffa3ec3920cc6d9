import DismasmOS.Shell.Line
import DismasmOS.Shell.Lemmas.Dispatch

/-!
This module contains the strings that lie in an array while a command line is cut up in it: which string
each write shortens, and which strings it leaves as they are.
-/

namespace DismasmOS

section Strings

theorem cstr_cut {s t : List UInt8} {k : Nat} (hsame : ∀ i < k, t.getD i NUL = s.getD i NUL)
    (hnul : t.getD k NUL = NUL) (hk : k ≤ (cstr s).length)
    : cstr t = (cstr s).take k := by
  induction k generalizing s t with
  | zero =>
    rw [cstr_eq_headD, if_pos, List.take_zero]
    rw [List.headD_eq_getD]
    exact hnul
  | succ k ih =>
    cases s with
    | nil => simp at hk
    | cons c s =>
      rw [cstr_cons] at hk
      split at hk
      . simp at hk
      . next hc =>
        have hhead : t.headD NUL = c := by
          rw [List.headD_eq_getD, hsame 0 (by omega)]
          rfl
        rw [cstr_eq_headD, hhead, if_neg hc, cstr_cons, if_neg hc, List.take_succ_cons]
        congr 1
        rw [List.length_cons] at hk
        apply ih
        . intro i hi
          have hnext := hsame (i + 1) (by omega)
          rw [List.getD_cons_succ] at hnext
          rw [← hnext]
          cases t <;> rfl
        . cases t with
          | nil => rfl
          | cons d t => exact hnul
        . omega

theorem isBlank_nul : isBlank NUL = false := by decide

theorem takeWhile_cstr {p : UInt8 → Bool} (hp : p NUL = false) (s : List UInt8)
    : (cstr s).takeWhile p = s.takeWhile p := by
  induction s with
  | nil => rfl
  | cons c s ih =>
    rw [cstr_cons]
    split
    . next hc => simp [hc, hp]
    . rw [List.takeWhile_cons, List.takeWhile_cons, ih]

theorem stripBlanks_nil : stripBlanks [] = [] := rfl

theorem stripBlanks_concat (s : List UInt8) (c : UInt8)
    : stripBlanks (s ++ [c]) = if isBlank c then stripBlanks s else s ++ [c] := by
  unfold stripBlanks
  rw [List.reverse_append, List.reverse_singleton, List.singleton_append, List.dropWhile_cons]
  split
  . rfl
  . rw [List.reverse_cons, List.reverse_reverse]

theorem isPrefix_stripBlanks (s : List UInt8) : stripBlanks s <+: s := by
  unfold stripBlanks
  rw [← List.reverse_suffix, List.reverse_reverse]
  exact List.dropWhile_suffix _

end Strings

section Blanks

theorem stripBlanks_cons (c : UInt8) (s : List UInt8)
    : stripBlanks (c :: s) = if isBlank c ∧ stripBlanks s = [] then [] else c :: stripBlanks s := by
  unfold stripBlanks
  rw [List.reverse_cons, List.dropWhile_append]
  by_cases hs : s.reverse.dropWhile isBlank = []
  . rw [hs]
    by_cases hc : isBlank c <;> simp [hc]
  . simp [hs]

theorem skipBlanks_stripBlanks (s : List UInt8)
    : skipBlanks (stripBlanks s) = stripBlanks (skipBlanks s) := by
  induction s with
  | nil => rfl
  | cons c s ih =>
    by_cases hc : isBlank c
    . have hskip : skipBlanks (c :: s) = skipBlanks s := by
        unfold skipBlanks
        rw [List.dropWhile_cons_of_pos hc]
      rw [hskip, stripBlanks_cons, ← ih]
      split
      . next h => rw [h.2]
      . unfold skipBlanks
        rw [List.dropWhile_cons_of_pos hc]
    . have hskip : skipBlanks (c :: s) = c :: s := by
        unfold skipBlanks
        rw [List.dropWhile_cons_of_neg hc]
      rw [hskip, stripBlanks_cons, if_neg (fun h => hc h.1)]
      unfold skipBlanks
      rw [List.dropWhile_cons_of_neg hc]

theorem skipBlanks_trimmed (s : List UInt8) : skipBlanks (trimmed s) = trimmed s := by
  unfold trimmed
  rw [skipBlanks_stripBlanks, skipBlanks_skipBlanks]

theorem tokenize_congr {s t : List UInt8} (h : skipBlanks s = skipBlanks t) (n : Nat)
    : tokenize s n = tokenize t n := by
  cases n with
  | zero => rfl
  | succ n =>
    unfold tokenize
    rw [h]

end Blanks

namespace CharArray

variable {n : Nat} {a b : CharArray n} {p k : Nat}

theorem get_set_nul (a : CharArray n) (i j : Nat)
    : (a.set i NUL).get j = if i = j then NUL else a.get j := by
  unfold set get
  dsimp only
  simp only [List.getD_eq_getElem?_getD, List.getElem?_set]
  split
  . split <;> rfl
  . rfl

theorem get_drop (a : CharArray n) (p i : Nat) : (a.chars.drop p).getD i NUL = a.get (p + i) := by
  unfold get
  simp only [List.getD_eq_getElem?_getD, List.getElem?_drop]

theorem get_add (h : k ≤ (a.strAt p).length) : a.get (p + k) = (a.strAt p).getD k NUL := by
  rw [← get_drop]
  exact getD_cstr h

theorem get_end (a : CharArray n) (p : Nat) : a.get (p + (a.strAt p).length) = NUL := by
  rw [get_add (Nat.le_refl _)]
  simp

theorem strAt_eq_nil_iff : a.strAt p = [] ↔ a.get p = NUL := by
  unfold strAt
  rw [cstr_eq_headD, List.headD_eq_getD, get_drop, Nat.add_zero]
  split
  . next h => simp [h]
  . next h => simp [h]

theorem strAt_add (h : k ≤ (a.strAt p).length) : a.strAt (p + k) = (a.strAt p).drop k := by
  unfold strAt at *
  rw [← List.drop_drop, cstr_drop h]

theorem strAt_cut (hsame : ∀ i, p ≤ i → i < p + k → b.get i = a.get i) (hnul : b.get (p + k) = NUL)
    (hk : k ≤ (a.strAt p).length)
    : b.strAt p = (a.strAt p).take k := by
  apply cstr_cut
  . intro i hi
    rw [get_drop, get_drop]
    apply hsame <;> omega
  . rw [get_drop, hnul]
  . exact hk

theorem strAt_congr (h : ∀ i, p ≤ i → i ≤ p + (a.strAt p).length → b.get i = a.get i)
    : b.strAt p = a.strAt p := by
  have hcut : b.strAt p = (a.strAt p).take (a.strAt p).length := by
    apply strAt_cut
    . intro i hi hlt
      apply h <;> omega
    . rw [h _ (by omega) (by omega), get_end]
    . exact Nat.le_refl _
  rw [hcut, List.take_length]

theorem strAt_set (hk : k ≤ (a.strAt p).length) : (a.set (p + k) NUL).strAt p = (a.strAt p).take k := by
  apply strAt_cut
  . intro i hi hlt
    rw [get_set_nul, if_neg (by omega)]
  . rw [get_set_nul, if_pos rfl]
  . exact hk

theorem strAt_set_behind (hk : k < (a.strAt p).length)
    : (a.set (p + k) NUL).strAt (p + k + 1) = (a.strAt p).drop (k + 1) := by
  rw [← strAt_add (by omega), ← Nat.add_assoc]
  apply strAt_congr
  intro i hi _
  rw [get_set_nul, if_neg (by omega)]

-- The writes lie in front of the end of the string at `p`, and not in front of its start.
def Inside (a b : CharArray n) (p : Nat) : Prop :=
  ∀ i, i < p ∨ p + (a.strAt p).length ≤ i → b.get i = a.get i

theorem inside_set (hk : k ≤ (a.strAt p).length) : Inside a (a.set (p + k) NUL) p := by
  intro i hi
  rw [get_set_nul]
  split
  . next heq =>
    have hend := get_end a p
    have : i = p + (a.strAt p).length := by omega
    rw [this, hend]
  . rfl

section Trim

variable (a : CharArray n) (p : Nat)

theorem skipBlanksAt_eq : a.skipBlanksAt p = p + ((a.strAt p).takeWhile isBlank).length := by
  unfold skipBlanksAt strAt
  rw [takeWhile_cstr isBlank_nul]

theorem length_skipBlanksAt
    : p ≤ a.skipBlanksAt p
        ∧ a.skipBlanksAt p + (skipBlanks (a.strAt p)).length = p + (a.strAt p).length := by
  have hlength := congrArg List.length ((a.strAt p).takeWhile_append_dropWhile (p := isBlank))
  rw [List.length_append] at hlength
  rw [skipBlanksAt_eq]
  unfold skipBlanks
  omega

theorem strAt_skipBlanksAt : a.strAt (a.skipBlanksAt p) = skipBlanks (a.strAt p) := by
  rw [skipBlanksAt_eq, strAt_add]
  . exact drop_length_takeWhile isBlank _
  . exact (List.takeWhile_sublist _).length_le

theorem stripEnd_eq {k : Nat} (hk : k ≤ (a.strAt p).length)
    : a.stripEnd p (p + k) = p + (stripBlanks ((a.strAt p).take k)).length := by
  induction k with
  | zero =>
    rw [List.take_zero, stripBlanks_nil]
    cases p with
    | zero => rfl
    | succ p =>
      rw [Nat.add_zero, stripEnd, if_neg (by omega)]
      rfl
  | succ k ih =>
    have hget : a.get (p + k) = (a.strAt p)[k] := by
      rw [get_add (by omega), List.getD_eq_getElem?_getD, List.getElem?_eq_getElem hk, Option.getD_some]
    rw [List.take_succ_eq_append_getElem (by omega), stripBlanks_concat, ← Nat.add_assoc, stripEnd,
      hget]
    split
    . next hblank =>
      rw [if_pos hblank.2]
      apply ih
      omega
    . next hblank =>
      rw [if_neg]
      . rw [List.length_append, List.length_take, List.length_singleton]
        omega
      . intro h
        apply hblank
        exact ⟨by omega, h⟩

theorem strlen_drop : strlen (a.chars.drop p) = (a.strAt p).length := strlen_eq _

theorem trimAt_eq
    : a.trimAt p
        =
      ⟨p + ((a.strAt p).takeWhile isBlank).length,
        a.set
          (p + (((a.strAt p).takeWhile isBlank).length + (trimmed (a.strAt p)).length))
          NUL⟩ := by
  unfold trimAt
  dsimp only
  rw [strlen_drop, stripEnd_eq _ _ (Nat.le_refl _), List.take_length, strAt_skipBlanksAt,
    skipBlanksAt_eq, Nat.add_assoc]
  rfl

theorem trimAt_fst : (a.trimAt p).1 = p + ((a.strAt p).takeWhile isBlank).length := by
  rw [trimAt_eq]

theorem length_trimmed_le
    : ((a.strAt p).takeWhile isBlank).length + (trimmed (a.strAt p)).length
        ≤ (a.strAt p).length := by
  have hlength := length_skipBlanksAt a p
  have hprefix := (isPrefix_stripBlanks (skipBlanks (a.strAt p))).length_le
  rw [skipBlanksAt_eq] at hlength
  unfold trimmed
  omega

theorem strAt_trimAt
    : (a.trimAt p).2.strAt p = (a.strAt p).takeWhile isBlank ++ trimmed (a.strAt p) := by
  rw [trimAt_eq]
  dsimp only
  rw [strAt_set (length_trimmed_le a p), List.take_add, drop_length_takeWhile]
  congr 1
  . exact (List.prefix_iff_eq_take.mp (List.takeWhile_prefix _)).symm
  . exact (List.prefix_iff_eq_take.mp (isPrefix_stripBlanks _)).symm

-- `text` is the string at `p`.
structure Trims (a : CharArray n) (p : Nat) (text : List UInt8) (r : Nat × CharArray n) : Prop where
  start_le : p ≤ r.1
  end_le : r.1 + (trimmed text).length ≤ p + text.length
  inside : Inside a r.2 p
  str : r.2.strAt r.1 = trimmed text
  skip : skipBlanks (r.2.strAt p) = trimmed text

theorem trimAt_trims : Trims a p (a.strAt p) (a.trimAt p) := by
  have hle := length_trimmed_le a p
  have hstr := strAt_trimAt a p
  have hstart := trimAt_fst a p
  constructor
  . omega
  . omega
  . rw [trimAt_eq]
    exact inside_set hle
  . rw [hstart, strAt_add, hstr, List.drop_left]
    rw [hstr, List.length_append]
    omega
  . rw [hstr, skipBlanks_append, skipBlanks_trimmed]
    intro c
    exact List.mem_takeWhile_imp

end Trim

section Tokenize

theorem get_fillNul (a : CharArray n) (p count i : Nat)
    : (a.fillNul p count).get i = if p ≤ i ∧ i < p + count then NUL else a.get i := by
  induction count generalizing a p with
  | zero =>
    rw [if_neg (by omega)]
    rfl
  | succ count ih =>
    unfold fillNul
    rw [ih, get_set_nul]
    by_cases heq : p = i
    . rw [if_pos heq, if_neg (by omega), if_pos (by omega)]
    . rw [if_neg heq]
      congr 1
      rw [eq_iff_iff]
      omega

theorem fillNul_inside : Inside a (a.fillNul p (a.skipBlanksAt p - p)) p := by
  intro i hi
  have hlength := length_skipBlanksAt a p
  rw [get_fillNul, if_neg (by omega)]

theorem strAt_fillNul (a : CharArray n) (p : Nat)
    : (a.fillNul p (a.skipBlanksAt p - p)).strAt (a.skipBlanksAt p) = skipBlanks (a.strAt p) := by
  rw [← strAt_skipBlanksAt]
  apply strAt_congr
  intro i hi _
  rw [get_fillNul, if_neg (by omega)]

theorem takeWhile_token (s : List UInt8)
    : (s.takeWhile fun c => c ≠ NUL && !isBlank c) = (cstr s).takeWhile (!isBlank ·) := by
  induction s with
  | nil => rfl
  | cons c s ih =>
    rw [cstr_cons, List.takeWhile_cons]
    by_cases hc : c = NUL
    . simp [hc]
    . rw [if_neg hc, List.takeWhile_cons, ← ih]
      simp [hc]

theorem isBlank_end_token {s : List UInt8} (h : s.dropWhile (!isBlank ·) ≠ [])
    : isBlank ((s.dropWhile (!isBlank ·)).headD NUL) := by
  induction s with
  | nil => exact absurd rfl h
  | cons c s ih =>
    rw [List.dropWhile_cons] at h ⊢
    split
    . next hc =>
      rw [if_pos hc] at h
      exact ih h
    . next hc =>
      rw [List.headD_cons]
      simpa using hc

theorem lt_skipBlanksAt (h : isBlank (a.get p)) : p < a.skipBlanksAt p := by
  unfold skipBlanksAt
  rw [← Nat.add_zero p, ← get_drop] at h
  cases hdrop : a.chars.drop p with
  | nil =>
    rw [hdrop] at h
    exact absurd h (by decide)
  | cons c rest =>
    rw [hdrop, List.getD_cons_zero] at h
    rw [List.takeWhile_cons_of_pos h, List.length_cons]
    omega

structure Tokenized (a : CharArray n) (p maxArgs : Nat) (r : List Nat × CharArray n) : Prop where
  inside : Inside a r.2 p
  nul : 0 < maxArgs → isBlank (a.get p) → r.2.get p = NUL
  args : r.1.map r.2.strAt = tokenize (a.strAt p) maxArgs

theorem strAt_end_token (a : CharArray n) (arg : Nat)
    : a.strAt (arg + ((a.strAt arg).takeWhile (!isBlank ·)).length)
        =
      (a.strAt arg).dropWhile (!isBlank ·) := by
  rw [strAt_add, drop_length_takeWhile]
  exact (List.takeWhile_sublist _).length_le

theorem length_token (a : CharArray n) (arg : Nat)
    : ((a.strAt arg).takeWhile (!isBlank ·)).length
        + (a.strAt (arg + ((a.strAt arg).takeWhile (!isBlank ·)).length)).length
        =
      (a.strAt arg).length := by
  rw [strAt_end_token, ← List.length_append, List.takeWhile_append_dropWhile]

theorem Tokenized.strAt_token {a : CharArray n} {arg maxArgs : Nat} {r : List Nat × CharArray n}
    (h : Tokenized a (arg + ((a.strAt arg).takeWhile (!isBlank ·)).length) maxArgs r)
    (hmax : 0 < maxArgs)
    : r.2.strAt arg = (a.strAt arg).takeWhile (!isBlank ·) := by
  have hcut : r.2.strAt arg
      = (a.strAt arg).take ((a.strAt arg).takeWhile (!isBlank ·)).length := by
    apply strAt_cut
    . intro i _ hlt
      exact h.inside i (.inl hlt)
    . by_cases hrest : (a.strAt arg).dropWhile (!isBlank ·) = []
      . rw [← strAt_end_token, strAt_eq_nil_iff] at hrest
        rw [h.inside _ (.inr _), hrest]
        rw [strAt_eq_nil_iff.mpr hrest]
        exact Nat.le_refl _
      . apply h.nul hmax
        have hblank := isBlank_end_token hrest
        rw [← strAt_end_token, List.headD_eq_getD, ← get_add (Nat.zero_le _)] at hblank
        exact hblank
    . exact (List.takeWhile_sublist _).length_le
  rw [hcut]
  exact (List.prefix_iff_eq_take.mp (List.takeWhile_prefix _)).symm

theorem Tokenized.inside_token {a : CharArray n} {arg maxArgs : Nat} {r : List Nat × CharArray n}
    (h : Tokenized a (arg + ((a.strAt arg).takeWhile (!isBlank ·)).length) maxArgs r)
    {i : Nat} (hi : i < arg + ((a.strAt arg).takeWhile (!isBlank ·)).length
      ∨ arg + (a.strAt arg).length ≤ i)
    : r.2.get i = a.get i := by
  have hlength := length_token a arg
  apply h.inside
  omega

theorem tokenizeAt_tokenized (a : CharArray n) (p maxArgs : Nat)
    : Tokenized a p maxArgs (a.tokenizeAt p maxArgs) := by
  induction maxArgs generalizing a p with
  | zero => exact ⟨fun _ _ => rfl, by simp, rfl⟩
  | succ maxArgs ih =>
    have hfill := fillNul_inside (a := a) (p := p)
    have hblank : isBlank (a.get p) → (a.fillNul p (a.skipBlanksAt p - p)).get p = NUL := by
      intro h
      have hlt := lt_skipBlanksAt h
      rw [get_fillNul, if_pos (by omega)]
    have hstr := strAt_fillNul a p
    have hlength := length_skipBlanksAt a p
    unfold tokenizeAt
    dsimp only
    generalize a.fillNul p (a.skipBlanksAt p - p) = a' at *
    generalize a.skipBlanksAt p = arg at *
    split
    . next hend =>
      refine ⟨fun _ _ => rfl, fun _ _ => hend, ?_⟩
      rw [strAt_eq_nil_iff.mpr hend]
      rfl
    split
    . next hend =>
      refine ⟨hfill, fun _ => hblank, ?_⟩
      unfold tokenize
      dsimp only
      rw [← hstr, strAt_eq_nil_iff.mpr hend]
      rfl
    . next hne =>
      have hskip : skipBlanks (a.strAt p) ≠ [] := by
        rw [← hstr, ne_eq, strAt_eq_nil_iff]
        exact hne
      have htoken := List.length_pos_iff.mpr (token_ne_nil hskip)
      have hchars : (a'.chars.drop arg).takeWhile (fun c => c ≠ NUL && !isBlank c)
          = (a'.strAt arg).takeWhile (!isBlank ·) := takeWhile_token _
      rw [hchars]
      have hrest := ih a' (arg + ((a'.strAt arg).takeWhile (!isBlank ·)).length)
      rw [← hstr] at htoken hlength
      constructor
      . intro i hi
        rw [hrest.inside_token (by omega), hfill i hi]
      . intro _ h
        rw [hrest.inside_token (by omega), hblank h]
      . unfold tokenize
        dsimp only
        rw [if_neg hskip, List.map_cons, ← hstr]
        split
        . next hzero =>
          rw [hzero]
          rfl
        . next hpos =>
          rw [hrest.strAt_token (by omega), hrest.args, strAt_end_token]

end Tokenize

end CharArray

end DismasmOS
