import DismasmOS.Shell.ArgBuffer
import DismasmOS.Shell.Lemmas.System

/-!
This module contains when the arguments of a command fit the array in which it joins them.
-/

namespace DismasmOS

section Join

variable {argv : Argv} {size : Nat}

-- What is appended one after the other.
def joinParts (args : Argv) : List (List UInt8) :=
  match args with
  | [] => []
  | arg :: args => arg :: args.flatMap fun arg => [str " ", arg]

theorem joinedLength_cons (arg : List UInt8) (args : Argv)
    : joinedLength (arg :: args) = arg.length + (args.map fun arg => 1 + arg.length).sum := by
  unfold joinedLength
  induction args with
  | nil => simp
  | cons arg' args ih =>
    simp only [List.map_cons, List.sum_cons, List.length_cons] at *
    omega

theorem length_joinParts (args : Argv) : (joinParts args).flatten.length = joinedLength args := by
  cases args with
  | nil => rfl
  | cons arg args =>
    have hblank : (str " ").length = 1 := by decide
    rw [joinedLength_cons]
    unfold joinParts
    rw [List.flatten_cons, List.length_append]
    congr 1
    induction args with
    | nil => rfl
    | cons arg' args ih =>
      simp only [List.flatMap_cons, List.flatten_append, List.length_append, ih, List.map_cons,
        List.sum_cons, List.flatten_cons, List.flatten_nil, List.append_nil, hblank]

theorem Argv.arg_eq_getElem (argv : Argv) {i : Nat} (hi : i < argv.length) : argv.arg i = argv[i] := by
  unfold arg
  rw [List.getD_eq_getElem?_getD, List.getElem?_eq_getElem hi, Option.getD_some]

-- The arguments behind the first one, each with a blank in front of it.
theorem joinRest_eq (hargv : ∀ a ∈ argv, NulFree a) {first : Nat} (n : Nat) {i : Nat}
    (hi : first < i) (hlast : i + n ≤ argv.length) {buf : List UInt8} (hbuf : NulFree buf)
    : (List.range' i n).foldlM (joinArg size argv first) buf
        =
      appendAllIn size buf (((argv.drop i).take n).flatMap fun arg => [str " ", arg]) := by
  induction n generalizing i buf with
  | zero => rfl
  | succ n ih =>
    have hblank : NulFree (str " ") := by decide
    have hnul : NulFree argv[i] := hargv _ (List.getElem_mem _)
    rw [List.range'_succ, List.foldlM_cons, List.drop_eq_getElem_cons (by omega), List.take_succ_cons,
      List.flatMap_cons, appendAllIn_append]
    have hstep : joinArg size argv first buf i = appendAllIn size buf [str " ", argv[i]] := by
      unfold joinArg appendAllIn
      rw [if_pos hi, argv.arg_eq_getElem (by omega), strcatIn_eq hbuf hblank, List.foldlM_cons]
      apply Option.bind_congr
      intro out hout
      have hfree : NulFree out := by
        rw [appendIn_some hout, NulFree.append]
        exact ⟨hbuf, hblank⟩
      rw [strcatIn_eq hfree hnul, List.foldlM_cons]
      exact (bind_pure _).symm
    rw [hstep]
    apply Option.bind_congr
    intro out hout
    apply ih (by omega) (by omega)
    rw [appendAllIn_some hout, List.flatten_cons, List.flatten_singleton, NulFree.append,
      NulFree.append]
    exact ⟨hbuf, hblank, hnul⟩

theorem joinArgs_eq (hargv : ∀ a ∈ argv, NulFree a) {first last : Nat} (hlt : first < last)
    (hlast : last ≤ argv.length)
    : joinArgs size argv first last
        = appendAllIn size [] (joinParts ((argv.drop first).take (last - first))) := by
  obtain ⟨n, hn⟩ := Nat.exists_eq_add_of_lt hlt
  have hcount : last - first = n + 1 := by omega
  have hnul : NulFree argv[first] := hargv _ (List.getElem_mem _)
  have hhead : joinArg size argv first [] first = appendIn size [] argv[first] := by
    unfold joinArg
    rw [if_neg (Nat.lt_irrefl _), Option.bind_some, argv.arg_eq_getElem (by omega),
      strcatIn_eq List.not_mem_nil hnul]
  unfold joinArgs
  rw [hcount, List.range'_succ, List.foldlM_cons, List.drop_eq_getElem_cons (by omega),
    List.take_succ_cons, hhead]
  unfold joinParts
  apply Option.bind_congr
  intro out hout
  apply joinRest_eq hargv n (Nat.lt_succ_self _) (by omega)
  rw [appendIn_some hout]
  exact hnul

theorem joinArgs_isSome_iff (hargv : ∀ a ∈ argv, NulFree a) {first last : Nat} (hlt : first < last)
    (hlast : last ≤ argv.length) (hsize : 0 < size)
    : joinArgs size argv first last ≠ none
        ↔ joinedLength ((argv.drop first).take (last - first)) < size := by
  rw [joinArgs_eq hargv hlt hlast, Option.ne_none_iff_isSome, appendAllIn_isSome_iff hsize,
    length_joinParts, List.length_nil, Nat.zero_add]

end Join

section Words

theorem joinedLength_tail_le (args : Argv) : joinedLength args.tail ≤ joinedLength args := by
  cases args with
  | nil => exact Nat.le_refl _
  | cons arg args =>
    unfold joinedLength
    rw [List.tail_cons, List.map_cons, List.sum_cons, List.length_cons]
    omega

theorem joinedLength_cons_of_ne (arg : List UInt8) {args : Argv} (h : args ≠ [])
    : joinedLength (arg :: args) = arg.length + 1 + joinedLength args := by
  have hpos := List.length_pos_of_ne_nil h
  unfold joinedLength
  rw [List.map_cons, List.sum_cons, List.length_cons]
  omega

theorem length_skipBlanks_lt {s : List UInt8} (h : isBlank (s.headD NUL))
    : (skipBlanks s).length < s.length := by
  unfold skipBlanks
  cases s with
  | nil => exact absurd h (by decide)
  | cons c s =>
    rw [List.headD_cons] at h
    rw [List.dropWhile_cons_of_pos h, List.length_cons]
    exact Nat.lt_succ_of_le (List.dropWhile_sublist _).length_le

-- Joined again, the tokens are no longer than the line without the blanks in front of it.
theorem joinedLength_tokenize (line : List UInt8) (n : Nat)
    : joinedLength (tokenize line n) ≤ (skipBlanks line).length := by
  induction n generalizing line with
  | zero => exact Nat.zero_le _
  | succ n ih =>
    unfold tokenize
    dsimp only
    split
    . exact Nat.zero_le _
    split
    . exact Nat.le_refl _
    . have hcut : ((skipBlanks line).takeWhile (!isBlank ·)).length
          + ((skipBlanks line).dropWhile (!isBlank ·)).length = (skipBlanks line).length := by
        rw [← List.length_append, List.takeWhile_append_dropWhile]
      have hrest := ih ((skipBlanks line).dropWhile (!isBlank ·))
      by_cases htokens : tokenize ((skipBlanks line).dropWhile (!isBlank ·)) n = []
      . rw [htokens, joinedLength_cons]
        exact (List.takeWhile_sublist _).length_le
      . have hne : (skipBlanks line).dropWhile (!isBlank ·) ≠ [] := by
          intro hnil
          rw [hnil] at htokens
          cases n <;> exact htokens rfl
        have hblank := length_skipBlanks_lt (CharArray.isBlank_end_token hne)
        rw [joinedLength_cons_of_ne _ htokens]
        omega

theorem lineCall_tokenize {cmd : List UInt8} {argv : Argv} (h : lineCall cmd = .execute argv)
    : ∃ text, text.Sublist cmd ∧ argv = tokenize text MAX_ARGS := by
  unfold lineCall handleSingleText at h
  split at h
  . cases h
    exact ⟨cmd, List.Sublist.refl _, rfl⟩
  . dsimp only at h
    split at h
    . cases h
    split at h
    . cases h
    . cases h
      exact ⟨_, (stripBlanks_sublist _).trans (List.take_sublist _ _), rfl⟩

theorem joinedLength_le {cmd : List UInt8} {argv : Argv} (h : lineCall cmd = .execute argv)
    : joinedLength argv ≤ cmd.length := by
  obtain ⟨text, hsub, heq⟩ := lineCall_tokenize h
  have hjoined := joinedLength_tokenize text MAX_ARGS
  have hskip := ((skipBlanks_sublist text).trans hsub).length_le
  rw [heq]
  exact hjoined.trans hskip

end Words

section Commands

variable {argv : Argv} {b : ArgBuffer}

theorem argBuffer_cases (h : argBuffer argv = some b)
    : (b.first < b.last ∧ b.last ≤ argv.length)
        ∧ (strcmp (argv.arg 0) (str "calc") = 0 ∧ b = ⟨128, 1, argv.length⟩
          ∨ strcmp (argv.arg 0) (str "calc") ≠ 0 ∧ b.size = 64) := by
  unfold argBuffer at h
  dsimp only at h
  split at h
  . next hcolr =>
    have hcalc : strcmp (argv.arg 0) (str "calc") ≠ 0 := by
      rw [ne_eq, strcmp_eq_zero_iff, (strcmp_eq_zero_iff _ _).mp hcolr]
      decide
    split at h
    . cases h
    . next hlen =>
      cases h
      exact ⟨⟨Nat.lt_of_succ_le (Nat.le_of_not_lt hlen), Nat.le_refl _⟩, .inr ⟨hcalc, rfl⟩⟩
  split at h
  . next hcalc =>
    split at h
    . cases h
    . next hlen =>
      cases h
      exact ⟨⟨Nat.lt_of_succ_le (Nat.le_of_not_lt hlen), Nat.le_refl _⟩, .inl ⟨hcalc, rfl⟩⟩
  split at h
  . next hcalc hpr =>
    split at h
    . cases h
    . next hargs =>
      simp only [not_or] at hargs
      cases h
      have hfirst : 2 < argv.length - 1 := by omega
      exact ⟨⟨hfirst, Nat.sub_le _ _⟩, .inr ⟨hcalc, rfl⟩⟩
  . cases h

theorem argsFit_iff (hargv : ∀ a ∈ argv, NulFree a) (hlen : joinedLength argv < CMD_MAX_LEN)
    : ArgsFit argv ↔ ShortArgs argv := by
  have hmax : CMD_MAX_LEN = 128 := rfl
  have hfits : ∀ b, argBuffer argv = some b → 0 < b.size
      → (b.assemble argv ≠ none ↔ joinedLength (b.args argv) < b.size) := by
    intro b hb hsize
    have hrange := (argBuffer_cases hb).1
    exact joinArgs_isSome_iff hargv hrange.1 hrange.2 hsize
  constructor
  . intro h b hb hcalc
    have hsize := ((argBuffer_cases hb).2.resolve_left fun hor => hcalc hor.1).2
    have hassembled := (hfits b hb (by omega)).mp (h b hb)
    omega
  . intro h b hb
    rw [hfits b hb]
    . cases (argBuffer_cases hb).2 with
      | inl hcalc =>
        have htail : b.args argv = argv.tail := by
          rw [hcalc.2]
          unfold ArgBuffer.args
          dsimp only
          rw [List.drop_one, List.take_of_length_le (by rw [List.length_tail])]
        have hle := joinedLength_tail_le argv
        have hsize : b.size = 128 := by rw [hcalc.2]
        rw [htail]
        omega
      | inr hshort =>
        have hle := h b hb hshort.1
        omega
    . cases (argBuffer_cases hb).2 with
      | inl hcalc =>
        rw [hcalc.2]
        exact Nat.zero_lt_succ _
      | inr hshort => omega

-- What is executed is no longer than the line.
theorem executed_valid {σ : Type} {n : Nat} {x : σ → Executor (Int × σ)} {s : σ} {a : CharArray n}
    {p : Nat} {cmd : List UInt8} (hline : (a.strAt p).length < CMD_MAX_LEN)
    (hcmd : cmd ∈ (handleLineAt x s a p).1)
    : ValidCommand cmd := by
  rw [handle_line_chain] at hcmd
  exact valid_of_mem_pieces ⟨nulFree_cstr _, hline⟩ (mem_of_mem_runChain hcmd)

theorem handleLineAt_argsFit_iff {σ : Type} (x : σ → Executor (Int × σ)) (s : σ)
    (a : CharArray CMD_MAX_LEN) (hline : (a.strAt 0).length < CMD_MAX_LEN)
    : (∀ cmd ∈ (handleLineAt x s a 0).1, ∀ argv, lineCall cmd = .execute argv → ArgsFit argv)
        ↔
      (∀ cmd ∈ (handleLineAt x s a 0).1, ∀ argv, lineCall cmd = .execute argv
        → ShortArgs argv) := by
  have hiff : ∀ cmd ∈ (handleLineAt x s a 0).1, ∀ argv, lineCall cmd = .execute argv
      → (ArgsFit argv ↔ ShortArgs argv) := by
    intro cmd hcmd argv hcall
    have hvalid := executed_valid hline hcmd
    apply argsFit_iff
    . intro arg harg
      exact ((lineCall_valid hvalid.1 hcall) arg harg).1
    . exact (joinedLength_le hcall).trans_lt hvalid.2
  constructor
  . intro h cmd hcmd argv hcall
    exact (hiff cmd hcmd argv hcall).mp (h cmd hcmd argv hcall)
  . intro h cmd hcmd argv hcall
    exact (hiff cmd hcmd argv hcall).mpr (h cmd hcmd argv hcall)

def longColor : List UInt8 := List.replicate 64 (chr 'a')

theorem handleLineAt_longColor
    : let a := (CharArray.zero CMD_MAX_LEN).assign (str "colr " ++ longColor)
      (a.strAt 0).length < CMD_MAX_LEN
        ∧ ∀ (σ : Type) (x : σ → Executor (Int × σ)) (s : σ),
          ∃ cmd ∈ (handleLineAt x s a 0).1, ∃ argv, lineCall cmd = .execute argv
            ∧ ¬ArgsFit argv := by
  intro a
  have hstr : a.strAt 0 = str "colr " ++ longColor := by decide +kernel
  have hpieces : pieces (str "colr " ++ longColor) = [str "colr " ++ longColor] := by
    decide +kernel
  constructor
  . rw [hstr]
    decide
  . intro σ x s
    refine ⟨str "colr " ++ longColor, ?_, [str "colr", longColor], ?_, ?_⟩
    . rw [handle_line_chain, hstr, hpieces, runChain_singleton]
      exact List.mem_singleton_self _
    . rfl
    . intro hfit
      apply hfit ⟨64, 1, 2⟩ rfl
      decide +kernel

-- Every command returns 0.
def succeeds (_ : Unit) : Executor (Int × Unit) where
  execute _ := ⟨0, ()⟩
  echoTo _ _ := ⟨0, ()⟩
  noTarget := ⟨0, ()⟩

theorem handleLineAt_darkRed
    : let a := (CharArray.zero CMD_MAX_LEN).assign (str "colr dark red")
      ∀ cmd ∈ (handleLineAt succeeds () a 0).1, ∀ argv, lineCall cmd = .execute argv
        → ArgsFit argv := by
  intro a
  have hstr : a.strAt 0 = str "colr dark red" := by decide +kernel
  have hpieces : pieces (str "colr dark red") = [str "colr dark red"] := by decide +kernel
  apply (handleLineAt_argsFit_iff succeeds () a (by rw [hstr]; decide)).mpr
  intro cmd hcmd argv hcall
  rw [handle_line_chain, hstr, hpieces, runChain_singleton, List.mem_singleton] at hcmd
  rw [hcmd] at hcall
  intro b hb _
  have hargv : argv = [str "colr", str "dark", str "red"] := by
    have hexec : lineCall (str "colr dark red") = .execute [str "colr", str "dark", str "red"] := rfl
    rw [hexec] at hcall
    cases hcall
    rfl
  have hbuf : argBuffer [str "colr", str "dark", str "red"] = some ⟨64, 1, 3⟩ := rfl
  rw [hargv, hbuf] at hb
  cases hb
  rw [hargv]
  decide

end Commands

end DismasmOS
