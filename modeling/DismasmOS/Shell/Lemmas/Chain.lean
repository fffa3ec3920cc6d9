import DismasmOS.Shell.Lemmas.Line

/-!
This module contains the correctness of `handle_line`: although all commands of a line are cut out of one
array, each is executed with the text it has in the line, in order, up to the first one that fails.
-/

namespace DismasmOS

section Search

theorem strchr_cstr {c : UInt8} (hc : c ≠ NUL) (s : List UInt8) : strchr s c = strchr (cstr s) c := by
  rw [strchr_eq hc, strchr_eq hc, (nulFree_cstr s).cstr]

theorem strchr_lt {c : UInt8} (hc : c ≠ NUL) {s : List UInt8} {k : Nat} (h : strchr s c = some k)
    : k < s.length := by
  rw [strchr_eq hc, List.idxOf?_eq_some_iff] at h
  obtain ⟨hlt, _⟩ := h
  exact Nat.lt_of_lt_of_le hlt (List.takeWhile_sublist _).length_le

theorem isEcho_length {s : List UInt8} (h : isEcho s) : 4 ≤ s.length := by
  unfold isEcho at h
  rw [Bool.and_eq_true, decide_eq_true_iff] at h
  exact ((strncmp_eq_zero_iff (by decide) (by decide)).mp h.1).length_le

theorem splitPair_strstr (s : List UInt8)
    : match strstr s (str "&&") with
      | none => splitPair (chr '&') (chr '&') (cstr s) = [cstr s]
      | some off =>
        off + 2 ≤ (cstr s).length
          ∧ splitPair (chr '&') (chr '&') (cstr s)
              =
            (cstr s).take off :: splitPair (chr '&') (chr '&') ((cstr s).drop (off + 2)) := by
  have hneedle : cstr (str "&&") = [chr '&', chr '&'] := rfl
  cases hstr : strstr s (str "&&") with
  | none =>
    have hinfix : ¬cstr (str "&&") <:+: cstr s := by
      rw [← strstr_isSome_iff, hstr]
      exact Bool.false_ne_true
    rw [hneedle] at hinfix
    exact splitPair_of_not_infix hinfix
  | some off =>
    have hfirst := strstr_eq_some_iff.mp hstr
    rw [hneedle] at hfirst
    have hlen := hfirst.here.length_le
    rw [List.length_drop] at hlen
    change 2 ≤ _ at hlen
    exact ⟨by omega, splitPair_of_firstAt hfirst⟩

end Search

namespace CharArray

variable {n : Nat} {ρ : Type}

theorem Inside.trans {a b c : CharArray n} {p q : Nat} (hab : Inside a b p) (hbc : Inside b c q)
    (hpq : p ≤ q) (hend : q + (b.strAt q).length ≤ p + (a.strAt p).length)
    : Inside a c p := by
  intro i hi
  rw [hbc i (by omega), hab i hi]

theorem Inside.length_le {a b : CharArray n} {p : Nat} (h : Inside a b p)
    : (b.strAt p).length ≤ (a.strAt p).length := by
  by_contra hlt
  have hnul := h (p + (a.strAt p).length) (.inr (Nat.le_refl _))
  rw [get_end, get_add (by omega), List.getD_eq_getElem?_getD,
    List.getElem?_eq_getElem (by omega), Option.getD_some] at hnul
  apply nulFree_cstr (b.chars.drop p)
  rw [← hnul]
  apply List.getElem_mem

-- What a handler does with the string at `p`: the result is that of the text, and the rest of the array
-- stays as it is.
structure Handles (a : CharArray n) (p : Nat) (r : ρ × CharArray n) (result : ρ) : Prop where
  result : r.1 = result
  inside : Inside a r.2 p

theorem tokenizeAndExecute_handles (x : Executor ρ) (a : CharArray n) (p : Nat)
    : Handles a p (tokenizeAndExecute x a p) (x.execute (tokenize (a.strAt p) MAX_ARGS)) := by
  have h := tokenizeAt_tokenized a p MAX_ARGS
  constructor
  . unfold tokenizeAndExecute
    dsimp only
    rw [h.args]
  . exact h.inside

theorem getLast?_eq_some_iff (s : List UInt8) (q : UInt8)
    : s.getLast? = some q ↔ s.length > 0 ∧ s.getD (s.length - 1) NUL = q := by
  rw [List.getLast?_eq_getElem?, List.getD_eq_getElem?_getD]
  cases s with
  | nil => simp
  | cons c s => simp

theorem echoAt_handles (x : Executor ρ) (a : CharArray n) (text target : Nat) (cmdLeft : List UInt8)
    (htext : a.strAt text = skipBlanks (cmdLeft.drop 4))
    (htarget : text + (a.strAt text).length < target)
    : Handles a text (echoAt x a text target) (x.echoTo (echoText cmdLeft) (a.strAt target)) := by
  have hhead : a.get text = (skipBlanks (cmdLeft.drop 4)).headD NUL := by
    rw [← htext, List.headD_eq_getD]
    exact get_add (Nat.zero_le _)
  unfold echoAt echoText
  dsimp only
  rw [hhead]
  split
  . next hquote =>
    have hne : a.strAt text ≠ [] := by
      intro hnil
      rw [← htext, hnil] at hquote
      exact absurd hquote (by decide)
    have hpos := List.length_pos_iff.mpr hne
    have htail : a.strAt (text + 1) = (a.strAt text).tail := by
      rw [strAt_add hpos, List.drop_one]
    have hlen := congrArg List.length htail
    rw [List.length_tail] at hlen
    rw [strlen_drop, ← htext, ← htail]
    by_cases hlast : (a.strAt (text + 1)).getLast? = some ((a.strAt text).headD NUL)
    . have hset := (getLast?_eq_some_iff _ _).mp hlast
      rw [← get_add (by omega), ← Nat.add_sub_assoc hset.1] at hset
      rw [if_pos hlast, if_pos hset, Nat.add_sub_assoc hset.1, strAt_set (by omega),
        ← List.dropLast_eq_take]
      constructor
      . dsimp only
        congr 1
        apply strAt_congr
        intro i hi _
        rw [get_set_nul, if_neg (by omega)]
      . rw [Nat.add_assoc]
        apply inside_set
        omega
    . rw [if_neg hlast, if_neg]
      . exact ⟨rfl, fun _ _ => rfl⟩
      . intro hset
        apply hlast
        rw [getLast?_eq_some_iff, ← get_add (by omega), ← Nat.add_sub_assoc hset.1]
        exact hset
  . rw [← htext]
    exact ⟨rfl, fun _ _ => rfl⟩

theorem echoCommandAt_handles (x : Executor ρ) {a : CharArray n} {cmdLeft target : Nat}
    {cmd : List UInt8} (hcmd : a.strAt cmdLeft = cmd) (hecho : isEcho cmd)
    (htarget : cmdLeft + cmd.length < target)
    : Handles a cmdLeft (echoAt x a (a.skipBlanksAt (cmdLeft + 4)) target)
        (x.echoTo (echoText cmd) (a.strAt target)) := by
  have hfour := isEcho_length hecho
  have hdrop : a.strAt (cmdLeft + 4) = cmd.drop 4 := by
    rw [strAt_add, hcmd]
    rw [hcmd]
    exact hfour
  have htext := strAt_skipBlanksAt a (cmdLeft + 4)
  have hend := length_skipBlanksAt a (cmdLeft + 4)
  rw [← htext, hdrop, List.length_drop] at hend
  rw [hdrop] at htext
  have hhandles := echoAt_handles x a (a.skipBlanksAt (cmdLeft + 4)) target cmd htext (by omega)
  constructor
  . exact hhandles.result
  . intro i hi
    apply hhandles.inside
    rw [hcmd] at hi
    omega

theorem handleSingleCommandAt_handles (x : Executor ρ) (a : CharArray n) (p : Nat)
    : Handles a p (handleSingleCommandAt x a p) (handleSingleText x (a.strAt p)) := by
  have hgt : chr '>' ≠ NUL := by decide
  unfold handleSingleCommandAt handleSingleText
  rw [strchr_cstr hgt]
  change Handles a p (match strchr (a.strAt p) (chr '>') with | none => _ | some redir => _) _
  cases hredir : strchr (a.strAt p) (chr '>') with
  | none => exact tokenizeAndExecute_handles x a p
  | some redir =>
    have hlt := strchr_lt hgt hredir
    dsimp only
    -- The NUL at the redirection.
    have hleft : (a.set (p + redir) NUL).strAt p = (a.strAt p).take redir := strAt_set (by omega)
    have hright : (a.set (p + redir) NUL).strAt (p + redir + 1) = (a.strAt p).drop (redir + 1) :=
      strAt_set_behind hlt
    have hcut : Inside a (a.set (p + redir) NUL) p := inside_set (by omega)
    have htake : ((a.strAt p).take redir).length = redir := by
      rw [List.length_take]
      omega
    have hlen := congrArg List.length hleft
    have hrest := congrArg List.length hright
    rw [List.length_drop] at hrest
    generalize a.set (p + redir) NUL = a1 at *
    -- The target behind it.
    have htarget := trimAt_trims a1 (p + redir + 1)
    rw [hright] at htarget
    generalize a1.trimAt (p + redir + 1) = target at *
    have hstart := htarget.start_le
    have hcut2 : Inside a target.2 p :=
      hcut.trans htarget.inside (by omega) (by omega)
    have hleft2 : target.2.strAt p = a1.strAt p := by
      apply strAt_congr
      intro i _ hi
      apply htarget.inside
      omega
    rw [← htarget.str]
    simp only [strAt_eq_nil_iff]
    split
    . exact ⟨rfl, hcut2⟩
    -- The command in front of it.
    have hcmd := trimAt_trims target.2 p
    rw [hleft2, hleft] at hcmd
    generalize target.2.trimAt p = cmdLeft at *
    have hstop := hcmd.end_le
    have hcut3 : Inside a cmdLeft.2 p := by
      apply hcut2.trans hcmd.inside (Nat.le_refl _)
      rw [hleft2]
      omega
    have htarget3 : cmdLeft.2.strAt target.1 = target.2.strAt target.1 := by
      apply strAt_congr
      intro i hi _
      apply hcmd.inside
      rw [hleft2]
      omega
    rw [hcmd.str]
    split
    . next hecho =>
      have hcmdLeft := hcmd.start_le
      have hhandles := echoCommandAt_handles x hcmd.str hecho (show _ < target.1 by omega)
      constructor
      . rw [hhandles.result, htarget3]
      . apply hcut3.trans hhandles.inside hcmdLeft
        rw [hcmd.str]
        omega
    . have hexec := tokenizeAndExecute_handles x cmdLeft.2 p
      constructor
      . rw [hexec.result, tokenize_congr]
        rw [hcmd.skip, skipBlanks_stripBlanks]
        rfl
      . apply hcut3.trans hexec.inside (Nat.le_refl _)
        have hle := hcut3.length_le
        omega

end CharArray

section HandleLine

open CharArray

variable {n : Nat} {σ : Type}

theorem pieces_last {a : CharArray n} {p : Nat} (h : strstr (a.chars.drop p) (str "&&") = none)
    : pieces (a.strAt p) = if trimmed (a.strAt p) = [] then [] else [trimmed (a.strAt p)] := by
  have hsplit := splitPair_strstr (a.chars.drop p)
  rw [h] at hsplit
  have hpieces : pieces (a.strAt p) = ([a.strAt p].map trimmed).filter (· ≠ []) := by
    unfold pieces strAt
    rw [hsplit]
  rw [hpieces, List.map_singleton]
  split
  . next hnil => simp [hnil]
  . next hnil => simp [hnil]

theorem pieces_sep {a : CharArray n} {p off : Nat}
    (h : strstr (a.chars.drop p) (str "&&") = some off)
    : off + 2 ≤ (a.strAt p).length
        ∧ pieces (a.strAt p)
            =
          if trimmed ((a.strAt p).take off) = [] then
            pieces ((a.strAt p).drop (off + 2))
          else
            trimmed ((a.strAt p).take off) :: pieces ((a.strAt p).drop (off + 2)) := by
  have hsplit := splitPair_strstr (a.chars.drop p)
  rw [h] at hsplit
  refine ⟨hsplit.1, ?_⟩
  have hpieces : pieces (a.strAt p)
      = (((a.strAt p).take off :: splitPair (chr '&') (chr '&') ((a.strAt p).drop (off + 2))).map
          trimmed).filter (· ≠ []) := by
    unfold pieces strAt
    rw [hsplit.2]
  rw [hpieces, List.map_cons]
  split
  . next hnil =>
    rw [hnil]
    simp [pieces]
  . next hnil => simp [pieces, hnil]

theorem handle_line_chain (x : σ → Executor (Int × σ)) (s : σ) (a : CharArray n) (p : Nat)
    : handleLineAt x s a p
        =
      runChain (fun s command => handleSingleText (x s) command) s (pieces (a.strAt p)) := by
  unfold handleLineAt
  split
  . next hend =>
    rw [strAt_eq_nil_iff.mpr hend]
    rfl
  next hend =>
  cases hsep : strstr (a.chars.drop p) (str "&&") with
  | none =>
    have htrim := trimAt_trims a p
    have hhandle := handleSingleCommandAt_handles (x s) (a.trimAt p).2 (a.trimAt p).1
    dsimp only
    rw [pieces_last hsep]
    rw [htrim.str] at hhandle
    simp only [ne_eq, ← strAt_eq_nil_iff, htrim.str]
    by_cases hnil : trimmed (a.strAt p) = []
    . rw [if_neg (not_not.mpr hnil), if_pos hnil]
      rfl
    . rw [if_pos hnil, if_neg hnil, runChain_singleton, hhandle.result]
  | some off =>
    obtain ⟨hoff, hpieces⟩ := pieces_sep hsep
    have hlt := lt_of_get_ne hend
    have hleft : (a.set (p + off) NUL).strAt p = (a.strAt p).take off := strAt_set (by omega)
    have hset : ∀ i, p + off < i → (a.set (p + off) NUL).get i = a.get i := by
      intro i hi
      rw [get_set_nul, if_neg (by omega)]
    have htrim := trimAt_trims (a.set (p + off) NUL) p
    dsimp only
    rw [hleft] at htrim
    have hend := htrim.end_le
    generalize (a.set (p + off) NUL).trimAt p = sub at *
    -- The rest of the line lies behind all that is written.
    have hrest : ∀ b : CharArray n, (∀ i, p + off < i → b.get i = sub.2.get i)
        → b.strAt (p + off + 2) = (a.strAt p).drop (off + 2) := by
      intro b hb
      rw [← strAt_add hoff, ← Nat.add_assoc]
      apply strAt_congr
      intro i hi _
      rw [hb i (by omega), htrim.inside i, hset i (by omega)]
      rw [hleft, List.length_take]
      omega
    have hhandle := handleSingleCommandAt_handles (x s) sub.2 sub.1
    have hbehind := hrest (handleSingleCommandAt (x s) sub.2 sub.1).2 (by
      intro i hi
      apply hhandle.inside
      rw [htrim.str]
      rw [List.length_take] at hend
      omega)
    rw [htrim.str] at hhandle
    rw [hpieces]
    simp only [ne_eq, ← strAt_eq_nil_iff, htrim.str]
    by_cases hnil : trimmed ((a.strAt p).take off) = []
    . rw [if_neg (not_not.mpr hnil), if_pos hnil, handle_line_chain, hrest sub.2 fun _ _ => rfl]
    . rw [if_pos hnil, if_neg hnil, runChain, hhandle.result, handle_line_chain, hbehind]
termination_by n - p

example : pieces (str " a && &&& b &&") = [str "a", str "& b"] := by decide

end HandleLine

section LineCall

theorem handleSingleText_eq {ρ : Type} (x : Executor ρ) (cmdBuf : List UInt8)
    : handleSingleText x cmdBuf = (lineCall cmdBuf).run x := by
  unfold lineCall handleSingleText
  split
  . rfl
  . dsimp only
    split
    . rfl
    split
    . rfl
    . rfl

-- On a text of its own, this is the `handle_single_command` that the rest of the model uses.
theorem handleSingleCommand_eq (others : Shell → Argv → Int × List UInt8) (s : Shell)
    (cmdBuf : List UInt8)
    : handleSingleCommand others s cmdBuf = (lineCall cmdBuf).run (shellExecutor others s) :=
  handleSingleText_eq (shellExecutor others s) cmdBuf

theorem lineOp_eq (line : List UInt8)
    : lineOp line
        =
      match lineCall line with
      | .execute argv => argvOp argv
      | .echoTo text target => some ⟨.echo text, target⟩
      | .noTarget => none := by
  unfold lineOp lineCall handleSingleText trimmed
  cases strchr line (chr '>') with
  | none => rfl
  | some redir =>
    dsimp only
    by_cases htarget : stripBlanks (skipBlanks (line.drop (redir + 1))) = []
    . rw [if_pos htarget, if_pos htarget]
    . rw [if_neg htarget, if_neg htarget]
      by_cases hecho : isEcho (stripBlanks (skipBlanks (line.take redir)))
      . rw [if_pos hecho, if_pos hecho]
      . rw [if_neg hecho, if_neg hecho]

theorem lineCall_valid {line : List UInt8} (h : NulFree line) {argv : Argv}
    (hcall : lineCall line = .execute argv)
    : argv.Valid := by
  unfold lineCall handleSingleText at hcall
  split at hcall
  . cases hcall
    exact tokenize_valid h _
  . dsimp only at hcall
    split at hcall
    . cases hcall
    split at hcall
    . cases hcall
    . cases hcall
      apply tokenize_valid
      exact h.sublist ((stripBlanks_sublist _).trans (List.take_sublist _ _))

end LineCall

end DismasmOS
