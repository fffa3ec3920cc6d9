import Mathlib.Data.Nat.Digits.Lemmas
import DismasmOS.Calc.Lemmas.Command
import DismasmOS.Em.Lemmas.Render
import DismasmOS.Em.Lemmas.Save

/-!
This module contains the texts that the editor builds in arrays of 80 characters: the messages, which
always fit, and the status line, which fits exactly if the name of the file leaves enough room for it.
-/

namespace DismasmOS

section Itoa

theorem length_itoa {n : Nat} (hn : n < 10 ^ 10) : (itoa n).length = Nat.log 10 n + 1 := by
  rw [itoa_natCast hn]
  unfold CalcExpr.digits
  split
  . next hzero =>
    rw [hzero]
    rfl
  . next hzero => rw [List.length_map, List.length_reverse, Nat.length_digits 10 n (by decide) hzero]

end Itoa

section Messages

variable {e : Em} {first : List UInt8} {parts : List (List UInt8)}

theorem buildMsg_eq (hfirst : NulFree first) (hparts : ∀ part ∈ parts, NulFree part)
    (hlen : first.length + parts.flatten.length < MSG_BUF_SIZE)
    : buildMsg first parts = some (first ++ parts.flatten) := by
  have hcopy : strcpyIn MSG_BUF_SIZE first = some first := by
    unfold strcpyIn
    rw [hfirst.cstr, if_pos (by omega)]
  unfold buildMsg
  rw [hcopy, Option.bind_eq_bind, Option.bind_some, strcatAllIn_eq hfirst hparts,
    appendAllIn_eq (by omega), if_pos hlen]

-- What the texts have to be made of.
structure Em.Named (e : Em) : Prop where
  inv : e.Inv
  nulFree : NulFree e.curFilename
  length_lt : e.curFilename.length < FS_MAX_PATH

theorem Em.Inv.log_bufLen_le (h : e.Inv) : Nat.log 10 e.bufLen ≤ 3 := by
  have hlt := h.bufLen_lt
  have hsize : EM_BUF_SIZE < 10 ^ 4 := by decide
  apply Nat.le_of_lt_succ
  exact Nat.log_lt_of_lt_pow' (by decide) (by omega)

theorem emSaveMsg_eq (h : e.Named) (fs : Fs)
    : emSaveMsg e fs = some (emSave e fs).1.msgBuf := by
  have hlog := h.inv.log_bufLen_le
  have hname := h.length_lt
  have hmax : FS_MAX_PATH = 64 := rfl
  have hbufLen : e.bufLen < 10 ^ 10 := h.inv.bufLen_lt.trans (by decide)
  have hsaved : buildMsg (str "saved ") [e.curFilename, str " (", itoa e.bufLen, str " B)"]
      = some (savedMsg e) := by
    rw [buildMsg_eq (by decide)]
    . unfold savedMsg
      simp only [List.flatten_cons, List.flatten_nil, List.append_nil, List.append_assoc]
    . simp only [List.forall_mem_cons]
      refine ⟨h.nulFree, by decide, nulFree_itoa _, by decide, fun _ hc => nomatch hc⟩
    . simp only [List.flatten_cons, List.flatten_nil, List.length_append, length_itoa hbufLen,
        List.length_nil]
      have hsize : MSG_BUF_SIZE = 80 := rfl
      have hparts : (str "saved ").length = 6 ∧ (str " (").length = 2 ∧ (str " B)").length = 3 := by
        decide
      omega
  unfold emSaveMsg emSave
  dsimp only
  generalize (if fsFind fs.table e.curFilename = none then fsCreate fs.table e.curFilename
    else ⟨0, fs.table⟩) = created
  split
  . exact buildMsg_eq (by decide) (fun _ hc => nomatch hc) (by decide)
  . exact hsaved

theorem IsWordRun.chars_take {w : Nat × List UInt8} (h : IsWordRun isalpha e.text w.1 w.2) {k : Nat}
    (hk : k ≤ w.2.length)
    : (e.buffer.chars.drop w.1).take k = w.2.take k := by
  obtain ⟨before, after, htext, hstart, _, _⟩ := h.split
  rw [Em.chars_eq, htext, List.append_assoc, List.append_assoc, List.drop_left' hstart,
    List.take_append_of_le_length hk]

theorem hopMsg_eq {w : Nat × List UInt8} (h : IsWordRun isalpha e.text w.1 w.2)
    {what : List UInt8} (hwhat : NulFree what ∧ what.length ≤ 21)
    : hopMsg e w.1 w.2.length what = some (hopTo e w.1 w.2.length what).msgBuf := by
  have hle : (if w.2.length > 16 then 16 else w.2.length) ≤ min 16 w.2.length := by
    split <;> omega
  unfold hopMsg hopTo
  dsimp only
  generalize (if w.2.length > 16 then 16 else w.2.length) = k at *
  rw [IsWordRun.chars_take h (by omega), buildMsg_eq hwhat.1]
  . rw [List.flatten_cons, List.flatten_singleton, List.append_assoc]
  . have halpha : NulFree (w.2.take k) := by
      intro hnul
      have hword := h.all NUL (List.mem_of_mem_take hnul)
      revert hword
      decide
    simp only [List.forall_mem_cons]
    exact ⟨halpha, by decide, fun _ hc => nomatch hc⟩
  . have hsize : MSG_BUF_SIZE = 80 := rfl
    have hquote : (str "'").length = 1 := by decide
    rw [List.flatten_cons, List.flatten_singleton, List.length_append, List.length_take]
    omega

theorem emHopErrorMsg_eq (h : e.Inv)
    : ∃ e', emHopError e = some e' ∧ emHopErrorMsg e = some e'.msgBuf := by
  have hhop := Em.emHopError_eq h
  have hrun : ∀ w, e.nextTypo = some w → IsWordRun isalpha e.text w.1 w.2 :=
    fun _ hw => (nextRun_some h.cursor_le_text hw).1
  refine ⟨_, hhop, ?_⟩
  unfold emHopErrorMsg
  rw [h.wordEnd_cursor, Option.bind_eq_bind, Option.bind_some, h.findTypo_ahead, Option.bind_eq_bind,
    Option.bind_some]
  rw [Em.nextTypo_eq] at hrun ⊢
  cases hahead : e.typoAhead with
  | some w =>
    rw [hahead, Option.some_or] at hrun
    rw [Option.some_or]
    dsimp only [Option.map_some]
    rw [if_pos (Em.hopStart_le_of_ahead hahead)]
    exact hopMsg_eq (hrun w rfl) (by decide)
  | none =>
    rw [hahead, Option.none_or] at hrun
    rw [Option.none_or]
    dsimp only [Option.map_none]
    rw [h.findTypo_behind, Option.bind_some]
    cases hbehind : e.typoBehind with
    | some w =>
      dsimp only [Option.map_some]
      rw [if_neg (Nat.not_le.mpr (Em.lt_hopStart_of_behind hbehind))]
      exact hopMsg_eq (hrun w hbehind) (by decide)
    | none => exact buildMsg_eq (by decide) (fun _ hc => nomatch hc) (by decide)

theorem Em.Named.ended (h : e.Named) : (endCommand e).Named := ⟨h.inv.ended, h.nulFree, h.length_lt⟩

theorem executeEmCommandMsg_eq (h : e.Named) (fs : Fs)
    : ∃ closed e' fs', executeEmCommand e fs = some ⟨closed, e', fs'⟩
        ∧ executeEmCommandMsg e fs = some e'.msgBuf := by
  have hsave := emSaveMsg_eq h.ended fs
  obtain ⟨hopped, hhop, hhopMsg⟩ := emHopErrorMsg_eq h.ended.inv
  have hcmd : (endCommand e).cmdBuf.str.length ≤ 32 := by
    have hle := (List.takeWhile_sublist (· ≠ NUL) (l := (endCommand e).cmdBuf.chars)).length_le
    rw [CharArray.length_chars] at hle
    exact hle
  have hunknown : buildMsg (str "unknown command: ;") [(endCommand e).cmdBuf.str]
      = some (str "unknown command: ;" ++ (endCommand e).cmdBuf.str) := by
    rw [buildMsg_eq (by decide)]
    . rw [List.flatten_singleton]
    . rw [List.forall_mem_singleton]
      exact nulFree_cstr _
    . have hsize : MSG_BUF_SIZE = 80 := rfl
      have htext : (str "unknown command: ;").length = 18 := by decide
      rw [List.flatten_singleton]
      omega
  unfold executeEmCommand executeEmCommandMsg
  dsimp only
  split
  . exact ⟨_, _, _, rfl, rfl⟩
  split
  . exact ⟨_, _, _, rfl, hsave⟩
  split
  . exact ⟨_, _, _, rfl, hsave⟩
  split
  . rw [hhop]
    exact ⟨_, _, _, rfl, hhopMsg⟩
  . exact ⟨_, _, _, rfl, hunknown⟩

end Messages

section Status

variable {e : Em}

-- The status line has 37 characters besides the tag, the name of the file and the three numbers.
def Em.StatusShort (e : Em) : Prop :=
  let p := placeOf e.text e.cursorPos
  (emTag e).length + e.curFilename.length + (Nat.log 10 (p.row + 1) + 1)
    + (Nat.log 10 (p.col + 1) + 1) + (Nat.log 10 e.bufLen + 1) ≤ 42

theorem nulFree_emTag (e : Em) : NulFree (emTag e) := by
  unfold emTag
  cases e.mode with
  | edit =>
    cases e.curFileType with
    | bash => exact (show NulFree (str "[EDIT:BASH] ") by decide)
    | python => exact (show NulFree (str "[EDIT:PYTHON] ") by decide)
    | markdown => exact (show NulFree (str "[EDIT:MARKDOWN] ") by decide)
    | generic => exact (show NulFree (str "[EDIT] ") by decide)
  | command => exact (show NulFree (str "[COMMAND] ") by decide)

theorem placeOf_row_le (h : e.Inv) : (placeOf e.text e.cursorPos).row ≤ e.bufLen := by
  have hle : (placeOf e.text e.cursorPos).row ≤ 0 + (e.text.take e.cursorPos).length :=
    Place.row_along_le _
  rw [List.length_take, h.length_text] at hle
  exact hle.trans (by omega)

theorem statusIn_ne_none_iff (h : e.Named) : statusIn e ≠ none ↔ e.StatusShort := by
  have hbufLen : e.bufLen < 10 ^ 10 := h.inv.bufLen_lt.trans (by decide)
  have hrow : (placeOf e.text e.cursorPos).row + 1 < 10 ^ 10 := by
    have hle := placeOf_row_le h.inv
    have hlt := h.inv.bufLen_lt
    have hsize : EM_BUF_SIZE < 10 ^ 4 := by decide
    omega
  have hcol : (placeOf e.text e.cursorPos).col + 1 < 10 ^ 10 := by
    have hlt := placeOf_col_lt e.text e.cursorPos
    have hwidth : VGA_WIDTH < 10 ^ 4 := by decide
    omega
  have hrowText := length_itoa hrow
  have hcolText := length_itoa hcol
  rw [Nat.cast_succ] at hrowText hcolText
  unfold statusIn
  rw [getCursorRowCol_eq h.inv.bufLen_lt.le, Option.bind_eq_bind, Option.bind_some,
    strcatAllIn_eq List.not_mem_nil, Option.ne_none_iff_isSome, appendAllIn_isSome_iff (by decide)]
  . have hsize : STATUS_SIZE = 80 := rfl
    have hfixed : (str " | ").length = 3 ∧ (str ":").length = 1
        ∧ (str " B | Alt: cmd (;wsc ;q ;s ;-m)").length = 30 := by
      decide
    unfold statusParts Em.StatusShort
    simp only [List.flatten_cons, List.flatten_nil, List.length_append, List.length_nil,
      length_itoa hbufLen, hrowText, hcolText, hfixed]
    omega
  . unfold statusParts
    simp only [List.forall_mem_cons]
    exact ⟨nulFree_emTag e, h.nulFree, by decide, nulFree_itoa _, by decide,
      nulFree_itoa _, by decide, nulFree_itoa _, by decide, fun _ hc => nomatch hc⟩

theorem Em.textsFit_iff (h : e.Named) (fs : Fs) : e.TextsFit fs ↔ e.StatusShort := by
  obtain ⟨_, _, hhopMsg⟩ := emHopErrorMsg_eq h.inv
  obtain ⟨_, _, _, _, hcommand⟩ := executeEmCommandMsg_eq h fs
  unfold Em.TextsFit
  rw [statusIn_ne_none_iff h, emSaveMsg_eq h, hhopMsg, hcommand]
  simp only [ne_eq, reduceCtorEq, not_false_eq_true, and_true]

theorem length_emTag_le (e : Em) : (emTag e).length ≤ 16 := by
  unfold emTag
  cases e.mode with
  | edit =>
    cases e.curFileType with
    | bash => exact (show (str "[EDIT:BASH] ").length ≤ 16 by decide)
    | python => exact (show (str "[EDIT:PYTHON] ").length ≤ 16 by decide)
    | markdown => exact (show (str "[EDIT:MARKDOWN] ").length ≤ 16 by decide)
    | generic => exact (show (str "[EDIT] ").length ≤ 16 by decide)
  | command => exact (show (str "[COMMAND] ").length ≤ 16 by decide)

-- Whatever else is in the status line, there is room for short names.
theorem Em.Named.statusShort (h : e.Named) (hname : e.curFilename.length ≤ 16) : e.StatusShort := by
  have htag := length_emTag_le e
  have hlog := h.inv.log_bufLen_le
  have hrow : Nat.log 10 ((placeOf e.text e.cursorPos).row + 1) ≤ 3 := by
    have hle := placeOf_row_le h.inv
    have hlt := h.inv.bufLen_lt
    have hsize : EM_BUF_SIZE < 10 ^ 4 := by decide
    apply Nat.le_of_lt_succ
    exact Nat.log_lt_of_lt_pow' (by decide) (by omega)
  have hcol : Nat.log 10 ((placeOf e.text e.cursorPos).col + 1) ≤ 1 := by
    have hlt := placeOf_col_lt e.text e.cursorPos
    have hwidth : VGA_WIDTH = 80 := rfl
    apply Nat.le_of_lt_succ
    exact Nat.log_lt_of_lt_pow' (by decide) (by omega)
  unfold Em.StatusShort
  dsimp only
  omega

theorem em_textsFit_iff (e : Em) (fs : Fs) (filename : List UInt8) (keys : List Int)
    (hname : NulFree filename ∧ filename.length < FS_MAX_PATH)
    : let opened := emOpen e fs filename
      ∃ closed e' fs', emLoop opened.1 opened.2 keys = some ⟨closed, e', fs'⟩
        ∧ (e'.TextsFit fs' ↔ e'.StatusShort) := by
  intro opened
  obtain ⟨e', fs', hloop, hrefines, _, hfile⟩ :=
    (emOpen_refines e fs filename).loop opened.2 keys
  have hcur : e'.curFilename = filename := hfile
  refine ⟨_, e', fs', hloop, Em.textsFit_iff ⟨hrefines.inv, ?_, ?_⟩ fs'⟩
  . rw [hcur]
    exact hname.1
  . rw [hcur]
    exact hname.2

theorem emOpen_named (e : Em) (fs : Fs) {filename : List UInt8}
    (hname : NulFree filename ∧ filename.length < FS_MAX_PATH)
    : (emOpen e fs filename).1.Named :=
  ⟨(emOpen_refines e fs filename).inv, hname.1, hname.2⟩

theorem em_textsFit_short
    : let opened := emOpen Em.zero fsInit (str "/a")
      ∃ closed e' fs', emLoop opened.1 opened.2 [] = some ⟨closed, e', fs'⟩ ∧ e'.TextsFit fs' := by
  intro opened
  obtain ⟨closed, e', fs', hloop, hiff⟩ := em_textsFit_iff Em.zero fsInit (str "/a") [] (by decide)
  refine ⟨closed, e', fs', hloop, hiff.mpr ?_⟩
  have hstart : emLoop opened.1 opened.2 [] = some ⟨false, opened.1, opened.2⟩ := rfl
  rw [hstart, Option.some_inj, Prod.mk.injEq, Prod.mk.injEq] at hloop
  rw [← hloop.2.1]
  apply Em.Named.statusShort (emOpen_named Em.zero fsInit (by decide))
  rw [Em.emOpen_curFilename]
  decide

def longFilename : List UInt8 := chr '/' :: List.replicate 62 (chr 'a')

theorem em_longFilename
    : let opened := emOpen Em.zero fsInit longFilename
      fsResolvePath (str "/") longFilename = longFilename
        ∧ emLoop opened.1 opened.2 [] = some ⟨false, opened.1, opened.2⟩
        ∧ ¬opened.1.TextsFit opened.2 := by
  intro opened
  refine ⟨rfl, rfl, ?_⟩
  rw [Em.textsFit_iff (emOpen_named Em.zero fsInit (by decide))]
  have hlen : (emOpen Em.zero fsInit longFilename).1.curFilename.length = 63 := by
    rw [Em.emOpen_curFilename]
    decide
  unfold Em.StatusShort
  dsimp only
  omega

end Status

end DismasmOS
