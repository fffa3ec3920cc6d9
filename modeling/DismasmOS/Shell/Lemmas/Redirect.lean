import DismasmOS.Shell.Lemmas.Chain
import DismasmOS.Shell.Lemmas.Cwd
import DismasmOS.Shell.Lemmas.Exact

/-!
This module contains the redirection of `echo`: what is carved out of the command line, and the file
and the event that are left behind.
-/

namespace DismasmOS

section Parts

variable {s : List UInt8}

theorem stripBlanks_append_word {word : List UInt8} (h : ∀ c ∈ word, ¬isBlank c)
    (t : List UInt8)
    : stripBlanks (word ++ t) = word ++ stripBlanks t := by
  induction word with
  | nil => rfl
  | cons c word ih =>
    rw [List.forall_mem_cons] at h
    rw [List.cons_append, stripBlanks_cons, if_neg (fun hblank => h.1 hblank.1), ih h.2]
    rfl

-- What is left of a text without its opening quote and the same quote at its end.
def unquote (text : List UInt8) : List UInt8 :=
  match text with
  | [] => []
  | q :: rest =>
    if isQuote q then
      if rest.getLast? = some q then rest.dropLast else rest
    else
      q :: rest

theorem echoText_eq (cmdLeft : List UInt8)
    : echoText cmdLeft = unquote (skipBlanks (cmdLeft.drop 4)) := by
  unfold echoText unquote
  cases skipBlanks (cmdLeft.drop 4) with
  | nil => rfl
  | cons q rest => rfl

theorem unquote_sublist (text : List UInt8) : (unquote text).Sublist text := by
  unfold unquote
  cases text with
  | nil => exact List.Sublist.refl _
  | cons q rest =>
    dsimp only
    split
    . split
      . exact (List.dropLast_sublist _).trans (List.sublist_cons_self _ _)
      . exact List.sublist_cons_self _ _
    . exact List.Sublist.refl _

end Parts

-- `echo`, blanks, a text, `>` and a target.
structure Redirection where
  blanks : List UInt8
  text : List UInt8
  target : List UInt8
  blanks_ne : blanks ≠ []
  blanks_blank : ∀ c ∈ blanks, isBlank c
  text_free : chr '>' ∉ text
  target_ne : trimmed target ≠ []

namespace Redirection

variable (e : Redirection)

def left : List UInt8 := str "echo" ++ e.blanks ++ e.text

def line : List UInt8 := e.left ++ chr '>' :: e.target

theorem left_free : chr '>' ∉ e.left := by
  have hblanks : chr '>' ∉ e.blanks := fun h => absurd (e.blanks_blank _ h) (by decide)
  unfold left
  rw [List.mem_append, List.mem_append, not_or, not_or]
  exact ⟨⟨by decide, hblanks⟩, e.text_free⟩

theorem trimmed_left : trimmed e.left = str "echo" ++ stripBlanks (e.blanks ++ e.text) := by
  have hecho : ∀ c ∈ str "echo", ¬isBlank c := by decide +kernel
  have hskip : skipBlanks e.left = e.left := skipBlanks_eq_self (show ¬isBlank (chr 'e') by decide)
  unfold trimmed
  rw [hskip]
  unfold left
  rw [List.append_assoc, stripBlanks_append_word hecho]

theorem isEcho_left : isEcho (trimmed e.left) := by
  have hget : (trimmed e.left).getD 4 NUL = (stripBlanks (e.blanks ++ e.text)).headD NUL := by
    rw [trimmed_left]
    cases stripBlanks (e.blanks ++ e.text) <;> rfl
  have hcmp : strncmp (trimmed e.left) (str "echo") 4 = 0 := by
    rw [trimmed_left]
    rfl
  unfold isEcho
  rw [hget, hcmp]
  cases hstrip : stripBlanks (e.blanks ++ e.text) with
  | nil => rfl
  | cons c rest =>
    -- What is left begins with the first of the blanks.
    have hpre := isPrefix_stripBlanks (e.blanks ++ e.text)
    rw [hstrip] at hpre
    cases hblanks : e.blanks with
    | nil => exact absurd hblanks e.blanks_ne
    | cons d blanks =>
      rw [hblanks, List.cons_append, List.cons_prefix_cons] at hpre
      have hd := e.blanks_blank d (by simp [hblanks])
      rw [List.headD_cons, hpre.1, hd]
      rfl

theorem echoText_left : echoText (trimmed e.left) = unquote (trimmed e.text) := by
  rw [echoText_eq, trimmed_left, List.drop_left' (by decide), skipBlanks_stripBlanks,
    skipBlanks_append e.blanks_blank]
  rfl

theorem text_sublist : (unquote (trimmed e.text)).Sublist e.line := by
  apply (unquote_sublist _).trans
  apply (trim_sublist _).trans
  apply (List.sublist_append_right _ _).trans
  exact List.sublist_append_left _ _

theorem target_sublist : (trimmed e.target).Sublist e.line := by
  apply (trim_sublist _).trans
  apply (List.sublist_cons_self _ _).trans
  exact List.sublist_append_right _ _

theorem lineCall_eq (hnul : NulFree e.line)
    : lineCall e.line = .echoTo (unquote (trimmed e.text)) (trimmed e.target) := by
  have hredir : strchr e.line (chr '>') = some e.left.length := by
    unfold line at *
    rw [NulFree.append] at hnul
    exact strchr_append e.left_free hnul.1 _
  have htarget : e.line.drop (e.left.length + 1) = e.target := by
    unfold line
    rw [List.drop_append, List.drop_eq_nil_of_le (by omega)]
    simp
  have hleft : e.line.take e.left.length = e.left := List.take_left
  unfold lineCall handleSingleText
  rw [hredir]
  dsimp only
  rw [htarget, hleft, if_neg e.target_ne, if_pos e.isEcho_left, e.echoText_left]

end Redirection

section Redirect

open CharArray

theorem length_strAt_le {n : Nat} (a : CharArray n) (p : Nat) : (a.strAt p).length ≤ n := by
  have hcstr : (a.strAt p).length ≤ (a.chars.drop p).length :=
    (List.takeWhile_sublist _).length_le
  rw [List.length_drop, a.length_chars] at hcstr
  omega

variable {s : Shell} {m : FsMap}

theorem resolve_inLimits (hcwd : WorkingDir s.cwd) {path : List UInt8} (hpath : NulFree path)
    (hne : path ≠ []) (hlimits : InLimits s.cwd path)
    : s.resolve path = resolvePath s.cwd path := by
  unfold Shell.resolve
  rw [fsResolvePath_eq hcwd.nulFree hcwd.length_lt hpath hne]
  exact hlimits.spared.resolveWithin_eq

theorem echo_stored {text p : List UInt8} {result : Int × Shell}
    (hperf : (FileOp.echo text).Performed s m p result) (hdir : m.lookup p ≠ some .dir)
    (hroom : ¬(p ∉ m ∧ m.Full))
    : result.1 = 0
        ∧ result.2.fs.table.Represents (m.insert p (.file text))
        ∧ result.2.fs = Fs.logEvent { s.fs with table := result.2.fs.table }
            (rootEvent (if p ∈ m then EDITED else CREATED) p) := by
  have hstatus := hperf.status
  obtain ⟨t', hrep, _, hfs⟩ := hperf.simulated
  change result.1 = (FileOp.store m p text CREATED).status at hstatus
  change t'.Represents (FileOp.store m p text CREATED).map at hrep
  change _ = (FileOp.store m p text CREATED).events.foldl _ _ at hfs
  rw [FileOp.store_of_not_dir hdir hroom] at hstatus hrep hfs
  refine ⟨hstatus, ?_, ?_⟩
  . rw [hfs]
    exact hrep
  . rw [hfs]
    rfl

theorem echo_refused {text p : List UInt8} {result : Int × Shell}
    (hperf : (FileOp.echo text).Performed s m p result) (hfull : p ∉ m ∧ m.Full)
    : result.1 = 1 ∧ result.2.fs = s.fs := by
  have hspec : (FileOp.echo text).spec m p = ⟨1, m, []⟩ := if_pos hfull
  have hstatus := hperf.status
  obtain ⟨t', _, hfail, hfs⟩ := hperf.simulated
  rw [hspec] at hstatus hfail hfs
  refine ⟨hstatus, ?_⟩
  rw [hfs, hfail (by simp)]
  rfl

theorem handleSingleCommandAt_echoTo (others : Shell → Argv → Int × List UInt8)
    (a : CharArray CMD_MAX_LEN) (cmdBuf : Nat) (e : Redirection) (hline : a.strAt cmdBuf = e.line)
    : let result := echoTo s (unquote (trimmed e.text)) (trimmed e.target)
      (handleSingleCommandAt (shellExecutor others s) a cmdBuf).1 = .exit result.1 result.2 := by
  intro result
  have hnul : NulFree e.line := by
    rw [← hline]
    exact nulFree_cstr _
  rw [(handleSingleCommandAt_handles _ a cmdBuf).result, handleSingleText_eq, hline, e.lineCall_eq hnul]
  rfl

theorem handleSingleCommandAt_redirect (others : Shell → Argv → Int × List UInt8)
    (h : s.fs.table.Represents m) (hcwd : WorkingDir s.cwd) (a : CharArray CMD_MAX_LEN)
    (cmdBuf : Nat) (e : Redirection) (hline : a.strAt cmdBuf = e.line)
    (hlimits : InLimits s.cwd (trimmed e.target))
    (hdir : fsIsDir s.fs.table (resolvePath s.cwd (trimmed e.target)) = false)
    : let p := resolvePath s.cwd (trimmed e.target)
      let outcome := (handleSingleCommandAt (shellExecutor others s) a cmdBuf).1
      (¬(p ∉ m ∧ m.Full)
          → ∃ s', outcome = .exit 0 s'
            ∧ s'.fs.table.Represents (m.insert p (.file (unquote (trimmed e.text))))
            ∧ s'.fs = Fs.logEvent { s.fs with table := s'.fs.table }
                (rootEvent (if p ∈ m then EDITED else CREATED) p)
            ∧ s'.cwd = s.cwd)
        ∧ (p ∉ m ∧ m.Full → ∃ s', outcome = .exit 1 s' ∧ s'.fs = s.fs) := by
  intro p outcome
  have hnul : NulFree e.line := by
    rw [← hline]
    exact nulFree_cstr _
  have houtcome := handleSingleCommandAt_echoTo (s := s) others a cmdBuf e hline
  have hlen : (unquote (trimmed e.text)).length < FS_MAX_FILESIZE := by
    have hle := length_strAt_le a cmdBuf
    have hsub := e.text_sublist.length_le
    have hmax : CMD_MAX_LEN < FS_MAX_FILESIZE := by decide
    rw [hline] at hle
    omega
  have htarget := hnul.sublist e.target_sublist
  have hresolve : s.resolve (trimmed e.target) = p :=
    resolve_inLimits hcwd htarget e.target_ne hlimits
  have hresolved := hcwd.resolve ⟨htarget, e.target_ne⟩
  have hperf := echoTo_performed h (hnul.sublist e.text_sublist) hlen hresolved
  rw [hresolve] at hperf hresolved
  change outcome = _ at houtcome
  rw [houtcome]
  generalize echoTo s (unquote (trimmed e.text)) (trimmed e.target) = result at *
  have hlookup : m.lookup p ≠ some .dir := by
    rw [← h.lookup_eq hresolved.nulFree]
    intro heq
    have htrue := (fsIsDir_iff _ hresolved.nulFree).mpr (.inr heq)
    rw [hdir] at htrue
    cases htrue
  constructor
  . intro hroom
    obtain ⟨hstatus, hrep, hfs⟩ := echo_stored hperf hlookup hroom
    exact ⟨result.2, by rw [hstatus], hrep, hfs, hperf.cwd⟩
  . intro hfull
    obtain ⟨hstatus, hfs⟩ := echo_refused hperf hfull
    exact ⟨result.2, by rw [hstatus], hfs⟩

def quotedHi : Redirection where
  blanks := str " \t"
  text := str "\"hi '\" "
  target := str " /a "
  blanks_ne := by decide
  blanks_blank := by decide +kernel
  text_free := by decide
  target_ne := by decide

theorem handleSingleCommandAt_quotedHi
    : ∃ s',
        (handleSingleCommandAt (shellExecutor noOthers bootShell)
            ((CharArray.zero CMD_MAX_LEN).assign quotedHi.line) 0).1
          = .exit 0 s'
        ∧ s'.fs.table.Represents (initMap.insert (str "/a") (.file (str "hi '")))
        ∧ s'.fs
          = Fs.logEvent { fsInit with table := s'.fs.table } (rootEvent CREATED (str "/a")) := by
  have hnew : str "/a" ∉ initMap := by
    rw [mem_initMap]
    decide +kernel
  have hdir : fsIsDir fsInit.table (str "/a") = false := by
    rw [Bool.eq_false_iff, ne_eq, fsIsDir_iff _ (by decide),
      fsInit_represents.lookup_eq (by decide), Finmap.lookup_eq_none.mpr hnew]
    decide
  have hpath : resolvePath bootShell.cwd (trimmed quotedHi.target) = str "/a" := by decide +kernel
  have htext : unquote (trimmed quotedHi.text) = str "hi '" := by decide +kernel
  rw [← hpath] at hdir
  have h := handleSingleCommandAt_redirect noOthers (s := bootShell) fsInit_represents
    ⟨by decide, by decide⟩ ((CharArray.zero CMD_MAX_LEN).assign quotedHi.line) 0 quotedHi
    (by decide +kernel) ⟨by decide +kernel, by decide +kernel, by decide +kernel⟩ hdir
  rw [hpath, htext] at h
  obtain ⟨s', hexit, hrep, hfs, _⟩ := h.1 fun hfull => initMap_not_full hfull.2
  refine ⟨s', hexit, hrep, ?_⟩
  rw [if_neg hnew] at hfs
  exact hfs

end Redirect

end DismasmOS
