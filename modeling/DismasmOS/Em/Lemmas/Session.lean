import DismasmOS.Em.Lemmas.Words

/-!
This module contains the refinement of the reference editor by whole sessions: every key does to the
text, the cursor and the command line what the reference says, and no key leaves the buffer.
-/

namespace DismasmOS

section Hop

namespace Em

variable {e : Em} {d : Doc UInt8}

theorem Shows.congr (h : e.Shows d) {e' : Em} (hbuffer : e'.buffer = e.buffer)
    (hbufLen : e'.bufLen = e.bufLen) (hcursor : e'.cursorPos = e.cursorPos)
    (hcmdLen : e'.cmdLen ≤ 31) (htyped : NulFree e'.typed)
    : e'.Shows d := by
  constructor
  . constructor
    . rw [hcursor, hbufLen]
      exact h.inv.cursor_le
    . rw [hbufLen]
      exact h.inv.bufLen_le
    . rw [hbuffer, hbufLen]
      exact h.inv.terminated
    . exact hcmdLen
    . exact htyped
  . rw [← h.text]
    unfold Em.text
    rw [hbuffer, hbufLen]
  . rw [hcursor]
    exact h.cursor

theorem Shows.moveTo (h : e.Shows d) {p : Nat} (hp : p ≤ d.text.length) (msg : List UInt8)
    : Em.Shows { e with cursorPos := p, msgBuf := msg } (d.moveTo p) := by
  constructor
  . constructor
    . rw [h.length_text] at hp
      exact hp
    . exact h.inv.bufLen_le
    . exact h.inv.terminated
    . exact h.inv.cmdLen_le
    . exact h.inv.typed
  . exact h.text
  . unfold Doc.moveTo
    dsimp only
    omega

theorem Shows.hop (h : e.Shows d)
    : ∃ p msg, emHopError e = some { e with cursorPos := p, msgBuf := msg }
        ∧ Em.Shows { e with cursorPos := p, msgBuf := msg }
          (d.hop isalpha (isTypo e.curFileType)) := by
  have hnext : e.nextTypo = nextRun isalpha (isTypo e.curFileType) d.text d.cursor := by
    unfold Em.nextTypo
    rw [h.text, h.cursor]
  rw [emHopError_eq h.inv, Doc.hop_eq, ← hnext]
  cases hword : e.nextTypo with
  | some w =>
    have hrun := (nextRun_some h.inv.cursor_le_text hword).1
    have hend := hrun.end_le
    rw [h.text] at hend
    exact ⟨w.1, _, rfl, h.moveTo (by omega) _⟩
  | none =>
    refine ⟨e.cursorPos, str "no typos found", rfl, ?_⟩
    exact h.congr rfl rfl rfl h.inv.cmdLen_le h.inv.typed

end Em

end Hop

section Edit

namespace Em

variable {e : Em} {d : Doc UInt8}

theorem Performs.bind {result : Option Em} (h : e.Performs result d) {f : Em → Option Em}
    {d' : Doc UInt8} (hf : ∀ e' : Em, e'.Shows d → e'.Performs (f e') d')
    : e.Performs (result >>= f) d' := by
  obtain ⟨buf, n, p, hresult, hshows⟩ := h
  obtain ⟨buf', n', p', hf, hshows'⟩ := hf _ hshows
  refine ⟨buf', n', p', ?_, hshows'⟩
  rw [hresult]
  exact hf

theorem Performs.ite {c : Prop} [Decidable c] {result result' : Option Em} {d' : Doc UInt8}
    (h : c → e.Performs result d) (h' : ¬c → e.Performs result' d')
    : e.Performs (if c then result else result') (if c then d else d') := by
  split
  . next hc => exact h hc
  . next hc => exact h' hc

theorem Shows.editKey (h : e.Shows d) {c : Int} (hc : c ≠ KEY_ALT)
    : e.Performs (emEditKey e c) (EmRef.editKey d c) := by
  unfold emEditKey EmRef.editKey
  rw [if_neg hc]
  apply Performs.ite (fun _ => h.up); intro _
  apply Performs.ite (fun _ => h.down); intro _
  apply Performs.ite (fun _ => h.left); intro _
  apply Performs.ite (fun _ => h.right); intro _
  apply Performs.ite (fun _ => h.home); intro _
  apply Performs.ite (fun _ => h.lineEnd); intro _
  apply Performs.ite (fun _ => h.delete); intro _
  apply Performs.ite (fun _ => h.backspace); intro _
  apply Performs.ite (fun _ => h.insert newline); intro _
  apply Performs.ite
  . intro _
    -- A tab is four insertions, the buffer may be full after any of them.
    apply Performs.bind (h.insert _)
    intro e h
    apply Performs.bind (h.insert _)
    intro e h
    apply Performs.bind (h.insert _)
    intro e h
    exact h.insert _
  . intro _
    exact Performs.ite (fun _ => h.insert _) (fun _ => Performs.self h)

end Em

end Edit

section Command

namespace EmRef

theorem nulFree_commandName {cmd : List UInt8} (h : NulFree cmd) : NulFree (commandName cmd) := by
  unfold commandName
  split
  . exact h.sublist ((List.dropWhile_sublist _).trans (List.tail_sublist _))
  . exact h.sublist (List.dropWhile_sublist _)

theorem commandKey_text (fileType : EmFileType) (r : EmRef) (cmd : List UInt8) (c : Int)
    : (r.commandKey fileType cmd c).2.doc.text = r.doc.text := by
  unfold commandKey execute
  have hhop : (r.doc.hop isalpha (isTypo fileType)).text = r.doc.text := by
    unfold Doc.hop
    dsimp only
    split
    . rfl
    . split <;> rfl
  grind

end EmRef

namespace Em

variable {e : Em} {r : EmRef} {cmd : List UInt8}

theorem Refines.shows (h : e.Refines r) : e.Shows r.doc := ⟨h.inv, h.text, h.cursor⟩

theorem Shows.refines (h : e.Shows r.doc)
    (hmode : r.command = match e.mode with | .edit => none | .command => some e.typed)
    : e.Refines r :=
  ⟨h.inv, h.text, h.cursor, hmode⟩

theorem Inv.length_typed (h : e.Inv) : e.typed.length = e.cmdLen := by
  have hle := h.cmdLen_le
  unfold Em.typed
  rw [List.length_take, e.cmdBuf.length_chars]
  omega

theorem typed_edit (e : Em) : (editMode e).typed = [] := List.take_zero

theorem Shows.leaveCommand (h : e.Shows r.doc) (hr : r.command = none) (e' : Em)
    (hbuffer : e'.buffer = e.buffer) (hbufLen : e'.bufLen = e.bufLen)
    (hcursor : e'.cursorPos = e.cursorPos)
    : (editMode e').Refines r := by
  apply Shows.refines
  . apply h.congr (show (editMode e').buffer = e.buffer from hbuffer) hbufLen hcursor
    . exact Nat.zero_le _
    . rw [typed_edit]
      exact List.not_mem_nil
  . exact hr

theorem emSave_eq (e : Em) (fs : Fs)
    : ∃ msg, (emSave e fs).1 = { e with msgBuf := msg } := by
  unfold emSave
  dsimp only
  split <;> split <;> exact ⟨_, rfl⟩

theorem typed_endCommand (e : Em) : (endCommand e).typed = e.typed := by
  unfold Em.typed endCommand CharArray.set
  dsimp only
  rw [List.take_set_of_le (Nat.le_refl _)]

theorem emCommand_endCommand (h : e.Inv) : emCommand (endCommand e) = EmRef.commandName e.typed := by
  have hle := h.cmdLen_le
  have hstr : (endCommand e).cmdBuf.str = e.typed := e.cmdBuf.str_set_nul (by omega) h.typed
  unfold emCommand EmRef.commandName
  dsimp only
  rw [hstr]
  cases e.typed with
  | nil => rfl
  | cons c cmd => simp

theorem Inv.ended (h : e.Inv) : (endCommand e).Inv := by
  constructor
  . exact h.cursor_le
  . exact h.bufLen_le
  . exact h.terminated
  . exact h.cmdLen_le
  . rw [typed_endCommand]
    exact h.typed

theorem Refines.ended (h : e.Refines r) : (endCommand e).Refines r := by
  constructor
  . exact h.inv.ended
  . exact h.text
  . exact h.cursor
  . rw [typed_endCommand]
    exact h.mode

theorem Refines.setMsg (h : e.Refines r) (msg : List UInt8)
    : Em.Refines { e with msgBuf := msg } r := by
  apply Shows.refines
  . exact h.shows.congr rfl rfl rfl h.inv.cmdLen_le h.inv.typed
  . exact h.mode

theorem strcmp_emCommand (h : e.Inv) {name : List UInt8} (hname : NulFree name)
    : strcmp (emCommand (endCommand e)) name = 0 ↔ EmRef.commandName e.typed = name := by
  rw [emCommand_endCommand h]
  exact (EmRef.nulFree_commandName h.typed).strcmp_eq_zero_iff hname

theorem executeEmCommand_eq (h : e.Inv) (fs : Fs)
    : executeEmCommand e fs
        = let saved := emSave (endCommand e) fs
          let name := EmRef.commandName e.typed
          if name = str "q" then
            some ⟨true, endCommand e, fs⟩
          else if name = str "s" then
            some ⟨false, editMode saved.1, saved.2⟩
          else if name = str "wsc" ∨ name = str "wq" then
            some ⟨true, saved⟩
          else if name = str "-m" then
            (emHopError (endCommand e)).map fun e => ⟨false, editMode e, fs⟩
          else
            let msg := str "unknown command: ;" ++ (endCommand e).cmdBuf.str
            some ⟨false, editMode { endCommand e with msgBuf := msg }, fs⟩ := by
  unfold executeEmCommand
  dsimp only
  simp only [strcmp_emCommand h (show NulFree (str "q") by decide),
    strcmp_emCommand h (show NulFree (str "s") by decide),
    strcmp_emCommand h (show NulFree (str "wsc") by decide),
    strcmp_emCommand h (show NulFree (str "wq") by decide),
    strcmp_emCommand h (show NulFree (str "-m") by decide)]
  rw [Option.map_eq_bind]
  rfl

-- What the reference says about the result of a key.
def Follows (e : Em) (result : Option (Bool × Em × Fs)) (next : Bool × EmRef) : Prop :=
  ∃ e' fs', result = some ⟨next.1, e', fs'⟩ ∧ e'.Refines next.2
    ∧ e'.curFileType = e.curFileType ∧ e'.curFilename = e.curFilename

theorem Refines.execute (h : e.Refines r) (fs : Fs)
    : e.Follows (executeEmCommand e fs) (r.execute e.curFileType e.typed) := by
  have hended := h.ended
  obtain ⟨msg, hmsg⟩ := emSave_eq (endCommand e) fs
  rw [executeEmCommand_eq h.inv]
  unfold EmRef.execute
  dsimp only
  generalize emSave (endCommand e) fs = saved at hmsg
  have hcloses : EmRef.closes e.typed ↔ EmRef.commandName e.typed = str "q"
      ∨ EmRef.commandName e.typed = str "wsc" ∨ EmRef.commandName e.typed = str "wq" := Iff.rfl
  split
  . next hq =>
    rw [if_pos (hcloses.mpr (.inl hq))]
    exact ⟨_, _, rfl, hended, rfl, rfl⟩
  . next hq =>
    split
    . next hs =>
      rw [hs] at hcloses
      rw [hs, if_neg (by rw [hcloses]; decide), if_neg (by decide)]
      refine ⟨_, _, rfl, ?_, ?_, ?_⟩
      . rw [hmsg]
        exact Shows.leaveCommand (r := { r with command := none }) h.shows rfl _ rfl rfl rfl
      . rw [hmsg]
        rfl
      . rw [hmsg]
        rfl
    . split
      . next hsave =>
        rw [if_pos (hcloses.mpr (.inr hsave))]
        refine ⟨_, _, rfl, ?_, ?_, ?_⟩
        . rw [hmsg]
          exact hended.setMsg msg
        . rw [hmsg]
          rfl
        . rw [hmsg]
          rfl
      . next hsave =>
        have hopen : ¬EmRef.closes e.typed := by
          rw [hcloses, not_or]
          exact ⟨hq, hsave⟩
        rw [if_neg hopen]
        split
        . obtain ⟨p, hopMsg, hhop, hshows⟩ := hended.shows.hop
          rw [hhop]
          refine ⟨_, _, rfl, ?_, rfl, rfl⟩
          exact Shows.leaveCommand (r := { doc := _, command := none }) hshows rfl _ rfl rfl rfl
        . refine ⟨_, _, rfl, ?_, rfl, rfl⟩
          exact Shows.leaveCommand (r := { r with command := none }) h.shows rfl _ rfl rfl rfl

theorem typed_backspace (e : Em) (h : e.Inv)
    : Em.typed { e with cmdLen := e.cmdLen - 1 } = e.typed.dropLast := by
  have hle := h.cmdLen_le
  unfold Em.typed
  dsimp only
  rw [List.dropLast_take (by rw [e.cmdBuf.length_chars]; omega)]

theorem typed_char (e : Em) (h : e.cmdLen < 31) (c : UInt8)
    : Em.typed { e with cmdBuf := e.cmdBuf.set e.cmdLen c, cmdLen := e.cmdLen + 1 }
        = e.typed ++ [c] := by
  have hlen := e.cmdBuf.length_chars
  unfold Em.typed CharArray.set
  dsimp only
  rw [List.take_add_one, List.take_set_of_le (Nat.le_refl _), List.getElem?_set_self (by omega)]
  rfl

theorem keyChar_ne_nul {c : Int} (h : c ≥ 32 ∧ c ≤ 126) : keyChar c ≠ NUL := by
  unfold keyChar NUL
  intro hc
  have hnat := congrArg UInt8.toNat hc
  rw [UInt8.toNat_ofNat'] at hnat
  change c.toNat % 256 = 0 at hnat
  omega

theorem Refines.commandKey (h : e.Refines r) (hmode : e.mode = .command) (fs : Fs) (c : Int)
    : e.Follows (emCommandKey e fs c) (r.commandKey e.curFileType e.typed c) := by
  have hlen := h.inv.length_typed
  have htyped := h.inv.typed
  have hcmdLen := h.inv.cmdLen_le
  unfold emCommandKey EmRef.commandKey
  split
  . refine ⟨_, _, rfl, ?_, rfl, rfl⟩
    exact Shows.leaveCommand (r := { r with command := none }) h.shows rfl { e with msgBuf := [] }
      rfl rfl rfl
  . split
    . exact h.execute fs
    . split
      . split
        . next hpos =>
          refine ⟨_, _, rfl, ?_, rfl, rfl⟩
          have hne : e.typed ≠ [] := by
            rw [← List.length_pos_iff, hlen]
            exact hpos
          have hback := typed_backspace e h.inv
          apply Shows.refines
          . refine h.shows.congr rfl rfl rfl ?_ ?_
            . dsimp only
              omega
            . rw [hback]
              exact htyped.sublist (List.dropLast_sublist _)
          . dsimp only
            rw [if_neg hne, hback, hmode]
        . next hpos =>
          refine ⟨_, _, rfl, ?_, rfl, rfl⟩
          have hnil : e.typed = [] := by
            rw [← List.length_eq_zero_iff, hlen]
            omega
          apply Shows.refines
          . exact h.shows.congr rfl rfl rfl hcmdLen htyped
          . dsimp only
            rw [if_pos hnil]
      . rw [hlen]
        split
        . next hc =>
          have hchar := typed_char e hc.2.2 (keyChar c)
          refine ⟨_, _, rfl, ?_, rfl, rfl⟩
          apply Shows.refines
          . refine h.shows.congr rfl rfl rfl ?_ ?_
            . exact hc.2.2
            . rw [hchar, NulFree.append]
              refine ⟨htyped, ?_⟩
              rw [NulFree.cons]
              exact ⟨keyChar_ne_nul ⟨hc.1, hc.2.1⟩, List.not_mem_nil⟩
          . dsimp only
            rw [hchar, hmode]
        . exact ⟨_, _, rfl, h, rfl, rfl⟩

theorem Refines.key (h : e.Refines r) (fs : Fs) (c : Int)
    : e.Follows (emKey e fs c) (r.key e.curFileType c) := by
  have hmode := h.mode
  unfold emKey EmRef.key
  split at hmode
  . next hedit =>
    rw [hmode, hedit]
    dsimp only
    split
    . next halt =>
      unfold emEditKey
      rw [if_pos halt]
      refine ⟨_, _, rfl, ?_, rfl, rfl⟩
      apply Shows.refines
      . exact h.shows.congr rfl rfl rfl (Nat.zero_le _) List.not_mem_nil
      . rfl
    . next halt =>
      obtain ⟨buf, n, p, hresult, hshows⟩ := h.shows.editKey halt
      rw [hresult]
      refine ⟨_, _, rfl, ?_, rfl, rfl⟩
      apply Shows.refines
      . exact hshows
      . dsimp only
        rw [hedit]
  . next hcommand =>
    rw [hmode, hcommand]
    exact h.commandKey hcommand fs c

theorem Refines.loop (h : e.Refines r) (fs : Fs) (keys : List Int)
    : e.Follows (emLoop e fs keys) (r.loop e.curFileType keys) := by
  induction keys generalizing e r fs with
  | nil => exact ⟨_, _, rfl, h, rfl, rfl⟩
  | cons c keys ih =>
    obtain ⟨e', fs', hkey, hrefines, htype, hname⟩ := h.key fs c
    unfold emLoop EmRef.loop
    rw [hkey]
    simp only [Option.bind_eq_bind, Option.bind_some]
    split
    . exact ⟨_, _, rfl, hrefines, htype, hname⟩
    . obtain ⟨last, fsLast, hloop, hlast, htypeLast, hnameLast⟩ := ih hrefines fs'
      rw [htype] at hloop hlast htypeLast
      rw [hname] at hnameLast
      exact ⟨_, _, hloop, hlast, htypeLast, hnameLast⟩

end Em

end Command

section Open

theorem Em.Refines.start {e : Em} {content : List UInt8} (buf : EmBuffer) {n : Nat}
    (hbuffer : e.buffer = buf.set n NUL) (hbufLen : e.bufLen = n) (hn : n ≤ EM_CAPACITY)
    (htext : buf.chars.take n = content) (hcursor : e.cursorPos = 0) (hmode : e.mode = .edit)
    (hcmdLen : e.cmdLen = 0)
    : e.Refines (EmRef.start content) := by
  have hcap : EM_CAPACITY < EM_BUF_SIZE := by decide
  constructor
  . constructor
    . rw [hcursor]
      exact Nat.zero_le _
    . rw [hbufLen]
      exact hn
    . rw [hbuffer, hbufLen]
      unfold CharArray.get CharArray.set
      dsimp only
      rw [List.getD_eq_getElem?_getD, List.getElem?_set_self (by rw [buf.length_chars]; omega)]
      rfl
    . omega
    . unfold Em.typed
      rw [hcmdLen]
      exact List.not_mem_nil
  . unfold Em.text
    rw [hbuffer, hbufLen]
    unfold CharArray.set
    dsimp only
    rw [List.take_set_of_le (Nat.le_refl _), htext]
    rfl
  . exact hcursor
  . rw [hmode]
    rfl

theorem emOpen_refines (e : Em) (fs : Fs) (filename : List UInt8)
    : (emOpen e fs filename).1.Refines (EmRef.start (emContent fs.table filename)) := by
  have htable : (fsLogChange fs (str "VIEW") (str "root") filename).table = fs.table := rfl
  unfold emOpen emContent
  dsimp only
  rw [htable]
  cases hfind : fsFind fs.table filename with
  | none =>
    exact Em.Refines.start e.buffer rfl rfl (Nat.zero_le _) List.take_zero rfl rfl rfl
  | some i =>
    dsimp only
    generalize fs.table.get i = f
    have hdata := f.data.length_chars
    have hbuffer := e.buffer.length_chars
    have hcap : EM_CAPACITY = EM_BUF_SIZE - 1 := rfl
    have hsize : EM_BUF_SIZE = FS_MAX_FILESIZE := rfl
    have hpos : 0 < EM_BUF_SIZE := by decide
    have hmin : (if f.size ≥ EM_BUF_SIZE then EM_BUF_SIZE - 1 else f.size) = min f.size EM_CAPACITY := by
      split <;> omega
    rw [hmin]
    apply Em.Refines.start (e.buffer.memcpy f.data.chars (min f.size EM_CAPACITY))
    . rfl
    . rfl
    . omega
    . unfold CharArray.memcpy
      dsimp only
      rw [memcpy_eq _ _ _ (by omega) (by omega), List.take_left' (by rw [List.length_take]; omega)]
    . rfl
    . rfl
    . rfl

-- A session as a whole: what the reference shows, what it closes on, and no access that leaves the
-- buffer. All prefixes of the keys are sessions as well.
theorem em_refines (e : Em) (fs : Fs) (filename : List UInt8) (keys : List Int)
    : let opened := emOpen e fs filename
      let ref := (EmRef.start (emContent fs.table filename)).loop opened.1.curFileType keys
      ∃ e' fs', emLoop opened.1 opened.2 keys = some ⟨ref.1, e', fs'⟩
        ∧ e'.text = ref.2.doc.text ∧ e'.cursorPos = ref.2.doc.cursor
        ∧ e'.cursorPos ≤ e'.bufLen ∧ e'.bufLen ≤ 2047 ∧ e'.buffer.get e'.bufLen = NUL
        ∧ e'.cmdLen ≤ 31
        ∧ (e'.mode = .command → ∀ c, ∃ closed e'' fs'', emKey e' fs' c = some ⟨closed, e'', fs''⟩
          ∧ e''.text = e'.text) := by
  intro opened ref
  obtain ⟨e', fs', hloop, hrefines, _⟩ := (emOpen_refines e fs filename).loop opened.2 keys
  refine ⟨e', fs', hloop, hrefines.text, hrefines.cursor, ?_⟩
  refine ⟨hrefines.inv.cursor_le, hrefines.inv.bufLen_le, hrefines.inv.terminated,
    hrefines.inv.cmdLen_le, ?_⟩
  intro hmode c
  obtain ⟨e'', fs'', hkey, hnext, _⟩ := hrefines.key fs' c
  refine ⟨_, e'', fs'', hkey, ?_⟩
  have hcommand := hrefines.mode
  rw [hmode] at hcommand
  dsimp only at hcommand
  have htext := hnext.text
  unfold EmRef.key at htext
  rw [hcommand] at htext
  dsimp only at htext
  rw [htext, EmRef.commandKey_text, hrefines.text]

end Open

end DismasmOS
