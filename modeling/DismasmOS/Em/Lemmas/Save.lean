import DismasmOS.Fs.Lemmas.Init
import DismasmOS.Em.Lemmas.Session

/-!
This module contains what saving does to the file table, and when the editor tells the truth about
it.
-/

namespace DismasmOS

variable {m : FsMap} {e : Em} {fs : Fs}

namespace Em

def SAVE_ERROR : List UInt8 := str "error: cannot create file"

theorem emSave_simulated (h : fs.table.Represents m) (he : e.Inv) (hp : Resolved e.curFilename)
    : (FileOp.save e.text).Simulated fs m e.curFilename (emSave e fs).2
        ∧ (emSave e fs).1 = { e with
          msgBuf :=
            if ((FileOp.save e.text).spec m e.curFilename).status = 0 then
              savedMsg e
            else
              SAVE_ERROR } := by
  have hlt := he.bufLen_lt
  have hsize : EM_BUF_SIZE = FS_MAX_FILESIZE := rfl
  have hbuffer := e.buffer.length_chars
  have hspec : (FileOp.save e.text).spec m e.curFilename
      = FileOp.store m e.curFilename e.text EDITED := rfl
  unfold FileOp.store at hspec
  have hstore := h.store hp (show e.bufLen ≤ e.buffer.chars.length by omega)
    (show e.bufLen < FS_MAX_FILESIZE by omega) rfl
  unfold emSave
  dsimp only
  generalize (if fsFind fs.table e.curFilename = none then fsCreate fs.table e.curFilename
    else (⟨0, fs.table⟩ : Int × FileTable)) = created at *
  cases hstore with
  | inl hfail =>
    rw [if_pos hfail.1] at hspec
    rw [hfail.2, if_pos (by simp)]
    refine ⟨.of_eq hspec h (fun _ => rfl) rfl, ?_⟩
    rw [hspec]
    rfl
  | inr hok =>
    obtain ⟨hroom, hzero, hrep, _⟩ := hok
    rw [if_neg hroom, ite_self] at hspec
    rw [if_neg (by simp [hzero])]
    refine ⟨.of_eq hspec hrep (by simp) rfl, ?_⟩
    rw [hspec]
    rfl

theorem emKey_of_not_saves (he : e.Inv) {c : Int} (hc : ¬e.Saves c) {closed : Bool} {e' : Em}
    {fs' : Fs} (hkey : emKey e fs c = some ⟨closed, e', fs'⟩)
    : fs' = fs := by
  unfold emKey at hkey
  split at hkey
  . next hmode =>
    unfold emCommandKey at hkey
    split at hkey
    . cases hkey
      rfl
    . split at hkey
      . next hnewline =>
        have hname := not_or.mp fun hname => hc ⟨hmode, hnewline, hname⟩
        rw [executeEmCommand_eq he] at hkey
        dsimp only at hkey
        rw [if_neg hname.1, if_neg hname.2] at hkey
        split at hkey
        . cases hkey
          rfl
        . split at hkey
          . obtain ⟨e'', _, heq⟩ := Option.map_eq_some_iff.mp hkey
            cases heq
            rfl
          . cases hkey
            rfl
      . split at hkey
        . split at hkey <;> cases hkey <;> rfl
        . split at hkey <;> cases hkey <;> rfl
  . cases hedit : emEditKey e c with
    | none =>
      rw [hedit] at hkey
      cases hkey
    | some e'' =>
      rw [hedit] at hkey
      cases hkey
      rfl

theorem emKey_of_saves (he : e.Inv) {c : Int} (hc : e.Saves c)
    : emKey e fs c
        = let saved := emSave (endCommand e) fs
          if EmRef.commandName e.typed = str "s" then
            some ⟨false, editMode saved.1, saved.2⟩
          else
            some ⟨true, saved⟩ := by
  obtain ⟨hmode, hnewline, hname⟩ := hc
  unfold emKey emCommandKey
  rw [hmode, hnewline]
  dsimp only
  rw [if_neg (by decide), if_pos rfl, executeEmCommand_eq he]
  dsimp only
  rw [if_neg (by rcases hname with hname | hname | hname <;> rw [hname] <;> decide)]
  split
  . rfl
  . next hs => rw [if_pos (hname.resolve_left hs)]

theorem emKey_saved (h : fs.table.Represents m) (he : e.Inv) (hp : Resolved e.curFilename) {c : Int}
    (hc : e.Saves c) {closed : Bool} {e' : Em} {fs' : Fs}
    (hkey : emKey e fs c = some ⟨closed, e', fs'⟩)
    : (FileOp.save e.text).Simulated fs m e.curFilename fs'
        ∧ (closed = true ↔ EmRef.commandName e.typed ≠ str "s")
        ∧ e'.text = e.text ∧ e'.curFilename = e.curFilename
        ∧ (e'.msgBuf = savedMsg e'
          ↔ ((FileOp.save e.text).spec m e.curFilename).status = 0) := by
  obtain ⟨hsim, hsaved⟩ := emSave_simulated (e := endCommand e) h he.ended hp
  have hmsg : SAVE_ERROR ≠ savedMsg e := by
    unfold SAVE_ERROR savedMsg
    intro heq
    cases heq
  rw [emKey_of_saves he hc] at hkey
  dsimp only at hkey
  generalize emSave (endCommand e) fs = saved at *
  obtain ⟨e'', fs''⟩ := saved
  dsimp only at hsim hsaved hkey
  have hstatus : (if ((FileOp.save e.text).spec m e.curFilename).status = 0 then savedMsg e
      else SAVE_ERROR) = savedMsg e
        ↔ ((FileOp.save e.text).spec m e.curFilename).status = 0 := by
    split
    . next hzero => simp [hzero]
    . next hzero => simp [hzero, hmsg]
  split at hkey
  . next hs =>
    cases hkey
    rw [hsaved]
    exact ⟨hsim, by simp [hs], rfl, rfl, hstatus⟩
  . next hs =>
    cases hkey
    rw [hsaved]
    exact ⟨hsim, by simp [hs], rfl, rfl, hstatus⟩

theorem Inv.exists_refines (he : e.Inv) : ∃ r, e.Refines r := by
  let doc : Doc UInt8 :=
    { text := e.text, cursor := e.cursorPos, cursor_le := by rw [he.length_text]; exact he.cursor_le }
  exact ⟨⟨doc, _⟩, he, rfl, rfl, rfl⟩

-- What holds between two keys of a session.
structure Session (e : Em) (fs : Fs) : Prop where
  inv : e.Inv
  filename : Resolved e.curFilename
  table : ∃ m, fs.table.Represents m

theorem Session.key (h : Session e fs) (c : Int)
    : ∃ closed e' fs', emKey e fs c = some ⟨closed, e', fs'⟩ ∧ Session e' fs'
        ∧ e'.curFilename = e.curFilename := by
  obtain ⟨r, hrefines⟩ := h.inv.exists_refines
  obtain ⟨e', fs', hkey, hnext, _, hname⟩ := hrefines.key fs c
  refine ⟨_, e', fs', hkey, ⟨hnext.inv, ?_, ?_⟩, hname⟩
  . rw [hname]
    exact h.filename
  . obtain ⟨m, hrep⟩ := h.table
    by_cases hc : e.Saves c
    . exact ⟨_, (emKey_saved hrep h.inv h.filename hc hkey).1.represents⟩
    . rw [emKey_of_not_saves h.inv hc hkey]
      exact ⟨m, hrep⟩

theorem Session.loop (h : Session e fs) {keys : List Int} {closed : Bool} {e' : Em} {fs' : Fs}
    (hloop : emLoop e fs keys = some ⟨closed, e', fs'⟩)
    : Session e' fs' ∧ e'.curFilename = e.curFilename := by
  induction keys generalizing e fs with
  | nil =>
    cases hloop
    exact ⟨h, rfl⟩
  | cons c keys ih =>
    obtain ⟨closed, e'', fs'', hkey, hsession, hname⟩ := h.key c
    unfold emLoop at hloop
    rw [hkey] at hloop
    simp only [Option.bind_eq_bind, Option.bind_some] at hloop
    split at hloop
    . cases hloop
      exact ⟨hsession, hname⟩
    . rw [← hname]
      exact ih hsession hloop

theorem Session.loop_fs (h : Session e fs) {keys : List Int} (hkeys : ∀ c ∈ keys, c ≠ KEY_NEWLINE)
    {closed : Bool} {e' : Em} {fs' : Fs} (hloop : emLoop e fs keys = some ⟨closed, e', fs'⟩)
    : fs' = fs := by
  induction keys generalizing e fs with
  | nil =>
    cases hloop
    rfl
  | cons c keys ih =>
    simp only [List.mem_cons, forall_eq_or_imp] at hkeys
    obtain ⟨closed, e'', fs'', hkey, hsession, _⟩ := h.key c
    have hfs := emKey_of_not_saves h.inv (fun hsaves => hkeys.1 hsaves.2.1) hkey
    rw [hfs] at hkey hsession
    unfold emLoop at hloop
    rw [hkey] at hloop
    simp only [Option.bind_eq_bind, Option.bind_some] at hloop
    split at hloop
    . cases hloop
      rfl
    . exact ih hsession hkeys.2 hloop

theorem emOpen_table (e : Em) (fs : Fs) (filename : List UInt8)
    : (emOpen e fs filename).2.table = fs.table := rfl

theorem emOpen_curFilename (e : Em) (fs : Fs) (filename : List UInt8)
    : (emOpen e fs filename).1.curFilename = filename := rfl

theorem Session.start (e : Em) (h : ∃ m, fs.table.Represents m) {filename : List UInt8}
    (hname : Resolved filename)
    : Session (emOpen e fs filename).1 (emOpen e fs filename).2 :=
  ⟨(emOpen_refines e fs filename).inv, hname, h⟩

end Em

theorem emContent_eq {t : FileTable} {p content : List UInt8}
    (h : t.lookup p = some (.file content))
    : emContent t p = content.take EM_CAPACITY := by
  unfold FileTable.lookup at h
  unfold emContent
  obtain ⟨i, hfind, hnode⟩ := Option.map_eq_some_iff.mp h
  rw [hfind]
  dsimp only
  unfold FsFile.node at hnode
  split at hnode
  . cases hnode
  . cases hnode
    rw [List.take_take, Nat.min_comm]

namespace Em

-- The table holds the text under the name of the session, opening the name again shows the text.
structure Stored (e : Em) (fs : Fs) : Prop where
  file : fs.table.lookup e.curFilename = some (.file e.text)
  reopened : ∀ e₀ : Em, (emOpen e₀ fs e.curFilename).1.text = e.text

theorem stored_of_lookup (he : e.text.length ≤ EM_CAPACITY)
    (h : fs.table.lookup e.curFilename = some (.file e.text))
    : e.Stored fs := by
  refine ⟨h, ?_⟩
  intro e₀
  rw [(emOpen_refines e₀ fs e.curFilename).text, emContent_eq h, List.take_of_length_le he]
  rfl

-- The name is a directory, or there is neither a file nor a free slot.
def Unstorable (e : Em) (fs : Fs) : Prop :=
  fs.table.lookup e.curFilename = some .dir
    ∨ fs.table.lookup e.curFilename = none ∧ fsFindSlot fs.table = none

-- A key that saves either stores the text or neither closes the editor nor says that it saved.
def HonestSave (e : Em) (fs : Fs) (c : Int) : Prop :=
  e.Saves c → ∀ closed e' fs', emKey e fs c = some ⟨closed, e', fs'⟩ →
    (closed = true ∨ e'.msgBuf = savedMsg e' → e'.Stored fs')
      ∧ (e.Unstorable fs → ¬(closed = true ∨ e'.msgBuf = savedMsg e'))

theorem Session.honestSave_iff (h : Session e fs) (c : Int)
    : e.HonestSave fs c
        ↔ (e.Saves c → fs.table.lookup e.curFilename ≠ some .dir
          ∧ (fs.table.lookup e.curFilename = none → fsFindSlot fs.table = none
            → EmRef.commandName e.typed = str "s")) := by
  obtain ⟨m, hrep⟩ := h.table
  obtain ⟨closed, e', fs', hkey, hsession, _⟩ := h.key c
  have hlookup := hrep.lookup_eq h.filename.nulFree
  have hmem : e.curFilename ∉ m ↔ m.lookup e.curFilename = none := Finmap.lookup_eq_none.symm
  unfold HonestSave Unstorable
  rw [hlookup, hrep.findSlot_none_iff]
  apply forall_congr'
  intro hc
  obtain ⟨hsim, hclosed, htext, hname, hreport⟩ := emKey_saved hrep h.inv h.filename hc hkey
  have hstatus : ((FileOp.save e.text).spec m e.curFilename).status = 0
      ↔ ¬(e.curFilename ∉ m ∧ m.Full) :=
    not_ne_iff.symm.trans (FileOp.store_status_iff _ _).not
  have hmap : ¬(e.curFilename ∉ m ∧ m.Full) → m.lookup e.curFilename ≠ some .dir
      → e'.Stored fs' := by
    intro hroom hdir
    have hrep' := hsim.represents
    change fs'.table.Represents (FileOp.store m _ e.text EDITED).map at hrep'
    rw [FileOp.store_of_not_dir hdir hroom] at hrep'
    apply stored_of_lookup
    . rw [hsession.inv.length_text]
      exact hsession.inv.bufLen_le
    . rw [hname, hrep'.lookup_eq h.filename.nulFree, htext]
      exact Finmap.lookup_insert _
  rw [hmem] at hstatus hmap
  constructor
  . intro hhonest
    obtain ⟨_, hunstorable⟩ := hhonest closed e' fs' hkey
    rw [hclosed, hreport, hstatus] at hunstorable
    constructor
    . intro hdir
      apply hunstorable (.inl hdir)
      right
      rw [hdir]
      simp
    . intro hnone hfull
      by_contra hs
      exact hunstorable (.inr ⟨hnone, hfull⟩) (.inl hs)
  . rintro ⟨hdir, hfull⟩ closed' e'' fs'' hkey'
    rw [hkey] at hkey'
    cases hkey'
    rw [hclosed, hreport, hstatus]
    by_cases hroom : m.lookup e.curFilename = none ∧ m.Full
    . have hquiet : ¬(EmRef.commandName e.typed ≠ str "s"
          ∨ ¬(m.lookup e.curFilename = none ∧ m.Full)) := by
        rw [not_or, not_not, not_not]
        exact ⟨hfull hroom.1 hroom.2, hroom⟩
      exact ⟨fun hreported => absurd hreported hquiet, fun _ => hquiet⟩
    . refine ⟨fun _ => hmap hroom hdir, ?_⟩
      intro hunstorable
      cases hunstorable with
      | inl hisDir => exact absurd hisDir hdir
      | inr hnone => exact absurd hnone hroom

end Em

theorem honest_save_iff {fs₀ : Fs} (h : ∃ m, fs₀.table.Represents m) {filename : List UInt8}
    (hname : Resolved filename) (e₀ : Em) (keys : List Int) {e : Em} {fs : Fs}
    (hloop : emLoop (emOpen e₀ fs₀ filename).1 (emOpen e₀ fs₀ filename).2 keys
      = some ⟨false, e, fs⟩)
    (c : Int)
    : e.HonestSave fs c
        ↔ (e.Saves c → fs.table.lookup filename ≠ some .dir
          ∧ (fs.table.lookup filename = none → fsFindSlot fs.table = none
            → EmRef.commandName e.typed = str "s")) := by
  obtain ⟨hsession, hsame⟩ := (Em.Session.start e₀ h hname).loop hloop
  rw [hsession.honestSave_iff, hsame]
  rfl

theorem honest_save_hostname
    : ∃ e fs, emLoop (emOpen Em.zero fsInit (str "/etc/hostname")).1
        (emOpen Em.zero fsInit (str "/etc/hostname")).2 [KEY_ALT, 119, 115, 99]
          = some ⟨false, e, fs⟩
      ∧ (e.HonestSave fs KEY_NEWLINE
        ↔ (e.Saves KEY_NEWLINE → fs.table.lookup (str "/etc/hostname") ≠ some .dir
          ∧ (fs.table.lookup (str "/etc/hostname") = none → fsFindSlot fs.table = none
            → EmRef.commandName e.typed = str "s"))) := by
  have hname : Resolved (str "/etc/hostname") := by
    have hmem : (str "/etc/hostname", str "dismasm-box\n") ∈ initFiles := by decide +kernel
    exact (initFiles_resolved _ hmem).1
  obtain ⟨e, fs, hloop, _⟩ := (emOpen_refines Em.zero fsInit (str "/etc/hostname")).loop
    (emOpen Em.zero fsInit (str "/etc/hostname")).2 [KEY_ALT, 119, 115, 99]
  exact ⟨e, fs, hloop, honest_save_iff ⟨_, fsInit_represents⟩ hname _ _ hloop _⟩

-- `;wsc` in the editor of a directory.
theorem directory_save_not_honest
    : ∃ e fs, emLoop (emOpen Em.zero fsInit (str "/home")).1
        (emOpen Em.zero fsInit (str "/home")).2 [KEY_ALT, 119, 115, 99] = some ⟨false, e, fs⟩
      ∧ ¬e.HonestSave fs KEY_NEWLINE := by
  have hhome : str "/home" ∈ initDirs := by decide +kernel
  have hresolved := (initDirs_resolved _ hhome).1
  obtain ⟨e, fs, hloop, hrefines, _⟩ := (emOpen_refines Em.zero fsInit (str "/home")).loop
    (emOpen Em.zero fsInit (str "/home")).2 [KEY_ALT, 119, 115, 99]
  have hstart := Em.Session.start Em.zero ⟨_, fsInit_represents⟩ hresolved
  obtain ⟨hsession, hname⟩ := hstart.loop hloop
  have hfs := hstart.loop_fs (by decide) hloop
  have hdir : fs.table.lookup e.curFilename = some .dir := by
    rw [hname, hfs, Em.emOpen_curFilename, Em.emOpen_table]
    rw [fsInit_represents.lookup_eq hresolved.nulFree]
    exact lookup_initMap_dir hhome
  have htyped : e.mode = .command ∧ e.typed = str "wsc" := by
    have hmode := hrefines.mode
    change some (str "wsc") = _ at hmode
    split at hmode
    . cases hmode
    . next hcommand =>
      rw [Option.some.injEq] at hmode
      exact ⟨hcommand, hmode.symm⟩
  refine ⟨e, fs, hloop, ?_⟩
  rw [hsession.honestSave_iff]
  intro hhonest
  have hsaves : e.Saves KEY_NEWLINE := by
    refine ⟨htyped.1, rfl, .inr (.inl ?_)⟩
    rw [htyped.2]
    decide
  exact (hhonest hsaves).1 hdir

end DismasmOS
