import DismasmOS.Shell.Lemmas.Machine

/-!
This module contains when the audit log tells the truth about the commands that change files.
-/

namespace DismasmOS

-- The event is what happened between two tables.
structure FsEvent.Happened (ev : FsEvent) (op : FileOp) (t t' : FileTable) : Prop where
  created : ev.type = CREATED → t.lookup ev.filename = none ∧ t'.lookup ev.filename ≠ none
  deleted : ev.type = DELETED → t.lookup ev.filename ≠ none ∧ t'.lookup ev.filename = none
  edited : ev.type = EDITED
    → ∃ text, op.written = some text ∧ t'.lookup ev.filename = some (.file text)

def FsEvent.Changes (ev : FsEvent) : Prop :=
  ev.type = CREATED ∨ ev.type = DELETED ∨ ev.type = EDITED

namespace FileOp

variable {op : FileOp} {m : FsMap} {p : List UInt8} {t t' : FileTable}

section Fails

variable (h : t.Represents m) (hp : Resolved p)
include h hp

theorem touch_fails_iff : touch.TableFails t p ↔ (touch.spec m p).status ≠ 0 := by
  have hfind := h.find_none_iff hp.nulFree
  unfold TableFails spec
  dsimp only
  rw [hfind]
  cases h.create_cases hp.nulFree hp.length_lt with
  | inl hfail =>
    obtain ⟨heq, hcause⟩ := hfail
    rw [heq]
    by_cases hmem : p ∈ m
    . simp [hmem]
    . simp [hmem, hcause.resolve_left hmem]
  | inr hok =>
    obtain ⟨t', heq, hmem, hfull, _⟩ := hok
    rw [heq]
    simp [hmem, hfull]

theorem makedir_fails_iff : makedir.TableFails t p ↔ (makedir.spec m p).status ≠ 0 := by
  unfold TableFails spec
  dsimp only
  cases h.mkdir_cases hp.nulFree hp.length_lt with
  | inl hfail =>
    obtain ⟨heq, hcause⟩ := hfail
    rw [heq, if_pos (hcause.imp_right Or.symm)]
    simp
  | inr hok =>
    obtain ⟨t', heq, hmem, hfull, hroot, _⟩ := hok
    rw [heq, if_neg (by simp [hmem, hfull, hroot])]

theorem rm_fails_iff : rm.TableFails t p ↔ (rm.spec m p).status ≠ 0 := by
  unfold TableFails spec
  dsimp only
  cases h.delete_cases hp.nulFree with
  | inl hfail =>
    rw [hfail.1, if_neg hfail.2]
    simp
  | inr hok =>
    obtain ⟨t', heq, hmem, _⟩ := hok
    rw [heq, if_pos hmem]

theorem store_fails_iff {text : List UInt8} (hlen : text.length < FS_MAX_FILESIZE)
    : (echo text).TableFails t p ↔ (p ∉ m ∧ m.Full) ∨ m.lookup p = some .dir := by
  unfold TableFails
  dsimp only
  cases h.store hp (Nat.le_refl text.length) hlen rfl with
  | inl hfail =>
    rw [hfail.2]
    simp [hfail.1]
  | inr hok =>
    obtain ⟨hroom, hzero, _, hwrite⟩ := hok
    rw [or_iff_right hroom, or_iff_right (not_not.mpr hzero), ne_eq, hwrite, ne_eq, not_not]

-- Writing into a directory is the one failure without a status.
theorem tableFails_iff (hlen : ∀ text, op.written = some text → text.length < FS_MAX_FILESIZE)
    : op.TableFails t p ↔ (op.spec m p).status ≠ 0 ∨ op.WritesDirectory t p := by
  have hnone : op.written = none → ¬op.WritesDirectory t p := fun hop hwrites => hwrites.1 hop
  have hdirs : ∀ text, op.written = some text
      → (op.WritesDirectory t p ↔ m.lookup p = some .dir) := by
    intro text hwritten
    unfold WritesDirectory
    rw [hwritten, h.lookup_eq hp.nulFree]
    simp
  cases op with
  | touch => rw [or_iff_left (hnone rfl), touch_fails_iff h hp]
  | makedir => rw [or_iff_left (hnone rfl), makedir_fails_iff h hp]
  | rm => rw [or_iff_left (hnone rfl), rm_fails_iff h hp]
  | echo text | save text =>
    rw [hdirs text rfl]
    unfold spec
    dsimp only
    rw [store_status_iff]
    exact store_fails_iff h hp (hlen text rfl)

theorem status_of_writesDirectory (hdir : op.WritesDirectory t p) : (op.spec m p).status = 0 := by
  obtain ⟨hwritten, hlookup⟩ := hdir
  rw [h.lookup_eq hp.nulFree] at hlookup
  have hroom : ¬(p ∉ m ∧ m.Full) := fun hfull => hfull.1 (Finmap.mem_of_lookup_eq_some hlookup)
  cases op with
  | touch | makedir | rm => exact absurd rfl hwritten
  | echo text | save text => exact of_not_not ((store_status_iff _ _).not.mpr hroom)

theorem reports_iff (hlen : ∀ text, op.written = some text → text.length < FS_MAX_FILESIZE)
    : (op.TableFails t p → (op.spec m p).status ≠ 0) ↔ ¬op.WritesDirectory t p := by
  have hfails := tableFails_iff h hp hlen
  have hzero : op.WritesDirectory t p → _ := status_of_writesDirectory h hp
  tauto

end Fails

-- What an operation logs is true and it logs nothing if it fails.
def LogsTruth (op : FileOp) (p : List UInt8) (t t' : FileTable) (events : List FsEvent) : Prop :=
  (∀ ev ∈ events, ev.Happened op t t') ∧ (op.TableFails t p → ∀ ev ∈ events, ¬ev.Changes)

theorem logsTruth_nil : op.LogsTruth p t t' [] := by
  unfold LogsTruth
  simp

theorem logsTruth_single {ev : FsEvent} (h : ev.Happened op t t') (hfails : ¬op.TableFails t p)
    : op.LogsTruth p t t' [ev] := by
  constructor
  . intro ev' hev
    rw [List.mem_singleton] at hev
    rw [hev]
    exact h
  . intro hno
    exact absurd hno hfails

theorem types_ne : CREATED ≠ DELETED ∧ CREATED ≠ EDITED ∧ DELETED ≠ EDITED := by decide

theorem created_happened (hp : t.lookup p = none) (hp' : t'.lookup p ≠ none)
    : (rootEvent CREATED p).Happened op t t' := by
  constructor
  . exact fun _ => ⟨hp, hp'⟩
  . exact fun heq => absurd heq types_ne.1
  . exact fun heq => absurd heq types_ne.2.1

theorem deleted_happened (hp : t.lookup p ≠ none) (hp' : t'.lookup p = none)
    : (rootEvent DELETED p).Happened op t t' := by
  constructor
  . exact fun heq => absurd heq.symm types_ne.1
  . exact fun _ => ⟨hp, hp'⟩
  . exact fun heq => absurd heq types_ne.2.2

theorem edited_happened {text : List UInt8} (hop : op.written = some text)
    (hp' : t'.lookup p = some (.file text))
    : (rootEvent EDITED p).Happened op t t' := by
  constructor
  . exact fun heq => absurd heq.symm types_ne.2.1
  . exact fun heq => absurd heq.symm types_ne.2.2
  . exact fun _ => ⟨text, hop, hp'⟩

variable (h : t.Represents m) (hp : Resolved p)
include h hp

theorem touch_logsTruth (h' : t'.Represents (touch.spec m p).map)
    : touch.LogsTruth p t t' (touch.spec m p).events := by
  have hlookup := h.lookup_eq hp.nulFree
  unfold spec at h' ⊢
  dsimp only at h' ⊢
  split
  . exact logsTruth_nil
  . next hmem =>
    rw [if_neg hmem] at h'
    split
    . exact logsTruth_nil
    . next hfull =>
      rw [if_neg hfull] at h'
      have hlookup' := h'.lookup_eq hp.nulFree
      apply logsTruth_single
      . apply created_happened
        . rw [hlookup, Finmap.lookup_eq_none.mpr hmem]
        . rw [hlookup', Finmap.lookup_insert]
          simp
      . rw [touch_fails_iff h hp]
        unfold spec
        simp [hmem, hfull]

theorem makedir_logsTruth (h' : t'.Represents (makedir.spec m p).map)
    : makedir.LogsTruth p t t' (makedir.spec m p).events := by
  have hlookup := h.lookup_eq hp.nulFree
  unfold spec at h' ⊢
  dsimp only at h' ⊢
  split
  . exact logsTruth_nil
  . next hok =>
    rw [if_neg hok] at h'
    have hlookup' := h'.lookup_eq hp.nulFree
    apply logsTruth_single
    . apply created_happened
      . rw [hlookup, Finmap.lookup_eq_none]
        exact fun hmem => hok (.inl hmem)
      . rw [hlookup', Finmap.lookup_insert]
        simp
    . rw [makedir_fails_iff h hp]
      unfold spec
      simp [hok]

theorem rm_logsTruth (h' : t'.Represents (rm.spec m p).map)
    : rm.LogsTruth p t t' (rm.spec m p).events := by
  have hlookup := h.lookup_eq hp.nulFree
  unfold spec at h' ⊢
  dsimp only at h' ⊢
  split
  . next hmem =>
    rw [if_pos hmem] at h'
    have hlookup' := h'.lookup_eq hp.nulFree
    apply logsTruth_single
    . apply deleted_happened
      . rw [hlookup, ne_eq, Finmap.lookup_eq_none, not_not]
        exact hmem
      . rw [hlookup', Finmap.lookup_erase]
    . rw [rm_fails_iff h hp]
      unfold spec
      simp [hmem]
  . exact logsTruth_nil

-- Writing logs the truth except for directories, where the write fails and is logged.
theorem store_logsTruth_iff {text typeIfNew : List UInt8} (hop : op = echo text ∨ op = save text)
    (hnew : typeIfNew = CREATED ∨ typeIfNew = EDITED) (hlen : text.length < FS_MAX_FILESIZE)
    (h' : t'.Represents (store m p text typeIfNew).map)
    : op.LogsTruth p t t' (store m p text typeIfNew).events ↔ ¬op.WritesDirectory t p := by
  have hlookup := h.lookup_eq hp.nulFree
  have hwritten : op.written = some text := by
    rcases hop with rfl | rfl <;> rfl
  have hfails : op.TableFails t p ↔ (p ∉ m ∧ m.Full) ∨ m.lookup p = some .dir := by
    rcases hop with rfl | rfl <;> exact store_fails_iff h hp hlen
  have hdirs : op.WritesDirectory t p ↔ m.lookup p = some .dir := by
    unfold WritesDirectory
    rw [hwritten, hlookup]
    simp
  rw [hdirs]
  unfold store FsMap.overwrite at *
  split
  . next hfull =>
    rw [Finmap.lookup_eq_none.mpr hfull.1]
    simp [logsTruth_nil]
  . next hroom =>
    rw [if_neg hroom] at h'
    have hlookup' := h'.lookup_eq hp.nulFree
    dsimp only at hlookup' ⊢
    constructor
    . intro htruth hdir
      have hmem := Finmap.mem_of_lookup_eq_some hdir
      rw [if_pos hmem] at htruth
      rw [if_pos hdir, hdir] at hlookup'
      obtain ⟨text', _, hfile⟩ := (htruth.1 _ (List.mem_singleton_self _)).edited rfl
      rw [show (rootEvent EDITED p).filename = p from rfl, hlookup'] at hfile
      cases hfile
    . intro hdir
      rw [if_neg hdir, Finmap.lookup_insert] at hlookup'
      apply logsTruth_single
      . by_cases hmem : p ∈ m
        . rw [if_pos hmem]
          exact edited_happened hwritten hlookup'
        . rw [if_neg hmem]
          rcases hnew with rfl | rfl
          . apply created_happened
            . rw [hlookup, Finmap.lookup_eq_none.mpr hmem]
            . rw [hlookup']
              simp
          . exact edited_happened hwritten hlookup'
      . rw [hfails]
        exact not_or.mpr ⟨hroom, hdir⟩

theorem logsTruth_iff (hlen : ∀ text, op.written = some text → text.length < FS_MAX_FILESIZE)
    (h' : t'.Represents (op.spec m p).map)
    : op.LogsTruth p t t' (op.spec m p).events ↔ ¬op.WritesDirectory t p := by
  have hnone : op.written = none → ¬op.WritesDirectory t p := fun hop hwrites => hwrites.1 hop
  cases op with
  | touch => exact iff_of_true (touch_logsTruth h hp h') (hnone rfl)
  | makedir => exact iff_of_true (makedir_logsTruth h hp h') (hnone rfl)
  | rm => exact iff_of_true (rm_logsTruth h hp h') (hnone rfl)
  | echo text => exact store_logsTruth_iff h hp (.inl rfl) (.inl rfl) (hlen text rfl) h'
  | save text => exact store_logsTruth_iff h hp (.inr rfl) (.inr rfl) (hlen text rfl) h'

end FileOp

namespace Machine

variable {others : Shell → Argv → Int × List UInt8} {m m' : Machine} {map : FsMap} {input : Input}

def newEvents (m m' : Machine) : List FsEvent :=
  m'.shell.fs.history.drop m.shell.fs.history.length

-- The log tells the truth about a step, only operations on files log changes.
def LogsTruth (m : Machine) (input : Input) (m' : Machine) : Prop :=
  match m.op input with
  | none => ∀ ev ∈ m.newEvents m', ¬ev.Changes
  | some (op, p) => op.LogsTruth p m.shell.fs.table m'.shell.fs.table (m.newEvents m')

def WritesDirectory (m : Machine) (input : Input) : Prop :=
  ∃ op p, m.op input = some ⟨op, p⟩ ∧ op.WritesDirectory m.shell.fs.table p

theorem written_of_argvOp {argv : Argv} {op : FileOp} {path : List UInt8}
    (h : argvOp argv = some ⟨op, path⟩)
    : op.written = none := by
  unfold argvOp at h
  split at h
  . cases h
  . split at h
    . cases h
      rfl
    . split at h
      . cases h
        rfl
      . split at h
        . cases h
          rfl
        . cases h

theorem written_of_lineOp {line : List UInt8} {op : FileOp} {path text : List UInt8}
    (h : lineOp line = some ⟨op, path⟩) (htext : op.written = some text)
    : text.Sublist line := by
  unfold lineOp at h
  split at h
  . rw [written_of_argvOp h] at htext
    cases htext
  . dsimp only at h
    split at h
    . cases h
    . split at h
      . cases h
        cases htext
        exact (echoText_sublist _).trans ((trim_sublist _).trans (List.take_sublist _ _))
      . rw [written_of_argvOp h] at htext
        cases htext

theorem Inv.length_written_lt (h : m.Inv map) (hvalid : input.Valid) {op : FileOp} {p : List UInt8}
    (hop : m.op input = some ⟨op, p⟩) {text : List UInt8} (htext : op.written = some text)
    : text.length < FS_MAX_FILESIZE := by
  have hcap : EM_CAPACITY < FS_MAX_FILESIZE := by decide
  have hmax : CMD_MAX_LEN < FS_MAX_FILESIZE := by decide
  unfold Machine.op at hop
  split at hop
  . obtain ⟨⟨op', path⟩, hline, heq⟩ := Option.map_eq_some_iff.mp hop
    cases heq
    have hlen := (written_of_lineOp hline htext).length_le
    have hline := hvalid.2
    omega
  . next hediting =>
    split at hop
    . cases hop
      cases htext
      have hem := (h.session hediting).inv
      have hle := hem.bufLen_le
      rw [hem.length_text]
      omega
    . cases hop
  . cases hop

theorem Inv.logsTruth_iff (h : m.Inv map) (hstep : MachineStep others m input m')
    : m.LogsTruth input m' ↔ ¬m.WritesDirectory input := by
  obtain ⟨hinv, hfollows⟩ := h.step hstep
  have hlen : ∀ {op p}, m.op input = some ⟨op, p⟩ → ∀ text, op.written = some text
      → text.length < FS_MAX_FILESIZE :=
    fun hop _ htext => h.length_written_lt hstep.1 hop htext
  unfold Follows at hfollows
  unfold LogsTruth WritesDirectory newEvents
  cases hop : m.op input with
  | none =>
    rw [hop] at hfollows
    obtain ⟨events, hevents, hfs⟩ := hfollows
    rw [hfs, history_logEvents, List.drop_left]
    apply iff_of_true
    . intro ev hev
      obtain ⟨p, _, rfl⟩ := hevents ev hev
      unfold FsEvent.Changes
      change ¬(VIEW = _ ∨ VIEW = _ ∨ VIEW = _)
      decide
    . simp
  | some operation =>
    obtain ⟨op, p⟩ := operation
    rw [hop] at hfollows
    obtain ⟨hp, hsim⟩ := hfollows
    rw [hsim.history, List.drop_left]
    dsimp only
    rw [FileOp.logsTruth_iff h.represents hp (hlen hop) hsim.represents]
    simp

-- The events are what the ring of the source shows, its last 64.
theorem audit_log_truthful_iff {inputs : List Input}
    (hrun : Run (MachineStep others) boot inputs m) (hstep : MachineStep others m input m')
    : m'.shell.fs.Logs ∧ (m.LogsTruth input m' ↔ ¬m.WritesDirectory input) := by
  obtain ⟨map, h⟩ := Inv.run hrun
  exact ⟨(h.step hstep).1.logs, h.logsTruth_iff hstep⟩

theorem audit_log_truthful_touch
    : (boot.command noOthers (str "touch notes")).shell.fs.Logs
        ∧ (boot.LogsTruth (.command (str "touch notes")) (boot.command noOthers (str "touch notes"))
          ↔ ¬boot.WritesDirectory (.command (str "touch notes"))) :=
  audit_log_truthful_iff (Run.nil boot) ⟨⟨by decide, by decide⟩, rfl⟩

-- The write fails, EDITED is logged all the same.
theorem echo_to_directory_not_truthful
    : ¬boot.LogsTruth (.command (str "echo x > /home"))
        (boot.command noOthers (str "echo x > /home")) := by
  have hhome : str "/home" ∈ initDirs := by decide +kernel
  have hresolve : boot.shell.resolve (str "/home") = str "/home" := by decide +kernel
  have hop : boot.op (.command (str "echo x > /home")) = some ⟨.echo (str "x"), str "/home"⟩ :=
    boot_op_eq rfl hresolve
  have hstep : MachineStep noOthers boot (.command (str "echo x > /home"))
      (boot.command noOthers (str "echo x > /home")) := ⟨⟨by decide, by decide⟩, rfl⟩
  rw [boot_inv.logsTruth_iff hstep, not_not]
  refine ⟨_, _, hop, by simp [FileOp.written], ?_⟩
  rw [boot_inv.represents.lookup_eq (initDirs_resolved _ hhome).1.nulFree]
  exact lookup_initMap_dir hhome

end Machine

end DismasmOS
