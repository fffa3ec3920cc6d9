import DismasmOS.Fs.Lemmas.Init

/-!
This module contains what the ring of the audit log holds: the last 64 events that were logged.
-/

namespace DismasmOS

def FsChange.event (change : FsChange) : FsEvent :=
  ⟨change.type.str, change.user.str, change.filename.str⟩

structure Fs.Logs (fs : Fs) : Prop where
  length : fs.changeLog.length = FS_MAX_CHANGES
  count : fs.changeCount = min fs.history.length FS_MAX_CHANGES
  events : (fs.changeLog.take fs.changeCount).map FsChange.event
    = fs.history.drop (fs.history.length - FS_MAX_CHANGES)

-- The texts of the event fit the fields of the ring.
structure FsEvent.Storable (ev : FsEvent) : Prop where
  type : NulFree ev.type ∧ ev.type.length < 10
  user : NulFree ev.user ∧ ev.user.length < 16
  filename : NulFree ev.filename ∧ ev.filename.length < FS_MAX_PATH

theorem CharArray.str_assign_of_lt {n : Nat} (a : CharArray n) {src : List UInt8}
    (h : NulFree src ∧ src.length < n)
    : (a.assign src).str = src := by
  rw [a.str_assign (by omega), h.1.cstr, List.take_of_length_le (by omega)]

theorem makeRoom_spec {log : List FsChange} {events : List FsEvent}
    (hlen : log.length = FS_MAX_CHANGES)
    (hevents : (log.take (min events.length FS_MAX_CHANGES)).map FsChange.event
      = events.drop (events.length - FS_MAX_CHANGES))
    : let room := makeRoom log (min events.length FS_MAX_CHANGES)
      room.1.length = FS_MAX_CHANGES
        ∧ room.2 = min events.length (FS_MAX_CHANGES - 1)
        ∧ (room.1.take room.2).map FsChange.event
          = events.drop (events.length + 1 - FS_MAX_CHANGES) := by
  have hmax : FS_MAX_CHANGES = 64 := rfl
  unfold makeRoom
  split
  . next hfull =>
    have hlast : log.getLast?.toList.length = 1 := by
      cases hlast : log.getLast? with
      | none =>
        rw [List.getLast?_eq_none_iff] at hlast
        rw [hlast] at hlen
        cases hlen
      | some _ => rfl
    have htail : log.tail.length = FS_MAX_CHANGES - 1 := by rw [List.length_tail, hlen]
    dsimp only
    refine ⟨by rw [List.length_append, htail, hlast]; rfl, by omega, ?_⟩
    rw [List.take_left' htail, List.map_tail]
    rw [List.take_of_length_le (by omega)] at hevents
    rw [hevents, List.tail_drop]
    congr 1
    omega
  . next hroom =>
    dsimp only
    refine ⟨hlen, by omega, ?_⟩
    rw [hevents]
    congr 1
    omega

theorem Fs.Logs.logEvent {fs : Fs} (h : fs.Logs) {ev : FsEvent} (hev : ev.Storable)
    : (fs.logEvent ev).Logs := by
  have hmax : FS_MAX_CHANGES = 64 := rfl
  have hevents := h.events
  rw [h.count] at hevents
  obtain ⟨hlen, hcount, hkeep⟩ := makeRoom_spec h.length hevents
  unfold Fs.logEvent fsLogChange
  rw [h.count]
  generalize makeRoom fs.changeLog (min fs.history.length FS_MAX_CHANGES) = room at *
  have hlt : room.2 < room.1.length := by omega
  constructor
  . dsimp only
    rw [List.length_modify, hlen]
  . dsimp only
    rw [List.length_append, List.length_singleton]
    omega
  . dsimp only
    rw [List.length_append, List.length_singleton, List.drop_append_of_le_length (by omega),
      List.modify_eq_take_cons_drop hlt, List.take_append, List.length_take,
      List.take_of_length_le (by rw [List.length_take]; omega), List.map_append, hkeep]
    congr 1
    have hone : room.2 + 1 - min room.2 room.1.length = 1 := by omega
    rw [hone, List.take_succ_cons, List.take_zero, List.map_singleton]
    unfold FsChange.event
    dsimp only
    rw [CharArray.str_assign_of_lt _ hev.type, CharArray.str_assign_of_lt _ hev.user,
      CharArray.str_assign_of_lt _ hev.filename]

theorem Fs.Logs.logEvents {fs : Fs} (h : fs.Logs) {events : List FsEvent}
    (hevents : ∀ ev ∈ events, ev.Storable)
    : (events.foldl Fs.logEvent fs).Logs := by
  induction events generalizing fs with
  | nil => exact h
  | cons ev events ih =>
    simp only [List.mem_cons, forall_eq_or_imp] at hevents
    exact ih (h.logEvent hevents.1) hevents.2

theorem Fs.Logs.setTable {fs : Fs} (h : fs.Logs) (t : FileTable) : Fs.Logs { fs with table := t } :=
  ⟨h.length, h.count, h.events⟩

-- `fs_init` sets the count back and leaves what the ring held.
def fsInitOver (log : List FsChange) : Fs := { fsInit with changeLog := log }

theorem fsInitOver_logs {log : List FsChange} (hlog : log.length = FS_MAX_CHANGES)
    : (fsInitOver log).Logs := by
  constructor
  . exact hlog
  . rfl
  . rfl

theorem fsInit_logs : fsInit.Logs := by
  constructor
  . exact List.length_replicate
  . rfl
  . rfl

theorem fsLogChange_last (log : List FsChange) (hlog : log.length = FS_MAX_CHANGES)
    (events : List FsEvent) (hevents : ∀ ev ∈ events, ev.Storable)
    : let fs := events.foldl Fs.logEvent (fsInitOver log)
      (fs.changeLog.take fs.changeCount).map FsChange.event
          = events.drop (events.length - min events.length FS_MAX_CHANGES)
        ∧ fs.changeCount = min events.length FS_MAX_CHANGES := by
  intro fs
  have hlogs : fs.Logs := (fsInitOver_logs hlog).logEvents hevents
  have hhistory : fs.history = events := by
    change (events.foldl Fs.logEvent (fsInitOver log)).history = events
    rw [history_logEvents]
    rfl
  have hcount := hlogs.count
  have hring := hlogs.events
  rw [hhistory] at hcount hring
  refine ⟨?_, hcount⟩
  rw [hring]
  congr 1
  omega

theorem fsLogChange_last_overflow
    : let created := rootEvent CREATED (str "/a")
      let viewed := rootEvent VIEW (str "/a")
      let log := List.replicate FS_MAX_CHANGES FsChange.zero
      let fs := (created :: List.replicate 64 viewed).foldl Fs.logEvent (fsInitOver log)
      (fs.changeLog.take fs.changeCount).map FsChange.event = List.replicate 64 viewed := by
  intro created viewed log fs
  have hstorable : ∀ ev ∈ created :: List.replicate 64 viewed, ev.Storable := by
    intro ev hev
    rw [List.mem_cons, List.mem_replicate] at hev
    cases hev with
    | inl heq =>
      rw [heq]
      constructor <;> decide
    | inr heq =>
      rw [heq.2]
      constructor <;> decide
  have h := (fsLogChange_last log List.length_replicate _ hstorable).1
  have hdrop : 64 + 1 - min (64 + 1) FS_MAX_CHANGES = 1 := by decide
  rw [List.length_cons, List.length_replicate, hdrop, List.drop_one, List.tail_cons] at h
  exact h

theorem rootEvent_storable {p : List UInt8} (hp : Resolved p) {type : List UInt8}
    (htype : NulFree type ∧ type.length < 10)
    : (rootEvent type p).Storable := by
  have huser : NulFree (str "root") ∧ (str "root").length < 16 := ⟨by decide, by decide⟩
  exact ⟨htype, huser, ⟨hp.nulFree, hp.length_lt⟩⟩

theorem FileOp.spec_events_storable (op : FileOp) (m : FsMap) {p : List UInt8} (hp : Resolved p)
    : ∀ ev ∈ (op.spec m p).events, ev.Storable := by
  have hcreated := rootEvent_storable hp (show NulFree CREATED ∧ CREATED.length < 10 by decide)
  have hedited := rootEvent_storable hp (show NulFree EDITED ∧ EDITED.length < 10 by decide)
  have hdeleted := rootEvent_storable hp (show NulFree DELETED ∧ DELETED.length < 10 by decide)
  unfold FileOp.spec FileOp.store
  cases op <;> dsimp only <;> grind

theorem FileOp.Simulated.logs {op : FileOp} {m : FsMap} {p : List UInt8} {fs fs' : Fs}
    (h : op.Simulated fs m p fs') (hp : Resolved p) (hlogs : fs.Logs)
    : fs'.Logs := by
  obtain ⟨t', _, _, hfs⟩ := h
  rw [hfs]
  exact (hlogs.setTable t').logEvents (op.spec_events_storable m hp)

end DismasmOS
