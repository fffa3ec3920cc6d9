import DismasmOS.Lib.LineFilter
import DismasmOS.Shell.Changes
import DismasmOS.Shell.Lemmas.Machine

/-!
This module contains the theorem that `changes` tells the last events of the history, whatever was typed before.
-/

namespace DismasmOS

section Text

variable {calls calls' : List VgaCall}

theorem writtenText_append : writtenText (calls ++ calls') = writtenText calls ++ writtenText calls' :=
  List.filterMap_append

theorem writtenText_puts (text : List UInt8) : writtenText (vgaPuts text) = cstr text := by
  unfold writtenText vgaPuts
  rw [List.filterMap_map]
  exact List.filterMap_some

theorem writtenText_color (fg bg : UInt8) : writtenText [.setColor fg bg] = [] := rfl

theorem writtenText_flatMap {α : Type} (f : α → List VgaCall) (l : List α)
    : writtenText (l.flatMap f) = l.flatMap fun x => writtenText (f x) := by
  induction l with
  | nil => rfl
  | cons x l ih => rw [List.flatMap_cons, List.flatMap_cons, writtenText_append, ih]

end Text

-- What the machine logs.
structure Logged (ev : FsEvent) : Prop where
  type : ev.type ∈ [VIEW, CREATED, EDITED, DELETED]
  user : ev.user = str "root"
  filename : Resolved ev.filename

def changeHead (type user : List UInt8) : List UInt8 :=
  str "[" ++ type ++ str "]-[" ++ user ++ str "] - " ++ changeVerb type ++ str " "

def changeLine (ev : FsEvent) : List UInt8 := changeHead ev.type ev.user ++ ev.filename

section Line

variable {ev : FsEvent}

theorem changeVerb_cstr (type : List UInt8) : changeVerb (cstr type) = changeVerb type := by
  have hcstr := (nulFree_cstr type).cstr
  unfold changeVerb
  simp only [strcmp_eq_zero_iff, hcstr]

theorem cstr_changeVerb (type : List UInt8) : cstr (changeVerb type) = changeVerb type := by
  unfold changeVerb
  split
  . rfl
  split
  . rfl
  split <;> rfl

theorem showChange_text (change : FsChange)
    : writtenText (showChange change) = changeLine change.event ++ [chr '\n'] := by
  have hopen : cstr (str "[") = str "[" := rfl
  have hbetween : cstr (str "]-[") = str "]-[" := rfl
  have hclose : cstr (str "] - ") = str "] - " := rfl
  have hblank : cstr (str " ") = str " " := rfl
  have hend : writtenText [.putchar (chr '\n')] = [chr '\n'] := rfl
  unfold showChange changeLine changeHead FsChange.event CharArray.str
  dsimp only
  simp only [writtenText_append, writtenText_puts, writtenText_color, List.append_nil, changeVerb_cstr,
    cstr_changeVerb, hopen, hbetween, hclose, hblank, hend]

theorem changeLine_eq (ev : FsEvent)
    : changeLine ev = chr '[' :: (ev.type ++ chr ']' :: chr '-' :: chr '[' :: (ev.user
        ++ chr ']' :: chr ' ' :: chr '-' :: chr ' ' :: (changeVerb ev.type ++ chr ' ' :: ev.filename))) := by
  have hopen : str "[" = [chr '['] := rfl
  have hbetween : str "]-[" = [chr ']', chr '-', chr '['] := rfl
  have hclose : str "] - " = [chr ']', chr ' ', chr '-', chr ' '] := rfl
  have hblank : str " " = [chr ' '] := rfl
  unfold changeLine changeHead
  simp only [hopen, hbetween, hclose, hblank, List.append_assoc, List.cons_append, List.nil_append]

theorem takeWhile_before {c : UInt8} {l : List UInt8} (rest : List UInt8) (hc : c ∉ l)
    : (l ++ c :: rest).takeWhile (· ≠ c) = l := by
  rw [List.takeWhile_append_of_pos, List.takeWhile_cons_of_neg, List.append_nil]
  . simp
  . intro d hd
    exact decide_eq_true (ne_of_mem_of_not_mem hd hc)

theorem dropWhile_before {c : UInt8} {l : List UInt8} (rest : List UInt8) (hc : c ∉ l)
    : (l ++ c :: rest).dropWhile (· ≠ c) = c :: rest := by
  rw [List.dropWhile_append_of_pos, List.dropWhile_cons_of_neg]
  . simp
  . intro d hd
    exact decide_eq_true (ne_of_mem_of_not_mem hd hc)

-- There is no bracket in the type and in the user, and no blank in the verb.
theorem readChange_line (h : Logged ev) : readChange (changeLine ev) = ev := by
  have hbracket : chr ']' ∉ ev.type ∧ chr ' ' ∉ changeVerb ev.type := by
    have htype := h.type
    simp only [List.mem_cons, List.not_mem_nil, or_false] at htype
    obtain htype | htype | htype | htype := htype <;> rw [htype] <;> decide
  have huser : chr ']' ∉ ev.user := by
    rw [h.user]
    decide
  rw [changeLine_eq]
  unfold readChange
  simp only [List.drop_succ_cons, List.drop_zero, takeWhile_before _ hbracket.1, takeWhile_before _ huser,
    dropWhile_before _ hbracket.2, List.drop_length_add_append]

theorem newline_not_mem_changeLine (h : Logged ev) (hname : chr '\n' ∉ ev.filename)
    : chr '\n' ∉ changeLine ev := by
  have hhead : chr '\n' ∉ changeHead ev.type ev.user := by
    have htype := h.type
    rw [h.user]
    simp only [List.mem_cons, List.not_mem_nil, or_false] at htype
    obtain htype | htype | htype | htype := htype <;> rw [htype] <;> decide
  intro hmem
  obtain hmem | hmem := List.mem_append.mp hmem
  . exact hhead hmem
  . exact hname hmem

theorem writtenText_changes {changes : List FsChange}
    : writtenText (changes.flatMap showChange)
        = ((changes.map FsChange.event).map changeLine).flatMap (· ++ [chr '\n']) := by
  rw [writtenText_flatMap, List.map_map, List.flatMap_map]
  congr 1
  funext change
  exact showChange_text change

end Line

namespace Machine

variable {others : Shell → Argv → Int × List UInt8} {m m' : Machine} {map : FsMap} {input : Input}
  {inputs : List Input}

theorem logged_root {type p : List UInt8} (hp : Resolved p) (htype : type ∈ [VIEW, CREATED, EDITED, DELETED])
    : Logged (rootEvent type p) := ⟨htype, rfl, hp⟩

theorem spec_logged (op : FileOp) (map : FsMap) {p : List UInt8} (hp : Resolved p)
    : ∀ ev ∈ (op.spec map p).events, Logged ev := by
  have hcreated : Logged (rootEvent CREATED p) := logged_root hp (by simp)
  have hedited : Logged (rootEvent EDITED p) := logged_root hp (by simp)
  have hdeleted : Logged (rootEvent DELETED p) := logged_root hp (by simp)
  unfold FileOp.spec FileOp.store
  cases op <;> dsimp only <;> grind

theorem Inv.step_logged (h : m.Inv map) (hstep : MachineStep others m input m')
    (hlogged : ∀ ev ∈ m.shell.fs.history, Logged ev)
    : ∀ ev ∈ m'.shell.fs.history, Logged ev := by
  have hfollows := (h.step hstep).2
  unfold Follows at hfollows
  intro ev hev
  cases hop : m.op input with
  | none =>
    rw [hop] at hfollows
    obtain ⟨events, hevents, hfs⟩ := hfollows
    rw [hfs, history_logEvents, List.mem_append] at hev
    obtain hev | hev := hev
    . exact hlogged ev hev
    . obtain ⟨p, hp, rfl⟩ := hevents ev hev
      exact logged_root hp (by simp)
  | some operation =>
    obtain ⟨op, p⟩ := operation
    rw [hop] at hfollows
    rw [hfollows.2.history, List.mem_append] at hev
    obtain hev | hev := hev
    . exact hlogged ev hev
    . exact spec_logged op map hfollows.1 ev hev

theorem run_logged (hrun : Run (MachineStep others) boot inputs m)
    : (∃ map, m.Inv map) ∧ ∀ ev ∈ m.shell.fs.history, Logged ev := by
  apply hrun.invariant fun m => (∃ map, Inv m map) ∧ ∀ ev ∈ m.shell.fs.history, Logged ev
  . rintro m input m' _ ⟨⟨map, h⟩, hlogged⟩ hstep
    exact ⟨⟨_, (h.step hstep).1⟩, h.step_logged hstep hlogged⟩
  . refine ⟨⟨_, boot_inv⟩, ?_⟩
    intro ev hev
    cases hev

end Machine

-- The lines of events are read back.
theorem readChanges_lines {title : List UInt8} {events : List FsEvent} (htitle : chr '\n' ∉ title)
    (hlogged : ∀ ev ∈ events, Logged ev) (hnames : ∀ ev ∈ events, chr '\n' ∉ ev.filename)
    : readChanges (title ++ [chr '\n'] ++ (events.map changeLine).flatMap (· ++ [chr '\n'])) = events := by
  have hlines : ∀ l ∈ title :: events.map changeLine, chr '\n' ∉ l := by
    rw [List.forall_mem_cons]
    refine ⟨htitle, ?_⟩
    intro l hl
    obtain ⟨ev, hev, rfl⟩ := List.mem_map.mp hl
    exact newline_not_mem_changeLine (hlogged ev hev) (hnames ev hev)
  have hsplit := splitOn_lines hlines
  rw [List.flatMap_cons] at hsplit
  unfold readChanges
  rw [hsplit, List.dropLast_concat, List.tail_cons, List.map_map]
  conv_rhs => rw [← List.map_id events]
  apply List.map_congr_left
  intro ev hev
  exact readChange_line (hlogged ev hev)

theorem cmdChanges_text (fs : Fs)
    : writtenText (cmdChanges fs)
        = str "Filesystem Audit Log (changes):" ++ [chr '\n'] ++ writtenText (fsShowChanges fs) := by
  have htitle : cstr (str "Filesystem Audit Log (changes):\n")
      = str "Filesystem Audit Log (changes):" ++ [chr '\n'] := rfl
  unfold cmdChanges
  rw [writtenText_append, writtenText_append, writtenText_append, writtenText_puts, htitle]
  rfl

/--
In every state that can be reached from boot, `changes` shows the last 64 events of all that happened, each in a
line of its own from which it can be read back, or says that there were none.
-/
theorem changes_tells_history {others : Shell → Argv → Int × List UInt8} {m : Machine} {inputs : List Input}
    (hrun : Run (MachineStep others) .boot inputs m)
    (hnames : ∀ ev ∈ m.shell.fs.history, chr '\n' ∉ ev.filename)
    : let text := writtenText (cmdChanges m.shell.fs)
      (m.shell.fs.history = [] → text = str "Filesystem Audit Log (changes):\nNo filesystem changes recorded yet.\n")
      ∧ (m.shell.fs.history ≠ [] →
        readChanges text = m.shell.fs.history.drop (m.shell.fs.history.length - FS_MAX_CHANGES)) := by
  intro text
  obtain ⟨⟨map, h⟩, hlogged⟩ := Machine.run_logged hrun
  have hcount := h.logs.count
  have htext : text = _ := cmdChanges_text m.shell.fs
  rw [htext]
  constructor
  . intro hnone
    have hzero : m.shell.fs.changeCount = 0 := by
      rw [hcount, hnone]
      rfl
    unfold fsShowChanges
    rw [if_pos hzero, writtenText_puts]
    rfl
  . intro hsome
    have hpos := List.length_pos_of_ne_nil hsome
    have hne : m.shell.fs.changeCount ≠ 0 := by
      rw [hcount]
      unfold FS_MAX_CHANGES
      omega
    unfold fsShowChanges
    rw [if_neg hne, writtenText_changes, h.logs.events]
    apply readChanges_lines
    . decide
    . exact fun ev hev => hlogged ev (List.mem_of_mem_drop hev)
    . exact fun ev hev => hnames ev (List.mem_of_mem_drop hev)

theorem changes_tells_history_touch
    : readChanges (writtenText (cmdChanges (Machine.boot.command noOthers (str "touch notes")).shell.fs))
        = [rootEvent CREATED (str "/home/notes")] := by
  have hresolve : fsResolvePath (str "/home") (str "notes") = str "/home/notes" := by decide +kernel
  have htouch : lineOp (str "touch notes") = some ⟨.touch, str "notes"⟩ := rfl
  have hop := Machine.boot_op_eq htouch hresolve
  have hstep : MachineStep noOthers .boot (.command (str "touch notes"))
      (Machine.boot.command noOthers (str "touch notes")) := ⟨⟨by decide, by decide⟩, rfl⟩
  have hnew : str "/home/notes" ∉ initMap := by
    rw [mem_initMap]
    decide +kernel
  have hfollows := (Machine.boot_inv.step hstep).2
  unfold Machine.Follows at hfollows
  rw [hop] at hfollows
  have hhistory : (Machine.boot.command noOthers (str "touch notes")).shell.fs.history
      = [rootEvent CREATED (str "/home/notes")] := by
    rw [hfollows.2.history]
    unfold FileOp.spec
    dsimp only
    rw [if_neg hnew, if_neg initMap_not_full]
    rfl
  have htells := (changes_tells_history (.cons hstep (.nil _)) (by
    rw [hhistory]
    decide)).2
  rw [hhistory] at htells
  exact htells (List.cons_ne_nil _ _)

end DismasmOS
