import DismasmOS.Proc.Lemmas
import DismasmOS.Shell.Lemmas.Audit
import DismasmOS.Shell.Lemmas.Grep
import DismasmOS.Shell.Lemmas.Words

/-!
This module contains the theorem that files keep what was last written to them: until an operation names the
file again, `cat` shows this text, whatever else is typed.
-/

namespace DismasmOS

open Machine

-- What `cat` prints of a text.
def catText (text : List UInt8) : List UInt8 :=
  cstr text ++ if text ≠ [] ∧ text.getLast? ≠ some newline then [newline] else []

def catLine (path : List UInt8) : List UInt8 := str "cat " ++ path

-- A step whose operation, if it is one, is about another file.
def Leaves (others : Shell → Argv → Int × List UInt8) (p : List UInt8) (m : Machine) (input : Input)
    (m' : Machine) : Prop :=
  MachineStep others m input m' ∧ ∀ op, m.op input ≠ some (op, p)

section Command

variable {s : Shell} {argv : Argv} {m : FsMap} {p text path : List UInt8}
  {others : Shell → Argv → Int × List UInt8}

theorem cstr_append_nul (text rest : List UInt8) : cstr (text ++ NUL :: rest) = cstr text := by
  induction text with
  | nil => rfl
  | cons c text ih =>
    rw [List.cons_append, cstr_cons, cstr_cons, ih]

-- What the loops of `cat` find in a file.
theorem file_shows {f : FsFile} (hwf : f.Wf) (hnode : f.node = .file text)
    : f.isDir = false ∧ cstr f.data.chars = cstr text ∧ f.size = text.length
      ∧ (f.size > 0 ∧ f.data.get (f.size - 1) ≠ newline ↔ text ≠ [] ∧ text.getLast? ≠ some newline) := by
  obtain ⟨hdir, hdata⟩ := file_of_node hwf hnode
  have hsize : f.size = text.length := by
    have hlen := congrArg List.length hdata
    have hchars := f.data.length_chars
    have hlt := hwf.size_lt
    rw [List.length_take, List.length_append, List.length_singleton] at hlen
    omega
  have hchars : f.data.chars = text ++ NUL :: f.data.chars.drop (f.size + 1) := by
    conv_lhs => rw [← List.take_append_drop (f.size + 1) f.data.chars, hdata]
    rw [List.append_assoc]
    rfl
  refine ⟨hdir, ?_, hsize, ?_⟩
  . rw [hchars, cstr_append_nul]
  . unfold CharArray.get
    rw [hchars, hsize, gt_iff_lt, List.length_pos_iff]
    apply and_congr_right
    intro hne
    have hlast : text.length - 1 < text.length := Nat.sub_lt (List.length_pos_iff.mpr hne) Nat.one_pos
    rw [List.getD_eq_getElem?_getD, List.getElem?_append_left hlast, List.getLast?_eq_getElem?,
      List.getElem?_eq_getElem hlast, Option.getD_some, ne_eq, ne_eq, Option.some.injEq]

theorem cmdCat_eq (h : s.fs.table.Represents m) (hargs : 2 ≤ argv.length) (hp : NulFree (s.resolve (argv.arg 1)))
    (hfile : m.lookup (s.resolve (argv.arg 1)) = some (.file text))
    : (cmdCat s argv).1 = 0 ∧ (cmdCat s argv).2.console = s.console ++ catText text := by
  have hlookup := h.lookup_eq hp
  rw [hfile] at hlookup
  obtain ⟨i, hfind, hnode⟩ := Option.map_eq_some_iff.mp hlookup
  obtain ⟨hdir, hchars, -, hnewline⟩ := file_shows (h.wf i) hnode
  unfold cmdCat catText
  rw [if_neg (by omega)]
  dsimp only
  rw [hfind]
  dsimp only
  rw [hdir, if_neg Bool.false_ne_true]
  by_cases hends : text ≠ [] ∧ text.getLast? ≠ some newline
  . rw [if_pos (hnewline.mpr hends), if_pos hends]
    refine ⟨rfl, ?_⟩
    unfold Shell.puts
    dsimp only
    rw [hchars, List.append_assoc]
    rfl
  . rw [if_neg (hnewline.not.mpr hends), if_neg hends, List.append_nil]
    refine ⟨rfl, ?_⟩
    unfold Shell.puts
    dsimp only
    rw [hchars]
    rfl

theorem nulFree_catLine (hpath : ShellToken path) : NulFree (catLine path) := by
  intro hmem
  obtain hmem | hmem := List.mem_append.mp hmem
  . exact absurd hmem (by decide)
  . exact (hpath.2.2 NUL hmem).1 rfl

theorem tokenize_cat (hpath : ShellToken path) : tokenize (catLine path) MAX_ARGS = [str "cat", path] := by
  have hwords : words isBlank (catLine path) = [str "cat", path] := by
    have hcat : catLine path = str "cat" ++ (chr ' ' :: path) := rfl
    have hname : (str "cat").all (isBlank · = false) = true := rfl
    have hname' : ∀ c ∈ str "cat", isBlank c = false := fun c hc =>
      of_decide_eq_true (List.all_eq_true.mp hname c hc)
    have hlast : words isBlank (path ++ []) = path :: words isBlank [] :=
      words_run (fun x hx => (hpath.2.2 x hx).2) hpath.1 (by simp)
    rw [List.append_nil, words_nil] at hlast
    rw [hcat, words_run hname' (by decide) (by
      intro x hx
      cases hx
      rfl), words_cons_of_pos rfl, hlast]
  have hends : TokensEnd (catLine path) MAX_ARGS := by
    unfold TokensEnd
    rw [hwords]
    exact .inl (show 2 < MAX_ARGS by decide)
  have htokens := (tokenize_words_iff (catLine path) 15).mpr hends
  rw [hwords] at htokens
  exact htokens

theorem handleSingleCommand_cat (hpath : ShellToken path) (hredir : chr '>' ∉ path)
    : handleSingleCommand others s (catLine path)
      = .exit (cmdCat s [str "cat", path]).1 (cmdCat s [str "cat", path]).2 := by
  have hnone : strchr (catLine path) (chr '>') = none := by
    rw [strchr_eq_none_iff (by decide), (nulFree_catLine hpath).cstr]
    intro hmem
    obtain hmem | hmem := List.mem_append.mp hmem
    . exact absurd hmem (by decide)
    . exact hredir hmem
  unfold handleSingleCommand
  rw [hnone]
  dsimp only
  rw [tokenize_cat hpath]
  rfl

end Command

section Run

variable {others : Shell → Argv → Int × List UInt8} {m m₁ m₂ m₃ : Machine} {map : FsMap} {op : FileOp}
  {input : Input} {inputs inputs₁ inputs₂ : List Input} {p path text : List UInt8}

theorem Leaves.step (h : m.Inv map) {m' : Machine} (hstep : Leaves others p m input m')
    : ∃ map', m'.Inv map' ∧ map'.lookup p = map.lookup p := by
  refine ⟨_, (h.step hstep.1).1, ?_⟩
  unfold Machine.nextMap
  cases hop : m.op input with
  | none => rfl
  | some operation =>
    obtain ⟨op, q⟩ := operation
    apply FileOp.spec_lookup_ne
    rintro rfl
    exact hstep.2 op hop

theorem Leaves.run {node : FsNode} (h : m.Inv map) (hnode : map.lookup p = some node) {m' : Machine}
    (hrun : Run (Leaves others p) m inputs m')
    : ∃ map', m'.Inv map' ∧ map'.lookup p = some node := by
  apply hrun.invariant fun m => ∃ map : FsMap, m.Inv map ∧ map.lookup p = some node
  . rintro m input m' _ ⟨map, hinv, hnode⟩ hstep
    obtain ⟨map', hinv', hkeep⟩ := Leaves.step hinv hstep
    exact ⟨map', hinv', hkeep.trans hnode⟩
  . exact ⟨map, h, hnode⟩

-- A text that is written is the text of the file.
theorem Machine.Inv.stored (h : m.Inv map) (hvalid : input.Valid) (hop : m.op input = some ⟨op, p⟩)
    (hp : Resolved p) (hwritten : op.written = some text) (hdone : ¬op.TableFails m.shell.fs.table p)
    : (op.spec map p).map.lookup p = some (.file text) := by
  have hlen : ∀ text, op.written = some text → text.length < FS_MAX_FILESIZE :=
    fun text => h.length_written_lt hvalid hop
  rw [FileOp.tableFails_iff h.represents hp hlen, not_or, not_not] at hdone
  have hdir : map.lookup p ≠ some .dir := by
    intro hdir
    apply hdone.2
    refine ⟨?_, ?_⟩
    . rw [hwritten]
      exact Option.some_ne_none _
    . rw [h.represents.lookup_eq hp.nulFree, hdir]
  cases op with
  | touch | makedir | rm => cases hwritten
  | echo text' | save text' =>
    cases hwritten
    have hroom := (FileOp.store_status_iff _ _).not.mp (not_not.mpr hdone.1)
    unfold FileOp.spec
    dsimp only
    rw [FileOp.store_of_not_dir hdir hroom]
    exact Finmap.lookup_insert _

/--
What `echo` or the editor has written to a file is what `cat` prints of it later, whatever else is typed in
between: any commands and any keys that are no operation on this file.
-/
theorem cat_shows_last_text (hrun₁ : Run (MachineStep others) .boot inputs₁ m₁)
    (hstore : MachineStep others m₁ input m₂) (hop : m₁.op input = some ⟨op, p⟩)
    (hwritten : op.written = some text) (hdone : ¬op.TableFails m₁.shell.fs.table p)
    (hrun₂ : Run (Leaves others p) m₂ inputs₂ m₃) (hprompt : m₃.control = .prompt)
    (hpath : ShellToken path) (hredir : chr '>' ∉ path) (hlen : path.length < CMD_MAX_LEN - 4)
    (hresolve : m₃.shell.resolve path = p)
    : ∃ m₄, MachineStep others m₃ (.command (catLine path)) m₄
      ∧ m₄.shell.console = m₃.shell.console ++ catText text := by
  obtain ⟨map₁, h₁⟩ := Machine.Inv.run hrun₁
  obtain ⟨h₂, hfollows⟩ := h₁.step hstore
  unfold Machine.Follows at hfollows
  unfold Machine.nextMap at h₂
  rw [hop] at hfollows h₂
  have hstored := h₁.stored hstore.1 hop hfollows.1 hwritten hdone
  obtain ⟨map₃, h₃, hfile⟩ := Leaves.run h₂ hstored hrun₂
  have hcommand : m₃.step others (.command (catLine path)) = some (m₃.command others (catLine path)) := by
    unfold Machine.step
    rw [hprompt]
  rw [← hresolve] at hfile
  have hname : NulFree (m₃.shell.resolve path) := by
    rw [hresolve]
    exact hfollows.1.nulFree
  have hargs : 2 ≤ [str "cat", path].length := Nat.le_refl 2
  have hcat := cmdCat_eq h₃.represents hargs hname hfile
  refine ⟨_, ⟨⟨nulFree_catLine hpath, ?_⟩, hcommand⟩, ?_⟩
  . have hline : (catLine path).length = 4 + path.length := List.length_append
    omega
  . unfold Machine.command
    rw [handleSingleCommand_cat hpath hredir]
    exact hcat.2

-- An operation on files does not move the shell.
theorem Machine.Inv.command_cwd (others : Shell → Argv → Int × List UInt8) (h : m.Inv map) {line : List UInt8}
    (hvalid : (Input.command line).Valid)
    (hop : lineOp line = some ⟨op, path⟩)
    : (m.command others line).shell.cwd = m.shell.cwd ∧ (m.command others line).control = m.control := by
  obtain ⟨-, status, s', hexit, hperformed⟩ :=
    handleSingleCommand_op others h.represents h.cwd hvalid.1 hvalid.2 hop
  unfold Machine.command
  rw [hexit]
  exact ⟨hperformed.cwd, rfl⟩

theorem cat_shows_last_text_hi
    : let m₃ := (boot.command noOthers (str "echo hi > notes")).command noOthers (str "touch b")
      ∃ m₄, MachineStep noOthers m₃ (.command (catLine (str "notes"))) m₄
        ∧ m₄.shell.console = m₃.shell.console ++ str "hi\n" := by
  have hresolve : fsResolvePath (str "/home") (str "notes") = str "/home/notes" := by decide +kernel
  have hother : fsResolvePath (str "/home") (str "b") = str "/home/b" := by decide +kernel
  have hecho : lineOp (str "echo hi > notes") = some ⟨.echo (str "hi"), str "notes"⟩ := rfl
  have htouch : lineOp (str "touch b") = some ⟨.touch, str "b"⟩ := rfl
  have hvalid : (Input.command (str "echo hi > notes")).Valid := ⟨by decide, by decide⟩
  have hvalid' : (Input.command (str "touch b")).Valid := ⟨by decide, by decide⟩
  have hop := boot_op_eq hecho hresolve
  have hstore : MachineStep noOthers boot (.command (str "echo hi > notes"))
      (boot.command noOthers (str "echo hi > notes")) := ⟨hvalid, rfl⟩
  obtain ⟨hcwd₂, hcontrol₂⟩ := boot_inv.command_cwd noOthers hvalid hecho
  have h₂ := (boot_inv.step hstore).1
  generalize boot.command noOthers (str "echo hi > notes") = m₂ at *
  obtain ⟨hcwd₃, hcontrol₃⟩ := h₂.command_cwd noOthers hvalid' htouch
  have hleaves : Leaves noOthers (str "/home/notes") m₂ (.command (str "touch b"))
      (m₂.command noOthers (str "touch b")) := by
    refine ⟨⟨hvalid', ?_⟩, ?_⟩
    . unfold Machine.step
      rw [hcontrol₂]
      rfl
    . intro op
      rw [op_prompt hcontrol₂, htouch, Option.map_some]
      dsimp only
      unfold Shell.resolve
      rw [hcwd₂]
      show some (FileOp.touch, fsResolvePath (str "/home") (str "b")) ≠ _
      rw [hother]
      intro heq
      have hpath := (Prod.mk.inj (Option.some.inj heq)).2
      exact absurd hpath (by decide)
  have hdone : ¬(FileOp.echo (str "hi")).TableFails boot.shell.fs.table (str "/home/notes") := by
    have hresolved : Resolved (str "/home/notes") := by
      rw [← hresolve]
      exact fsResolvePath_resolved (by decide) (by decide) (by decide) (by decide)
    have hnew : str "/home/notes" ∉ initMap := by
      rw [mem_initMap]
      decide +kernel
    rw [FileOp.store_fails_iff boot_inv.represents hresolved (by decide), Finmap.lookup_eq_none.mpr hnew]
    rintro (hfull | hdir)
    . exact initMap_not_full hfull.2
    . cases hdir
  have htoken : ShellToken (str "notes") := by
    rw [shellToken_iff]
    decide
  have hback : (m₂.command noOthers (str "touch b")).shell.resolve (str "notes") = str "/home/notes" := by
    unfold Shell.resolve
    rw [hcwd₃, hcwd₂]
    exact hresolve
  exact cat_shows_last_text (.nil boot) hstore hop rfl hdone (.cons hleaves (.nil _))
    (hcontrol₃.trans hcontrol₂) htoken (by decide) (by decide) hback

end Run

end DismasmOS
