import DismasmOS.Lib.LineFilter
import DismasmOS.Shell.Lemmas.Exact

/-!
This module contains what `grep` prints: the lines with the pattern, as far as they fit the array in which
the command collects a line.
-/

namespace DismasmOS

def GREP_LINE_MAX : Nat := 255

section Loop

variable {pattern content line : List UInt8}

def hasPattern (pattern line : List UInt8) : Bool := pattern <:+: line

theorem hasPattern_take {n : Nat} (h : hasPattern pattern (line.take n)) : hasPattern pattern line := by
  unfold hasPattern at *
  rw [decide_eq_true_iff] at *
  exact h.trans (List.take_prefix n line).isInfix

-- The text that `grep` is for.
def grepText (pattern content : List UInt8) : List UInt8 :=
  filterLines newline (hasPattern pattern) (content.splitOn newline)

theorem nulFree_nil : NulFree [] := List.not_mem_nil

theorem flush_eq (hpattern : NulFree pattern) (hne : pattern ≠ []) (hline : NulFree line)
    : (if line ≠ [] ∧ (strstr line pattern).isSome then line ++ str "\n" else [])
        = if hasPattern pattern line then line ++ [newline] else [] := by
  have hsearch : (strstr line pattern).isSome ↔ hasPattern pattern line := by
    rw [strstr_isSome_iff, hpattern.cstr, hline.cstr]
    exact decide_eq_true_iff.symm
  by_cases hkeep : hasPattern pattern line
  . have hempty : line ≠ [] := by
      rintro rfl
      exact hne (List.infix_nil.mp (of_decide_eq_true hkeep))
    rw [if_pos ⟨hempty, hsearch.mpr hkeep⟩, if_pos hkeep]
    rfl
  . rw [if_neg (fun hor => hkeep (hsearch.mp hor.2)), if_neg hkeep]

theorem grepLines_eq (hpattern : NulFree pattern) (hne : pattern ≠ []) (hcontent : NulFree content)
    (hline : NulFree line) (rest : List UInt8)
    : grepLines pattern (line.take GREP_LINE_MAX) (content ++ NUL :: rest)
        = filterLines newline (hasPattern pattern)
          ((linesFrom newline line content).map (·.take GREP_LINE_MAX)) := by
  have hcut : ∀ line : List UInt8, NulFree line → NulFree (line.take GREP_LINE_MAX) :=
    fun line hline => hline.sublist (List.take_sublist _ _)
  induction content generalizing line with
  | nil =>
    rw [List.nil_append, grepLines, if_pos rfl, flush_eq hpattern hne (hcut line hline), linesFrom_nil,
      List.map_singleton, filterLines_cons]
    exact (List.append_nil _).symm
  | cons c content ih =>
    rw [NulFree.cons] at hcontent
    rw [List.cons_append, grepLines, if_neg hcontent.1, flush_eq hpattern hne (hcut line hline)]
    by_cases hnewline : c = newline
    . rw [if_pos hnewline, hnewline, linesFrom_newline, List.map_cons, filterLines_cons]
      have hstart := ih hcontent.2 nulFree_nil
      rw [List.take_nil] at hstart
      rw [hstart]
    . have hfree : NulFree (line ++ [c]) := by
        rw [NulFree.append, NulFree.cons]
        exact ⟨hline, hcontent.1, List.not_mem_nil⟩
      rw [if_neg hnewline, linesFrom_cons hnewline, ← ih hcontent.2 hfree]
      have hmax : GREP_LINE_MAX = 255 := rfl
      split
      . next hlt =>
        rw [List.length_take] at hlt
        rw [List.take_of_length_le (by omega), List.take_of_length_le]
        rw [List.length_append, List.length_singleton]
        omega
      . next hge =>
        rw [List.length_take] at hge
        rw [List.take_append_of_le_length (by omega)]

end Loop

section Command

variable {s : Shell} {m : FsMap} {argv : Argv} {content : List UInt8}

theorem nulFree_filterLines {keep : List UInt8 → Bool} {lines : List (List UInt8)}
    (h : ∀ line ∈ lines, NulFree line)
    : NulFree (filterLines newline keep lines) := by
  unfold filterLines NulFree
  rw [List.mem_flatMap]
  rintro ⟨line, hline, hnul⟩
  rw [List.mem_append, List.mem_singleton] at hnul
  cases hnul with
  | inl hnul => exact h line (List.mem_of_mem_filter hline) hnul
  | inr hnul => exact absurd hnul (by decide)

theorem file_of_node {f : FsFile} (hwf : f.Wf) (hnode : f.node = .file content)
    : f.isDir = false ∧ f.data.chars.take (f.size + 1) = content ++ [NUL] := by
  have hlen := f.data.length_chars
  have hsize := hwf.size_lt
  have hlast := hwf.terminated
  unfold FsFile.node at hnode
  split at hnode
  . cases hnode
  . next hdir =>
    cases hnode
    refine ⟨Bool.eq_false_iff.mpr hdir, ?_⟩
    unfold CharArray.get at hlast
    rw [List.getD_eq_getElem?_getD, List.getElem?_eq_getElem (by omega), Option.getD_some] at hlast
    rw [List.take_add_one, List.getElem?_eq_getElem (by omega), hlast]
    rfl

theorem cmdGrep_console (h : s.fs.table.Represents m) (hcwd : WorkingDir s.cwd) (hargv : argv.Valid)
    (hargc : 3 ≤ argv.length)
    (hfile : m.lookup (s.resolve (argv.arg 2)) = some (.file content)) (hcontent : NulFree content)
    : (cmdGrep s argv).2.console
        = s.console ++ filterLines newline (hasPattern (argv.arg 1))
          ((content.splitOn newline).map (·.take GREP_LINE_MAX)) := by
  have hpattern := hargv _ (argv.arg_mem (show 1 < argv.length by omega))
  have hresolved := hcwd.resolve (hargv _ (argv.arg_mem (show 2 < argv.length by omega)))
  have hlookup := h.lookup_eq hresolved.nulFree
  rw [hfile] at hlookup
  obtain ⟨i, hfind, hnode⟩ := Option.map_eq_some_iff.mp hlookup
  obtain ⟨hdir, hdata⟩ := file_of_node (h.wf i) hnode
  have hlines : ∀ line ∈ (content.splitOn newline).map (·.take GREP_LINE_MAX), NulFree line := by
    intro line hline
    obtain ⟨whole, hwhole, rfl⟩ := List.mem_map.mp hline
    intro hnul
    exact hcontent (mem_of_mem_splitOn hwhole NUL (List.mem_of_mem_take hnul))
  have hloop := grepLines_eq hpattern.1 hpattern.2 hcontent nulFree_nil []
  rw [List.take_nil, linesFrom_start] at hloop
  unfold cmdGrep
  rw [if_neg (by omega)]
  dsimp only
  rw [hfind]
  dsimp only
  rw [hdir, if_neg Bool.false_ne_true, hdata, hloop]
  unfold Shell.puts
  dsimp only
  rw [(nulFree_filterLines hlines).cstr]
  rfl

theorem cmdGrep_exact_iff (h : s.fs.table.Represents m) (hcwd : WorkingDir s.cwd)
    (hargv : argv.Valid) (hargc : 3 ≤ argv.length)
    (hfile : m.lookup (s.resolve (argv.arg 2)) = some (.file content)) (hcontent : NulFree content)
    : (cmdGrep s argv).2.console = s.console ++ grepText (argv.arg 1) content
        ↔ ∀ line ∈ content.splitOn newline, argv.arg 1 <:+: line → line.length ≤ 255 := by
  rw [cmdGrep_console h hcwd hargv hargc hfile hcontent, List.append_cancel_left_eq]
  unfold grepText
  rw [filterLines_cut_eq_iff newline fun _ => hasPattern_take]
  unfold hasPattern
  simp only [decide_eq_true_iff]
  exact Iff.rfl

-- A shell whose only file has this content.
def shellWith (content : List UInt8) : Shell where
  fs :=
    { fsInit with
        table :=
          (fsWrite (fsCreate .zero (str "/a")).2 (str "/a") content content.length).2 }
  cwd := str "/"
  console := []

def filePath : FsPath where
  path := str "/a"
  nulFree := by decide
  length_lt := by decide

theorem shellWith_represents (content : List UInt8) (hlen : content.length < FS_MAX_FILESIZE)
    : ∃ m, (shellWith content).fs.table.Represents m
        ∧ m.lookup (str "/a") = some (.file content) := by
  have hcreate := ((FsCall.create filePath).simulated FileTable.represents_zero).represents
  have hwrite := ((FsCall.write filePath content content.length (Nat.le_refl _)).simulated
    hcreate).represents
  have hcreated : ((FsCall.create filePath).spec ∅).2 = Finmap.insert (str "/a") (.file []) ∅ := by
    have hfull : ¬(str "/a" ∈ (∅ : FsMap) ∨ FsMap.Full ∅) := by decide
    unfold FsCall.spec FsMap.create
    dsimp only [filePath]
    rw [if_neg hfull]
    rfl
  have hroom : content.take (min content.length (FS_MAX_FILESIZE - 1)) = content :=
    List.take_of_length_le (by omega)
  refine ⟨_, hwrite, ?_⟩
  rw [hcreated]
  unfold FsCall.spec FsMap.write
  dsimp only [filePath]
  rw [Finmap.lookup_insert, hroom]
  dsimp only [Prod.map]
  exact Finmap.lookup_insert _

def grepFor (pattern : String) : Argv := [str "grep", str pattern, str "/a"]

theorem grepFor_valid : (grepFor "bc").Valid := by
  unfold Argv.Valid
  decide

theorem cmdGrep_twoLines
    : (cmdGrep (shellWith (str "abc\nb")) (grepFor "bc")).2.console = str "abc\n" := by
  obtain ⟨m, hrep, hfile⟩ := shellWith_represents (str "abc\nb") (by decide)
  have hresolve : (shellWith (str "abc\nb")).resolve ((grepFor "bc").arg 2) = str "/a" := by
    decide +kernel
  rw [← hresolve] at hfile
  have hexact := cmdGrep_exact_iff hrep ⟨by decide, by decide⟩ grepFor_valid (by decide) hfile
    (by decide)
  rw [hexact.mpr (by decide +kernel)]
  decide +kernel

def longLine : List UInt8 := List.replicate 255 (chr 'a') ++ str "bc"

theorem cmdGrep_longLine
    : (cmdGrep (shellWith longLine) (grepFor "bc")).2.console = []
        ∧ grepText (str "bc") longLine = longLine ++ [newline] := by
  obtain ⟨m, hrep, hfile⟩ := shellWith_represents longLine (by decide +kernel)
  have hresolve : (shellWith longLine).resolve ((grepFor "bc").arg 2) = str "/a" := by
    decide +kernel
  rw [← hresolve] at hfile
  have hconsole := cmdGrep_console hrep ⟨by decide, by decide⟩ grepFor_valid (by decide) hfile
    (by decide +kernel)
  constructor
  . rw [hconsole]
    decide +kernel
  . decide +kernel

end Command

end DismasmOS
