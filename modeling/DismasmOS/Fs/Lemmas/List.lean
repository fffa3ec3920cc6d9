import Mathlib.Data.List.GetD
import DismasmOS.Fs.List
import DismasmOS.Fs.Lemmas.Init

/-!
This module contains what `fs_list` prints: one line for each file whose path lies directly in the
directory, with the last component of the path as its name.
-/

namespace DismasmOS

def FsFile.IsChildOf (f : FsFile) (d : List UInt8) : Prop :=
  f.used ∧ Path.parent (chr '/') f.path.str = d ∧ f.path.str ≠ d

instance (f : FsFile) (d : List UInt8) : Decidable (f.IsChildOf d) :=
  inferInstanceAs (Decidable (_ ∧ _))

def FileTable.childrenOf (t : FileTable) (d : List UInt8) : List FsFile := t.files.filter (·.IsChildOf d)

-- One line of the listing.
def FsFile.listLine (f : FsFile) (showSize showPerm : Bool) : List UInt8 :=
  f.listColumns showSize showPerm ++ Path.name (chr '/') f.path.str ++ f.listEnd

section RelName

variable {f : FsFile} {base after rest : List UInt8}

theorem slash_after_iff
    : (if rest.headD NUL = chr '/' then
          if strchr rest.tail (chr '/') = none then some rest.tail else none
        else
          none) = some after
        ↔ rest = chr '/' :: after ∧ chr '/' ∉ cstr after := by
  rw [Option.ite_none_right_eq_some, Option.ite_none_right_eq_some, strchr_eq_none_iff (by decide),
    Option.some_inj]
  constructor
  . rintro ⟨hhead, hmem, rfl⟩
    cases rest with
    | nil => exact absurd hhead (by decide)
    | cons c rest =>
      rw [List.headD_cons] at hhead
      rw [hhead]
      exact ⟨rfl, hmem⟩
  . rintro ⟨rfl, hmem⟩
    exact ⟨rfl, hmem, rfl⟩

theorem relName_eq_some_iff (hbase : NulFree base)
    : f.relName base = some after
        ↔ f.path.chars = Path.stem (chr '/') base ++ chr '/' :: after ∧ chr '/' ∉ cstr after := by
  have hroot : strcmp base (str "/") = 0 ↔ base = [chr '/'] :=
    hbase.strcmp_eq_zero_iff (by decide)
  unfold FsFile.relName Path.stem
  dsimp only
  by_cases hd : base = [chr '/']
  . rw [if_pos (hroot.mpr hd), if_pos hd, List.nil_append]
    exact slash_after_iff
  . have hcmp := strncmp_eq_zero_iff (s := f.path.chars) hbase (Nat.le_refl base.length)
    rw [List.take_length] at hcmp
    rw [if_neg (mt hroot.mp hd), if_neg hd, hbase.strlen_eq]
    by_cases hprefix : base <+: f.path.chars
    . obtain ⟨rest, hrest⟩ := hprefix
      have hget : f.path.chars.getD base.length NUL = rest.headD NUL := by
        rw [← hrest, List.getD_append_right _ _ _ _ (Nat.le_refl _), Nat.sub_self]
        cases rest <;> rfl
      have hdrop : f.path.chars.drop (base.length + 1) = rest.tail := by
        rw [← hrest, ← List.drop_drop, List.drop_left, List.drop_one]
      simp only [hcmp.mpr ⟨rest, hrest⟩, hget, hdrop, true_and]
      rw [slash_after_iff, ← hrest, List.append_cancel_left_eq]
    . rw [if_neg (fun hand => hprefix (hcmp.mp hand.1))]
      refine iff_of_false (fun h => nomatch h) ?_
      rintro ⟨heq, _⟩
      exact hprefix ⟨_, heq.symm⟩

end RelName

section Listing

variable {f : FsFile} {d : List UInt8} {showSize showPerm : Bool}

theorem nulFree_stem (hnul : NulFree d) : NulFree (Path.stem (chr '/') d) := by
  unfold Path.stem
  split
  . exact List.not_mem_nil
  . exact hnul

theorem str_of_chars {after : List UInt8} (hnul : NulFree d)
    (hchars : f.path.chars = Path.stem (chr '/') d ++ chr '/' :: after)
    : f.path.str = Path.stem (chr '/') d ++ chr '/' :: cstr after := by
  unfold CharArray.str
  rw [hchars, (nulFree_stem hnul).cstr_append, cstr_cons, if_neg (by decide)]

theorem exists_after {name : List UInt8} (hnul : NulFree d)
    (hpath : f.path.str = Path.stem (chr '/') d ++ chr '/' :: name)
    : ∃ after, f.path.chars = Path.stem (chr '/') d ++ chr '/' :: after ∧ cstr after = name := by
  obtain ⟨rest, hrest⟩ := List.takeWhile_prefix (l := f.path.chars) (· ≠ NUL)
  change f.path.str ++ rest = _ at hrest
  have hchars : f.path.chars = Path.stem (chr '/') d ++ chr '/' :: (name ++ rest) := by
    rw [← hrest, hpath, List.append_assoc, List.cons_append]
  have hstr := str_of_chars hnul hchars
  rw [hpath, List.append_cancel_left_eq, List.cons.injEq] at hstr
  exact ⟨name ++ rest, hchars, hstr.2.symm⟩

-- The children of a directory are the paths with exactly one more component.
theorem parent_eq_iff_relName (hf : Canonical f.path.str) (hd : Canonical d) (hnul : NulFree d)
    : (Path.parent (chr '/') f.path.str = d ∧ f.path.str ≠ d)
        ↔ ∃ after, f.relName d = some after ∧ cstr after ≠ [] := by
  rw [Path.parent_eq_iff _ hf hd]
  constructor
  . rintro ⟨name, ⟨hne, hmem⟩, hpath⟩
    obtain ⟨after, hchars, hname⟩ := exists_after hnul hpath
    exact ⟨after, (relName_eq_some_iff hnul).mpr ⟨hchars, hname ▸ hmem⟩, hname ▸ hne⟩
  . rintro ⟨after, hrel, hne⟩
    obtain ⟨hchars, hmem⟩ := (relName_eq_some_iff hnul).mp hrel
    exact ⟨cstr after, ⟨hne, hmem⟩, str_of_chars hnul hchars⟩

theorem isChildOf_iff (hused : f.used) (hf : Canonical f.path.str) (hd : Canonical d)
    (hnul : NulFree d)
    : f.IsChildOf d ↔ ∃ after, f.relName d = some after ∧ cstr after ≠ [] := by
  unfold FsFile.IsChildOf
  rw [and_iff_right hused, parent_eq_iff_relName hf hd hnul]

theorem name_of_relName {after : List UInt8} (hd : Canonical d) (hnul : NulFree d)
    (hrel : f.relName d = some after) (hne : cstr after ≠ [])
    : Path.name (chr '/') f.path.str = cstr after := by
  obtain ⟨hchars, hmem⟩ := (relName_eq_some_iff hnul).mp hrel
  rw [str_of_chars hnul hchars]
  exact Path.name_stem_append _ hd ⟨hne, hmem⟩

theorem entry_eq (hf : f.used → Canonical f.path.str) (hd : Canonical d) (hnul : NulFree d)
    (l : Listing)
    : l.entry f d showSize showPerm
        = if f.IsChildOf d then
            ⟨l.text ++ f.listLine showSize showPerm, l.count + 1⟩
          else
            l := by
  unfold Listing.entry
  by_cases hused : f.used
  . have hchild := isChildOf_iff hused (hf hused) hd hnul
    have hself : strcmp f.path.chars d = 0 ↔ f.path.str = d := by
      rw [strcmp_eq_zero_iff, hnul.cstr]
      rfl
    rw [hused, Bool.not_true, if_neg Bool.false_ne_true]
    by_cases hpath : f.path.str = d
    . rw [if_pos (hself.mpr hpath), if_neg (fun h => h.2.2 hpath)]
    . rw [if_neg (mt hself.mp hpath)]
      cases hrel : f.relName d with
      | none =>
        rw [if_neg]
        rw [hchild, hrel]
        exact fun ⟨_, h, _⟩ => nomatch h
      | some after =>
        dsimp only
        by_cases hnil : cstr after = []
        . rw [if_pos ((headD_eq_nul_iff _).mpr hnil), if_neg]
          rw [hchild, hrel]
          rintro ⟨after', h, hne⟩
          cases h
          exact hne hnil
        . rw [if_neg (mt (headD_eq_nul_iff _).mp hnil), if_pos (hchild.mpr ⟨after, hrel, hnil⟩)]
          unfold FsFile.listLine
          rw [name_of_relName hd hnul hrel hnil]
          simp only [List.append_assoc]
  . have hunused : f.used = false := Bool.eq_false_of_not_eq_true hused
    rw [if_pos (by rw [hunused, Bool.not_false]), if_neg (fun h => hused h.1)]

theorem foldl_entry_eq {files : List FsFile} (hfiles : ∀ f ∈ files, f.used → Canonical f.path.str)
    (hd : Canonical d) (hnul : NulFree d) (l : Listing)
    : files.foldl (fun l f => l.entry f d showSize showPerm) l
        = ⟨l.text ++ (files.filter (·.IsChildOf d)).flatMap (·.listLine showSize showPerm),
            l.count + (files.filter (·.IsChildOf d)).length⟩ := by
  induction files generalizing l with
  | nil =>
    rw [List.filter_nil, List.flatMap_nil, List.append_nil]
    rfl
  | cons f files ih =>
    rw [List.forall_mem_cons] at hfiles
    rw [List.foldl_cons, entry_eq hfiles.1 hd hnul, ih hfiles.2, List.filter_cons]
    simp only [decide_eq_true_eq]
    split
    . rw [List.flatMap_cons, List.append_assoc, List.length_cons, Nat.add_assoc, Nat.add_comm 1]
    . rfl

theorem fsList_children (t : FileTable) (d : List UInt8) (showSize showPerm : Bool)
    (ht : ∀ f ∈ t.files, f.used → Canonical f.path.str) (hd : Canonical d) (hnul : NulFree d)
    (hlen : d.length ≤ 63)
    : fsList t d showSize showPerm
        = listHeader showSize showPerm
          ++ (t.childrenOf d).flatMap (·.listLine showSize showPerm)
          ++ listFooter showSize showPerm (t.childrenOf d).length
      ∧ ∀ f ∈ t.files, f ∈ t.childrenOf d
          ↔ f.used ∧ ∃ name, Path.components (chr '/') f.path.str
              = Path.components (chr '/') d ++ [name] := by
  have hbase : (cstr d).take (FS_MAX_PATH - 1) = d := by
    rw [hnul.cstr]
    exact List.take_of_length_le hlen
  constructor
  . unfold fsList FileTable.childrenOf
    dsimp only
    rw [hbase, foldl_entry_eq ht hd hnul, Nat.zero_add]
  . intro f hf
    unfold FileTable.childrenOf
    rw [List.mem_filter, decide_eq_true_iff, and_iff_right hf]
    apply and_congr_right
    intro hused
    exact Path.parent_eq_iff_components _ (ht f hf hused) hd

theorem initTable_canonical : ∀ f ∈ fsInit.table.files, f.used → Canonical f.path.str := by
  intro f hf hused
  have hmem := fsInit_represents.path_mem hf hused
  have hne : ∀ p ∈ initFiles.map (·.1) ++ initDirs, p ≠ [] := by
    decide +kernel
  apply (initMap_resolved _ hmem).shape.resolve_left
  apply hne
  rw [List.mem_append, ← mem_initMap]
  exact hmem

theorem fsList_children_etc
    : fsList fsInit.table (str "/etc") false false
        = (fsInit.table.childrenOf (str "/etc")).flatMap (·.listLine false false)
      ∧ fsList fsInit.table (str "/etc") false false = str "os-release\nhostname\nfstab\n" := by
  have hetc : Canonical (str "/etc") := ⟨[str "etc"], by decide, rfl⟩
  have hheader : listHeader false false = [] := rfl
  have hfooter : ∀ count, listFooter false false count = [] := fun _ => if_neg fun h => nomatch h.2
  refine ⟨?_, by decide +kernel⟩
  have hlist := (fsList_children fsInit.table (str "/etc") false false initTable_canonical hetc
    (by decide) (by decide)).1
  rw [hlist, hheader, hfooter, List.nil_append, List.append_nil]

end Listing

end DismasmOS
