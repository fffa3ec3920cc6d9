import DismasmOS.Lib.Path
import DismasmOS.Str.Lemmas
import DismasmOS.Fs.Resolve

/-!
This module contains what `fs_resolve_path` computes: the resolution of paths within three limits.
Its results are the root, the empty string or canonical paths that fit a file's name.
-/

namespace DismasmOS

def DOT : List UInt8 := str "."
def DOTDOT : List UInt8 := str ".."

def resolveLimits : Path.Limits where
  text := RESOLVE_MAX_TEXT - 1
  depth := RESOLVE_MAX_COMPS
  length := FS_MAX_PATH

abbrev Canonical (p : List UInt8) : Prop := Path.Canonical (chr '/') DOT DOTDOT p

-- The path an argument stands for, without any bound.
def resolvePath (cwd path : List UInt8) : List UInt8 :=
  Path.resolve (chr '/') DOT DOTDOT cwd path

section Loops

theorem pushComp_eq (comps : List (List UInt8)) {start : List UInt8} (h : NulFree start)
    : pushComp comps start = Path.pushWithin DOT DOTDOT RESOLVE_MAX_COMPS comps start := by
  have hdot : strcmp start (str ".") = 0 ↔ start = DOT := by
    rw [strcmp_eq_zero_iff, h.cstr]
    rfl
  have hdotdot : strcmp start (str "..") = 0 ↔ start = DOTDOT := by
    rw [strcmp_eq_zero_iff, h.cstr]
    rfl
  unfold pushComp Path.pushWithin
  simp only [hdot, hdotdot]

theorem resolveComps_eq {comps : List (List UInt8)} {fuel : Nat} {p : List UInt8}
    (hfuel : p.length ≤ fuel) (hp : NulFree p)
    : resolveComps comps fuel p
        = (Path.components (chr '/') p).foldl (Path.pushWithin DOT DOTDOT RESOLVE_MAX_COMPS)
            comps := by
  induction fuel generalizing comps p with
  | zero =>
    rw [List.length_eq_zero_iff.mp (Nat.le_zero.mp hfuel)]
    rfl
  | succ fuel ih =>
    have hsub := List.dropWhile_sublist (· = chr '/') (l := p)
    have hhead : (p.dropWhile (· = chr '/')).head? ≠ some (chr '/') := by
      intro hsome
      have := List.head?_dropWhile_not (· = chr '/') p
      rw [hsome] at this
      simp at this
    unfold resolveComps
    rw [← Path.components_dropWhile]
    generalize p.dropWhile (· = chr '/') = q at *
    dsimp only
    split
    . next hnil =>
      rw [hnil]
      rfl
    . next hne =>
      have hq := hp.sublist hsub
      have htake := hq.sublist (List.takeWhile_sublist (· ≠ chr '/'))
      have hrest : (q.dropWhile (· ≠ chr '/')).tail.Sublist q :=
        (List.tail_sublist _).trans (List.dropWhile_sublist _)
      have hlen : (q.dropWhile (· ≠ chr '/')).tail.length ≤ fuel := by
        have := (List.dropWhile_sublist (· ≠ chr '/') (l := q)).length_le
        have := hsub.length_le
        have := List.length_pos_iff.mpr hne
        rw [List.length_tail]
        omega
      rw [ih hlen (hq.sublist hrest), Path.components_eq_cons _ hne hhead, List.foldl_cons,
        pushComp_eq _ htake]

theorem foldl_appendComp_eq {out : List UInt8} {comps : List (List UInt8)} (hout : NulFree out)
    (hcomps : ∀ c ∈ comps, NulFree c)
    : comps.foldl appendComp out
        = comps.foldl (Path.appendWithin (chr '/') FS_MAX_PATH) out := by
  induction comps generalizing out with
  | nil => rfl
  | cons c comps ih =>
    simp only [List.mem_cons, forall_eq_or_imp] at hcomps
    have hslash : NulFree (out ++ str "/") := by
      rw [NulFree.append]
      exact ⟨hout, by decide⟩
    have happend : appendComp out c = Path.appendWithin (chr '/') FS_MAX_PATH out c := by
      unfold appendComp Path.appendWithin strcat
      rw [strlen_eq, strlen_eq, hout.cstr, hcomps.1.cstr, hslash.cstr, List.append_assoc]
      rfl
    have hnew : NulFree (Path.appendWithin (chr '/') FS_MAX_PATH out c) := by
      unfold Path.appendWithin
      split
      . rw [NulFree.append, NulFree.cons]
        exact ⟨hout, by decide, hcomps.1⟩
      . exact hout
    rw [List.foldl_cons, List.foldl_cons, happend]
    exact ih hnew hcomps.2

end Loops

section Text

theorem resolveText_eq {cwd path : List UInt8} (hcwd : NulFree cwd)
    (hlen : cwd.length < FS_MAX_PATH) (hpath : NulFree path)
    : resolveText cwd path = (Path.join (chr '/') cwd path).take resolveLimits.text := by
  have hhead : path.headD NUL = chr '/' ↔ path.head? = some (chr '/') := by
    cases path with
    | nil => decide
    | cons c path => simp
  have hroot : strcmp cwd (str "/") = 0 ↔ cwd = [chr '/'] := by
    rw [strcmp_eq_zero_iff, hcwd.cstr]
    rfl
  unfold resolveText Path.join resolveLimits
  unfold FS_MAX_PATH at hlen
  simp only [hhead, hroot, hpath.cstr, hcwd.cstr]
  have htake : cwd.take (RESOLVE_MAX_TEXT - 1) = cwd := by
    apply List.take_of_length_le
    unfold RESOLVE_MAX_TEXT FS_MAX_PATH
    omega
  split
  . rfl
  . split
    . unfold strncat
      rw [hpath.cstr]
      rfl
    . have hslash : NulFree (cwd ++ str "/") := by
        rw [NulFree.append]
        exact ⟨hcwd, by decide⟩
      rw [htake, strlen_eq, hcwd.cstr]
      unfold strncat RESOLVE_MAX_TEXT FS_MAX_PATH
      rw [if_pos (by omega), hslash.cstr, hpath.cstr]
      have hrest : 64 * 2 - 1 - cwd.length = 64 * 2 - cwd.length - 2 + 1 := by omega
      have hfront : cwd.take (64 * 2 - 1) = cwd := htake
      rw [List.append_assoc, List.take_append, hfront, hrest, List.take_succ_cons]
      rfl

end Text

theorem nulFree_join {cwd path : List UInt8} (hcwd : NulFree cwd) (hpath : NulFree path)
    : NulFree (Path.join (chr '/') cwd path) := by
  unfold Path.join
  split
  . exact hpath
  . split
    . rw [NulFree.cons]
      exact ⟨by decide, hpath⟩
    . rw [NulFree.append, NulFree.cons]
      exact ⟨hcwd, by decide, hpath⟩

theorem fsResolvePath_eq {cwd path : List UInt8} (hcwd : NulFree cwd)
    (hlen : cwd.length < FS_MAX_PATH) (hpath : NulFree path) (hne : path ≠ [])
    : fsResolvePath cwd path = Path.resolveWithin (chr '/') DOT DOTDOT resolveLimits cwd path := by
  have hhead : path.headD NUL ≠ NUL := by
    cases path with
    | nil => exact absurd rfl hne
    | cons c path =>
      rw [NulFree.cons] at hpath
      exact hpath.1
  have htext : NulFree (resolveText cwd path) := by
    rw [resolveText_eq hcwd hlen hpath]
    exact (nulFree_join hcwd hpath).sublist (List.take_sublist _ _)
  unfold fsResolvePath Path.resolveWithin Path.renderWithin Path.normalizeWithin
  rw [if_neg hhead, ← resolveText_eq hcwd hlen hpath]
  dsimp only
  rw [resolveComps_eq (Nat.le_refl _) htext]
  simp only [List.length_eq_zero_iff]
  change _ = if List.foldl (Path.pushWithin DOT DOTDOT RESOLVE_MAX_COMPS) [] _ = [] then _ else _
  split
  . rfl
  . apply foldl_appendComp_eq
    . unfold NulFree
      simp
    . intro c hc
      cases Path.mem_of_mem_foldl_pushWithin hc with
      | inl hmem => simp at hmem
      | inr hmem => exact htext.sublist (Path.of_mem_components _ hmem).2.2

section Exact

variable {cwd path : List UInt8}

structure InLimits (cwd path : List UInt8) : Prop where
  text : (Path.join (chr '/') cwd path).length ≤ RESOLVE_MAX_TEXT - 1
  depth : Path.WithinDepth DOT DOTDOT RESOLVE_MAX_COMPS
    (Path.components (chr '/') (Path.join (chr '/') cwd path))
  length : (resolvePath cwd path).length < FS_MAX_PATH

theorem InLimits.spared (h : InLimits cwd path)
    : Path.Spared (chr '/') DOT DOTDOT resolveLimits cwd path :=
  Path.spared_of_within _ h.text h.depth h.length

theorem fsResolvePath_nil (hcwd : Canonical cwd) (hnul : NulFree cwd)
    (hlen : cwd.length < FS_MAX_PATH)
    : fsResolvePath cwd [] = cwd := by
  have hhead : cwd.headD NUL ≠ NUL := by
    obtain ⟨cs, _, hrender⟩ := hcwd
    have hne := Path.render_ne_nil (chr '/') cs
    rw [← hrender] at hne
    cases cwd with
    | nil => exact absurd rfl hne
    | cons c cwd =>
      rw [NulFree.cons] at hnul
      exact hnul.1
  unfold fsResolvePath
  rw [List.headD_nil, if_pos rfl, if_neg hhead, hnul.cstr]
  apply List.take_of_length_le
  omega

theorem fsResolvePath_exact (hcwd : Canonical cwd) (hnul : NulFree cwd)
    (hlen : cwd.length < FS_MAX_PATH) (hpath : NulFree path)
    : fsResolvePath cwd [] = cwd
        ∧ (InLimits cwd path → fsResolvePath cwd path = resolvePath cwd path) := by
  constructor
  . exact fsResolvePath_nil hcwd hnul hlen
  . intro hlimits
    cases hnil : path with
    | nil =>
      unfold resolvePath
      rw [Path.resolve_nil _ hcwd, fsResolvePath_nil hcwd hnul hlen]
    | cons c rest =>
      have hne : path ≠ [] := by
        rw [hnil]
        exact List.cons_ne_nil c rest
      rw [← hnil, fsResolvePath_eq hnul hlen hpath hne]
      exact hlimits.spared.resolveWithin_eq

theorem fsResolvePath_dots
    : fsResolvePath (str "/home/notes") [] = str "/home/notes"
        ∧ fsResolvePath (str "/home/notes") (str "..//./a/../b/") = str "/home/b" := by
  have hcwd : Canonical (str "/home/notes") := ⟨[str "home", str "notes"], by decide, rfl⟩
  have hpath : NulFree (str "..//./a/../b/") := by decide
  have h := fsResolvePath_exact hcwd (by decide) (by decide) hpath
  exact ⟨h.1, (h.2 ⟨by decide, by decide, by decide⟩).trans (by decide)⟩

end Exact

-- What `fs_resolve_path` can hand to the file table, whatever the working directory is.
structure Resolved (p : List UInt8) : Prop where
  nulFree : NulFree p
  length_lt : p.length < FS_MAX_PATH
  shape : p = [] ∨ Canonical p

theorem fsResolvePath_resolved {cwd path : List UInt8} (hcwd : NulFree cwd)
    (hlen : cwd.length < FS_MAX_PATH) (hpath : NulFree path) (hne : path ≠ [])
    : Resolved (fsResolvePath cwd path) := by
  rw [fsResolvePath_eq hcwd hlen hpath hne]
  cases Path.resolveWithin_eq_render (chr '/') DOT DOTDOT resolveLimits (by decide) cwd path with
  | inl hnil =>
    rw [hnil]
    exact ⟨by decide, by decide, .inl rfl⟩
  | inr hrender =>
    obtain ⟨ds, hplain, hsub, _, heq, hlt⟩ := hrender
    rw [heq]
    refine ⟨?_, hlt, .inr ⟨ds, hplain, rfl⟩⟩
    intro hmem
    cases Path.mem_render _ hmem with
    | inl hslash => exact absurd hslash (by decide)
    | inr hmem =>
      obtain ⟨c, hc, hmem⟩ := hmem
      exact nulFree_join hcwd hpath ((hsub c hc).subset hmem)

end DismasmOS
