import Mathlib.Data.List.Infix
import Mathlib.Data.List.TakeWhile

/-!
This module contains slash separated paths over an arbitrary alphabet: their components, the
resolution of `.` and `..` components against a working directory, once without bounds and once by
a resolver that works within limits, and the canonical form of what resolution produces.
-/

namespace Path

variable {α : Type} [DecidableEq α] (sep : α)

def components (p : List α) : List (List α) := (p.splitOn sep).filter (· ≠ [])

def render (cs : List (List α)) : List α := if cs = [] then [sep] else cs.flatMap (sep :: ·)

omit [DecidableEq α] in
theorem mem_render {cs : List (List α)} {x : α} (h : x ∈ render sep cs)
    : x = sep ∨ ∃ c ∈ cs, x ∈ c := by
  unfold render at h
  split at h
  . exact .inl (List.mem_singleton.mp h)
  . rw [List.mem_flatMap] at h
    obtain ⟨c, hc, hx⟩ := h
    rw [List.mem_cons] at hx
    cases hx with
    | inl heq => exact .inl heq
    | inr hx => exact .inr ⟨c, hc, hx⟩

section Components

@[simp]
theorem components_nil : components sep [] = [] := by
  simp [components]

@[simp]
theorem components_sep_cons (p : List α) : components sep (sep :: p) = components sep p := by
  unfold components
  rw [List.splitOn_cons_eq_if_modifyHead]
  simp

theorem components_append_sep {xs : List α} (h : sep ∉ xs) (p : List α)
    : components sep (xs ++ sep :: p) = (if xs = [] then [] else [xs]) ++ components sep p := by
  unfold components
  rw [List.splitOn_append_cons_self_of_not_mem h]
  by_cases hxs : xs = [] <;> simp [hxs]

theorem components_concat_sep (p : List α) : components sep (p ++ [sep]) = components sep p := by
  unfold components
  rw [List.splitOn_append_cons_self, List.filter_append]
  simp

theorem components_of_notMem {xs : List α} (h : sep ∉ xs) (hne : xs ≠ [])
    : components sep xs = [xs] := by
  unfold components
  rw [List.splitOn_eq_singleton h]
  simp [hne]

theorem components_dropWhile (p : List α)
    : components sep (p.dropWhile (· = sep)) = components sep p := by
  induction p with
  | nil => rfl
  | cons c p ih =>
    rw [List.dropWhile_cons]
    split
    . next h =>
      rw [decide_eq_true_eq] at h
      rw [ih, h, components_sep_cons]
    . rfl

theorem components_eq_cons {p : List α} (hne : p ≠ []) (hhead : p.head? ≠ some sep)
    : components sep p
        = p.takeWhile (· ≠ sep) :: components sep (p.dropWhile (· ≠ sep)).tail := by
  have hmem : sep ∉ p.takeWhile (· ≠ sep) := by
    intro h
    have := List.mem_takeWhile_imp h
    simp at this
  have htake : p.takeWhile (· ≠ sep) ≠ [] := by
    cases p with
    | nil => exact absurd rfl hne
    | cons c p =>
      rw [List.head?_cons, ne_eq, Option.some.injEq] at hhead
      simp [hhead]
  have hsplit := List.takeWhile_append_dropWhile (p := (· ≠ sep)) (l := p)
  cases hdrop : p.dropWhile (· ≠ sep) with
  | nil =>
    rw [hdrop, List.append_nil] at hsplit
    rw [List.tail_nil, components_nil]
    conv => lhs; rw [← hsplit]
    exact components_of_notMem sep hmem htake
  | cons c rest =>
    have hc : c = sep := by
      have := List.head?_dropWhile_not (· ≠ sep) p
      rw [hdrop] at this
      simpa using this
    rw [hdrop, hc] at hsplit
    conv => lhs; rw [← hsplit]
    rw [components_append_sep sep hmem, if_neg htake]
    rfl

theorem of_mem_components {p c : List α} (h : c ∈ components sep p)
    : c ≠ [] ∧ sep ∉ c ∧ c.Sublist p := by
  induction hn : p.length using Nat.strongRecOn generalizing p with
  | ind n ih =>
    cases p with
    | nil => simp at h
    | cons x p =>
      by_cases hx : x = sep
      . rw [hx, components_sep_cons] at h
        have := ih p.length (by simp [← hn]) h rfl
        exact ⟨this.1, this.2.1, this.2.2.cons _⟩
      . have hhead : (x :: p).head? ≠ some sep := by simpa using hx
        rw [components_eq_cons sep (by simp) hhead, List.mem_cons] at h
        cases h with
        | inl hfirst =>
          rw [hfirst]
          refine ⟨by simp [hx], ?_, List.takeWhile_sublist _⟩
          intro hmem
          have := List.mem_takeWhile_imp hmem
          simp at this
        | inr hrest =>
          have hdrop : ((x :: p).dropWhile (· ≠ sep)).tail.Sublist (x :: p) :=
            (List.tail_sublist _).trans (List.dropWhile_sublist _)
          have hlen : ((x :: p).dropWhile (· ≠ sep)).tail.length < n := by
            have := (List.dropWhile_sublist (· ≠ sep) (l := p)).length_le
            rw [List.dropWhile_cons_of_pos (by simpa using hx), List.length_tail, ← hn,
              List.length_cons]
            omega
          have := ih _ hlen hrest rfl
          exact ⟨this.1, this.2.1, this.2.2.trans hdrop⟩

theorem components_flatMap {cs : List (List α)} (h : ∀ c ∈ cs, c ≠ [] ∧ sep ∉ c)
    : components sep (cs.flatMap (sep :: ·)) = cs := by
  induction cs with
  | nil => simp
  | cons c cs ih =>
    simp only [List.mem_cons, forall_eq_or_imp] at h
    rw [List.flatMap_cons, List.cons_append, components_sep_cons]
    cases cs with
    | nil => simpa using components_of_notMem sep h.1.2 h.1.1
    | cons d ds =>
      have ih := ih h.2
      rw [List.flatMap_cons, List.cons_append] at ih ⊢
      rw [components_append_sep sep h.1.2, if_neg h.1.1]
      rw [components_sep_cons] at ih
      rw [ih]
      rfl

theorem components_render {cs : List (List α)} (h : ∀ c ∈ cs, c ≠ [] ∧ sep ∉ c)
    : components sep (render sep cs) = cs := by
  unfold render
  split
  . next hnil =>
    rw [hnil, components_sep_cons, components_nil]
  . exact components_flatMap sep h

end Components

section Resolve

variable (dot up : List α)

def push (stack : List (List α)) (c : List α) : List (List α) :=
  if c = dot then
    stack
  else if c = up then
    stack.dropLast
  else
    stack ++ [c]

def normalize (cs : List (List α)) : List (List α) := cs.foldl (push dot up) []

def join (cwd p : List α) : List α :=
  if p.head? = some sep then
    p
  else if cwd = [sep] then
    sep :: p
  else
    cwd ++ sep :: p

def resolve (cwd p : List α) : List α :=
  render sep (normalize dot up (components sep (join sep cwd p)))

-- A resolver that cuts its input, drops components when its stack is full and omits components
-- from the output when there is no room for them.
structure Limits where
  text : Nat
  depth : Nat
  length : Nat

variable (lim : Limits)

def pushWithin (depth : Nat) (stack : List (List α)) (c : List α) : List (List α) :=
  if c = dot then
    stack
  else if c = up then
    stack.dropLast
  else if stack.length < depth then
    stack ++ [c]
  else
    stack

def appendWithin (length : Nat) (out c : List α) : List α :=
  if out.length + 1 + c.length < length then out ++ sep :: c else out

def renderWithin (length : Nat) (cs : List (List α)) : List α :=
  if cs = [] then [sep] else cs.foldl (appendWithin sep length) []

def normalizeWithin (depth : Nat) (cs : List (List α)) : List (List α) :=
  cs.foldl (pushWithin dot up depth) []

def resolveWithin (cwd p : List α) : List α :=
  renderWithin sep lim.length
    (normalizeWithin dot up lim.depth (components sep ((join sep cwd p).take lim.text)))

end Resolve

section Canonical

variable (dot up : List α)

def Plain (c : List α) : Prop := c ≠ [] ∧ sep ∉ c ∧ c ≠ dot ∧ c ≠ up

instance (c : List α) : Decidable (Plain sep dot up c) :=
  inferInstanceAs (Decidable (c ≠ [] ∧ sep ∉ c ∧ c ≠ dot ∧ c ≠ up))

def Canonical (p : List α) : Prop := ∃ cs, (∀ c ∈ cs, Plain sep dot up c) ∧ p = render sep cs

def parent (p : List α) : List α := render sep (components sep p).dropLast

-- Only the root is above itself.
theorem parent_of_fixed {p : List α} (h : parent sep p = p) : parent sep p = [sep] := by
  have hcs : ∀ c ∈ (components sep p).dropLast, c ≠ [] ∧ sep ∉ c := by
    intro c hc
    have hcomp := of_mem_components sep ((List.dropLast_sublist _).subset hc)
    exact ⟨hcomp.1, hcomp.2.1⟩
  have hlast := components_render sep hcs
  have hrender : render sep (components sep p).dropLast = p := h
  rw [hrender] at hlast
  have hlen := congrArg List.length hlast
  rw [List.length_dropLast] at hlen
  have hnil : components sep p = [] := by
    rw [← List.length_eq_zero_iff]
    omega
  unfold parent render
  rw [hnil]
  rfl

variable {dot up}

theorem plain_components_render {cs : List (List α)} (h : ∀ c ∈ cs, Plain sep dot up c)
    : components sep (render sep cs) = cs :=
  components_render sep fun c hc => ⟨(h c hc).1, (h c hc).2.1⟩

theorem pushWithin_plain {depth : Nat} {stack : List (List α)} {c : List α}
    (hstack : ∀ x ∈ stack, Plain sep dot up x) (hc : c ≠ [] ∧ sep ∉ c)
    : ∀ x ∈ pushWithin dot up depth stack c, Plain sep dot up x := by
  unfold pushWithin
  split
  . exact hstack
  . split
    . intro x hx
      exact hstack x ((List.dropLast_sublist _).subset hx)
    . split
      . next hdot hup _ =>
        intro x hx
        rw [List.mem_append, List.mem_singleton] at hx
        cases hx with
        | inl hx => exact hstack x hx
        | inr hx =>
          rw [hx]
          exact ⟨hc.1, hc.2, hdot, hup⟩
      . exact hstack

theorem foldl_pushWithin_plain {depth : Nat} {stack cs : List (List α)}
    (hstack : ∀ x ∈ stack, Plain sep dot up x) (hcs : ∀ c ∈ cs, c ≠ [] ∧ sep ∉ c)
    : ∀ x ∈ cs.foldl (pushWithin dot up depth) stack, Plain sep dot up x := by
  induction cs generalizing stack with
  | nil => exact hstack
  | cons c cs ih =>
    simp only [List.mem_cons, forall_eq_or_imp] at hcs
    rw [List.foldl_cons]
    apply ih
    . exact pushWithin_plain sep hstack hcs.1
    . exact hcs.2

variable (dot up) in
theorem normalizeWithin_plain (depth : Nat) (p : List α)
    : ∀ x ∈ normalizeWithin dot up depth (components sep p), Plain sep dot up x := by
  apply foldl_pushWithin_plain
  . simp
  . intro c hc
    have := of_mem_components sep hc
    exact ⟨this.1, this.2.1⟩

theorem push_plain {stack : List (List α)} {c : List α} (hstack : ∀ x ∈ stack, Plain sep dot up x)
    (hc : c ≠ [] ∧ sep ∉ c)
    : ∀ x ∈ push dot up stack c, Plain sep dot up x := by
  have hpush : push dot up stack c = pushWithin dot up (stack.length + 1) stack c := by
    unfold push pushWithin
    rw [if_pos (Nat.lt_succ_self stack.length)]
  rw [hpush]
  exact pushWithin_plain sep hstack hc

variable (dot up) in
theorem normalize_plain (p : List α)
    : ∀ x ∈ normalize dot up (components sep p), Plain sep dot up x := by
  have hfold : ∀ (cs stack : List (List α)), (∀ c ∈ cs, c ≠ [] ∧ sep ∉ c)
      → (∀ x ∈ stack, Plain sep dot up x)
      → ∀ x ∈ cs.foldl (push dot up) stack, Plain sep dot up x := by
    intro cs
    induction cs with
    | nil =>
      intro stack _ hstack
      exact hstack
    | cons c cs ih =>
      intro stack hcs hstack
      simp only [List.mem_cons, forall_eq_or_imp] at hcs
      rw [List.foldl_cons]
      exact ih _ hcs.2 (push_plain sep hstack hcs.1)
  apply hfold
  . intro c hc
    have := of_mem_components sep hc
    exact ⟨this.1, this.2.1⟩
  . simp

variable (dot up) in
theorem length_normalizeWithin_le (depth : Nat) (cs : List (List α))
    : (normalizeWithin dot up depth cs).length ≤ depth := by
  have hfold : ∀ (cs stack : List (List α)), stack.length ≤ depth
      → (cs.foldl (pushWithin dot up depth) stack).length ≤ depth := by
    intro cs
    induction cs with
    | nil =>
      intro stack hstack
      exact hstack
    | cons c cs ih =>
      intro stack hstack
      rw [List.foldl_cons]
      apply ih
      unfold pushWithin
      split
      . exact hstack
      . split
        . rw [List.length_dropLast]
          omega
        . split
          . rw [List.length_append, List.length_singleton]
            omega
          . exact hstack
  exact hfold cs [] (Nat.zero_le _)

theorem mem_of_mem_foldl_pushWithin {depth : Nat} {stack cs : List (List α)} {c : List α}
    (h : c ∈ cs.foldl (pushWithin dot up depth) stack)
    : c ∈ stack ∨ c ∈ cs := by
  induction cs generalizing stack with
  | nil => exact .inl h
  | cons x cs ih =>
    rw [List.foldl_cons] at h
    cases ih h with
    | inr hmem => exact .inr (List.mem_cons_of_mem _ hmem)
    | inl hmem =>
      unfold pushWithin at hmem
      split at hmem
      . exact .inl hmem
      . split at hmem
        . exact .inl ((List.dropLast_sublist _).subset hmem)
        . split at hmem
          . simp only [List.mem_append, List.mem_singleton] at hmem
            cases hmem with
            | inl hmem => exact .inl hmem
            | inr heq => exact .inr (by simp [heq])
          . exact .inl hmem

omit [DecidableEq α] in
theorem foldl_appendWithin (length : Nat) (out : List α) (cs : List (List α))
    : ∃ ds : List (List α), ds.Sublist cs
        ∧ cs.foldl (appendWithin sep length) out = out ++ ds.flatMap (sep :: ·)
        ∧ (out.length < length → (cs.foldl (appendWithin sep length) out).length < length) := by
  induction cs generalizing out with
  | nil => exact ⟨[], List.Sublist.refl _, by simp, by simp⟩
  | cons c cs ih =>
    obtain ⟨ds, hsub, hfold, hlen⟩ := ih (appendWithin sep length out c)
    rw [List.foldl_cons, hfold] at *
    unfold appendWithin at *
    by_cases hroom : out.length + 1 + c.length < length
    . rw [if_pos hroom] at hlen ⊢
      refine ⟨c :: ds, hsub.cons_cons c, by simp, fun _ => hlen ?_⟩
      rw [List.length_append, List.length_cons]
      omega
    . rw [if_neg hroom] at hlen ⊢
      exact ⟨ds, hsub.cons c, rfl, hlen⟩

variable (dot up) in
theorem resolveWithin_eq_render (lim : Limits) (hlim : 1 < lim.length) (cwd p : List α)
    : resolveWithin sep dot up lim cwd p = []
        ∨ ∃ ds, (∀ c ∈ ds, Plain sep dot up c) ∧ (∀ c ∈ ds, c.Sublist (join sep cwd p))
          ∧ ds.length ≤ lim.depth
          ∧ resolveWithin sep dot up lim cwd p = render sep ds
          ∧ (render sep ds).length < lim.length := by
  have hmem : ∀ c ∈ normalizeWithin dot up lim.depth
      (components sep ((join sep cwd p).take lim.text)), c.Sublist (join sep cwd p) := by
    intro c hc
    cases mem_of_mem_foldl_pushWithin hc with
    | inl hnil => simp at hnil
    | inr hc => exact (of_mem_components sep hc).2.2.trans (List.take_sublist _ _)
  have hplain := normalizeWithin_plain sep dot up lim.depth
    ((join sep cwd p).take lim.text)
  have hdepth := length_normalizeWithin_le dot up lim.depth
    (components sep ((join sep cwd p).take lim.text))
  unfold resolveWithin renderWithin
  generalize normalizeWithin dot up lim.depth (components sep ((join sep cwd p).take lim.text)) = cs
    at *
  by_cases hcs : cs = []
  . rw [if_pos hcs]
    exact .inr ⟨[], by simp, by simp, Nat.zero_le _, by simp [render], by simpa [render] using hlim⟩
  . rw [if_neg hcs]
    obtain ⟨ds, hsub, hfold, hlen⟩ := foldl_appendWithin sep lim.length [] cs
    have hlen := hlen (by simp only [List.length_nil]; omega)
    rw [hfold, List.nil_append] at hlen ⊢
    by_cases hds : ds = []
    . left
      rw [hds, List.flatMap_nil]
    . have hrender : render sep ds = ds.flatMap (sep :: ·) := by
        unfold render
        rw [if_neg hds]
      right
      refine ⟨ds, fun c hc => hplain c (hsub.subset hc), fun c hc => hmem c (hsub.subset hc),
        hsub.length_le.trans hdepth, ?_, ?_⟩
      . rw [hrender]
      . rw [hrender]
        exact hlen

end Canonical

section Fits

variable (dot up : List α) (lim : Limits)

def Fits (cwd p : List α) : Prop :=
  (resolve sep dot up cwd p).length < lim.length
    ∧ (normalize dot up (components sep (join sep cwd p))).length ≤ lim.depth

instance (cwd p : List α) : Decidable (Fits sep dot up lim cwd p) :=
  inferInstanceAs (Decidable (_ ∧ _))

omit [DecidableEq α] in
theorem render_ne_nil (cs : List (List α)) : render sep cs ≠ [] := by
  unfold render
  split
  . simp
  . cases cs with
    | nil => contradiction
    | cons c cs => simp

theorem fits_of_resolveWithin_eq (hlim : 1 < lim.length) {cwd p : List α}
    (h : resolveWithin sep dot up lim cwd p = resolve sep dot up cwd p)
    : Fits sep dot up lim cwd p := by
  have hplain := normalize_plain sep dot up (join sep cwd p)
  cases resolveWithin_eq_render sep dot up lim hlim cwd p with
  | inl hnil =>
    rw [h] at hnil
    exact absurd hnil (render_ne_nil _ _)
  | inr hrender =>
    obtain ⟨ds, hds, _, hdepth, heq, hlen⟩ := hrender
    rw [← heq, h] at hlen
    refine ⟨hlen, ?_⟩
    have hcs : normalize dot up (components sep (join sep cwd p)) = ds := by
      rw [← plain_components_render sep hplain, ← plain_components_render sep hds, ← heq, h]
      rfl
    rw [hcs]
    exact hdepth

end Fits

section Exact

variable {dot up : List α} {lim : Limits}

-- At no point more than `depth` components are pending.
def WithinDepth (dot up : List α) (depth : Nat) (cs : List (List α)) : Prop :=
  ∀ start ∈ cs.inits, (normalize dot up start).length ≤ depth

instance (depth : Nat) (cs : List (List α)) : Decidable (WithinDepth dot up depth cs) :=
  inferInstanceAs (Decidable (∀ start ∈ cs.inits, (normalize dot up start).length ≤ depth))

theorem pushWithin_eq {depth : Nat} {stack : List (List α)} {c : List α}
    (h : (push dot up stack c).length ≤ depth)
    : pushWithin dot up depth stack c = push dot up stack c := by
  unfold pushWithin
  unfold push at *
  split
  . rfl
  . next hdot =>
    rw [if_neg hdot] at h
    split
    . rfl
    . next hup =>
      rw [if_neg hup, List.length_append, List.length_singleton] at h
      rw [if_pos (by omega)]

-- At most `depth` components are pending ever since the last time there was none.
def PendingWithin (dot up : List α) (depth : Nat) (cs : List (List α)) : Prop :=
  ∃ start rest, cs = start ++ rest ∧ normalize dot up start = [] ∧ WithinDepth dot up depth rest

theorem normalize_concat (cs : List (List α)) (c : List α)
    : normalize dot up (cs ++ [c]) = push dot up (normalize dot up cs) c :=
  List.foldl_append

theorem normalizeWithin_concat (depth : Nat) (cs : List (List α)) (c : List α)
    : normalizeWithin dot up depth (cs ++ [c])
        = pushWithin dot up depth (normalizeWithin dot up depth cs) c :=
  List.foldl_append

theorem withinDepth_concat {depth : Nat} {cs : List (List α)} {c : List α}
    : WithinDepth dot up depth (cs ++ [c])
        ↔ WithinDepth dot up depth cs ∧ (normalize dot up (cs ++ [c])).length ≤ depth := by
  unfold WithinDepth
  simp only [List.mem_inits, List.prefix_concat_iff]
  constructor
  . intro h
    exact ⟨fun start hstart => h start (.inr hstart), h _ (.inl rfl)⟩
  . rintro ⟨hcs, hall⟩ start hstart
    cases hstart with
    | inl heq =>
      rw [heq]
      exact hall
    | inr hstart => exact hcs start hstart

theorem WithinDepth.pendingWithin {depth : Nat} {cs : List (List α)} (h : WithinDepth dot up depth cs)
    : PendingWithin dot up depth cs :=
  ⟨[], cs, rfl, rfl, h⟩

theorem withinDepth_nil (depth : Nat) : WithinDepth dot up depth [] := by
  intro start hstart
  rw [List.mem_inits, List.prefix_nil] at hstart
  rw [hstart]
  exact Nat.zero_le depth

theorem pendingWithin_concat {depth : Nat} {cs : List (List α)} {c : List α}
    : PendingWithin dot up depth (cs ++ [c])
        ↔ normalize dot up (cs ++ [c]) = []
          ∨ PendingWithin dot up depth cs ∧ (normalize dot up (cs ++ [c])).length ≤ depth := by
  have hskip : ∀ {start rest : List (List α)}, normalize dot up start = []
      → normalize dot up (start ++ rest) = normalize dot up rest := by
    intro start rest hstart
    unfold normalize at hstart ⊢
    rw [List.foldl_append, hstart]
  constructor
  . rintro ⟨start, rest, heq, hstart, hrest⟩
    cases rest using List.reverseRecOn with
    | nil =>
      left
      rw [heq, List.append_nil]
      exact hstart
    | append_singleton rest d =>
      rw [← List.append_assoc] at heq
      obtain ⟨rfl, hd⟩ := List.append_inj' heq rfl
      cases hd
      rw [withinDepth_concat] at hrest
      right
      refine ⟨⟨start, rest, rfl, hstart, hrest.1⟩, ?_⟩
      rw [List.append_assoc, hskip hstart]
      exact hrest.2
  . intro h
    cases h with
    | inl hnil => exact ⟨cs ++ [c], [], (List.append_nil _).symm, hnil, withinDepth_nil depth⟩
    | inr h =>
      obtain ⟨⟨start, rest, rfl, hstart, hrest⟩, hlen⟩ := h
      refine ⟨start, rest ++ [c], List.append_assoc .., hstart, withinDepth_concat.mpr ⟨hrest, ?_⟩⟩
      rw [List.append_assoc, hskip hstart] at hlen
      exact hlen

-- How a step of the resolver goes with a step without bounds.
section Step

variable {depth : Nat} {stack kept : List (List α)} {c : List α}

theorem pushWithin_full (hstack : stack.length ≤ depth) (h : depth < (push dot up stack c).length)
    : pushWithin dot up depth stack c = stack := by
  unfold push at h
  unfold pushWithin
  split
  . rfl
  . next hdot =>
    rw [if_neg hdot] at h
    split
    . next hup =>
      rw [if_pos hup, List.length_dropLast] at h
      omega
    . next hup =>
      rw [if_neg hup, List.length_append, List.length_singleton] at h
      rw [if_neg (by omega)]

theorem pushWithin_eq_nil (hlt : kept.length < stack.length) (h : push dot up stack c = [])
    : pushWithin dot up depth kept c = [] := by
  unfold push at h
  unfold pushWithin
  split
  . next hdot =>
    rw [if_pos hdot] at h
    rw [h] at hlt
    cases hlt
  . next hdot =>
    rw [if_neg hdot] at h
    split
    . next hup =>
      rw [if_pos hup, ← List.length_eq_zero_iff, List.length_dropLast] at h
      rw [← List.length_eq_zero_iff, List.length_dropLast]
      omega
    . next hup =>
      rw [if_neg hup] at h
      exact absurd h (List.append_ne_nil_of_right_ne_nil _ (List.cons_ne_nil _ _))

theorem length_pushWithin_lt (hlt : kept.length < stack.length) (h : push dot up stack c ≠ [])
    : (pushWithin dot up depth kept c).length < (push dot up stack c).length := by
  have hpos := List.length_pos_iff.mpr h
  unfold push at hpos ⊢
  unfold pushWithin
  split
  . exact hlt
  . next hdot =>
    rw [if_neg hdot] at hpos
    split
    . next hup =>
      rw [if_pos hup, List.length_dropLast] at hpos
      rw [List.length_dropLast, List.length_dropLast]
      omega
    . rw [List.length_append, List.length_singleton]
      split
      . rw [List.length_append, List.length_singleton]
        omega
      . omega

end Step

-- A component that is dropped is missed until nothing is pending any more.
theorem normalizeWithin_cases (depth : Nat) (cs : List (List α))
    : normalizeWithin dot up depth cs = normalize dot up cs ∧ PendingWithin dot up depth cs
        ∨ (normalizeWithin dot up depth cs).length < (normalize dot up cs).length
          ∧ ¬PendingWithin dot up depth cs := by
  induction cs using List.reverseRecOn with
  | nil => exact .inl ⟨rfl, (withinDepth_nil depth).pendingWithin⟩
  | append_singleton cs c ih =>
    have hdepth := length_normalizeWithin_le dot up depth cs
    rw [pendingWithin_concat, normalizeWithin_concat, normalize_concat]
    cases ih with
    | inl ih =>
      obtain ⟨heq, hpending⟩ := ih
      rw [heq] at hdepth ⊢
      by_cases hlen : (push dot up (normalize dot up cs) c).length ≤ depth
      . exact .inl ⟨pushWithin_eq hlen, .inr ⟨hpending, hlen⟩⟩
      . have hne : push dot up (normalize dot up cs) c ≠ [] := by
          intro hnil
          rw [hnil] at hlen
          exact hlen (Nat.zero_le depth)
        rw [pushWithin_full hdepth (Nat.lt_of_not_le hlen)]
        exact .inr ⟨by omega, by simp [hne, hlen]⟩
    | inr ih =>
      obtain ⟨hlt, hpending⟩ := ih
      by_cases hnil : push dot up (normalize dot up cs) c = []
      . exact .inl ⟨(pushWithin_eq_nil hlt hnil).trans hnil.symm, .inl hnil⟩
      . exact .inr ⟨length_pushWithin_lt hlt hnil, by simp [hnil, hpending]⟩

theorem PendingWithin.normalizeWithin_eq {depth : Nat} {cs : List (List α)}
    (h : PendingWithin dot up depth cs)
    : normalizeWithin dot up depth cs = normalize dot up cs := by
  cases normalizeWithin_cases depth cs with
  | inl heq => exact heq.1
  | inr hlt => exact absurd h hlt.2

omit [DecidableEq α] in
theorem foldl_appendWithin_eq {length : Nat} {out : List α} {cs : List (List α)}
    (h : (out ++ cs.flatMap (sep :: ·)).length < length)
    : cs.foldl (appendWithin sep length) out = out ++ cs.flatMap (sep :: ·) := by
  induction cs generalizing out with
  | nil => simp
  | cons c cs ih =>
    rw [List.flatMap_cons, ← List.append_assoc] at h ⊢
    have hroom : appendWithin sep length out c = out ++ sep :: c := by
      unfold appendWithin
      rw [if_pos]
      simp only [List.length_append, List.length_cons] at h
      omega
    rw [List.foldl_cons, hroom]
    apply ih
    exact h

omit [DecidableEq α] in
theorem renderWithin_eq {length : Nat} {cs : List (List α)} (h : (render sep cs).length < length)
    : renderWithin sep length cs = render sep cs := by
  unfold renderWithin render at *
  split
  . rfl
  . next hne =>
    rw [if_neg hne] at h
    exact foldl_appendWithin_eq sep h

theorem sublist_of_renderWithin_eq {length : Nat} {cs ds : List (List α)}
    (hcs : ∀ c ∈ cs, Plain sep dot up c) (hds : ∀ c ∈ ds, Plain sep dot up c)
    (h : renderWithin sep length cs = render sep ds)
    : ds.Sublist cs := by
  have hsame : ∀ es : List (List α), (∀ c ∈ es, Plain sep dot up c) → render sep es = render sep ds
      → es = ds := by
    intro es hes heq
    rw [← plain_components_render sep hes, heq, plain_components_render sep hds]
  unfold renderWithin at h
  split at h
  . next hnil =>
    rw [← hsame [] (by simp) h]
    exact List.nil_sublist cs
  . obtain ⟨es, hsub, hfold, -⟩ := foldl_appendWithin sep length [] cs
    rw [hfold, List.nil_append] at h
    by_cases hes : es = []
    . rw [hes, List.flatMap_nil] at h
      exact absurd h.symm (render_ne_nil _ _)
    . have hrender : render sep es = es.flatMap (sep :: ·) := by
        unfold render
        rw [if_neg hes]
      rw [← hsame es (fun c hc => hcs c (hsub.subset hc)) (hrender.trans h)]
      exact hsub

-- What the resolver leaves out does not count.
structure Spared (dot up : List α) (lim : Limits) (cwd p : List α) : Prop where
  text : normalize dot up (components sep ((join sep cwd p).take lim.text))
    = normalize dot up (components sep (join sep cwd p))
  depth : PendingWithin dot up lim.depth (components sep ((join sep cwd p).take lim.text))
  length : (resolve sep dot up cwd p).length < lim.length

variable {cwd p : List α}

theorem spared_of_within (htext : (join sep cwd p).length ≤ lim.text)
    (hdepth : WithinDepth dot up lim.depth (components sep (join sep cwd p)))
    (hlength : (resolve sep dot up cwd p).length < lim.length)
    : Spared sep dot up lim cwd p := by
  have htake := List.take_of_length_le htext
  refine ⟨?_, ?_, hlength⟩
  . rw [htake]
  . rw [htake]
    exact hdepth.pendingWithin

theorem Spared.resolveWithin_eq (h : Spared sep dot up lim cwd p)
    : resolveWithin sep dot up lim cwd p = resolve sep dot up cwd p := by
  unfold resolveWithin
  rw [h.depth.normalizeWithin_eq, h.text]
  exact renderWithin_eq sep h.length

-- As long as the text is not cut, there is no other way to the right result.
theorem resolveWithin_eq_iff (htext : (join sep cwd p).length ≤ lim.text) (hlim : 1 < lim.length)
    : resolveWithin sep dot up lim cwd p = resolve sep dot up cwd p ↔ Spared sep dot up lim cwd p := by
  refine ⟨?_, Spared.resolveWithin_eq sep⟩
  intro h
  have hfits := fits_of_resolveWithin_eq sep dot up lim hlim h
  have htake := List.take_of_length_le htext
  unfold resolveWithin resolve at h
  rw [htake] at h
  have hsub := sublist_of_renderWithin_eq sep (normalizeWithin_plain sep dot up lim.depth _)
    (normalize_plain sep dot up _) h
  refine ⟨by rw [htake], ?_, hfits.1⟩
  rw [htake]
  obtain heq | hlt := @normalizeWithin_cases _ _ dot up lim.depth (components sep (join sep cwd p))
  . exact heq.2
  . exact absurd hsub.length_le (Nat.not_le_of_lt hlt.1)

theorem foldl_push_plain {stack cs : List (List α)} (h : ∀ c ∈ cs, Plain sep dot up c)
    : cs.foldl (push dot up) stack = stack ++ cs := by
  induction cs generalizing stack with
  | nil => simp
  | cons c cs ih =>
    simp only [List.mem_cons, forall_eq_or_imp] at h
    have hpush : push dot up stack c = stack ++ [c] := by
      unfold push
      rw [if_neg h.1.2.2.1, if_neg h.1.2.2.2]
    rw [List.foldl_cons, hpush, ih h.2, List.append_assoc, List.singleton_append]

theorem resolve_nil {cwd : List α} (h : Canonical sep dot up cwd) : resolve sep dot up cwd [] = cwd := by
  obtain ⟨cs, hplain, hcwd⟩ := h
  have hcomps : components sep (join sep cwd []) = cs := by
    unfold join
    rw [List.head?_nil, if_neg (by simp), hcwd]
    split
    . next hroot => rw [← hroot, plain_components_render sep hplain]
    . rw [components_concat_sep, plain_components_render sep hplain]
  unfold resolve normalize
  rw [hcomps, foldl_push_plain sep hplain, List.nil_append, hcwd]

end Exact

section Children

variable {dot up : List α} {p d c : List α}

def name (p : List α) : List α := (components sep p).getLastD []

-- What stands in front of the separator behind the directory `d`.
def stem (d : List α) : List α := if d = [sep] then [] else d

theorem stem_render {ds : List (List α)} (hds : ∀ c ∈ ds, c ≠ [])
    : stem sep (render sep ds) = ds.flatMap (sep :: ·) := by
  unfold stem render
  by_cases hnil : ds = []
  . rw [if_pos hnil, if_pos rfl, hnil, List.flatMap_nil]
  . obtain ⟨c, cs, rfl⟩ := List.exists_cons_of_ne_nil hnil
    have hc : c ≠ [] := hds c (List.mem_cons_self ..)
    rw [if_neg hnil, if_neg]
    rw [List.flatMap_cons, List.cons_append, List.cons.injEq, not_and, List.append_eq_nil_iff]
    intro _ hempty
    exact hc hempty.1

omit [DecidableEq α] in
theorem render_concat (ds : List (List α)) (c : List α)
    : render sep (ds ++ [c]) = ds.flatMap (sep :: ·) ++ sep :: c := by
  unfold render
  rw [if_neg (List.append_ne_nil_of_right_ne_nil _ (List.cons_ne_nil _ _)), List.flatMap_append,
    List.flatMap_singleton]

theorem components_stem_append (hd : Canonical sep dot up d) (hc : c ≠ [] ∧ sep ∉ c)
    : components sep (stem sep d ++ sep :: c) = components sep d ++ [c] := by
  obtain ⟨ds, hds, rfl⟩ := hd
  rw [plain_components_render sep hds, stem_render sep fun x hx => (hds x hx).1, ← render_concat]
  apply components_render
  intro x hx
  rw [List.mem_append, List.mem_singleton] at hx
  cases hx with
  | inl hx => exact ⟨(hds x hx).1, (hds x hx).2.1⟩
  | inr hx =>
    rw [hx]
    exact hc

theorem Canonical.eq_of_components (hp : Canonical sep dot up p) (hd : Canonical sep dot up d)
    (h : components sep p = components sep d) : p = d := by
  obtain ⟨cs, hcs, rfl⟩ := hp
  obtain ⟨ds, hds, rfl⟩ := hd
  rw [plain_components_render sep hcs, plain_components_render sep hds] at h
  rw [h]

theorem Canonical.components_parent (hp : Canonical sep dot up p)
    : components sep (parent sep p) = (components sep p).dropLast := by
  obtain ⟨cs, hcs, rfl⟩ := hp
  unfold parent
  rw [plain_components_render sep hcs]
  apply plain_components_render
  intro c hc
  exact hcs c ((List.dropLast_sublist _).subset hc)

-- The paths in a directory, by their components and by their characters.
theorem parent_eq_iff_components (hp : Canonical sep dot up p) (hd : Canonical sep dot up d)
    : parent sep p = d ∧ p ≠ d ↔ ∃ c, components sep p = components sep d ++ [c] := by
  have hparent : Canonical sep dot up (parent sep p) := by
    obtain ⟨cs, hcs, rfl⟩ := hp
    refine ⟨cs.dropLast, fun c hc => hcs c ((List.dropLast_sublist _).subset hc), ?_⟩
    unfold parent
    rw [plain_components_render sep hcs]
  constructor
  . rintro ⟨rfl, hne⟩
    rw [hp.components_parent]
    have hcs : components sep p ≠ [] := by
      intro hnil
      apply hne
      apply hp.eq_of_components sep hparent
      rw [hp.components_parent, hnil]
      rfl
    exact ⟨(components sep p).getLast hcs, (List.dropLast_append_getLast hcs).symm⟩
  . rintro ⟨c, hc⟩
    constructor
    . apply hparent.eq_of_components sep hd
      rw [hp.components_parent, hc, List.dropLast_concat]
    . rintro rfl
      exact List.cons_ne_nil c [] (List.self_eq_append_right.mp hc)

theorem parent_eq_iff (hp : Canonical sep dot up p) (hd : Canonical sep dot up d)
    : parent sep p = d ∧ p ≠ d ↔ ∃ c, (c ≠ [] ∧ sep ∉ c) ∧ p = stem sep d ++ sep :: c := by
  rw [parent_eq_iff_components sep hp hd]
  constructor
  . rintro ⟨c, hc⟩
    have hmem : c ∈ components sep p := by
      rw [hc]
      exact List.mem_append_right _ (List.mem_singleton_self c)
    have hcomp := of_mem_components sep hmem
    refine ⟨c, ⟨hcomp.1, hcomp.2.1⟩, ?_⟩
    obtain ⟨cs, hcs, rfl⟩ := hp
    obtain ⟨ds, hds, rfl⟩ := hd
    rw [plain_components_render sep hcs, plain_components_render sep hds] at hc
    rw [hc, render_concat, stem_render sep fun x hx => (hds x hx).1]
  . rintro ⟨c, hc, rfl⟩
    exact ⟨c, components_stem_append sep hd hc⟩

theorem name_stem_append (hd : Canonical sep dot up d) (hc : c ≠ [] ∧ sep ∉ c)
    : name sep (stem sep d ++ sep :: c) = c := by
  unfold name
  rw [components_stem_append sep hd hc, List.getLastD_concat]

end Children

end Path
