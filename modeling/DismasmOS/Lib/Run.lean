/-!
This module contains runs of labelled transition systems and the induction rule for what all states
of a run have in common, and sequences of calls of a deterministic machine together with the rule
that carries a simulation of single calls to whole sequences.
-/

variable {σ ε : Type} (step : σ → ε → σ → Prop)

inductive Run : σ → List ε → σ → Prop
  | nil (s : σ) : Run s [] s
  | cons {s t u : σ} {e : ε} {es : List ε} (head : step s e t) (tail : Run t es u)
      : Run s (e :: es) u

namespace Run

variable {step}

theorem invariant {s t : σ} {es : List ε} (h : Run step s es t) (Inv : σ → Prop)
    (hstep : ∀ s e t, e ∈ es → Inv s → step s e t → Inv t) (hs : Inv s)
    : Inv t := by
  induction h with
  | nil => exact hs
  | cons head tail ih =>
    apply ih
    . intro s e t he
      apply hstep
      simp [he]
    . apply hstep _ _ _ _ hs head
      simp

theorem snoc {s t u : σ} {es : List ε} {e : ε} (h : Run step s es t) (hlast : step t e u)
    : Run step s (es ++ [e]) u := by
  induction h with
  | nil => exact .cons hlast (.nil u)
  | cons head tail ih => exact .cons head (ih hlast)

-- Here the invariant is also about the events so far.
theorem invariant_trace {s t : σ} {es : List ε} (h : Run step s es t) (Inv : List ε → σ → Prop)
    (hstep : ∀ es s e t, Inv es s → step s e t → Inv (es ++ [e]) t) (hs : Inv [] s)
    : Inv es t := by
  have hall : ∀ before, Inv before s → Inv (before ++ es) t := by
    clear hs
    induction h with
    | nil =>
      intro before hs
      rw [List.append_nil]
      exact hs
    | @cons s t u e es head tail ih =>
      intro before hbefore
      have hnext := hstep before s e t hbefore head
      rw [← List.singleton_append, ← List.append_assoc]
      exact ih _ hnext
  exact hall [] hs

-- A run seen through a function of the state, with an invariant that the single steps need.
theorem map {τ : Type} {step' : τ → ε → τ → Prop} {f : σ → τ} {s t : σ} {es : List ε}
    (h : Run step s es t) (Inv : σ → Prop)
    (hstep : ∀ s e t, e ∈ es → Inv s → step s e t → Inv t ∧ step' (f s) e (f t)) (hs : Inv s)
    : Run step' (f s) es (f t) := by
  induction h with
  | nil => exact .nil _
  | cons head tail ih =>
    obtain ⟨hnext, hhead⟩ := hstep _ _ _ (by simp) hs head
    apply Run.cons hhead
    apply ih _ hnext
    intro s e t he
    apply hstep
    simp [he]

end Run

-- An `a` has come and no `b` since.
def Unanswered {ε : Type} (a b : ε) (es : List ε) : Prop :=
  ∃ before after, es = before ++ a :: after ∧ b ∉ after

section Unanswered

variable {ε : Type} {a b e : ε} {es : List ε}

theorem not_unanswered_nil : ¬Unanswered a b [] := by
  rintro ⟨before, after, h, -⟩
  cases before with
  | nil => cases h
  | cons => cases h

theorem unanswered_snoc_self : Unanswered a b (es ++ [a]) := ⟨es, [], rfl, List.not_mem_nil⟩

-- How a trace that an event ends was split.
theorem snoc_eq_append_cons {before after : List ε} (h : es ++ [e] = before ++ a :: after)
    : (after = [] ∧ e = a) ∨ ∃ after', after = after' ++ [e] ∧ es = before ++ a :: after' := by
  obtain rfl | ⟨after', last, rfl⟩ := after.eq_nil_or_concat
  . exact .inl ⟨rfl, (List.append_singleton_inj.mp h).2⟩
  . rw [List.concat_eq_append, ← List.cons_append, ← List.append_assoc] at h
    obtain ⟨hes, rfl⟩ := List.append_singleton_inj.mp h
    exact .inr ⟨after', List.concat_eq_append, hes⟩

theorem not_unanswered_snoc (hne : a ≠ b) : ¬Unanswered a b (es ++ [b]) := by
  rintro ⟨before, after, h, hb⟩
  obtain ⟨-, rfl⟩ | ⟨after', rfl, -⟩ := snoc_eq_append_cons h
  . exact hne rfl
  . exact hb (List.mem_append_right after' List.mem_cons_self)

theorem unanswered_snoc (ha : e ≠ a) (hb : e ≠ b) : Unanswered a b (es ++ [e]) ↔ Unanswered a b es := by
  constructor
  . rintro ⟨before, after, h, hafter⟩
    obtain ⟨-, rfl⟩ | ⟨after', rfl, rfl⟩ := snoc_eq_append_cons h
    . exact absurd rfl ha
    . exact ⟨before, after', rfl, fun hmem => hafter (List.mem_append_left [e] hmem)⟩
  . rintro ⟨before, after, rfl, hafter⟩
    refine ⟨before, after ++ [e], List.append_assoc _ _ _, ?_⟩
    rw [List.mem_append, List.mem_singleton]
    exact fun hmem => hmem.elim hafter hb.symm

end Unanswered

section Calls

variable {σ τ ε ρ : Type}

def runCalls (exec : σ → ε → ρ × σ) (s : σ) (calls : List ε) : List ρ × σ :=
  match calls with
  | [] => ⟨[], s⟩
  | call :: calls =>
    let ⟨r, s⟩ := exec s call
    let ⟨rs, s⟩ := runCalls exec s calls
    ⟨r :: rs, s⟩

theorem runCalls_simulates {exec : σ → ε → ρ × σ} {spec : τ → ε → ρ × τ} {R : σ → τ → Prop}
    (hstep : ∀ {s t} e, R s t → (exec s e).1 = (spec t e).1 ∧ R (exec s e).2 (spec t e).2)
    {s : σ} {t : τ} (calls : List ε) (h : R s t)
    : (runCalls exec s calls).1 = (runCalls spec t calls).1
        ∧ R (runCalls exec s calls).2 (runCalls spec t calls).2 := by
  induction calls generalizing s t with
  | nil => exact ⟨rfl, h⟩
  | cons call calls ih =>
    obtain ⟨hresult, hstate⟩ := hstep call h
    obtain ⟨hresults, hfinal⟩ := ih hstate
    unfold runCalls
    dsimp only
    rw [hresult, hresults]
    exact ⟨rfl, hfinal⟩

end Calls
