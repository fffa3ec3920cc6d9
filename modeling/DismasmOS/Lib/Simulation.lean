import Mathlib.Logic.Basic

/-!
This module contains simulations of two computations that may fail: one that has a state also when it
fails, and one that returns the state with its value. Both make their choices together, so that related
states and the same values are all there is to compare.
-/

abbrev Stateful (σ ε : Type) := ExceptT ε (StateM σ)

theorem Stateful.bind_apply {σ ε α β : Type} (m : Stateful σ ε α) (k : α → Stateful σ ε β) (s : σ)
    : (m >>= k) s
        = match m s with
          | (.ok a, s) => k a s
          | (.error e, s) => (.error e, s) := by
  change (match m s with | (a, s) => ExceptT.bindCont k a s) = _
  generalize m s = outcome
  obtain ⟨result, s⟩ := outcome
  cases result <;> rfl

/-- How the states correspond, what is left of it behind a failure, and the failures. -/
structure Simulation (σ τ ε δ : Type) where
  related : σ → τ → Prop
  failed : σ → Prop
  failure : δ → ε

namespace Simulation

variable {σ τ ε δ α β : Type}

inductive Agrees (S : Simulation σ τ ε δ) : Except ε α × σ → Except δ (α × τ) → Prop
  | ok {a : α} {s : σ} {t : τ} (h : S.related s t) : Agrees S (.ok a, s) (.ok (a, t))
  | error {d : δ} {s : σ} (h : S.failed s) : Agrees S (.error (S.failure d), s) (.error d)

namespace Agrees

variable {S : Simulation σ τ ε δ} {m m' : Stateful σ ε α} {k : α → Stateful σ ε β} {s : σ} {t : τ}
  {a : α} {r r' : Except δ (α × τ)} {q : Except δ (β × τ)}

theorem bind {k' : α × τ → Except δ (β × τ)} (h : S.Agrees (m s) r)
    (hk : ∀ a s t, S.related s t → S.Agrees (k a s) (k' (a, t)))
    : S.Agrees ((m >>= k) s) (r >>= k') := by
  rw [Stateful.bind_apply]
  cases hm : m s with
  | mk result s' =>
    rw [hm] at h
    cases h with
    | ok hrel => exact hk _ _ _ hrel
    | error hfail => exact .error hfail

-- A step without a counterpart.
theorem bind_ok (h : S.Agrees (m s) (.ok (a, t)))
    (hk : ∀ s, S.related s t → S.Agrees (k a s) q)
    : S.Agrees ((m >>= k) s) q := by
  rw [Stateful.bind_apply]
  cases hm : m s with
  | mk result s' =>
    rw [hm] at h
    cases h with
    | ok hrel => exact hk _ hrel

theorem ite {p : Prop} [Decidable p] (hpos : p → S.Agrees (m s) r) (hneg : ¬p → S.Agrees (m' s) r')
    : S.Agrees ((if p then m else m') s) (if p then r else r') := by
  by_cases hp : p
  . rw [if_pos hp, if_pos hp]
    exact hpos hp
  . rw [if_neg hp, if_neg hp]
    exact hneg hp

theorem ok_iff {o : Except ε α × σ} (h : S.Agrees o r) : (∃ a, o.1 = .ok a) ↔ ∃ x, r = .ok x := by
  cases h with
  | ok => exact iff_of_true ⟨_, rfl⟩ ⟨_, rfl⟩
  | error => exact iff_of_false (fun ⟨_, h⟩ => nomatch h) fun ⟨_, h⟩ => nomatch h

theorem failed_of_related {o : Except ε α × σ} (h : S.Agrees o r)
    (hrel : ∀ s t, S.related s t → S.failed s)
    : S.failed o.2 := by
  cases h with
  | ok h => exact hrel _ _ h
  | error h => exact h

end Agrees

end Simulation
