/-!
This module contains counting loops whose body can fail, and the invariant rule for them.
-/

variable {σ : Type}

/-- `for (i = 0; i < n; i++) body(i)` on the state `s`. -/
def forUpTo (n : Nat) (body : Nat → σ → Option σ) (s : σ) : Option σ :=
  match n with
  | 0 => some s
  | n + 1 => (forUpTo n body s).bind (body n)

theorem forUpTo_spec (n : Nat) (body : Nat → σ → Option σ) (s : σ) (Inv : Nat → σ → Prop)
    (hinit : Inv 0 s)
    (hstep : ∀ i s, i < n → Inv i s → ∃ s', body i s = some s' ∧ Inv (i + 1) s')
    : ∃ s', forUpTo n body s = some s' ∧ Inv n s' := by
  induction n with
  | zero => exact ⟨s, rfl, hinit⟩
  | succ n ih =>
    have ih := ih fun i s hi => hstep i s (by omega)
    obtain ⟨s1, hs1, hinv1⟩ := ih
    obtain ⟨s2, hs2, hinv2⟩ := hstep n s1 (by omega) hinv1
    refine ⟨s2, ?_, hinv2⟩
    unfold forUpTo
    rw [hs1, Option.bind_some]
    exact hs2
