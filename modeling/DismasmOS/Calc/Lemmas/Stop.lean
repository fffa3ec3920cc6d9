import DismasmOS.Calc.Lemmas.Parse

/-!
This module contains how the recursive descent stops at a division or modulo without a result: the
outcome is handed up unchanged by all callers but the ones that look for a closing parenthesis.
-/

namespace DismasmOS

section Stopped

variable {r v l : Int64} {depth fuel : Nat} {rest : List UInt8} {level : CalcLevel}

theorem Calc.err_close {c : Calc} (hc : c.err ≠ .none) : c.close.err ≠ .none := by
  unfold Calc.close
  split
  . exact hc
  . intro herr
    cases herr

theorem err_iterate_close (depth : Nat) (rest : List UInt8)
    : (Calc.close^[depth] ⟨rest, .divisionByZero⟩).err ≠ .none := by
  induction depth with
  | zero =>
    intro herr
    cases herr
  | succ depth ih =>
    rw [Function.iterate_succ_apply']
    exact Calc.err_close ih

theorem calcStopped_map (f : Int64 → Int64)
    : ((calcStopped r v depth rest).map fun x => (f x.1, x.2)) = calcStopped r (f v) depth rest := by
  unfold calcStopped
  split
  . rfl
  . rfl

theorem calcStopped_close
    : ((calcStopped r v depth rest).map fun x => (x.1, x.2.close))
        = calcStopped r v (depth + 1) rest := by
  unfold calcStopped
  rw [Function.iterate_succ_apply']
  split
  . rfl
  . rfl

theorem calcStopped_continue (g : CalcOp) (loop : Int64 → Calc → CalcResult)
    : (calcStopped r v depth rest >>= calcContinue g l loop) = calcStopped r l depth rest := by
  unfold calcStopped
  split
  . rw [ok_bind, calcContinue_err (err_iterate_close depth rest)]
  . rfl

theorem calcStopped_loop
    : (calcStopped r v depth rest >>= fun x => level.loop (fuel + 1) x.1 x.2)
        = calcStopped r v depth rest := by
  unfold calcStopped
  split
  . rw [ok_bind]
    apply loop_err
    exact err_iterate_close depth rest
  . rfl

theorem err_iterate_eq (h : Closes depth rest)
    : (Calc.close^[depth] ⟨rest, .divisionByZero⟩).err = .divisionByZero := by
  induction depth generalizing rest with
  | zero => rfl
  | succ depth ih =>
    rw [Closes] at h
    obtain ⟨t, hrest, ht⟩ := h
    rw [Function.iterate_succ_apply, Calc.close_paren hrest]
    exact ih ht

end Stopped

section Meets

variable {l r v : Int64} {level : CalcLevel} {depth : Nat} {text t mid rest : List UInt8}
  {lhs rhs e : CalcExpr}

theorem CalcOp.eval_none {g : CalcOp} (h : g.eval l r = none)
    : (g = .div ∨ g = .mod) ∧ CalcOp.Undefined l r := by
  cases g with
  | add | sub | mul => cases h
  | div =>
    rw [CalcOp.eval] at h
    split at h
    . next hbad => exact ⟨.inl rfl, hbad⟩
    . cases h
  | mod =>
    rw [CalcOp.eval] at h
    split at h
    . next hbad => exact ⟨.inr rfl, hbad⟩
    . cases h

theorem CalcOp.rhsLevel_of_none {g : CalcOp} (h : g.eval l r = none) : g.rhsLevel = .factor := by
  obtain ⟨rfl | rfl, _⟩ := CalcOp.eval_none h
  . rfl
  . rfl

theorem Meets.undefined (h : Meets l r level depth text rest) : CalcOp.Undefined l r := by
  induction h with
  | here g _ _ _ _ _ hbad => exact (CalcOp.eval_none hbad).2
  | right _ _ _ _ _ ih => exact ih
  | sign _ _ _ ih => exact ih
  | paren _ _ ih => exact ih
  | factor _ ih => exact ih
  | term _ ih => exact ih

-- The function for `level` stops at the division or modulo in front of `rest`.
def Stops (level : CalcLevel) (r : Int64) (depth : Nat) (text rest : List UInt8) : Prop :=
  ∀ fuel, 3 * text.length + level.depth < fuel →
    ∃ v, level.parse fuel ⟨text, .none⟩ = calcStopped r v depth rest

theorem stops_right (g : CalcOp) (hlhs : Reads g.level lhs text mid) (hv : lhs.eval = some v)
    (hmid : skipBlanks mid = g.char :: t)
    (h : ∀ fuel, 3 * t.length + g.rhsLevel.depth < fuel →
      (g.rhsLevel.parse fuel ⟨t, .none⟩ >>= calcContinue g v (g.level.loop fuel))
        = calcStopped r v depth rest)
    : Stops g.level r depth text rest := by
  intro fuel hfuel
  refine ⟨v, ?_⟩
  apply hlhs.parses hv
  . intro hlevel
    exact CalcOp.noOp hmid hlevel
  . intro fuel hfuel
    have hlen := length_skipBlanks_le mid
    rw [hmid, List.length_cons] at hlen
    have hdepth : g.rhsLevel.depth ≤ 1 := by
      cases g <;> decide
    cases fuel with
    | zero => omega
    | succ fuel =>
      rw [loop_op g hmid]
      apply h
      omega
  . exact hfuel

theorem stops_here (g : CalcOp) (hlhs : Reads g.level lhs text mid) (hl : lhs.eval = some l)
    (hmid : skipBlanks mid = g.char :: t) (hrhs : Reads g.rhsLevel rhs t rest)
    (hr : rhs.eval = some r) (hbad : g.eval l r = none) : Stops g.level r 0 text rest := by
  apply stops_right g hlhs hl hmid
  have hlevel := CalcOp.rhsLevel_of_none hbad
  rw [hlevel] at hrhs ⊢
  intro fuel hfuel
  show (calcParseFactor fuel ⟨t, .none⟩ >>= _) = _
  rw [(hrhs.parses hr).factor_eq hfuel, ok_bind, calcContinue_eq rfl, hbad]

theorem Stops.sign (g : CalcSign) (htext : skipBlanks text = g.char :: t)
    (h : Stops .factor r depth t rest) : Stops .factor r depth text rest := by
  intro fuel hfuel
  have hlen := length_skipBlanks_le text
  rw [htext, List.length_cons] at hlen
  cases fuel with
  | zero => omega
  | succ fuel =>
    obtain ⟨v, hv⟩ := h fuel (by omega)
    refine ⟨g.eval v, ?_⟩
    show calcParseFactor (fuel + 1) _ = _
    rw [calcParseFactor_sign g htext]
    show (CalcLevel.factor.parse fuel _).map _ = _
    rw [hv, calcStopped_map]

theorem Stops.paren (htext : skipBlanks text = chr '(' :: t) (h : Stops .expr r depth t rest)
    : Stops .factor r (depth + 1) text rest := by
  intro fuel hfuel
  have hlen := length_skipBlanks_le text
  rw [htext, List.length_cons] at hlen
  cases fuel with
  | zero => omega
  | succ fuel =>
    have hdepth : CalcLevel.expr.depth = 2 := rfl
    obtain ⟨v, hv⟩ := h fuel (by omega)
    refine ⟨v, ?_⟩
    show calcParseFactor (fuel + 1) _ = _
    rw [calcParseFactor_paren htext]
    show (CalcLevel.expr.parse fuel _).map _ = _
    rw [hv, calcStopped_close]

theorem Stops.lower (hlevel : level ≠ .factor) (h : Stops level.lower r depth text rest)
    : Stops level r depth text rest := by
  intro fuel hfuel
  rw [CalcLevel.depth_lower hlevel] at hfuel
  cases fuel with
  | zero => omega
  | succ fuel =>
    obtain ⟨v, hv⟩ := h fuel (by omega)
    refine ⟨v, ?_⟩
    rw [parse_succ hlevel, hv]
    cases fuel with
    | zero => omega
    | succ fuel => exact calcStopped_loop

theorem Meets.stops (h : Meets l r level depth text rest) : Stops level r depth text rest := by
  induction h with
  | here g hlhs hl hmid hrhs hr hbad => exact stops_here g hlhs hl hmid hrhs hr hbad
  | right g hlhs hv hmid _ ih =>
    apply stops_right g hlhs hv hmid
    intro fuel hfuel
    obtain ⟨x, hx⟩ := ih fuel hfuel
    rw [hx, calcStopped_continue]
  | sign g htext _ ih => exact ih.sign g htext
  | paren htext _ ih => exact ih.paren htext
  | factor _ ih => exact ih.lower (by decide)
  | term _ ih => exact ih.lower (by decide)

theorem Meets.lower (hlevel : level ≠ .factor) (h : Meets l r level.lower depth text rest)
    : Meets l r level depth text rest := by
  cases level with
  | factor => exact absurd rfl hlevel
  | term => exact h.factor
  | expr => exact h.term

theorem Meets.calcStart_eq (h : Meets l r .expr depth text rest)
    : ∃ v, calcStart text = calcStopped r v depth rest := by
  rw [calcStart_eq_parse]
  apply h.stops
  exact Nat.lt_succ_self _

-- An operand without a value has such a division or modulo inside, or is one.
theorem Reads.meets (h : Reads level e text rest) (he : e.eval = none)
    : ∃ l r depth rest', Meets l r level depth text rest' := by
  induction h with
  | lit _ _ => cases he
  | @sign text t rest e g htext _ ih =>
    have hnone : e.eval = none := by
      rw [CalcExpr.eval] at he
      cases hx : e.eval with
      | none => rfl
      | some x =>
        rw [hx] at he
        cases he
    obtain ⟨l, r, depth, rest', hmeets⟩ := ih hnone
    exact ⟨l, r, depth, rest', hmeets.sign g htext⟩
  | paren htext _ _ ih =>
    obtain ⟨l, r, depth, rest', hmeets⟩ := ih he
    exact ⟨l, r, depth + 1, rest', hmeets.paren htext⟩
  | factor _ ih =>
    obtain ⟨l, r, depth, rest', hmeets⟩ := ih he
    exact ⟨l, r, depth, rest', hmeets.factor⟩
  | term _ ih =>
    obtain ⟨l, r, depth, rest', hmeets⟩ := ih he
    exact ⟨l, r, depth, rest', hmeets.term⟩
  | @op text mid t rest lhs rhs g hlhs hmid hrhs ihl ihr =>
    cases hl : lhs.eval with
    | none => exact ihl hl
    | some l =>
      cases hr : rhs.eval with
      | none =>
        obtain ⟨l, r, depth, rest', hmeets⟩ := ihr hr
        exact ⟨l, r, depth, rest', .right g hlhs hl hmid hmeets⟩
      | some r =>
        rw [CalcExpr.eval, hl, hr] at he
        exact ⟨l, r, 0, rest, .here g hlhs hl hmid hrhs hr he⟩

end Meets

end DismasmOS
