import DismasmOS.Calc.Lemmas.Literal

/-!
This module contains one round of each function of the recursive descent, in terms of the first
character that is no blank. The functions with a loop differ only in their level.
-/

namespace DismasmOS

@[simp]
theorem ok_bind {α β ε : Type} (a : α) (f : α → Except ε β) : (Except.ok a >>= f) = f a := rfl

section Cursor

variable {w s rest : List UInt8} {err : CalcErr}

theorem length_skipBlanks_le (s : List UInt8) : (skipBlanks s).length ≤ s.length :=
  List.length_dropWhile_le ..

theorem skipBlanks_cons {c : UInt8} (hw : Blanks w) (hc : ¬isBlank c)
    : skipBlanks (w ++ c :: rest) = c :: rest := by
  rw [skipBlanks_append hw, skipBlanks_eq_self]
  rw [List.headD_cons]
  exact hc

theorem skipBlanks_eq_nil_iff : skipBlanks rest = [] ↔ Blanks rest := by
  apply List.dropWhile_eq_nil_iff

def Calc.close (c : Calc) : Calc :=
  if c.skip.peek = chr ')' then c.skip.advance else c.skip.fail .invalidSyntax

theorem Calc.close_paren (hs : skipBlanks s = chr ')' :: rest)
    : Calc.close ⟨s, err⟩ = ⟨rest, err⟩ := by
  unfold Calc.close Calc.skip
  dsimp only
  rw [hs]
  rfl

-- No operator of `level` comes next.
def NoOp (level : CalcLevel) (rest : List UInt8) : Prop :=
  ∀ g : CalcOp, g.level = level → (skipBlanks rest).headD NUL ≠ g.char

theorem noOp_of_head {c : UInt8} (hs : (skipBlanks s).headD NUL = c)
    (hc : ∀ g : CalcOp, c ≠ g.char) (level : CalcLevel) : NoOp level s := by
  intro g _
  rw [hs]
  exact hc g

theorem CalcOp.noOp {g : CalcOp} (hs : skipBlanks s = g.char :: rest) (hg : g.level = .expr)
    : NoOp .term s := by
  intro g' hg'
  rw [hs, List.headD_cons]
  cases g <;> cases hg <;> cases g' <;> cases hg' <;> decide

theorem op_or_noOp (level : CalcLevel) (s : List UInt8)
    : (∃ (g : CalcOp) (t : List UInt8), g.level = level ∧ skipBlanks s = g.char :: t)
        ∨ NoOp level s := by
  by_cases h : NoOp level s
  . exact .inr h
  . unfold NoOp at h
    push Not at h
    obtain ⟨g, hg, hhead⟩ := h
    refine .inl ⟨g, (skipBlanks s).tail, hg, ?_⟩
    cases hs : skipBlanks s with
    | nil =>
      rw [hs] at hhead
      cases g <;> cases hhead
    | cons c t =>
      rw [hs, List.headD_cons] at hhead
      rw [hhead, List.tail_cons]

end Cursor

namespace CalcLevel

def parse (level : CalcLevel) : Nat → Calc → CalcResult :=
  match level with
  | .expr => calcParseExpr
  | .term => calcParseTerm
  | .factor => calcParseFactor

-- What `parse` does with the value and the cursor of its first operand.
def loop (level : CalcLevel) : Nat → Int64 → Calc → CalcResult :=
  match level with
  | .expr => calcExprLoop
  | .term => calcTermLoop
  | .factor => fun _ v c => .ok ⟨v, c⟩

-- The calls inside of each other in front of the first character.
def depth (level : CalcLevel) : Nat :=
  match level with
  | .expr => 2
  | .term => 1
  | .factor => 0

-- The level of the operands.
def lower (level : CalcLevel) : CalcLevel :=
  match level with
  | .expr => .term
  | .term => .factor
  | .factor => .factor

theorem depth_lower {level : CalcLevel} (hlevel : level ≠ .factor)
    : level.depth = level.lower.depth + 1 := by
  cases level with
  | factor => exact absurd rfl hlevel
  | term => rfl
  | expr => rfl

end CalcLevel

section Factor

variable {fuel : Nat} {s t : List UInt8} {err : CalcErr}

theorem calcParseFactor_sign (g : CalcSign) (hs : skipBlanks s = g.char :: t)
    : calcParseFactor (fuel + 1) ⟨s, err⟩
        = (calcParseFactor fuel ⟨t, err⟩).map fun r => ⟨g.eval r.1, r.2⟩ := by
  rw [calcParseFactor]
  unfold Calc.skip Calc.peek Calc.advance
  simp only [hs, List.headD_cons, List.tail_cons]
  generalize calcParseFactor fuel ⟨t, err⟩ = result
  cases g <;> cases result <;> rfl

theorem calcParseFactor_paren (hs : skipBlanks s = chr '(' :: t)
    : calcParseFactor (fuel + 1) ⟨s, err⟩
        = (calcParseExpr fuel ⟨t, err⟩).map fun r => ⟨r.1, r.2.close⟩ := by
  rw [calcParseFactor]
  unfold Calc.close Calc.skip Calc.peek Calc.advance
  simp only [hs, List.headD_cons, List.tail_cons]
  generalize calcParseExpr fuel ⟨t, err⟩ = result
  rw [if_neg (by decide), if_neg (by decide), if_pos trivial]
  cases result with
  | error stop => rfl
  | ok r =>
    dsimp only [Except.map]
    rw [ok_bind, apply_ite (Prod.mk r.1), apply_ite Except.ok]

theorem calcParseFactor_lit (hs : isDigit ((skipBlanks s).headD NUL))
    : calcParseFactor (fuel + 1) ⟨s, err⟩
        = .ok ⟨(parseNum (skipBlanks s)).toInt64, ⟨scanLiteral (skipBlanks s), err⟩⟩ := by
  have hskip := calcParseFactor_literal hs fuel err
  rw [calcParseFactor] at hskip ⊢
  unfold Calc.skip at hskip ⊢
  dsimp only at hskip ⊢
  rw [skipBlanks_skipBlanks] at hskip
  exact hskip

theorem calcParseFactor_other (hsign : ∀ g : CalcSign, (skipBlanks s).headD NUL ≠ g.char)
    (hparen : (skipBlanks s).headD NUL ≠ chr '(') (hdigit : ¬isDigit ((skipBlanks s).headD NUL))
    : calcParseFactor (fuel + 1) ⟨s, err⟩ = .ok ⟨0, ⟨skipBlanks s, .invalidSyntax⟩⟩ := by
  have hhex : ¬isHexPrefix (skipBlanks s) := by
    unfold isHexPrefix
    rw [Bool.and_eq_true, decide_eq_true_iff]
    rintro ⟨hzero, _⟩
    rw [hzero] at hdigit
    exact hdigit (by decide)
  have hplus : (skipBlanks s).headD NUL ≠ chr '+' := hsign .plus
  have hminus : (skipBlanks s).headD NUL ≠ chr '-' := hsign .minus
  rw [calcParseFactor]
  unfold Calc.skip Calc.peek Calc.fail
  dsimp only
  rw [if_neg hplus, if_neg hminus, if_neg hparen, if_neg]
  rw [Bool.or_eq_true, not_or]
  exact ⟨hdigit, hhex⟩

end Factor

section Loops

variable {fuel : Nat} {s t rest : List UInt8} {v l r : Int64} {c : Calc} {level : CalcLevel}

-- The outcome of a division or modulo of `l` by `r` that has no result, inside of `depth`
-- parentheses and with `v` as the value so far.
def calcStopped (r v : Int64) (depth : Nat) (rest : List UInt8) : CalcResult :=
  if r = 0 then
    .ok ⟨v, Calc.close^[depth] ⟨rest, .divisionByZero⟩⟩
  else
    .error .divideFault

def calcContinue (g : CalcOp) (v : Int64) (loop : Int64 → Calc → CalcResult) (r : Int64 × Calc)
    : CalcResult :=
  if r.2.err ≠ .none then
    .ok ⟨v, r.2⟩
  else
    match g.eval v r.1 with
    | some v' => loop v' r.2
    | none => calcStopped r.1 v 0 r.2.ptr

theorem calcDivide_eq (op : UInt8)
    : calcDivide op l r
        = if CalcOp.Undefined l r then
            .error .divideFault
          else
            .ok (if op = chr '/' then l / r else l % r) := rfl

theorem calcContinue_eq {g : CalcOp} {loop : Int64 → Calc → CalcResult} (hc : c.err = .none)
    : calcContinue g v loop ⟨r, c⟩
        = match g.eval v r with
          | some v' => loop v' c
          | none => calcStopped r v 0 c.ptr := by
  unfold calcContinue
  rw [if_neg (not_not_intro hc)]

theorem calcContinue_err {g : CalcOp} {loop : Int64 → Calc → CalcResult} (hc : c.err ≠ .none)
    : calcContinue g v loop ⟨r, c⟩ = .ok ⟨v, c⟩ := by
  unfold calcContinue
  rw [if_pos hc]

-- The code tests the divisor before it divides.
theorem divide_eq {op : UInt8} {loop : Int64 → Calc → CalcResult}
    : (if r = 0 then
        .ok ⟨v, c.fail .divisionByZero⟩
      else do
        let v ← calcDivide op v r
        loop v c : CalcResult)
        = if CalcOp.Undefined v r then
            calcStopped r v 0 c.ptr
          else
            loop (if op = chr '/' then v / r else v % r) c := by
  rw [calcDivide_eq]
  unfold calcStopped Calc.fail
  by_cases hr : r = 0
  . have hbad : CalcOp.Undefined v r := .inl hr
    rw [if_pos hr, if_pos hbad, if_pos hr]
    rfl
  . rw [if_neg hr]
    split
    . rfl
    . rfl

theorem calcTermLoop_op {g : CalcOp} (hg : g.level = .term) (hs : skipBlanks s = g.char :: t)
    : calcTermLoop (fuel + 1) v ⟨s, .none⟩
        = calcParseFactor fuel ⟨t, .none⟩ >>= calcContinue g v (calcTermLoop fuel) := by
  have hop : g.char = chr '*' ∨ g.char = chr '/' ∨ g.char = chr '%' := by
    cases g <;> cases hg <;> decide
  rw [calcTermLoop]
  unfold Calc.skip Calc.peek Calc.advance
  simp only [hs, List.headD_cons, List.tail_cons]
  rw [if_neg (by decide), if_pos hop]
  cases calcParseFactor fuel ⟨t, .none⟩ with
  | error stop => rfl
  | ok r =>
    obtain ⟨r, c⟩ := r
    rw [ok_bind, ok_bind]
    dsimp only
    by_cases hc : c.err = .none
    . rw [calcContinue_eq hc, if_neg (not_not_intro hc)]
      cases g with
      | add => cases hg
      | sub => cases hg
      | mul => rfl
      | div =>
        rw [if_neg (by decide), divide_eq, CalcOp.eval]
        split
        . rfl
        . rfl
      | mod =>
        rw [if_neg (by decide), divide_eq, CalcOp.eval]
        split
        . rfl
        . rfl
    . rw [calcContinue_err hc, if_pos hc]

theorem calcExprLoop_op {g : CalcOp} (hg : g.level = .expr) (hs : skipBlanks s = g.char :: t)
    : calcExprLoop (fuel + 1) v ⟨s, .none⟩
        = calcParseTerm fuel ⟨t, .none⟩ >>= calcContinue g v (calcExprLoop fuel) := by
  have hop : g.char = chr '+' ∨ g.char = chr '-' := by
    cases g <;> cases hg <;> decide
  rw [calcExprLoop]
  unfold Calc.skip Calc.peek Calc.advance
  simp only [hs, List.headD_cons, List.tail_cons]
  rw [if_neg (by decide), if_pos hop]
  cases calcParseTerm fuel ⟨t, .none⟩ with
  | error stop => rfl
  | ok r =>
    obtain ⟨r, c⟩ := r
    rw [ok_bind, ok_bind]
    dsimp only
    by_cases hc : c.err = .none
    . rw [calcContinue_eq hc, if_neg (not_not_intro hc)]
      cases g with
      | add => rfl
      | sub => rfl
      | mul => cases hg
      | div => cases hg
      | mod => cases hg
    . rw [calcContinue_err hc, if_pos hc]

theorem loop_op (g : CalcOp) (hs : skipBlanks s = g.char :: t)
    : g.level.loop (fuel + 1) v ⟨s, .none⟩
        = g.rhsLevel.parse fuel ⟨t, .none⟩ >>= calcContinue g v (g.level.loop fuel) := by
  cases g with
  | add | sub => exact calcExprLoop_op rfl hs
  | mul | div | mod => exact calcTermLoop_op rfl hs

theorem loop_end (hlevel : level ≠ .factor) (h : NoOp level rest)
    : level.loop (fuel + 1) v ⟨rest, .none⟩ = .ok ⟨v, ⟨skipBlanks rest, .none⟩⟩ := by
  cases level with
  | factor => exact absurd rfl hlevel
  | term =>
    unfold CalcLevel.loop
    dsimp only
    rw [calcTermLoop]
    dsimp only
    rw [if_neg (by decide), if_neg]
    . rfl
    . rw [not_or, not_or]
      exact ⟨h .mul rfl, h .div rfl, h .mod rfl⟩
  | expr =>
    unfold CalcLevel.loop
    dsimp only
    rw [calcExprLoop]
    dsimp only
    rw [if_neg (by decide), if_neg]
    . rfl
    . rw [not_or]
      exact ⟨h .add rfl, h .sub rfl⟩

theorem loop_err (hc : c.err ≠ .none) : level.loop (fuel + 1) v c = .ok ⟨v, c⟩ := by
  cases level with
  | factor => rfl
  | term =>
    unfold CalcLevel.loop
    dsimp only
    rw [calcTermLoop, if_pos hc]
  | expr =>
    unfold CalcLevel.loop
    dsimp only
    rw [calcExprLoop, if_pos hc]

theorem parse_succ (hlevel : level ≠ .factor) (c : Calc)
    : level.parse (fuel + 1) c
        = level.lower.parse fuel c >>= fun r => level.loop fuel r.1 r.2 := by
  cases level with
  | factor => exact absurd rfl hlevel
  | term =>
    unfold CalcLevel.parse
    dsimp only
    rw [calcParseTerm]
    rfl
  | expr =>
    unfold CalcLevel.parse
    dsimp only
    rw [calcParseExpr]
    rfl

theorem calcStart_eq_parse (text : List UInt8)
    : calcStart text = CalcLevel.expr.parse (3 * text.length + 3) ⟨text, .none⟩ := rfl

end Loops

end DismasmOS
