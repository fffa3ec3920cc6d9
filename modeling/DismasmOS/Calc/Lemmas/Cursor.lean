import Mathlib.Data.List.GetD
import DismasmOS.Calc.Cursor
import DismasmOS.Calc.Lemmas.Fault

/-!
This module contains the places that `calc_ptr` points to: the descent on a buffer does what the descent
on the text in front of its terminator does, and `calc_ptr` never moves behind the terminator.
-/

namespace DismasmOS

section Terminator

variable {buf : List UInt8} {i : Nat}

theorem getElem?_cstr (hnul : NUL ∈ buf) (hi : i ≤ (cstr buf).length)
    : buf[i]? = some (((cstr buf).drop i).headD NUL) := by
  have hlt := Nat.lt_of_le_of_lt hi (length_cstr_lt hnul)
  rw [List.getElem?_eq_getElem hlt, ← List.getD_eq_getElem _ NUL hlt, getD_cstr hi,
    List.headD_eq_head?_getD, List.head?_drop, List.getD_eq_getElem?_getD]

theorem parseHex_cstr (val : UInt64) (s : List UInt8) : parseHex val (cstr s) = parseHex val s := by
  induction s generalizing val with
  | nil => rfl
  | cons c s ih =>
    rw [cstr_cons, parseHex]
    by_cases hc : c = NUL
    . rw [if_pos hc, if_pos hc]
      rfl
    . rw [if_neg hc, if_neg hc, parseHex, if_neg hc]
      simp only [ih]

theorem parseDec_cstr (val : UInt64) (s : List UInt8) : parseDec val (cstr s) = parseDec val s := by
  induction s generalizing val with
  | nil => rfl
  | cons c s ih =>
    rw [cstr_cons, parseDec]
    by_cases hc : c = NUL
    . have hdigit : ¬isDigit c := by
        rw [hc]
        decide
      rw [if_pos hc, if_neg hdigit]
      rfl
    . rw [if_neg hc, parseDec, ih]

theorem isHexPrefix_cstr (s : List UInt8) : isHexPrefix (cstr s) = isHexPrefix s := by
  unfold isHexPrefix
  rw [headD_cstr]
  by_cases hc : s.headD NUL = chr '0'
  . have htail : (cstr s).tail = cstr s.tail := by
      rw [cstr_eq_headD, if_neg (by rw [hc]; decide), List.tail_cons]
    rw [htail, headD_cstr]
  . rw [decide_eq_false hc, Bool.false_and, Bool.false_and]

-- `parse_num` does not read behind the terminator.
theorem parseNum_cstr (s : List UInt8) : parseNum (cstr s) = parseNum s := by
  unfold parseNum
  rw [isHexPrefix_cstr, parseDec_cstr]
  split
  . next h =>
    obtain ⟨x, t, rfl, hx⟩ := isHexPrefix_cons h
    have hne : x ≠ NUL := by
      obtain rfl | rfl := hx
      . decide
      . decide
    rw [cstr_cons, if_neg (by decide), cstr_cons, if_neg hne]
    exact parseHex_cstr 0 t
  . rfl

end Terminator

namespace CalcCursor

variable (buf : List UInt8)

def Inside (s : CalcCursor) : Prop := ∀ i ∈ s.visited, i ≤ strlen buf

structure Points (s : CalcCursor) (c : Calc) : Prop where
  ptr : c.ptr = (cstr buf).drop s.ptr
  le : s.ptr ≤ (cstr buf).length
  err : s.err = c.err
  inside : s.Inside buf

end CalcCursor

def cursorSimulation (buf : List UInt8) : Simulation CalcCursor Calc CursorStop CalcStop where
  related s c := s.Points buf c
  failed s := s.Inside buf
  failure
    | .outOfFuel => .outOfFuel
    | .divideFault => .divideFault

section Steps

variable {buf : List UInt8} {s : CalcCursor} {c : Calc} {p : UInt8 → Bool} {k fuel : Nat}

open Simulation

theorem CalcCursor.Points.length_ptr (h : s.Points buf c) : c.ptr.length = (cstr buf).length - s.ptr := by
  rw [h.ptr, List.length_drop]

theorem CalcCursor.Points.move (h : s.Points buf c) (hk : k ≤ c.ptr.length)
    : (s.move k).Points buf { c with ptr := c.ptr.drop k } := by
  have hlen := h.length_ptr
  have hle := h.le
  refine ⟨?_, ?_, h.err, ?_⟩
  . dsimp only [CalcCursor.move]
    rw [h.ptr, List.drop_drop]
  . dsimp only [CalcCursor.move]
    omega
  . intro i hi
    cases List.mem_cons.mp hi with
    | inl heq =>
      rw [heq, strlen_eq]
      omega
    | inr hmem => exact h.inside i hmem

theorem Calc.length_pos_of_peek (hc : c.peek ≠ NUL) : 1 ≤ c.ptr.length := by
  unfold Calc.peek at hc
  cases hptr : c.ptr with
  | nil =>
    rw [hptr] at hc
    exact absurd rfl hc
  | cons x t => exact Nat.succ_le_succ (Nat.zero_le _)

theorem move_agrees (h : s.Points buf c) (hc : c.peek ≠ NUL)
    : (cursorSimulation buf).Agrees (calcMove 1 s) (.ok ((), c.advance)) := by
  have hmove := h.move (Calc.length_pos_of_peek hc)
  rw [List.drop_one] at hmove
  exact .ok hmove

theorem read_agrees (hnul : NUL ∈ buf) (h : s.Points buf c)
    : (cursorSimulation buf).Agrees (calcRead buf 0 s) (.ok (c.peek, c)) := by
  unfold calcRead Calc.peek
  rw [Nat.add_zero, getElem?_cstr hnul h.le, h.ptr]
  exact .ok h

theorem readNext_agrees (hnul : NUL ∈ buf) (h : s.Points buf c) (hc : c.peek ≠ NUL)
    : (cursorSimulation buf).Agrees (calcRead buf 1 s) (.ok (c.advance.peek, c)) := by
  have hpos := Calc.length_pos_of_peek hc
  have hlen := h.length_ptr
  unfold calcRead Calc.peek Calc.advance
  rw [getElem?_cstr hnul (by omega), h.ptr, List.tail_drop]
  exact .ok h

theorem getErr_agrees (h : s.Points buf c)
    : (cursorSimulation buf).Agrees (calcGetErr s) (.ok (c.err, c)) := by
  rw [← h.err]
  exact .ok h

theorem setErr_agrees (h : s.Points buf c) (err : CalcErr)
    : (cursorSimulation buf).Agrees (calcSetErr err s) (.ok ((), c.fail err)) :=
  .ok ⟨h.ptr, h.le, rfl, h.inside⟩

theorem while_agrees (hnul : NUL ∈ buf) (hp : ¬p NUL) (hfuel : c.ptr.length < fuel)
    (h : s.Points buf c)
    : (cursorSimulation buf).Agrees (calcWhile buf p fuel s)
        (.ok ((), { c with ptr := c.ptr.dropWhile p })) := by
  induction fuel generalizing s c with
  | zero => exact absurd hfuel (Nat.not_lt_zero _)
  | succ fuel ih =>
    rw [calcWhile]
    apply (read_agrees hnul h).bind_ok
    intro s h
    by_cases hpc : p c.peek
    . have hne : c.peek ≠ NUL := fun heq => hp (heq ▸ hpc)
      have hpos := Calc.length_pos_of_peek hne
      have hdrop : c.ptr.dropWhile p = c.advance.ptr.dropWhile p := by
        unfold Calc.peek at hpc
        unfold Calc.advance
        cases hptr : c.ptr with
        | nil => rfl
        | cons x t =>
          rw [hptr, List.headD_cons] at hpc
          rw [List.dropWhile_cons_of_pos hpc, List.tail_cons]
      have hlen : c.advance.ptr.length < fuel := by
        unfold Calc.advance
        rw [List.length_tail]
        omega
      rw [if_pos hpc, hdrop]
      apply (move_agrees h hne).bind_ok
      intro s h
      exact ih hlen h
    . have hstay : c.ptr.dropWhile p = c.ptr := dropWhile_eq_self hpc
      rw [if_neg hpc, hstay]
      exact .ok h

theorem length_ptr_lt (hnul : NUL ∈ buf) (h : s.Points buf c) : c.ptr.length < buf.length := by
  have hlt := length_cstr_lt hnul
  have hlen := h.length_ptr
  omega

theorem skip_agrees (hnul : NUL ∈ buf) (h : s.Points buf c)
    : (cursorSimulation buf).Agrees (calcSkipAt buf s) (.ok ((), c.skip)) :=
  while_agrees hnul (by decide) (length_ptr_lt hnul h) h

theorem isHex_agrees (hnul : NUL ∈ buf) (h : s.Points buf c)
    : (cursorSimulation buf).Agrees (calcIsHexAt buf s) (.ok (isHexPrefix c.ptr, c)) := by
  unfold calcIsHexAt isHexPrefix
  apply (read_agrees hnul h).bind_ok
  intro s h
  by_cases hc : c.peek = chr '0'
  . have hne : c.peek ≠ NUL := by
      rw [hc]
      decide
    rw [if_pos hc]
    apply (readNext_agrees hnul h hne).bind_ok
    intro s h
    unfold Calc.peek at hc
    rw [decide_eq_true hc, Bool.true_and]
    exact .ok h
  . rw [if_neg hc]
    unfold Calc.peek at hc
    rw [decide_eq_false hc, Bool.false_and]
    exact .ok h

theorem isLiteral_agrees (hnul : NUL ∈ buf) (h : s.Points buf c)
    : (cursorSimulation buf).Agrees (calcIsLiteralAt buf s)
        (.ok (isDigit c.peek || isHexPrefix c.ptr, c)) := by
  unfold calcIsLiteralAt
  apply (read_agrees hnul h).bind_ok
  intro s h
  by_cases hdigit : isDigit c.peek
  . rw [if_pos hdigit, hdigit, Bool.true_or]
    exact .ok h
  . rw [if_neg hdigit, Bool.eq_false_of_not_eq_true hdigit, Bool.false_or]
    exact isHex_agrees hnul h

theorem scanLiteral_agrees (hnul : NUL ∈ buf) (h : s.Points buf c)
    : (cursorSimulation buf).Agrees (calcScanLiteralAt buf s)
        (.ok ((), { c with ptr := scanLiteral c.ptr })) := by
  unfold calcScanLiteralAt scanLiteral
  apply (isHex_agrees hnul h).bind_ok
  intro s h
  by_cases hhex : isHexPrefix c.ptr
  . have htwo : 2 ≤ c.ptr.length := by
      obtain ⟨x, t, hptr, _⟩ := isHexPrefix_cons hhex
      rw [hptr]
      exact Nat.le_add_left 2 _
    rw [if_pos hhex, if_pos hhex]
    apply Agrees.bind_ok (.ok (h.move htwo))
    intro s h
    exact while_agrees hnul (by decide) (length_ptr_lt hnul h) h
  . rw [if_neg hhex, if_neg hhex]
    exact while_agrees hnul (by decide) (length_ptr_lt hnul h) h

end Steps

section Descent

variable {buf : List UInt8} {s : CalcCursor} {c : Calc} {v : Int64} {fuel : Nat}

open Simulation

-- The functions on the buffer and on the text, with the same number of calls left.
structure DescentAgrees (buf : List UInt8) (fuel : Nat) : Prop where
  factor : ∀ s c, s.Points buf c →
    (cursorSimulation buf).Agrees (calcParseFactorAt buf fuel s) (calcParseFactor fuel c)
  termLoop : ∀ s c v, s.Points buf c →
    (cursorSimulation buf).Agrees (calcTermLoopAt buf fuel v s) (calcTermLoop fuel v c)
  term : ∀ s c, s.Points buf c →
    (cursorSimulation buf).Agrees (calcParseTermAt buf fuel s) (calcParseTerm fuel c)
  exprLoop : ∀ s c v, s.Points buf c →
    (cursorSimulation buf).Agrees (calcExprLoopAt buf fuel v s) (calcExprLoop fuel v c)
  expr : ∀ s c, s.Points buf c →
    (cursorSimulation buf).Agrees (calcParseExprAt buf fuel s) (calcParseExpr fuel c)

theorem divide_agrees {k : Int64 → CalcM Int64} {k' : Int64 → CalcResult} {op : UInt8} {rhs : Int64}
    (h : s.Points buf c) (hk : ∀ v, (cursorSimulation buf).Agrees (k v s) (k' v))
    : (cursorSimulation buf).Agrees ((calcDivideAt op v rhs >>= k) s)
        (calcDivide op v rhs >>= k') := by
  unfold calcDivideAt calcDivide
  by_cases hbad : rhs = 0 ∨ (v = Int64.minValue ∧ rhs = -1)
  . rw [if_pos hbad]
    exact .error (d := CalcStop.divideFault) h.inside
  . rw [if_neg hbad]
    exact hk _

theorem close_agrees (hnul : NUL ∈ buf) (h : s.Points buf c)
    : (cursorSimulation buf).Agrees
        ((do
          calcSkipAt buf
          let c ← calcRead buf 0
          if c = chr ')' then do
            calcMove 1
            pure v
          else do
            calcSetErr .invalidSyntax
            pure v : CalcM Int64) s)
        (if c.skip.peek = chr ')' then
          .ok (v, c.skip.advance)
        else
          .ok (v, c.skip.fail .invalidSyntax)) := by
  apply (skip_agrees hnul h).bind_ok
  intro s h
  apply (read_agrees hnul h).bind_ok
  intro s h
  apply Agrees.ite
  . intro hc
    apply (move_agrees h (by rw [hc]; decide)).bind_ok
    intro s h
    exact .ok h
  . intro _
    apply (setErr_agrees h _).bind_ok
    intro s h
    exact .ok h

theorem factor_agrees (hnul : NUL ∈ buf) (ih : DescentAgrees buf fuel) (h : s.Points buf c)
    : (cursorSimulation buf).Agrees (calcParseFactorAt buf (fuel + 1) s)
        (calcParseFactor (fuel + 1) c) := by
  rw [calcParseFactorAt, calcParseFactor]
  apply (skip_agrees hnul h).bind_ok
  intro s h
  apply (read_agrees hnul h).bind_ok
  intro s h
  dsimp only
  apply Agrees.ite
  . intro hc
    apply (move_agrees h (by rw [hc]; decide)).bind_ok
    intro s h
    exact ih.factor s _ h
  intro _
  apply Agrees.ite
  . intro hc
    apply (move_agrees h (by rw [hc]; decide)).bind_ok
    intro s h
    apply (ih.factor s _ h).bind
    intro v s c h
    exact .ok h
  intro _
  apply Agrees.ite
  . intro hc
    apply (move_agrees h (by rw [hc]; decide)).bind_ok
    intro s h
    apply (ih.expr s _ h).bind
    intro v s c h
    exact close_agrees hnul h
  intro _
  apply (isLiteral_agrees hnul h).bind_ok
  intro s h
  apply Agrees.ite
  . intro _
    have hnum : parseNum (buf.drop s.ptr) = parseNum c.skip.ptr := by
      rw [h.ptr, ← cstr_drop h.le, parseNum_cstr]
    apply Agrees.bind_ok (m := calcGetPtr) (.ok h)
    intro s' h'
    apply (scanLiteral_agrees hnul h').bind_ok
    intro s' h'
    rw [hnum]
    exact .ok h'
  . intro _
    apply (setErr_agrees h _).bind_ok
    intro s h
    exact .ok h

theorem termLoop_agrees (hnul : NUL ∈ buf) (ih : DescentAgrees buf fuel) (h : s.Points buf c)
    : (cursorSimulation buf).Agrees (calcTermLoopAt buf (fuel + 1) v s)
        (calcTermLoop (fuel + 1) v c) := by
  rw [calcTermLoopAt, calcTermLoop]
  apply (getErr_agrees h).bind_ok
  intro s h
  apply Agrees.ite
  . intro _
    exact .ok h
  intro _
  apply (skip_agrees hnul h).bind_ok
  intro s h
  apply (read_agrees hnul h).bind_ok
  intro s h
  dsimp only
  apply Agrees.ite
  . intro hop
    have hne : c.skip.peek ≠ NUL := by
      obtain hc | hc | hc := hop
      all_goals
        rw [hc]
        decide
    apply (move_agrees h hne).bind_ok
    intro s h
    apply (ih.factor s _ h).bind
    intro rhs s c' h
    apply (getErr_agrees h).bind_ok
    intro s h
    apply Agrees.ite
    . intro _
      exact .ok h
    intro _
    apply Agrees.ite
    . intro _
      exact ih.termLoop s _ _ h
    intro _
    apply Agrees.ite
    . intro _
      apply (setErr_agrees h _).bind_ok
      intro s h
      exact .ok h
    intro _
    apply divide_agrees h
    intro v
    exact ih.termLoop s _ v h
  . intro _
    exact .ok h

theorem exprLoop_agrees (hnul : NUL ∈ buf) (ih : DescentAgrees buf fuel) (h : s.Points buf c)
    : (cursorSimulation buf).Agrees (calcExprLoopAt buf (fuel + 1) v s)
        (calcExprLoop (fuel + 1) v c) := by
  rw [calcExprLoopAt, calcExprLoop]
  apply (getErr_agrees h).bind_ok
  intro s h
  apply Agrees.ite
  . intro _
    exact .ok h
  intro _
  apply (skip_agrees hnul h).bind_ok
  intro s h
  apply (read_agrees hnul h).bind_ok
  intro s h
  dsimp only
  apply Agrees.ite
  . intro hop
    have hne : c.skip.peek ≠ NUL := by
      obtain hc | hc := hop
      all_goals
        rw [hc]
        decide
    apply (move_agrees h hne).bind_ok
    intro s h
    apply (ih.term s _ h).bind
    intro rhs s c' h
    apply (getErr_agrees h).bind_ok
    intro s h
    apply Agrees.ite
    . intro _
      exact .ok h
    . intro _
      exact ih.exprLoop s _ _ h
  . intro _
    exact .ok h

-- By induction on the calls that may still be made.
theorem descent_agrees (hnul : NUL ∈ buf) (fuel : Nat) : DescentAgrees buf fuel := by
  induction fuel with
  | zero =>
    have hstop : ∀ s c, s.Points buf c →
        (cursorSimulation buf).Agrees ((throw .outOfFuel : CalcM Int64) s)
          (.error .outOfFuel : CalcResult) :=
      fun _ _ h => .error (d := CalcStop.outOfFuel) h.inside
    constructor
    . intro s c h
      rw [calcParseFactorAt, calcParseFactor]
      exact hstop s c h
    . intro s c v h
      rw [calcTermLoopAt, calcTermLoop]
      exact hstop s c h
    . intro s c h
      rw [calcParseTermAt, calcParseTerm]
      exact hstop s c h
    . intro s c v h
      rw [calcExprLoopAt, calcExprLoop]
      exact hstop s c h
    . intro s c h
      rw [calcParseExprAt, calcParseExpr]
      exact hstop s c h
  | succ fuel ih =>
    constructor
    . intro s c h
      exact factor_agrees hnul ih h
    . intro s c v h
      exact termLoop_agrees hnul ih h
    . intro s c h
      rw [calcParseTermAt, calcParseTerm]
      apply (ih.factor s c h).bind
      intro v s c h
      exact ih.termLoop s c v h
    . intro s c v h
      exact exprLoop_agrees hnul ih h
    . intro s c h
      rw [calcParseExprAt, calcParseExpr]
      apply (ih.term s c h).bind
      intro v s c h
      exact ih.exprLoop s c v h

end Descent

section Start

variable {buf : List UInt8}

open Simulation

theorem calcStartAt_agrees (hnul : NUL ∈ buf)
    : (cursorSimulation buf).Agrees (calcStartAt buf) (calcParseExpr (calcFuel buf) ⟨cstr buf, .none⟩) := by
  apply (descent_agrees hnul _).expr
  refine ⟨rfl, Nat.zero_le _, rfl, ?_⟩
  intro i hi
  rw [List.mem_singleton.mp hi]
  exact Nat.zero_le _

-- Also when the processor faults.
theorem calcStartAt_inside (hnul : NUL ∈ buf) : CalcStaysInside buf :=
  (calcStartAt_agrees hnul).failed_of_related fun s c (h : s.Points buf c) => h.inside

theorem calcStartAt_returns_iff (hnul : NUL ∈ buf)
    : CalcReturns buf ∧ CalcStaysInside buf ↔ ¬DivisionOverflows (cstr buf) := by
  have hlen := length_cstr_lt hnul
  have hfuel : 3 * (cstr buf).length + 2 < calcFuel buf := by
    unfold calcFuel
    omega
  rw [and_iff_left (calcStartAt_inside hnul), ← calcParseExpr_ok_iff hfuel]
  exact (calcStartAt_agrees hnul).ok_iff

theorem calcStartAt_returns_sum
    : CalcReturns (str "(2--+3)%4" ++ [NUL]) ∧ CalcStaysInside (str "(2--+3)%4" ++ [NUL]) := by
  have htext : cstr (str "(2--+3)%4" ++ [NUL]) = str "(2--+3)%4" := by decide
  have hstart : calcStart (str "(2--+3)%4") = .ok ⟨1, ⟨[], .none⟩⟩ := by decide +kernel
  rw [calcStartAt_returns_iff (by decide), htext, ← calcParseExpr_ok_iff (Nat.lt_succ_self _)]
  exact ⟨_, hstart⟩

theorem calcStartAt_min
    : ¬(CalcReturns (str "9223372036854775808/-1" ++ [NUL])
        ∧ CalcStaysInside (str "9223372036854775808/-1" ++ [NUL])) := by
  have hfault : (calcStartAt (str "9223372036854775808/-1" ++ [NUL])).1 = .error .divideFault := by
    decide +kernel
  rintro ⟨⟨v, hv⟩, _⟩
  rw [hfault] at hv
  cases hv

end Start

end DismasmOS
