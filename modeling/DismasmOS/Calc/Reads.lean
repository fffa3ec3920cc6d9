import DismasmOS.Calc.Expr

/-!
This module contains the texts that the recursive descent accepts and the divisions that it meets:
the trees that a text is read as, in terms of the text behind them, and the first division or modulo
of the evaluation that has no result, with the number of parentheses that are open there.
-/

namespace DismasmOS

-- `Reads level e text rest`: at a place for `level` the front of `text` is read as `e`, and `rest` is
-- behind it. A literal is what `scanLiteral` passes and has the value that `parse_num` returns.
inductive Reads : CalcLevel → CalcExpr → List UInt8 → List UInt8 → Prop
  | lit {text : List UInt8} {n : Nat} (hdigit : isDigit ((skipBlanks text).headD NUL))
      (hn : Int64.ofNat n = (parseNum (skipBlanks text)).toInt64)
      : Reads .factor (.lit n) text (scanLiteral (skipBlanks text))
  | sign {text t rest : List UInt8} {e : CalcExpr} (g : CalcSign)
      (htext : skipBlanks text = g.char :: t) (he : Reads .factor e t rest)
      : Reads .factor (.sign g e) text rest
  | paren {text t mid rest : List UInt8} {e : CalcExpr} (htext : skipBlanks text = chr '(' :: t)
      (he : Reads .expr e t mid) (hmid : skipBlanks mid = chr ')' :: rest)
      : Reads .factor e text rest
  | factor {text rest : List UInt8} {e : CalcExpr} (he : Reads .factor e text rest)
      : Reads .term e text rest
  | term {text rest : List UInt8} {e : CalcExpr} (he : Reads .term e text rest)
      : Reads .expr e text rest
  | op {text mid t rest : List UInt8} {lhs rhs : CalcExpr} (g : CalcOp)
      (hlhs : Reads g.level lhs text mid) (hmid : skipBlanks mid = g.char :: t)
      (hrhs : Reads g.rhsLevel rhs t rest)
      : Reads g.level (.op g lhs rhs) text rest

def CompleteAs (text : List UInt8) (e : CalcExpr) : Prop :=
  ∃ rest, Reads .expr e text rest ∧ Blanks rest

def Complete (text : List UInt8) : Prop := ∃ e, CompleteAs text e

-- `Meets l r level depth text rest`: the evaluation from left to right gets as far as to `l / r` or
-- `l % r`, which has no result. The divisor ends in front of `rest`, inside of `depth` parentheses.
inductive Meets (l r : Int64) : CalcLevel → Nat → List UInt8 → List UInt8 → Prop
  | here {text mid t rest : List UInt8} {lhs rhs : CalcExpr} (g : CalcOp)
      (hlhs : Reads g.level lhs text mid) (hl : lhs.eval = some l)
      (hmid : skipBlanks mid = g.char :: t) (hrhs : Reads g.rhsLevel rhs t rest)
      (hr : rhs.eval = some r) (hbad : g.eval l r = none)
      : Meets l r g.level 0 text rest
  | right {text mid t rest : List UInt8} {depth : Nat} {lhs : CalcExpr} {v : Int64} (g : CalcOp)
      (hlhs : Reads g.level lhs text mid) (hv : lhs.eval = some v)
      (hmid : skipBlanks mid = g.char :: t) (h : Meets l r g.rhsLevel depth t rest)
      : Meets l r g.level depth text rest
  | sign {text t rest : List UInt8} {depth : Nat} (g : CalcSign)
      (htext : skipBlanks text = g.char :: t) (h : Meets l r .factor depth t rest)
      : Meets l r .factor depth text rest
  | paren {text t rest : List UInt8} {depth : Nat} (htext : skipBlanks text = chr '(' :: t)
      (h : Meets l r .expr depth t rest)
      : Meets l r .factor (depth + 1) text rest
  | factor {text rest : List UInt8} {depth : Nat} (h : Meets l r .factor depth text rest)
      : Meets l r .term depth text rest
  | term {text rest : List UInt8} {depth : Nat} (h : Meets l r .term depth text rest)
      : Meets l r .expr depth text rest

def DividesByZero (text : List UInt8) : Prop :=
  ∃ l depth rest, Meets l 0 .expr depth text rest

-- The quotient `2 ^ 63` is no 64 bit integer.
def DivisionOverflows (text : List UInt8) : Prop :=
  ∃ depth rest, Meets Int64.minValue (-1) .expr depth text rest

-- The next `depth` characters that are no blanks are closing parentheses.
def Closes (depth : Nat) (rest : List UInt8) : Prop :=
  match depth with
  | 0 => True
  | depth + 1 => ∃ t, skipBlanks rest = chr ')' :: t ∧ Closes depth t

-- The error of `calc` for a text on which the processor does not fault. The first error is reported,
-- also in front of text that is no expression; behind a zero divisor nothing is said about the error
-- when an open parenthesis is not closed at once.
structure ErrorClass (text : List UInt8) (err : CalcErr) : Prop where
  none_iff : err = .none ↔ ∃ e, CompleteAs text e ∧ e.eval ≠ none
  invalid_iff : ¬DividesByZero text → (err = .invalidSyntax ↔ ¬Complete text)
  zero_divides : err = .divisionByZero → DividesByZero text
  divides_zero : ∀ l depth rest, Meets l 0 .expr depth text rest → Closes depth rest →
    err = .divisionByZero

end DismasmOS
