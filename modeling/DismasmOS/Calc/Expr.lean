import Mathlib.Data.Nat.Digits.Defs
import DismasmOS.Calc.Impl

/-!
This module contains what a text of the calculator denotes: the value of a literal, expression trees
with their evaluation, and all the ways to write a tree.
-/

namespace DismasmOS

section Literals

def digitValue (c : UInt8) : Nat :=
  if isDigit c then
    c.toNat - (chr '0').toNat
  else if c ≥ chr 'a' then
    c.toNat - (chr 'a').toNat + 10
  else
    c.toNat - (chr 'A').toNat + 10

-- The number that `digits` denotes in base `base`, its most significant digit comes first.
def numeral (base : Nat) (digits : List UInt8) : Nat :=
  Nat.ofDigits base (digits.reverse.map digitValue)

-- The characters between the beginning of the literal at `text` and the cursor behind it.
def literalDigits (text : List UInt8) : List UInt8 :=
  (text.take (text.length - (scanLiteral text).length)).drop (if isHexPrefix text then 2 else 0)

def literalValue (text : List UInt8) : Nat :=
  numeral (if isHexPrefix text then 16 else 10) (literalDigits text)

end Literals

inductive CalcSign where
  | plus
  | minus

namespace CalcSign

def char : CalcSign → UInt8
  | plus => chr '+'
  | minus => chr '-'

def eval : CalcSign → Int64 → Int64
  | plus => fun v => v
  | minus => fun v => -v

end CalcSign

-- What binds weaker comes first.
inductive CalcLevel where
  | expr
  | term
  | factor
  deriving DecidableEq

inductive CalcOp where
  | add
  | sub
  | mul
  | div
  | mod

namespace CalcOp

def char : CalcOp → UInt8
  | add => chr '+'
  | sub => chr '-'
  | mul => chr '*'
  | div => chr '/'
  | mod => chr '%'

-- The level of a result, which is that of the left operand too.
def level : CalcOp → CalcLevel
  | add | sub => .expr
  | mul | div | mod => .term

def rhsLevel : CalcOp → CalcLevel
  | add | sub => .term
  | mul | div | mod => .factor

-- The divisions that have no 64 bit result.
def Undefined (lhs rhs : Int64) : Prop := rhs = 0 ∨ (lhs = Int64.minValue ∧ rhs = -1)

instance (lhs rhs : Int64) : Decidable (Undefined lhs rhs) := inferInstanceAs (Decidable (_ ∨ _))

def eval (g : CalcOp) (lhs rhs : Int64) : Option Int64 :=
  match g with
  | add => some (lhs + rhs)
  | sub => some (lhs - rhs)
  | mul => some (lhs * rhs)
  | div => if Undefined lhs rhs then none else some (lhs / rhs)
  | mod => if Undefined lhs rhs then none else some (lhs % rhs)

end CalcOp

inductive CalcExpr where
  | lit (n : Nat)
  | sign (g : CalcSign) (e : CalcExpr)
  | op (g : CalcOp) (lhs rhs : CalcExpr)

namespace CalcExpr

def eval : CalcExpr → Option Int64
  | lit n => some (Int64.ofNat n)
  | sign g e => do
    let v ← e.eval
    some (g.eval v)
  | op g lhs rhs => do
    let l ← lhs.eval
    let r ← rhs.eval
    g.eval l r

end CalcExpr

def Blanks (w : List UInt8) : Prop := ∀ c ∈ w, isBlank c

-- `Writes level e s`: at a place for `level` the text `s` stands for `e`. A text has no blanks at
-- its end, they belong to what follows.
inductive Writes : CalcLevel → CalcExpr → List UInt8 → Prop
  | lit {w digits : List UInt8} (hw : Blanks w) (hne : digits ≠ [])
      (hdigits : ∀ c ∈ digits, isDigit c)
      : Writes .factor (.lit (numeral 10 digits)) (w ++ digits)
  | sign {w s : List UInt8} {e : CalcExpr} (g : CalcSign) (hw : Blanks w)
      (he : Writes .factor e s)
      : Writes .factor (.sign g e) (w ++ g.char :: s)
  | paren {w s w' : List UInt8} {e : CalcExpr} (hw : Blanks w) (he : Writes .expr e s)
      (hw' : Blanks w')
      : Writes .factor e (w ++ chr '(' :: (s ++ (w' ++ [chr ')'])))
  | factor {s : List UInt8} {e : CalcExpr} (he : Writes .factor e s) : Writes .term e s
  | term {s : List UInt8} {e : CalcExpr} (he : Writes .term e s) : Writes .expr e s
  | op {s w t : List UInt8} {lhs rhs : CalcExpr} (g : CalcOp) (hlhs : Writes g.level lhs s)
      (hw : Blanks w) (hrhs : Writes g.rhsLevel rhs t)
      : Writes g.level (.op g lhs rhs) (s ++ (w ++ g.char :: t))

namespace CalcExpr

def digits (n : Nat) : List UInt8 :=
  if n = 0 then [chr '0'] else (Nat.digits 10 n).reverse.map fun d => chr '0' + UInt8.ofNat d

-- Parentheses stand only around an operation that binds weaker than its place demands.
def text (level : CalcLevel) (e : CalcExpr) : List UInt8 :=
  match e with
  | lit n => digits n
  | sign g e => g.char :: e.text .factor
  | op g lhs rhs =>
    let s := lhs.text g.level ++ g.char :: rhs.text g.rhsLevel
    if level = .expr ∨ level = g.level then s else chr '(' :: (s ++ [chr ')'])

end CalcExpr

end DismasmOS
