import DismasmOS.Str.Impl

/-!
This module contains the calculator of `src/shell/shell.c`: the conversion of literals and the
recursive descent over a text, with its cursor and its error flag. Arithmetic is that of 64 bits.
-/

namespace DismasmOS

section Literals

def isDigit (c : UInt8) : Bool := c ≥ chr '0' && c ≤ chr '9'

def isHexDigit (c : UInt8) : Bool :=
  isDigit c || (c ≥ chr 'a' && c ≤ chr 'f') || (c ≥ chr 'A' && c ≤ chr 'F')

def isHexPrefix (s : List UInt8) : Bool :=
  s.headD NUL = chr '0' && (s.tail.headD NUL = chr 'x' || s.tail.headD NUL = chr 'X')

-- The shift comes before the look at the character, also for the one that ends the loop.
def parseHex (val : UInt64) (s : List UInt8) : UInt64 :=
  match s with
  | [] => val
  | c :: s =>
    if c = NUL then
      val
    else
      let val := val <<< 4
      if c ≥ chr '0' ∧ c ≤ chr '9' then
        parseHex (val ||| (c - chr '0').toUInt64) s
      else if c ≥ chr 'a' ∧ c ≤ chr 'f' then
        parseHex (val ||| (c - chr 'a' + 10).toUInt64) s
      else if c ≥ chr 'A' ∧ c ≤ chr 'F' then
        parseHex (val ||| (c - chr 'A' + 10).toUInt64) s
      else
        val

def parseDec (val : UInt64) (s : List UInt8) : UInt64 :=
  match s with
  | [] => val
  | c :: s => if isDigit c then parseDec (val * 10 + (c - chr '0').toUInt64) s else val

def parseNum (s : List UInt8) : UInt64 :=
  if isHexPrefix s then parseHex 0 (s.drop 2) else parseDec 0 s

-- The cursor behind the literal that begins at `s`.
def scanLiteral (s : List UInt8) : List UInt8 :=
  if isHexPrefix s then (s.drop 2).dropWhile isHexDigit else s.dropWhile isDigit

end Literals

inductive CalcErr where
  | none
  | invalidSyntax
  | divisionByZero
  deriving DecidableEq

structure Calc where
  ptr : List UInt8
  err : CalcErr
  deriving DecidableEq

namespace Calc

def peek (c : Calc) : UInt8 := c.ptr.headD NUL

def advance (c : Calc) : Calc := { c with ptr := c.ptr.tail }

def skip (c : Calc) : Calc := { c with ptr := skipBlanks c.ptr }

def fail (c : Calc) (err : CalcErr) : Calc := { c with err := err }

end Calc

-- The processor faults when the divisor is zero and when the quotient of a division does not fit.
inductive CalcStop where
  | outOfFuel
  | divideFault
  deriving DecidableEq

abbrev CalcResult := Except CalcStop (Int64 × Calc)

def calcDivide (op : UInt8) (v rhs : Int64) : Except CalcStop Int64 :=
  if rhs = 0 ∨ (v = Int64.minValue ∧ rhs = -1) then
    .error .divideFault
  else
    .ok (if op = chr '/' then v / rhs else v % rhs)

mutual

def calcParseFactor (fuel : Nat) (c : Calc) : CalcResult :=
  match fuel with
  | 0 => .error .outOfFuel
  | fuel + 1 =>
    let c := c.skip
    if c.peek = chr '+' then
      calcParseFactor fuel c.advance
    else if c.peek = chr '-' then do
      let ⟨v, c⟩ ← calcParseFactor fuel c.advance
      .ok ⟨-v, c⟩
    else if c.peek = chr '(' then do
      let ⟨v, c⟩ ← calcParseExpr fuel c.advance
      let c := c.skip
      if c.peek = chr ')' then
        .ok ⟨v, c.advance⟩
      else
        .ok ⟨v, c.fail .invalidSyntax⟩
    else if isDigit c.peek || isHexPrefix c.ptr then
      .ok ⟨(parseNum c.ptr).toInt64, { c with ptr := scanLiteral c.ptr }⟩
    else
      .ok ⟨0, c.fail .invalidSyntax⟩

def calcTermLoop (fuel : Nat) (v : Int64) (c : Calc) : CalcResult :=
  match fuel with
  | 0 => .error .outOfFuel
  | fuel + 1 =>
    if c.err ≠ .none then
      .ok ⟨v, c⟩
    else
      let c := c.skip
      let op := c.peek
      if op = chr '*' ∨ op = chr '/' ∨ op = chr '%' then do
        let ⟨rhs, c⟩ ← calcParseFactor fuel c.advance
        if c.err ≠ .none then
          .ok ⟨v, c⟩
        else if op = chr '*' then
          calcTermLoop fuel (v * rhs) c
        else if rhs = 0 then
          .ok ⟨v, c.fail .divisionByZero⟩
        else
          let v ← calcDivide op v rhs
          calcTermLoop fuel v c
      else
        .ok ⟨v, c⟩

def calcParseTerm (fuel : Nat) (c : Calc) : CalcResult :=
  match fuel with
  | 0 => .error .outOfFuel
  | fuel + 1 => do
    let ⟨v, c⟩ ← calcParseFactor fuel c
    calcTermLoop fuel v c

def calcExprLoop (fuel : Nat) (v : Int64) (c : Calc) : CalcResult :=
  match fuel with
  | 0 => .error .outOfFuel
  | fuel + 1 =>
    if c.err ≠ .none then
      .ok ⟨v, c⟩
    else
      let c := c.skip
      let op := c.peek
      if op = chr '+' ∨ op = chr '-' then do
        let ⟨rhs, c⟩ ← calcParseTerm fuel c.advance
        if c.err ≠ .none then
          .ok ⟨v, c⟩
        else
          calcExprLoop fuel (if op = chr '+' then v + rhs else v - rhs) c
      else
        .ok ⟨v, c⟩

def calcParseExpr (fuel : Nat) (c : Calc) : CalcResult :=
  match fuel with
  | 0 => .error .outOfFuel
  | fuel + 1 => do
    let ⟨v, c⟩ ← calcParseTerm fuel c
    calcExprLoop fuel v c

end

-- No text needs more calls inside of each other than this.
def calcFuel (text : List UInt8) : Nat := 3 * text.length + 3

def calcStart (text : List UInt8) : CalcResult :=
  calcParseExpr (calcFuel text) { ptr := text, err := .none }

end DismasmOS
