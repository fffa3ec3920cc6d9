import DismasmOS.Lib.Simulation
import DismasmOS.Calc.Impl

/-!
This module contains the recursive descent on the buffer that `calc_ptr` points into. Every character is
read at the place the source reads it, and every place that `calc_ptr` has been at is remembered.
-/

namespace DismasmOS

-- A read behind the end of the buffer is an outcome of its own.
inductive CursorStop where
  | outOfFuel
  | outOfBounds
  | divideFault
  deriving DecidableEq

-- `visited` is not in the source.
structure CalcCursor where
  ptr : Nat
  err : CalcErr
  visited : List Nat

def CalcCursor.move (s : CalcCursor) (k : Nat) : CalcCursor :=
  { s with
      ptr := s.ptr + k
      visited := (s.ptr + k) :: s.visited }

abbrev CalcM := Stateful CalcCursor CursorStop

section Steps

variable (buf : List UInt8)

-- `*(calc_ptr + k)`.
def calcRead (k : Nat) : CalcM UInt8 := fun s =>
  match buf[s.ptr + k]? with
  | some c => (.ok c, s)
  | none => (.error .outOfBounds, s)

def calcMove (k : Nat) : CalcM Unit := fun s => (.ok (), s.move k)

def calcSetErr (err : CalcErr) : CalcM Unit := fun s => (.ok (), { s with err := err })

def calcGetErr : CalcM CalcErr := fun s => (.ok s.err, s)

def calcGetPtr : CalcM Nat := fun s => (.ok s.ptr, s)

-- `while (p(*calc_ptr)) calc_ptr++`.
def calcWhile (p : UInt8 → Bool) (fuel : Nat) : CalcM Unit :=
  match fuel with
  | 0 => throw .outOfFuel
  | fuel + 1 => do
    let c ← calcRead buf 0
    if p c then do
      calcMove 1
      calcWhile p fuel
    else
      pure ()

def calcSkipAt : CalcM Unit := calcWhile buf isBlank buf.length

def calcIsHexAt : CalcM Bool := do
  let c ← calcRead buf 0
  if c = chr '0' then do
    let x ← calcRead buf 1
    pure (x = chr 'x' || x = chr 'X')
  else
    pure false

def calcIsLiteralAt : CalcM Bool := do
  let c ← calcRead buf 0
  if isDigit c then pure true else calcIsHexAt buf

def calcScanLiteralAt : CalcM Unit := do
  let hex ← calcIsHexAt buf
  if hex then do
    calcMove 2
    calcWhile buf isHexDigit buf.length
  else
    calcWhile buf isDigit buf.length

def calcDivideAt (op : UInt8) (v rhs : Int64) : CalcM Int64 :=
  match calcDivide op v rhs with
  | .ok v => pure v
  | .error _ => throw .divideFault

end Steps

section Descent

variable (buf : List UInt8)

mutual

def calcParseFactorAt (fuel : Nat) : CalcM Int64 :=
  match fuel with
  | 0 => throw .outOfFuel
  | fuel + 1 => do
    calcSkipAt buf
    let c ← calcRead buf 0
    if c = chr '+' then do
      calcMove 1
      calcParseFactorAt fuel
    else if c = chr '-' then do
      calcMove 1
      let v ← calcParseFactorAt fuel
      pure (-v)
    else if c = chr '(' then do
      calcMove 1
      let v ← calcParseExprAt fuel
      calcSkipAt buf
      let c ← calcRead buf 0
      if c = chr ')' then do
        calcMove 1
        pure v
      else do
        calcSetErr .invalidSyntax
        pure v
    else do
      let literal ← calcIsLiteralAt buf
      if literal then do
        let s ← calcGetPtr
        calcScanLiteralAt buf
        pure (parseNum (buf.drop s)).toInt64
      else do
        calcSetErr .invalidSyntax
        pure 0

def calcTermLoopAt (fuel : Nat) (v : Int64) : CalcM Int64 :=
  match fuel with
  | 0 => throw .outOfFuel
  | fuel + 1 => do
    let err ← calcGetErr
    if err ≠ .none then
      pure v
    else do
      calcSkipAt buf
      let op ← calcRead buf 0
      if op = chr '*' ∨ op = chr '/' ∨ op = chr '%' then do
        calcMove 1
        let rhs ← calcParseFactorAt fuel
        let err ← calcGetErr
        if err ≠ .none then
          pure v
        else if op = chr '*' then
          calcTermLoopAt fuel (v * rhs)
        else if rhs = 0 then do
          calcSetErr .divisionByZero
          pure v
        else do
          let v ← calcDivideAt op v rhs
          calcTermLoopAt fuel v
      else
        pure v

def calcParseTermAt (fuel : Nat) : CalcM Int64 :=
  match fuel with
  | 0 => throw .outOfFuel
  | fuel + 1 => do
    let v ← calcParseFactorAt fuel
    calcTermLoopAt fuel v

def calcExprLoopAt (fuel : Nat) (v : Int64) : CalcM Int64 :=
  match fuel with
  | 0 => throw .outOfFuel
  | fuel + 1 => do
    let err ← calcGetErr
    if err ≠ .none then
      pure v
    else do
      calcSkipAt buf
      let op ← calcRead buf 0
      if op = chr '+' ∨ op = chr '-' then do
        calcMove 1
        let rhs ← calcParseTermAt fuel
        let err ← calcGetErr
        if err ≠ .none then
          pure v
        else
          calcExprLoopAt fuel (if op = chr '+' then v + rhs else v - rhs)
      else
        pure v

def calcParseExprAt (fuel : Nat) : CalcM Int64 :=
  match fuel with
  | 0 => throw .outOfFuel
  | fuel + 1 => do
    let v ← calcParseTermAt fuel
    calcExprLoopAt fuel v

end

-- `calc_ptr = buf`, `calc_err = 0` and the call of `calc_parse_expr`.
def calcStartAt : Except CursorStop Int64 × CalcCursor :=
  calcParseExprAt buf (calcFuel buf) { ptr := 0, err := .none, visited := [0] }

end Descent

def CalcReturns (buf : List UInt8) : Prop := ∃ v, (calcStartAt buf).1 = .ok v

def CalcStaysInside (buf : List UInt8) : Prop := ∀ i ∈ (calcStartAt buf).2.visited, i ≤ strlen buf

end DismasmOS
