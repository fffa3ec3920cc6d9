import DismasmOS.Calc.Expr
import DismasmOS.Shell.Tokens

/-!
This module contains the command `calc` of `src/shell/shell.c`: the text its arguments make up, the
check behind the expression, the messages and both numerals of the result, and the integers that
such numerals stand for.
-/

namespace DismasmOS

def printHex (val : UInt64) : List UInt8 :=
  let hex := utoaHex val
  str "0x" ++ List.replicate (8 - strlen hex) (chr '0') ++ hex

-- The minus is printed in front of the digits of `itoa`, which takes an `int`.
def calcDecimal (res : Int64) : List UInt8 :=
  if res < 0 then
    chr '-' :: itoa (-res).toInt32.toInt
  else
    itoa res.toInt32.toInt

def calcText (argv : Argv) : List UInt8 :=
  (List.range' 1 (argv.length - 1)).foldl (fun buf i =>
    strcat (if i > 1 then strcat buf (str " ") else buf) (argv.arg i)) []

def calcRun (text : List UInt8) : CalcResult := do
  let ⟨res, c⟩ ← calcStart text
  let c := c.skip
  if c.peek ≠ NUL ∧ c.err = .none then
    .ok ⟨res, c.fail .invalidSyntax⟩
  else
    .ok ⟨res, c⟩

-- The status and the text on the console.
def cmdCalc (argv : Argv) : Except CalcStop (Int × List UInt8) :=
  if argv.length < 2 then
    .ok ⟨1, str "usage: calc <expression>\n"⟩
  else do
    let ⟨res, c⟩ ← calcRun (calcText argv)
    match c.err with
    | .invalidSyntax => .ok ⟨1, str "calc error: invalid syntax\n"⟩
    | .divisionByZero => .ok ⟨1, str "calc error: division by zero\n"⟩
    | .none =>
      .ok ⟨0, str "Result: " ++ calcDecimal res ++ str " (" ++ printHex res.toUInt64 ++ str ")\n"⟩

def IsDecimal (text : List UInt8) (n : Int) : Prop :=
  ∃ digits, digits ≠ [] ∧ (∀ c ∈ digits, isDigit c) ∧
    ((text = digits ∧ n = numeral 10 digits) ∨ (text = chr '-' :: digits ∧ n = -numeral 10 digits))

def IsHex (text : List UInt8) (n : Nat) : Prop :=
  ∃ digits, digits ≠ [] ∧ (∀ c ∈ digits, isHexDigit c) ∧
    text = str "0x" ++ digits ∧ n = numeral 16 digits

-- The one numeral of `n` with a sign for the negative integers only and without a leading zero.
def CanonicalDecimal (text : List UInt8) (n : Int) : Prop :=
  ∃ digits, digits ≠ [] ∧ (∀ c ∈ digits, isDigit c) ∧
    (digits.head? = some (chr '0') → digits = [chr '0']) ∧ numeral 10 digits = n.natAbs ∧
    text = if n < 0 then chr '-' :: digits else digits

structure ShortestHex (text : List UInt8) (n : Nat) : Prop where
  ne_nil : text ≠ []
  upper : ∀ c ∈ text, c ∈ str "0123456789ABCDEF"
  value : numeral 16 text = n
  shortest : ∀ other, other ≠ [] → (∀ c ∈ other, isHexDigit c) → numeral 16 other = n →
    text.length ≤ other.length

-- Both numerals of the result stand for its two's complement value.
def FormatsAgree (res : Int64) : Prop :=
  IsDecimal (calcDecimal res) res.toInt ∧ IsHex (printHex res.toUInt64) res.toUInt64.toNat

end DismasmOS
