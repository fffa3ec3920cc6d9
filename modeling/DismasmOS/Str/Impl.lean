import Mathlib.Algebra.Ring.Nat
import Mathlib.Data.List.Basic

/-!
This module contains the C strings of `src/lib/string.c`. A string is the list of bytes from its
first character on, it ends at the first NUL or, if there is none, with the list. Arrays keep their
length, whatever is copied into them.
-/

namespace DismasmOS

def NUL : UInt8 := 0

def chr (c : Char) : UInt8 := c.toNat.toUInt8

def str (s : String) : List UInt8 := s.toList.map chr

-- The characters of a string in front of its terminator.
def cstr (s : List UInt8) : List UInt8 := s.takeWhile (· ≠ NUL)

-- The characters a string literal, a token or a resolved path consists of.
def NulFree (s : List UInt8) : Prop := NUL ∉ s

instance (s : List UInt8) : Decidable (NulFree s) := inferInstanceAs (Decidable (NUL ∉ s))

def strlen : List UInt8 → Nat
  | [] => 0
  | c :: s => if c = NUL then 0 else strlen s + 1

def strcmp (s1 s2 : List UInt8) : Int :=
  match s1 with
  | [] => NUL.toNat - (s2.headD NUL).toNat
  | c :: s1 =>
    if c ≠ NUL ∧ c = s2.headD NUL then
      strcmp s1 s2.tail
    else
      c.toNat - (s2.headD NUL).toNat

def strncmp (s1 s2 : List UInt8) (n : Nat) : Int :=
  match n with
  | 0 => 0
  | n + 1 =>
    if s1.headD NUL ≠ NUL ∧ s1.headD NUL = s2.headD NUL then
      strncmp s1.tail s2.tail n
    else
      (s1.headD NUL).toNat - (s2.headD NUL).toNat

-- `strcpy` into an array of `size` characters, `none` if it writes behind the end of the array.
def strcpyIn (size : Nat) (src : List UInt8) : Option (List UInt8) :=
  if (cstr src).length < size then some (cstr src) else none

def strcat (dest src : List UInt8) : List UInt8 := cstr dest ++ cstr src

def strncat (dest src : List UInt8) (n : Nat) : List UInt8 := cstr dest ++ (cstr src).take n

-- The same for `strcat`.
def strcatIn (size : Nat) (dest src : List UInt8) : Option (List UInt8) :=
  if (strcat dest src).length < size then some (strcat dest src) else none

def strncpy (dest src : List UInt8) (n : Nat) : List UInt8 :=
  match dest, n with
  | [], _ => []
  | dest, 0 => dest
  | _ :: dest, n + 1 =>
    if src.headD NUL ≠ NUL then
      src.headD NUL :: strncpy dest src.tail n
    else
      NUL :: strncpy dest [] n

def memcpy (dest src : List UInt8) (n : Nat) : List UInt8 :=
  match dest, n with
  | [], _ => []
  | dest, 0 => dest
  | _ :: dest, n + 1 => src.headD NUL :: memcpy dest src.tail n

def strchr (s : List UInt8) (c : UInt8) : Option Nat :=
  match s with
  | [] => if c = NUL then some 0 else none
  | x :: s =>
    if x = c then
      some 0
    else if x = NUL then
      none
    else
      (strchr s c).map (· + 1)

-- Whether the inner loop of `strstr` reaches the end of `needle`.
def strstrHere (haystack needle : List UInt8) : Bool :=
  match needle with
  | [] => true
  | n :: needle =>
    if n = NUL then
      true
    else if haystack.headD NUL ≠ NUL ∧ haystack.headD NUL = n then
      strstrHere haystack.tail needle
    else
      false

def strstrLoop (haystack needle : List UInt8) : Option Nat :=
  match haystack with
  | [] => none
  | h :: hs =>
    if h = NUL then
      none
    else if h = needle.headD NUL ∧ strstrHere (h :: hs) needle then
      some 0
    else
      (strstrLoop hs needle).map (· + 1)

def strstr (haystack needle : List UInt8) : Option Nat :=
  if needle.headD NUL = NUL then
    some 0
  else
    strstrLoop haystack needle

def isalpha (c : UInt8) : Bool := (c ≥ chr 'a' && c ≤ chr 'z') || (c ≥ chr 'A' && c ≤ chr 'Z')

def tolower (c : UInt8) : UInt8 :=
  if c ≥ chr 'A' ∧ c ≤ chr 'Z' then c + (chr 'a' - chr 'A') else c

-- The digits of `n` from the last to the first, an `int` has ten at most.
def itoaDigits (fuel : Nat) (n : Int) : List UInt8 :=
  match fuel with
  | 0 => []
  | fuel + 1 =>
    if n = 0 then
      []
    else
      UInt8.ofNat ((n.tmod 10 + (chr '0').toNat).toNat) :: itoaDigits fuel (n.tdiv 10)

def itoa (n : Int) : List UInt8 :=
  if n = 0 then
    str "0"
  else
    let isNeg := n < 0
    let n := if isNeg then (-n).bmod (2 ^ 32) else n
    let digits := itoaDigits 10 n
    (if isNeg then digits ++ str "-" else digits).reverse

-- The digits of `n` from the last to the first, 64 bits have sixteen at most.
def utoaHexDigits (fuel : Nat) (n : UInt64) : List UInt8 :=
  match fuel with
  | 0 => []
  | fuel + 1 =>
    if n > 0 then
      (str "0123456789ABCDEF").getD (n &&& 0xF).toNat NUL :: utoaHexDigits fuel (n >>> 4)
    else
      []

def utoaHex (n : UInt64) : List UInt8 :=
  if n = 0 then
    str "0"
  else
    (utoaHexDigits 16 n).reverse

def isBlank (c : UInt8) : Bool := c = chr ' ' || c = chr '\t'

def skipBlanks (s : List UInt8) : List UInt8 := s.dropWhile isBlank

def stripBlanks (s : List UInt8) : List UInt8 := (s.reverse.dropWhile isBlank).reverse

theorem length_strncpy (dest src : List UInt8) (n : Nat)
    : (strncpy dest src n).length = dest.length := by
  induction dest generalizing src n with
  | nil => simp [strncpy]
  | cons d dest ih =>
    cases n with
    | zero => simp [strncpy]
    | succ n =>
      unfold strncpy
      split <;> simp [ih]

theorem length_memcpy (dest src : List UInt8) (n : Nat)
    : (memcpy dest src n).length = dest.length := by
  induction dest generalizing src n with
  | nil => simp [memcpy]
  | cons d dest ih =>
    cases n with
    | zero => simp [memcpy]
    | succ n => simp [memcpy, ih]

structure CharArray (n : Nat) where
  chars : List UInt8
  length_chars : chars.length = n
  deriving DecidableEq

namespace CharArray

variable {n : Nat}

def zero (n : Nat) : CharArray n where
  chars := List.replicate n NUL
  length_chars := by simp

def str (a : CharArray n) : List UInt8 := cstr a.chars

def get (a : CharArray n) (i : Nat) : UInt8 := a.chars.getD i NUL

def set (a : CharArray n) (i : Nat) (c : UInt8) : CharArray n where
  chars := a.chars.set i c
  length_chars := by rw [List.length_set, a.length_chars]

def strncpy (a : CharArray n) (src : List UInt8) (k : Nat) : CharArray n where
  chars := DismasmOS.strncpy a.chars src k
  length_chars := by rw [length_strncpy, a.length_chars]

def memcpy (a : CharArray n) (src : List UInt8) (k : Nat) : CharArray n where
  chars := DismasmOS.memcpy a.chars src k
  length_chars := by rw [length_memcpy, a.length_chars]

def strcpy (a : CharArray n) (src : List UInt8) : CharArray n :=
  a.memcpy (cstr src ++ [NUL]) ((cstr src).length + 1)

-- `strncpy(a, src, sizeof(a) - 1)` and a NUL in the last place.
def assign (a : CharArray n) (src : List UInt8) : CharArray n :=
  (a.strncpy src (n - 1)).set (n - 1) NUL

end CharArray

end DismasmOS
