import DismasmOS.Vga.Impl

/-!
This module contains the names of the colors in `src/drivers/vga.c` and how a name is read.
-/

namespace DismasmOS

def colorNames : List (List UInt8) := [
  str "black", str "blue", str "green", str "cyan", str "red", str "magenta", str "brown", str "light_grey",
  str "dark_grey", str "light_blue", str "light_green", str "light_cyan", str "light_red", str "light_magenta",
  str "yellow", str "white"
]

def vgaGetColorName (color : UInt8) : List UInt8 :=
  if color < 16 then colorNames.getD color.toNat [] else str "unknown"

-- The source is encoded in UTF-8.
def uUmlaut : List UInt8 := [0xC3, 0xBC]
def sharpS : List UInt8 := [0xC3, 0x9F]

-- The comparisons at the end of `vga_parse_color` in their order.
def colorWords : List (List UInt8 × UInt8) := [
  (str "black", 0), (str "schwarz", 0),
  (str "blue", 1), (str "blau", 1),
  (str "green", 2), (str "gruen", 2), (str "gr" ++ uUmlaut ++ str "n", 2),
  (str "cyan", 3), (str "tuerkis", 3), (str "t" ++ uUmlaut ++ str "rkis", 3),
  (str "red", 4), (str "rot", 4),
  (str "magenta", 5), (str "lila", 5), (str "violett", 5), (str "purple", 5),
  (str "brown", 6), (str "braun", 6),
  (str "light_grey", 7), (str "lightgrey", 7), (str "grey", 7), (str "grau", 7), (str "hellgrau", 7),
  (str "light_gray", 7), (str "lightgray", 7), (str "gray", 7),
  (str "dark_grey", 8), (str "darkgrey", 8), (str "dunkelgrau", 8), (str "dark_gray", 8), (str "darkgray", 8),
  (str "light_blue", 9), (str "lightblue", 9), (str "hellblau", 9),
  (str "light_green", 10), (str "lightgreen", 10), (str "hellgruen", 10),
  (str "hellgr" ++ uUmlaut ++ str "n", 10),
  (str "light_cyan", 11), (str "lightcyan", 11), (str "helltuerkis", 11),
  (str "hellt" ++ uUmlaut ++ str "rkis", 11),
  (str "light_red", 12), (str "lightred", 12), (str "hellrot", 12),
  (str "light_magenta", 13), (str "lightmagenta", 13), (str "rosa", 13), (str "pink", 13),
  (str "hellmagenta", 13),
  (str "yellow", 14), (str "gelb", 14), (str "light_brown", 14), (str "lightbrown", 14), (str "hellbraun", 14),
  (str "white", 15), (str "weiss", 15), (str "wei" ++ sharpS, 15)
]

def isColorPunct (c : UInt8) : Bool :=
  c = chr '(' || c = chr ')' || c = chr '[' || c = chr ']' || c = chr '<' || c = chr '>' || c = chr ' '
    || c = chr '\t'

-- The loop that fills `clean`.
def cleanColor (clean : List UInt8) : List UInt8 → List UInt8
  | [] => clean
  | c :: rest =>
    if c ≠ NUL ∧ clean.length < 32 - 1 then
      cleanColor (if isColorPunct c then clean else clean ++ [tolower c]) rest
    else
      clean

-- The numbers in front of the names, if there is one.
def colorNumber (clean : List UInt8) : Option Int :=
  let char := fun i => clean.getD i NUL
  if char 0 ≥ chr '0' ∧ char 0 ≤ chr '9' then
    if char 1 = NUL then
      some ((char 0).toNat - (chr '0').toNat)
    else if char 0 = chr '1' ∧ char 1 ≥ chr '0' ∧ char 1 ≤ chr '5' ∧ char 2 = NUL then
      some (10 + ((char 1).toNat - (chr '0').toNat))
    else
      none
  else
    none

def vgaParseColor (text : List UInt8) : Int :=
  let clean := cleanColor [] text
  if clean.length = 0 then
    -1
  else
    match colorNumber clean with
    | some n => n
    | none =>
      match colorWords.find? fun word => strcmp clean word.1 = 0 with
      | some word => word.2.toNat
      | none => -1

end DismasmOS
