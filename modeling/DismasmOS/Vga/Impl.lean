import DismasmOS.Lib.Loop
import DismasmOS.Lib.Word
import DismasmOS.Str.Impl

/-!
This module contains the text mode console of `src/drivers/vga.c`. An access behind the last cell of
`vga_buffer` makes the result `none`.
-/

namespace DismasmOS

def VGA_WIDTH : Nat := 80
def VGA_HEIGHT : Nat := 25

def VGA_COLOR_BLACK : UInt8 := 0
def VGA_COLOR_BLUE : UInt8 := 1
def VGA_COLOR_RED : UInt8 := 4
def VGA_COLOR_LIGHT_GREY : UInt8 := 7
def VGA_COLOR_LIGHT_CYAN : UInt8 := 11
def VGA_COLOR_LIGHT_RED : UInt8 := 12
def VGA_COLOR_WHITE : UInt8 := 15

structure Vga where
  buffer : Vector UInt16 (VGA_HEIGHT * VGA_WIDTH)
  row : Nat
  col : Nat
  attrib : UInt8
  -- the cursor location registers of the CRT controller
  cursor : UInt16

def vgaZero : Vga where
  buffer := .replicate _ 0
  row := 0
  col := 0
  attrib := 0
  cursor := 0

namespace Vga

def read (v : Vga) (i : Nat) : Option UInt16 := v.buffer[i]?

def write (v : Vga) (i : Nat) (cell : UInt16) : Option Vga :=
  if h : i < VGA_HEIGHT * VGA_WIDTH then
    some { v with buffer := v.buffer.set i cell }
  else
    none

end Vga

-- `(uint16_t)(uint8_t)c | ((uint16_t)vga_attrib << 8)`
def vgaCell (c attrib : UInt8) : UInt16 := c.toUInt16 ||| (attrib.toUInt16 <<< 8)

def vgaIndex (row col : Nat) : Nat := Word.add (Word.mul row VGA_WIDTH) col

def vgaUpdateCursor (v : Vga) (x y : Nat) : Vga :=
  { v with cursor := UInt16.ofNat (y * VGA_WIDTH + x) }

def vgaScroll (v : Vga) : Option Vga :=
  if v.row ≥ VGA_HEIGHT then do
    let v ← forUpTo (VGA_HEIGHT - 1) (fun y => forUpTo VGA_WIDTH fun x v => do
      let cell ← v.read (vgaIndex (y + 1) x)
      v.write (vgaIndex y x) cell) v
    let v ← forUpTo VGA_WIDTH (fun x v =>
      v.write (vgaIndex (VGA_HEIGHT - 1) x) (vgaCell (chr ' ') v.attrib)) v
    some { v with row := VGA_HEIGHT - 1 }
  else
    some v

def vgaSetColor (v : Vga) (fg bg : UInt8) : Vga := { v with attrib := fg ||| (bg <<< 4) }

def vgaClear (v : Vga) : Option Vga := do
  let v ← forUpTo VGA_HEIGHT (fun y => forUpTo VGA_WIDTH fun x v =>
    v.write (vgaIndex y x) (vgaCell (chr ' ') v.attrib)) v
  some (vgaUpdateCursor { v with row := 0, col := 0 } 0 0)

def vgaBackspace (v : Vga) : Option Vga :=
  if v.col > 0 then do
    let v := { v with col := Word.sub v.col 1 }
    let v ← v.write (vgaIndex v.row v.col) (vgaCell (chr ' ') v.attrib)
    some (vgaUpdateCursor v v.col v.row)
  else
    some v

-- The common end of all branches of `vga_putchar` but `'\b'`.
def vgaPutchar.finish (v : Vga) : Option Vga := do
  let v := if v.col ≥ VGA_WIDTH then { v with col := 0, row := Word.add v.row 1 } else v
  let v ← vgaScroll v
  some (vgaUpdateCursor v v.col v.row)

def vgaPutchar (v : Vga) (c : UInt8) : Option Vga :=
  if c = chr '\n' then
    vgaPutchar.finish { v with col := 0, row := Word.add v.row 1 }
  else if c = chr '\r' then
    vgaPutchar.finish { v with col := 0 }
  else if c = 0x08 then
    vgaBackspace v
  else if c = chr '\t' then
    vgaPutchar.finish { v with col := Word.add v.col 4 &&& Word.not 3 }
  else do
    let v ← v.write (vgaIndex v.row v.col) (vgaCell c v.attrib)
    vgaPutchar.finish { v with col := Word.add v.col 1 }

inductive VgaCall where
  | putchar (c : UInt8)
  | backspace
  | setColor (fg bg : UInt8)

def VgaCall.exec (v : Vga) : VgaCall → Option Vga
  | putchar c => vgaPutchar v c
  | backspace => vgaBackspace v
  | setColor fg bg => some (vgaSetColor v fg bg)

def vgaRun (v : Vga) (calls : List VgaCall) : Option Vga := calls.foldlM VgaCall.exec v

end DismasmOS
