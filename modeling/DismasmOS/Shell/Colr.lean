import DismasmOS.Fs.List
import DismasmOS.Shell.ArgBuffer
import DismasmOS.Shell.Repl
import DismasmOS.Vga.Color

/-!
This module contains the command `colr` of `src/shell/shell.c` with the calls it makes of the console.
-/

namespace DismasmOS

-- `print_str_pad`, it is `print_pad` of the file system.
def printStrPad (s : List UInt8) (pad : Nat) : List VgaCall := vgaPuts (printPad s pad)

-- A line of the table.
def colrLine (i : UInt8) : List VgaCall :=
  [.setColor VGA_COLOR_LIGHT_GREY VGA_COLOR_BLACK] ++ vgaPuts (str "  ")
    ++ (if i < 10 then [.putchar (chr ' ')] else []) ++ vgaPuts (itoa i.toNat) ++ vgaPuts (str ": ")
    ++ [.setColor VGA_COLOR_WHITE VGA_COLOR_BLACK] ++ printStrPad (vgaGetColorName i) 15
    ++ [.setColor i VGA_COLOR_BLACK, .putchar 0xDB, .putchar (chr '\n')]

def colrTable : List VgaCall :=
  [.setColor VGA_COLOR_LIGHT_CYAN VGA_COLOR_BLACK] ++ vgaPuts (str "16 Available Colors (0-15):\n")
    ++ (List.range 16).flatMap (fun i => colrLine (UInt8.ofNat i))
    ++ [.setColor VGA_COLOR_LIGHT_GREY VGA_COLOR_BLACK]
    ++ vgaPuts (str "usage: colr <farbe>  (e.g. colr red, colr 4, colr (blue))\n")
    ++ [.setColor VGA_COLOR_WHITE VGA_COLOR_BLACK]

def colrUnknown (arg : List UInt8) : List VgaCall :=
  vgaPuts (str "colr: unknown color '") ++ vgaPuts arg
    ++ vgaPuts (str "'. (type 'colr' for list of 16 colors)\n")

def colrSpot (color : UInt8) : List VgaCall :=
  [.setColor color VGA_COLOR_BLACK, .putchar 0xDB, .setColor VGA_COLOR_WHITE VGA_COLOR_BLACK,
    .putchar (chr '\n')]

-- It has no result if `strcat` writes behind the end of `arg_buf`.
def cmdColr (argv : Argv) : Option (Int × List VgaCall) :=
  if argv.length < 2 then
    some ⟨0, colrTable⟩
  else do
    let argBuf ← joinArgs 64 argv 1 argv.length
    let color := vgaParseColor argBuf
    if color < 0 ∨ color > 15 then
      some ⟨1, colrUnknown argBuf⟩
    else
      some ⟨0, colrSpot (UInt8.ofInt color)⟩

end DismasmOS
