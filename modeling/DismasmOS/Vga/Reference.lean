import DismasmOS.Lib.Terminal
import DismasmOS.Vga.Impl

/-!
This module contains what the console is meant to be: a window on the last rows of a terminal that
never forgets.
-/

namespace DismasmOS

instance : NeZero VGA_WIDTH := ⟨by decide⟩

abbrev Console := Terminal UInt8 VGA_WIDTH

def Console.putchar (t : Console) (c : UInt8) : Console :=
  if c = chr '\n' then
    t.newline (chr ' ')
  else if c = chr '\r' then
    t.carriageReturn
  else if c = 0x08 then
    t.backspace (chr ' ')
  else if c = chr '\t' then
    t.tab (chr ' ') 4
  else
    t.put (chr ' ') c

-- Colors are not part of the character grid.
def VgaCall.apply (t : Console) : VgaCall → Console
  | putchar c => t.putchar c
  | backspace => t.backspace (chr ' ')
  | setColor _ _ => t

def Vga.charAt (v : Vga) (y x : Nat) : Option UInt8 := (v.read (vgaIndex y x)).map UInt16.toUInt8

structure Vga.Window (v : Vga) (t : Console) : Prop where
  row : v.row + 1 = (t.lastRows VGA_HEIGHT).length
  chars : ∀ y x, y < VGA_HEIGHT → x < VGA_WIDTH
    → v.charAt y x = some (t.screen (chr ' ') VGA_HEIGHT y x)

structure Vga.Shows (v : Vga) (t : Console) : Prop extends v.Window t where
  col : v.col = t.col

end DismasmOS
