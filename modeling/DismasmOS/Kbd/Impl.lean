import DismasmOS.Lib.RingBuffer
import DismasmOS.Kbd.Keys
import DismasmOS.Str.Impl

/-!
This module contains the keyboard driver of `src/arch/kbd.c` and the interrupt handler of
`src/drivers/mouse.c`, which puts the scroll wheel into the same key queue.
-/

namespace DismasmOS

def KBD_BUF_SIZE : Nat := 256

theorem KBD_BUF_SIZE_pos : 0 < KBD_BUF_SIZE := by decide

inductive KbdLayout where
  | de
  | en
  deriving DecidableEq

-- `accepted` is not in the source, it remembers all keys that were put into the queue.
structure Kbd where
  queue : RingBuffer Int KBD_BUF_SIZE
  shiftPressed : Bool
  altgrPressed : Bool
  extended : Bool
  currentLayout : KbdLayout
  accepted : List Int

-- The value of `(char)c` as an `int`.
def charKey (c : UInt8) : Int := c.toInt8.toInt

abbrev Keymap := List (UInt8 × UInt8)

def kbdMapDeNormal : Keymap := [
  (0x01, 27), (0x02, chr '1'), (0x03, chr '2'), (0x04, chr '3'), (0x05, chr '4'), (0x06, chr '5'),
  (0x07, chr '6'), (0x08, chr '7'), (0x09, chr '8'), (0x0A, chr '9'), (0x0B, chr '0'), (0x0C, 0xE1),
  (0x0D, 0x60), (0x0E, 0x08), (0x0F, chr '\t'), (0x10, chr 'q'), (0x11, chr 'w'), (0x12, chr 'e'),
  (0x13, chr 'r'), (0x14, chr 't'), (0x15, chr 'z'), (0x16, chr 'u'), (0x17, chr 'i'),
  (0x18, chr 'o'), (0x19, chr 'p'), (0x1A, 0x81), (0x1B, chr '+'), (0x1C, chr '\n'),
  (0x1E, chr 'a'), (0x1F, chr 's'), (0x20, chr 'd'), (0x21, chr 'f'), (0x22, chr 'g'),
  (0x23, chr 'h'), (0x24, chr 'j'), (0x25, chr 'k'), (0x26, chr 'l'), (0x27, 0x94), (0x28, 0x84),
  (0x29, chr '^'), (0x2B, chr '#'), (0x2C, chr 'y'), (0x2D, chr 'x'), (0x2E, chr 'c'),
  (0x2F, chr 'v'), (0x30, chr 'b'), (0x31, chr 'n'), (0x32, chr 'm'), (0x33, chr ','),
  (0x34, chr '.'), (0x35, chr '-'), (0x37, chr '*'), (0x39, chr ' '), (0x4A, chr '-'),
  (0x4E, chr '+'), (0x56, chr '<')
]

def kbdMapDeShifted : Keymap := [
  (0x01, 27), (0x02, chr '!'), (0x03, 0x22), (0x04, 0x15), (0x05, chr '$'), (0x06, chr '%'),
  (0x07, chr '&'), (0x08, chr '/'), (0x09, chr '('), (0x0A, chr ')'), (0x0B, chr '='),
  (0x0C, chr '?'), (0x0D, 0x60), (0x0E, 0x08), (0x0F, chr '\t'), (0x10, chr 'Q'), (0x11, chr 'W'),
  (0x12, chr 'E'), (0x13, chr 'R'), (0x14, chr 'T'), (0x15, chr 'Z'), (0x16, chr 'U'),
  (0x17, chr 'I'), (0x18, chr 'O'), (0x19, chr 'P'), (0x1A, 0x9A), (0x1B, chr '*'),
  (0x1C, chr '\n'), (0x1E, chr 'A'), (0x1F, chr 'S'), (0x20, chr 'D'), (0x21, chr 'F'),
  (0x22, chr 'G'), (0x23, chr 'H'), (0x24, chr 'J'), (0x25, chr 'K'), (0x26, chr 'L'), (0x27, 0x99),
  (0x28, 0x8E), (0x29, 0xF8), (0x2B, 0x27), (0x2C, chr 'Y'), (0x2D, chr 'X'), (0x2E, chr 'C'),
  (0x2F, chr 'V'), (0x30, chr 'B'), (0x31, chr 'N'), (0x32, chr 'M'), (0x33, chr ';'),
  (0x34, chr ':'), (0x35, chr '_'), (0x37, chr '*'), (0x39, chr ' '), (0x4A, chr '-'),
  (0x4E, chr '+'), (0x56, chr '>')
]

def kbdMapEnNormal : Keymap := [
  (0x01, 27), (0x02, chr '1'), (0x03, chr '2'), (0x04, chr '3'), (0x05, chr '4'), (0x06, chr '5'),
  (0x07, chr '6'), (0x08, chr '7'), (0x09, chr '8'), (0x0A, chr '9'), (0x0B, chr '0'),
  (0x0C, chr '-'), (0x0D, chr '='), (0x0E, 0x08), (0x0F, chr '\t'), (0x10, chr 'q'),
  (0x11, chr 'w'), (0x12, chr 'e'), (0x13, chr 'r'), (0x14, chr 't'), (0x15, chr 'y'),
  (0x16, chr 'u'), (0x17, chr 'i'), (0x18, chr 'o'), (0x19, chr 'p'), (0x1A, chr '['),
  (0x1B, chr ']'), (0x1C, chr '\n'), (0x1E, chr 'a'), (0x1F, chr 's'), (0x20, chr 'd'),
  (0x21, chr 'f'), (0x22, chr 'g'), (0x23, chr 'h'), (0x24, chr 'j'), (0x25, chr 'k'),
  (0x26, chr 'l'), (0x27, chr ';'), (0x28, 0x27), (0x29, 0x60), (0x2B, 0x5C), (0x2C, chr 'z'),
  (0x2D, chr 'x'), (0x2E, chr 'c'), (0x2F, chr 'v'), (0x30, chr 'b'), (0x31, chr 'n'),
  (0x32, chr 'm'), (0x33, chr ','), (0x34, chr '.'), (0x35, chr '/'), (0x37, chr '*'),
  (0x39, chr ' '), (0x4A, chr '-'), (0x4E, chr '+')
]

def kbdMapEnShifted : Keymap := [
  (0x01, 27), (0x02, chr '!'), (0x03, chr '@'), (0x04, chr '#'), (0x05, chr '$'), (0x06, chr '%'),
  (0x07, chr '^'), (0x08, chr '&'), (0x09, chr '*'), (0x0A, chr '('), (0x0B, chr ')'),
  (0x0C, chr '_'), (0x0D, chr '+'), (0x0E, 0x08), (0x0F, chr '\t'), (0x10, chr 'Q'),
  (0x11, chr 'W'), (0x12, chr 'E'), (0x13, chr 'R'), (0x14, chr 'T'), (0x15, chr 'Y'),
  (0x16, chr 'U'), (0x17, chr 'I'), (0x18, chr 'O'), (0x19, chr 'P'), (0x1A, 0x7B), (0x1B, 0x7D),
  (0x1C, chr '\n'), (0x1E, chr 'A'), (0x1F, chr 'S'), (0x20, chr 'D'), (0x21, chr 'F'),
  (0x22, chr 'G'), (0x23, chr 'H'), (0x24, chr 'J'), (0x25, chr 'K'), (0x26, chr 'L'),
  (0x27, chr ':'), (0x28, 0x22), (0x29, chr '~'), (0x2B, chr '|'), (0x2C, chr 'Z'), (0x2D, chr 'X'),
  (0x2E, chr 'C'), (0x2F, chr 'V'), (0x30, chr 'B'), (0x31, chr 'N'), (0x32, chr 'M'),
  (0x33, chr '<'), (0x34, chr '>'), (0x35, chr '?'), (0x37, chr '*'), (0x39, chr ' '),
  (0x4A, chr '-'), (0x4E, chr '+')
]

def Keymap.get (map : Keymap) (scancode : UInt8) : Int :=
  match map.lookup scancode with
  | some c => charKey c
  | none => 0

def kbdInit (k : Kbd) : Kbd :=
  { k with
      queue := { k.queue with head := ⟨0, KBD_BUF_SIZE_pos⟩, tail := ⟨0, KBD_BUF_SIZE_pos⟩ }
      shiftPressed := false
      altgrPressed := false
      extended := false
      currentLayout := .de
      accepted := [] }

def kbdSetLayout (k : Kbd) (layout : KbdLayout) : Kbd := { k with currentLayout := layout }

def kbdEnqueueKey (k : Kbd) (key : Int) : Kbd :=
  match k.queue.push key with
  | some queue => { k with queue := queue, accepted := k.accepted ++ [key] }
  | none => k

-- The keys behind the prefix 0xE0.
def kbdExtendedKey (scancode : UInt8) : Int :=
  if scancode = 0x48 then KEY_UP
  else if scancode = 0x50 then KEY_DOWN
  else if scancode = 0x4B then KEY_LEFT
  else if scancode = 0x4D then KEY_RIGHT
  else if scancode = 0x47 then KEY_HOME
  else if scancode = 0x4F then KEY_END
  else if scancode = 0x49 then KEY_PGUP
  else if scancode = 0x51 then KEY_PGDN
  else if scancode = 0x52 then KEY_INSERT
  else if scancode = 0x53 then KEY_DELETE
  else 0

def kbdAltgrKey (scancode : UInt8) : Int :=
  if scancode = 0x10 then charKey (chr '@')
  else if scancode = 0x03 then charKey 0xFD
  else if scancode = 0x04 then charKey 0xFC
  else if scancode = 0x08 then charKey 0x7B
  else if scancode = 0x09 then charKey (chr '[')
  else if scancode = 0x0A then charKey (chr ']')
  else if scancode = 0x0B then charKey 0x7D
  else if scancode = 0x0C then charKey 0x5C
  else if scancode = 0x12 then charKey (chr 'e')
  else if scancode = 0x1B then charKey (chr '~')
  else if scancode = 0x32 then charKey 0xE6
  else if scancode = 0x56 then charKey (chr '|')
  else 0

def kbdKey (k : Kbd) (scancode : UInt8) : Int :=
  if scancode = 0x48 then KEY_UP
  else if scancode = 0x50 then KEY_DOWN
  else if scancode = 0x4B then KEY_LEFT
  else if scancode = 0x4D then KEY_RIGHT
  else if scancode = 0x47 then KEY_HOME
  else if scancode = 0x4F then KEY_END
  else if scancode = 0x49 then KEY_PGUP
  else if scancode = 0x51 then KEY_PGDN
  else if scancode = 0x53 then KEY_DELETE
  else if k.currentLayout = .de then
    if k.altgrPressed then kbdAltgrKey scancode
    else if scancode < 128 then
      if k.shiftPressed then kbdMapDeShifted.get scancode else kbdMapDeNormal.get scancode
    else 0
  else if scancode < 128 then
    if k.shiftPressed then kbdMapEnShifted.get scancode else kbdMapEnNormal.get scancode
  else 0

-- `kbd_handler` behind the branch for extended scancodes.
def kbdHandlePlain (k : Kbd) (scancode : UInt8) : Kbd :=
  if scancode = 0x2A ∨ scancode = 0x36 then
    { k with shiftPressed := true }
  else if scancode = 0xAA ∨ scancode = 0xB6 then
    { k with shiftPressed := false }
  else if scancode = 0x38 then
    kbdEnqueueKey k KEY_ALT
  else if scancode = 0xB8 then
    k
  else if scancode &&& 0x80 ≠ 0 then
    k
  else
    let c := kbdKey k scancode
    if c ≠ 0 then kbdEnqueueKey k c else k

def kbdHandler (k : Kbd) (scancode : UInt8) : Kbd :=
  if scancode = 0xE0 then
    { k with extended := true }
  else if k.extended then
    let k := { k with extended := false }
    if scancode = 0x38 then
      { k with altgrPressed := true }
    else if scancode = 0xB8 then
      { k with altgrPressed := false }
    else if scancode &&& 0x80 ≠ 0 then
      k
    else
      let key := kbdExtendedKey scancode
      if key ≠ 0 then kbdEnqueueKey k key else kbdHandlePlain k scancode
  else
    kbdHandlePlain k scancode

structure Mouse where
  cycle : UInt8
  packet : Vector UInt8 4
  hasWheel : Bool

def MOUSE_STATUS_OUTPUT_BUFFER_FULL : UInt8 := 0x01
def MOUSE_STATUS_MOUSE_DATA : UInt8 := 0x20

-- `status` and `data` are what the ports of the controller deliver.
def mouseHandler (m : Mouse) (k : Kbd) (status data : UInt8) : Mouse × Kbd :=
  if status &&& MOUSE_STATUS_OUTPUT_BUFFER_FULL ≠ 0 ∧ status &&& MOUSE_STATUS_MOUSE_DATA ≠ 0 then
    if m.cycle = 0 then
      if data &&& 0x08 ≠ 0 then
        ⟨{ m with packet := m.packet.set 0 data, cycle := 1 }, k⟩
      else
        ⟨m, k⟩
    else if m.cycle = 1 then
      ⟨{ m with packet := m.packet.set 1 data, cycle := 2 }, k⟩
    else if m.cycle = 2 then
      ⟨{ m with packet := m.packet.set 2 data, cycle := if m.hasWheel then 3 else 0 }, k⟩
    else if m.cycle = 3 then
      let m := { m with packet := m.packet.set 3 data, cycle := 0 }
      let z : Int8 := m.packet[3].toInt8
      ⟨m, if z > 0 then kbdEnqueueKey k KEY_SCROLL_UP
        else if z < 0 then kbdEnqueueKey k KEY_SCROLL_DOWN else k⟩
    else
      ⟨m, k⟩
  else
    ⟨m, k⟩

end DismasmOS
