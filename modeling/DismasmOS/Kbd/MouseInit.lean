import DismasmOS.Arch.Pic
import DismasmOS.Kbd.Impl
import DismasmOS.Lib.Ports

/-!
This module contains how `src/drivers/mouse.c` sets up the controller and the mouse, on any hardware behind
the ports.
-/

namespace DismasmOS

def MOUSE_PORT_DATA : UInt16 := 0x60
def MOUSE_PORT_STATUS : UInt16 := 0x64
def MOUSE_STATUS_INPUT_BUFFER_FULL : UInt8 := 0x02

-- The start value of `timeout`.
def MOUSE_TIMEOUT : Nat := 100000

def IO_WAIT_PORT : UInt16 := 0x80

section Driver

variable {σ : Type} (io : Ports σ)

def canWrite (status : UInt8) : Bool := status &&& MOUSE_STATUS_INPUT_BUFFER_FULL = 0

def canRead (status : UInt8) : Bool := status &&& MOUSE_STATUS_OUTPUT_BUFFER_FULL ≠ 0

end Driver

end DismasmOS
