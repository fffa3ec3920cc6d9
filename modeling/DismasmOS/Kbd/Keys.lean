/-!
This module contains the codes of `include/kbd.h` for keys that are not characters.
-/

namespace DismasmOS

def KEY_UP : Int := 0x8001
def KEY_DOWN : Int := 0x8002
def KEY_LEFT : Int := 0x8003
def KEY_RIGHT : Int := 0x8004
def KEY_HOME : Int := 0x8005
def KEY_END : Int := 0x8006
def KEY_PGUP : Int := 0x8007
def KEY_PGDN : Int := 0x8008
def KEY_INSERT : Int := 0x8009
def KEY_DELETE : Int := 0x800A
def KEY_ALT : Int := 0x800B
def KEY_SCROLL_UP : Int := 0x800C
def KEY_SCROLL_DOWN : Int := 0x800D

end DismasmOS
