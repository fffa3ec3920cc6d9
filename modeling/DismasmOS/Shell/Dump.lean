import DismasmOS.Lib.Loop
import DismasmOS.Calc.Command
import DismasmOS.Shell.Asm

/-!
This module contains the command `dump` of `src/shell/shell.c` and what a reader takes its rows for.
-/

namespace DismasmOS

-- Memory as a process sees it, `none` is a page fault. The console lies in it: a dump reads a memory that its
-- own text may change, `mem text` is the memory when `text` has been printed.
abbrev PagedMem := UInt64 → Option UInt8

end DismasmOS
