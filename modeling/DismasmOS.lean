import DismasmOS.Heap.Lemmas.Walk
import DismasmOS.Em.Lemmas.Buffer
import DismasmOS.Shell.Machine
import DismasmOS.Shell.Impl
import DismasmOS.Fs.Lemmas.Resolve
import DismasmOS.Fs.Lemmas.Table
import DismasmOS.Str.Lemmas
import DismasmOS.Heap.Lemmas.Request
import DismasmOS.Fs.Lemmas.Refine
import DismasmOS.Em.Dict
import DismasmOS.Em.Impl
import DismasmOS.Em.Lemmas.Edit
import DismasmOS.Em.Lemmas.Session
import DismasmOS.Fs.Op
import DismasmOS.Shell.Lemmas.FileOp
import DismasmOS.Em.Lemmas.Save
import DismasmOS.Fs.Lemmas.Init
import DismasmOS.Shell.Lemmas.Dispatch
import DismasmOS.Shell.Lemmas.Exact
import DismasmOS.Fs.Lemmas.Log
import DismasmOS.Shell.Lemmas.Machine
import DismasmOS.Shell.Lemmas.Audit
import DismasmOS.Shell.Lemmas.Hierarchy
import DismasmOS.Calc.Impl
import DismasmOS.Calc.Expr
import DismasmOS.Calc.Lemmas.Literal
import DismasmOS.Calc.Lemmas.Parse
import DismasmOS.Heap.Lemmas.Coalesce
import DismasmOS.Heap.DoubleFree
import DismasmOS.Heap.Lemmas.Quiet
import DismasmOS.Heap.Lemmas.DoubleFree
import DismasmOS.Lib.Loop
import DismasmOS.Lib.Terminal
import DismasmOS.Vga.Impl
import DismasmOS.Vga.Reference
import DismasmOS.Vga.Lemmas.Screen
import DismasmOS.Vga.Lemmas.Refine
import DismasmOS.Proc.Impl
import DismasmOS.Proc.Lemmas
import DismasmOS.Kbd.Impl
import DismasmOS.Kbd.Machine
import DismasmOS.Kbd.Lemmas.Queue
import DismasmOS.Kbd.Lemmas.Sleep
import DismasmOS.Lib.Chain
import DismasmOS.Shell.Line
import DismasmOS.Shell.Lemmas.Line
import DismasmOS.Shell.Lemmas.Chain
import DismasmOS.Shell.Lemmas.Protect
import DismasmOS.Shell.Cwd
import DismasmOS.Shell.Lemmas.Cwd
import DismasmOS.Shell.System
import DismasmOS.Shell.Lemmas.System
import DismasmOS.Lib.Words
import DismasmOS.Shell.Lemmas.Words
import DismasmOS.Heap.Lemmas.Stats
import DismasmOS.Heap.Lemmas.Space
import DismasmOS.Heap.Lemmas.Keep
import DismasmOS.Heap.Lemmas.Realloc
import DismasmOS.Calc.Command
import DismasmOS.Calc.Lemmas.Command
import DismasmOS.Calc.Reads
import DismasmOS.Calc.Lemmas.Classes
import DismasmOS.Shell.Asm
import DismasmOS.Shell.Lemmas.Asm
import DismasmOS.Lib.TerminalText
import DismasmOS.Shell.Repl
import DismasmOS.Shell.Lemmas.Repl
import DismasmOS.Shell.Lemmas.LineShown
import DismasmOS.Shell.Lemmas.Redirect
import DismasmOS.Lib.History
import DismasmOS.Shell.History
import DismasmOS.Shell.Lemmas.History
import DismasmOS.Kbd.Lemmas.Shift
import DismasmOS.Kbd.Lemmas.KeyCodes
import DismasmOS.Lib.FixedBuffer
import DismasmOS.Shell.ArgBuffer
import DismasmOS.Shell.Lemmas.ArgBuffer
import DismasmOS.Em.Render
import DismasmOS.Em.Lemmas.Render
import DismasmOS.Em.Lemmas.Layout
import DismasmOS.Em.Lemmas.Hop
import DismasmOS.Em.Lemmas.Texts
import DismasmOS.Lib.LineFilter
import DismasmOS.Shell.Lemmas.Grep
import DismasmOS.Lib.ByteText
import DismasmOS.Str.Number
import DismasmOS.Calc.Lemmas.Numeral
import DismasmOS.Fs.List
import DismasmOS.Fs.Lemmas.List
import DismasmOS.Calc.Cursor
import DismasmOS.Calc.Lemmas.Cursor
import DismasmOS.Heap.Objects
import DismasmOS.Heap.Lemmas.Objects
import DismasmOS.Heap.Layout
import DismasmOS.Heap.Lemmas.Layout
import DismasmOS.Heap.Lemmas.SelfTest
import DismasmOS.Boot.Lemmas.Paging
import DismasmOS.Arch.Lemmas.Idt
import DismasmOS.Arch.Lemmas.Isr
import DismasmOS.Arch.Lemmas.Pic
import DismasmOS.Kbd.Lemmas.MouseStream
import DismasmOS.Kbd.Lemmas.Typing
import DismasmOS.Shell.Lemmas.Pager
import DismasmOS.Shell.Lemmas.Typed
import DismasmOS.Shell.Lemmas.Dump
import DismasmOS.Shell.Lemmas.ReadBack
import DismasmOS.Kbd.Lemmas.MouseInit
import DismasmOS.Kbd.Lemmas.MousePorts
import DismasmOS.Shell.Lemmas.Colr
import DismasmOS.Shell.Lemmas.Changes
