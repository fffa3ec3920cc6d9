import DismasmOS.Fs.Resolve
import DismasmOS.Em.Impl
import DismasmOS.Shell.Asm

/-!
This module contains the part of `src/shell/shell.c` that works on files: the commands, the
redirection of `echo` and the dispatch from a command line to a command. The console is kept as the
text printed so far.
-/

namespace DismasmOS

structure Shell where
  fs : Fs
  cwd : List UInt8
  console : List UInt8

namespace Shell

def puts (s : Shell) (text : List UInt8) : Shell := { s with console := s.console ++ cstr text }

def resolve (s : Shell) (path : List UInt8) : List UInt8 := fsResolvePath s.cwd path

def setTable (s : Shell) (table : FileTable) : Shell := { s with fs := { s.fs with table := table } }

def log (s : Shell) (type filename : List UInt8) : Shell :=
  { s with fs := fsLogChange s.fs type (str "root") filename }

end Shell

section Commands

def cmdEcho (s : Shell) (argv : Argv) : Shell :=
  s.puts (List.intercalate (str " ") argv.tail ++ str "\n")

def cmdCd (s : Shell) (argv : Argv) : Int × Shell :=
  if argv.length < 2 ∨ strcmp (argv.arg 1) (str "~") = 0 then
    ⟨0, { s with cwd := str "/home" }⟩
  else if strcmp (argv.arg 1) (str "/") = 0 then
    ⟨0, { s with cwd := str "/" }⟩
  else
    let resolved := s.resolve (argv.arg 1)
    if fsIsDir s.fs.table resolved then
      ⟨0, { s with cwd := (cstr resolved).take (FS_MAX_PATH - 1) }⟩
    else
      ⟨1, s.puts (str "cd: no such directory: " ++ argv.arg 1 ++ str "\n")⟩

def cmdMakedir (s : Shell) (argv : Argv) : Int × Shell :=
  if argv.length < 2 then
    ⟨1, s.puts (str "usage: makedir <directory>\n")⟩
  else
    let resolved := s.resolve (argv.arg 1)
    if fsFind s.fs.table resolved ≠ none ∨ strcmp resolved (str "/") = 0 then
      ⟨1, s.puts (str "makedir: directory already exists: " ++ resolved ++ str "\n")⟩
    else
      let made := fsMkdir s.fs.table resolved
      let s := s.setTable made.2
      if made.1 = 0 then
        let s := s.log (str "CREATED") resolved
        ⟨0, s.puts (str "created directory: " ++ resolved ++ str "\n")⟩
      else
        ⟨1, s.puts (str "makedir: cannot create directory\n")⟩

def cmdTouch (s : Shell) (argv : Argv) : Int × Shell :=
  if argv.length < 2 then
    ⟨1, s.puts (str "usage: touch <file>\n")⟩
  else
    let resolved := s.resolve (argv.arg 1)
    if fsFind s.fs.table resolved = none then
      let created := fsCreate s.fs.table resolved
      let s := s.setTable created.2
      if created.1 = 0 then
        ⟨0, s.log (str "CREATED") resolved⟩
      else
        ⟨1, s.puts (str "touch: cannot create file\n")⟩
    else
      ⟨0, s⟩

def cmdRm (s : Shell) (argv : Argv) : Int × Shell :=
  if argv.length < 2 then
    ⟨1, s.puts (str "usage: rm <file>\n")⟩
  else
    let resolved := s.resolve (argv.arg 1)
    let deleted := fsDelete s.fs.table resolved
    let s := s.setTable deleted.2
    if deleted.1 = 0 then
      let s := s.log (str "DELETED") resolved
      ⟨0, s.puts (str "removed: " ++ resolved ++ str "\n")⟩
    else
      ⟨1, s.puts (str "rm: file not found: " ++ argv.arg 1 ++ str "\n")⟩

def cmdCat (s : Shell) (argv : Argv) : Int × Shell :=
  if argv.length < 2 then
    ⟨1, s.puts (str "usage: cat <file>\n")⟩
  else
    let resolved := s.resolve (argv.arg 1)
    match fsFind s.fs.table resolved with
    | none => ⟨1, s.puts (str "cat: file not found: " ++ argv.arg 1 ++ str "\n")⟩
    | some i =>
      let file := s.fs.table.get i
      if file.isDir then
        ⟨1, s.puts (str "cat: file not found: " ++ argv.arg 1 ++ str "\n")⟩
      else
        let s := (s.log (str "VIEW") resolved).puts file.data.chars
        if file.size > 0 ∧ file.data.get (file.size - 1) ≠ newline then
          ⟨0, s.puts (str "\n")⟩
        else
          ⟨0, s⟩

-- The loop of `cmd_grep` over what is left of the file, `line` holds the current line.
def grepLines (pattern : List UInt8) (line : List UInt8) (data : List UInt8) : List UInt8 :=
  let flush := if line ≠ [] ∧ (strstr line pattern).isSome then line ++ str "\n" else []
  match data with
  | [] => []
  | c :: data =>
    if c = NUL then
      flush
    else if c = newline then
      flush ++ grepLines pattern [] data
    else if line.length < 255 then
      grepLines pattern (line ++ [c]) data
    else
      grepLines pattern line data

def cmdGrep (s : Shell) (argv : Argv) : Int × Shell :=
  if argv.length < 3 then
    ⟨1, s.puts (str "usage: grep <pattern> <file>\n")⟩
  else
    let resolved := s.resolve (argv.arg 2)
    match fsFind s.fs.table resolved with
    | none => ⟨1, s.puts (str "grep: file not found: " ++ argv.arg 2 ++ str "\n")⟩
    | some i =>
      let file := s.fs.table.get i
      if file.isDir then
        ⟨1, s.puts (str "grep: file not found: " ++ argv.arg 2 ++ str "\n")⟩
      else
        let s := s.log (str "VIEW") resolved
        ⟨0, s.puts (grepLines (argv.arg 1) [] (file.data.chars.take (file.size + 1)))⟩

end Commands

section Dispatch

-- `em_run` keeps the keyboard until it is left, the shell continues with status 0 then. The machine code
-- that `asm` calls may do anything to the system, the model ends there.
inductive Outcome where
  | exit (status : Int) (s : Shell)
  | em (filename : List UInt8) (s : Shell)
  | native (payload : List UInt8) (s : Shell)

def cmdEm (s : Shell) (argv : Argv) : Outcome :=
  if argv.length < 2 then
    .exit 0 (s.puts (str "usage: em <file>\n"))
  else
    .em (s.resolve (argv.arg 1)) s

-- `result` is the status and the output when nothing is called.
def callAsm (result : Int × List UInt8) (s : Shell) (argv : Argv) : Outcome :=
  match cmdAsm argv with
  | .call payload => .native payload s
  | _ => .exit result.1 (s.puts result.2)

def otherCommands : List (List UInt8) :=
  ["wdid", "man", "help", "clear", "colr", "heap", "calc", "dump", "reg", "lsf", "changes",
    "uname", "MemRep", "memrep", "lang", "pr", "shutdown", "reboot"].map str

-- `others` gives the status and the output of the commands that leave files, directories, the working
-- directory and the log alone, and of `asm` when it does not get as far as to call machine code.
def executeCommand (others : Shell → Argv → Int × List UInt8) (s : Shell) (argv : Argv) : Outcome :=
  let isCmd := fun (name : String) => strcmp (argv.arg 0) (str name) = 0
  let exit := fun (r : Int × Shell) => Outcome.exit r.1 r.2
  if argv.length = 0 then
    .exit 0 s
  else if isCmd "echo" then
    .exit 0 (cmdEcho s argv)
  else if isCmd "cd" then
    exit (cmdCd s argv)
  else if isCmd "makedir" then
    exit (cmdMakedir s argv)
  else if isCmd "rm" then
    exit (cmdRm s argv)
  else if isCmd "cat" then
    exit (cmdCat s argv)
  else if isCmd "grep" then
    exit (cmdGrep s argv)
  else if isCmd "touch" then
    exit (cmdTouch s argv)
  else if isCmd "em" then
    cmdEm s argv
  else if isCmd "asm" then
    callAsm (others s argv) s argv
  else if otherCommands.any fun name => strcmp (argv.arg 0) name = 0 then
    let r := others s argv
    .exit r.1 (s.puts r.2)
  else
    .exit 1 (s.puts (str "unknown command: " ++ argv.arg 0 ++ str " (type 'help' for list)\n"))

def isQuote (c : UInt8) : Bool := c = chr '"' || c = chr '\''

-- What `echo` writes: the rest of the command without the quotes around it.
def echoText (cmdLeft : List UInt8) : List UInt8 :=
  let text := skipBlanks (cmdLeft.drop 4)
  if isQuote (text.headD NUL) then
    let q := text.headD NUL
    let text := text.tail
    if text.getLast? = some q then text.dropLast else text
  else
    text

def isEcho (cmdLeft : List UInt8) : Bool :=
  strncmp cmdLeft (str "echo") 4 = 0
    && (isBlank (cmdLeft.getD 4 NUL) || cmdLeft.getD 4 NUL = NUL)

def echoTo (s : Shell) (text target : List UInt8) : Int × Shell :=
  let resolved := s.resolve target
  let present := (fsFind s.fs.table resolved).isSome
  let created := if present then ⟨0, s.fs.table⟩ else fsCreate s.fs.table resolved
  let s := s.setTable created.2
  if created.1 ≠ 0 then
    ⟨1, s.puts (str "error: cannot create file: " ++ resolved ++ str "\n")⟩
  else
    let s := if present then s else s.log (str "CREATED") resolved
    let s := s.setTable (fsWrite s.fs.table resolved text (strlen text)).2
    ⟨0, if present then s.log (str "EDITED") resolved else s⟩

def handleSingleCommand (others : Shell → Argv → Int × List UInt8) (s : Shell)
    (cmdBuf : List UInt8)
    : Outcome :=
  match strchr cmdBuf (chr '>') with
  | none => executeCommand others s (tokenize cmdBuf MAX_ARGS)
  | some redir =>
    let target := stripBlanks (skipBlanks (cmdBuf.drop (redir + 1)))
    if target = [] then
      .exit 1 (s.puts (str "syntax error: no file after '>'\n"))
    else
      let cmdLeft := stripBlanks (skipBlanks (cmdBuf.take redir))
      if isEcho cmdLeft then
        let r := echoTo s (echoText cmdLeft) target
        .exit r.1 r.2
      else
        executeCommand others s (tokenize (stripBlanks (cmdBuf.take redir)) MAX_ARGS)

end Dispatch

end DismasmOS
