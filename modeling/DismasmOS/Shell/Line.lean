import DismasmOS.Lib.Chain
import DismasmOS.Shell.Impl

/-!
This module contains `handle_line` of `src/shell/shell.c` on the array that holds the command line. The
line is cut into its commands, and these into their parts, by NULs that are written into the array.
-/

namespace DismasmOS

namespace CharArray

variable {n : Nat}

theorem lt_of_get_ne {a : CharArray n} {p : Nat} (h : a.get p ≠ NUL) : p < n := by
  unfold get at h
  rw [← a.length_chars]
  by_contra hge
  apply h
  rw [List.getD_eq_getElem?_getD, List.getElem?_eq_none (by omega)]
  rfl

-- The string that starts at index `p`.
def strAt (a : CharArray n) (p : Nat) : List UInt8 := cstr (a.chars.drop p)

-- `while (*p == ' ' || *p == '\t') p++`
def skipBlanksAt (a : CharArray n) (p : Nat) : Nat := p + ((a.chars.drop p).takeWhile isBlank).length

-- `while (end > start && (*(end - 1) == ' ' || *(end - 1) == '\t')) end--`
def stripEnd (a : CharArray n) (start stop : Nat) : Nat :=
  match stop with
  | 0 => 0
  | stop + 1 => if stop + 1 > start ∧ isBlank (a.get stop) then a.stripEnd start stop else stop + 1

-- The start of the trimmed string and the array in which a NUL ends it.
def trimAt (a : CharArray n) (p : Nat) : Nat × CharArray n :=
  let start := a.skipBlanksAt p
  let stop := a.stripEnd start (start + strlen (a.chars.drop start))
  ⟨start, a.set stop NUL⟩

def fillNul (a : CharArray n) (p count : Nat) : CharArray n :=
  match count with
  | 0 => a
  | count + 1 => (a.set p NUL).fillNul (p + 1) count

-- The pointers to the tokens and the array in which NULs end them.
def tokenizeAt (a : CharArray n) (p maxArgs : Nat) : List Nat × CharArray n :=
  match maxArgs with
  | 0 => ⟨[], a⟩
  | maxArgs + 1 =>
    if a.get p = NUL then
      ⟨[], a⟩
    else
      let arg := a.skipBlanksAt p
      let a := a.fillNul p (arg - p)
      if a.get arg = NUL then
        ⟨[], a⟩
      else
        let stop := arg + ((a.chars.drop arg).takeWhile fun c => c ≠ NUL && !isBlank c).length
        let rest := a.tokenizeAt stop maxArgs
        ⟨arg :: rest.1, rest.2⟩

end CharArray

-- What a command line comes down to: a command, the redirection of `echo`, or an error.
structure Executor (ρ : Type) where
  execute : Argv → ρ
  echoTo : (text target : List UInt8) → ρ
  noTarget : ρ

section HandleLine

variable {n : Nat} {σ ρ : Type}

def tokenizeAndExecute (x : Executor ρ) (a : CharArray n) (cmdBuf : Nat) : ρ × CharArray n :=
  let r := a.tokenizeAt cmdBuf MAX_ARGS
  ⟨x.execute (r.1.map r.2.strAt), r.2⟩

-- `echo` with its text at `text`, from which the closing quote is cut off.
def echoAt (x : Executor ρ) (a : CharArray n) (text target : Nat) : ρ × CharArray n :=
  if isQuote (a.get text) then
    let q := a.get text
    let text := text + 1
    let tlen := strlen (a.chars.drop text)
    let a := if tlen > 0 ∧ a.get (text + tlen - 1) = q then a.set (text + tlen - 1) NUL else a
    ⟨x.echoTo (a.strAt text) (a.strAt target), a⟩
  else
    ⟨x.echoTo (a.strAt text) (a.strAt target), a⟩

def handleSingleCommandAt (x : Executor ρ) (a : CharArray n) (cmdBuf : Nat) : ρ × CharArray n :=
  match strchr (a.chars.drop cmdBuf) (chr '>') with
  | none => tokenizeAndExecute x a cmdBuf
  | some redir =>
    let a := a.set (cmdBuf + redir) NUL
    let r := a.trimAt (cmdBuf + redir + 1)
    let target := r.1
    let a := r.2
    if a.get target = NUL then
      ⟨x.noTarget, a⟩
    else
      let r := a.trimAt cmdBuf
      let cmdLeft := r.1
      let a := r.2
      if isEcho (a.strAt cmdLeft) then
        echoAt x a (a.skipBlanksAt (cmdLeft + 4)) target
      else
        tokenizeAndExecute x a cmdBuf

-- The commands that `handle_single_command` is called with, as they read then, and the state behind
-- the last one.
def handleLineAt (x : σ → Executor (Int × σ)) (s : σ) (a : CharArray n) (p : Nat)
    : List (List UInt8) × σ :=
  if a.get p = NUL then
    ⟨[], s⟩
  else
    match strstr (a.chars.drop p) (str "&&") with
    | some off =>
      let sep := p + off
      let r := (a.set sep NUL).trimAt p
      let sub := r.1
      let a := r.2
      if a.get sub ≠ NUL then
        let r := handleSingleCommandAt (x s) a sub
        if r.1.1 ≠ 0 then
          ⟨[a.strAt sub], r.1.2⟩
        else
          let rest := handleLineAt x r.1.2 r.2 (sep + 2)
          ⟨a.strAt sub :: rest.1, rest.2⟩
      else
        handleLineAt x s a (sep + 2)
    | none =>
      let r := a.trimAt p
      let sub := r.1
      let a := r.2
      if a.get sub ≠ NUL then
        ⟨[a.strAt sub], (handleSingleCommandAt (x s) a sub).1.2⟩
      else
        ⟨[], s⟩
termination_by n - p
decreasing_by all_goals
  have hp := CharArray.lt_of_get_ne (p := p) (by assumption)
  omega

end HandleLine

section Text

variable {ρ : Type}

def trimmed (text : List UInt8) : List UInt8 := stripBlanks (skipBlanks text)

-- The commands of a line, in order.
def pieces (line : List UInt8) : List (List UInt8) :=
  ((splitPair (chr '&') (chr '&') line).map trimmed).filter (· ≠ [])

def handleSingleText (x : Executor ρ) (cmdBuf : List UInt8) : ρ :=
  match strchr cmdBuf (chr '>') with
  | none => x.execute (tokenize cmdBuf MAX_ARGS)
  | some redir =>
    let target := trimmed (cmdBuf.drop (redir + 1))
    if target = [] then
      x.noTarget
    else
      let cmdLeft := trimmed (cmdBuf.take redir)
      if isEcho cmdLeft then
        x.echoTo (echoText cmdLeft) target
      else
        x.execute (tokenize (stripBlanks (cmdBuf.take redir)) MAX_ARGS)

-- The call that a command line comes down to.
inductive LineCall where
  | execute (argv : Argv)
  | echoTo (text target : List UInt8)
  | noTarget

def LineCall.run (x : Executor ρ) (call : LineCall) : ρ :=
  match call with
  | .execute argv => x.execute argv
  | .echoTo text target => x.echoTo text target
  | .noTarget => x.noTarget

def lineCall (cmdBuf : List UInt8) : LineCall := handleSingleText ⟨.execute, .echoTo, .noTarget⟩ cmdBuf

def shellExecutor (others : Shell → Argv → Int × List UInt8) (s : Shell) : Executor Outcome where
  execute := executeCommand others s
  echoTo := fun text target =>
    let r := echoTo s text target
    .exit r.1 r.2
  noTarget := .exit 1 (s.puts (str "syntax error: no file after '>'\n"))

end Text

end DismasmOS
