import DismasmOS.Calc.Expr
import DismasmOS.Shell.Tokens

/-!
This module contains the command `asm` of `src/shell/shell.c`: the choice between its mnemonics and a
call, and the conversion of the tokens into `asm_payload`. Behind it stand the bytes that hexadecimal
tokens denote.
-/

namespace DismasmOS

def ASM_PAYLOAD_SIZE : Nat := 256

def ASM_RET : UInt8 := 0xC3

-- `payload` is `asm_payload` up to `count`. A last digit without a partner is a number of its own.
def asmPairs (payload : List UInt8) (tok : List UInt8) : List UInt8 :=
  match tok with
  | [] => payload
  | [c] =>
    if payload.length ≥ ASM_PAYLOAD_SIZE - 2 then
      payload
    else
      payload ++ [(parseNum [c]).toUInt8]
  | c :: c' :: tok =>
    if payload.length ≥ ASM_PAYLOAD_SIZE - 2 then
      payload
    else
      asmPairs (payload ++ [(parseNum [c, c']).toUInt8]) tok

def asmDigits (tok : List UInt8) : List UInt8 := if isHexPrefix tok then tok.drop 2 else tok

def asmToken (payload : List UInt8) (tok : List UInt8) : List UInt8 :=
  asmPairs payload (cstr (asmDigits tok))

inductive AsmAction where
  | usage
  | nop
  | cli
  | sti
  | rdtsc
  | cpuid
  | invalid
  | call (payload : List UInt8)
  deriving DecidableEq

def cmdAsm (argv : Argv) : AsmAction :=
  if argv.length < 2 then
    .usage
  else if strcmp (argv.arg 1) (str "nop") = 0 then
    .nop
  else if strcmp (argv.arg 1) (str "cli") = 0 then
    .cli
  else if strcmp (argv.arg 1) (str "sti") = 0 then
    .sti
  else if strcmp (argv.arg 1) (str "rdtsc") = 0 then
    .rdtsc
  else if strcmp (argv.arg 1) (str "cpuid") = 0 then
    .cpuid
  else
    let payload := (argv.drop 1).foldl asmToken []
    if payload.length = 0 then
      .invalid
    else if payload.getD (payload.length - 1) 0 ≠ ASM_RET then
      .call (payload ++ [ASM_RET])
    else
      .call payload

namespace AsmAction

-- `asm_payload[0..count)` when the decoding of the tokens is done.
def payload (action : AsmAction) : List UInt8 :=
  match action with
  | call payload => payload
  | _ => []

end AsmAction

def hexPairs (digits : List UInt8) : List (UInt8 × UInt8) :=
  match digits with
  | c :: c' :: digits => (c, c') :: hexPairs digits
  | _ => []

structure IsBytecode (tok : List UInt8) : Prop where
  hex : ∀ c ∈ asmDigits tok, isHexDigit c
  even : (asmDigits tok).length % 2 = 0

def bytecodePairs (args : Argv) : List (UInt8 × UInt8) :=
  args.flatMap fun tok => hexPairs (asmDigits tok)

def hexByte (p : UInt8 × UInt8) : UInt8 := UInt8.ofNat (numeral 16 [p.1, p.2])

def withReturn (bytes : List UInt8) : List UInt8 :=
  if bytes = [] ∨ bytes.getLast? = some ASM_RET then bytes else bytes ++ [ASM_RET]

-- The payload consists of the bytes that the arguments denote and a return.
def Decodes (args : Argv) : Prop :=
  (cmdAsm (str "asm" :: args)).payload = withReturn ((bytecodePairs args).map hexByte)

end DismasmOS
