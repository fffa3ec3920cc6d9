import DismasmOS.Calc.Lemmas.Literal
import DismasmOS.Shell.Asm

/-!
This module contains the decoding of bytecode: a pair of digits is converted as a decimal number, for
a pair has no prefix of its own. The result is right for the pairs on which both bases agree.
-/

namespace DismasmOS

section Pairs

variable {c c' : UInt8}

theorem digitValue_of_not_isDigit (hc : isHexDigit c) (h : ¬isDigit c)
    : 10 ≤ digitValue c ∧ digitValue c < 16 := by
  rw [isHexDigit_iff, ← isDigit_iff, or_iff_right h] at hc
  constructor
  . unfold digitValue
    rw [if_neg h]
    split
    . omega
    . omega
  . cases hc with
    | inl hlower => exact (hexDigitValue_lower hlower).2
    | inr hupper => exact (hexDigitValue_upper hupper).2

theorem digitValue_of_isDigit (h : isDigit c) : digitValue c < 10 := by
  have hle : c.toNat ≤ 57 := (isDigit_iff.mp h).2
  have hzero : (chr '0').toNat = 48 := rfl
  unfold digitValue
  rw [if_pos h]
  omega

theorem digitValue_eq_zero (hc : isHexDigit c) (h : digitValue c = 0) : c = chr '0' := by
  by_cases hdigit : isDigit c
  . have hge : 48 ≤ c.toNat := (isDigit_iff.mp hdigit).1
    have hzero : (chr '0').toNat = 48 := rfl
    unfold digitValue at h
    rw [if_pos hdigit] at h
    apply UInt8.toNat.inj
    omega
  . have hvalue := (digitValue_of_not_isDigit hc hdigit).1
    omega

theorem numeral_pair (c c' : UInt8) : numeral 16 [c, c'] = digitValue c * 16 + digitValue c' := by
  rw [numeral_cons, numeral_cons]
  unfold numeral
  rw [List.length_singleton, List.length_nil, Nat.pow_one, Nat.pow_zero, Nat.mul_one]
  rfl

-- The digits up to the first letter, in base ten.
def decimalPair (c c' : UInt8) : Nat :=
  if isDigit c then
    if isDigit c' then digitValue c * 10 + digitValue c' else digitValue c
  else
    0

theorem parseNum_pair (hc' : isHexDigit c') : parseNum [c, c'] = UInt64.ofNat (decimalPair c c') := by
  have hhex : ¬isHexPrefix [c, c'] := by
    intro hhex
    obtain ⟨x, t, heq, hmark⟩ := isHexPrefix_cons hhex
    rw [List.cons.injEq, List.cons.injEq] at heq
    rw [heq.2.1] at hc'
    cases hmark with
    | inl hlower =>
      rw [hlower] at hc'
      exact absurd hc' (by decide)
    | inr hupper =>
      rw [hupper] at hc'
      exact absurd hc' (by decide)
  unfold parseNum decimalPair
  rw [if_neg hhex]
  show parseDec (UInt64.ofNat 0) _ = _
  split
  . next hdigit =>
    rw [parseDec_digit hdigit, Nat.zero_mul, Nat.zero_add]
    split
    . next hdigit' =>
      rw [parseDec_digit hdigit']
      rfl
    . next hdigit' =>
      rw [parseDec, if_neg hdigit']
  . next hdigit =>
    rw [parseDec, if_neg hdigit]

theorem decimalPair_lt (c c' : UInt8) : decimalPair c c' < 100 := by
  unfold decimalPair
  split
  . next hdigit =>
    have hvalue := digitValue_of_isDigit hdigit
    split
    . next hdigit' =>
      have hvalue' := digitValue_of_isDigit hdigit'
      omega
    . omega
  . omega

theorem decimalPair_eq_iff (hc : isHexDigit c) (hc' : isHexDigit c')
    : decimalPair c c' = numeral 16 [c, c'] ↔ c = chr '0' ∧ isDigit c' := by
  rw [numeral_pair]
  unfold decimalPair
  constructor
  . intro heq
    have hzero : digitValue c = 0 ∧ isDigit c' := by
      split at heq
      . split at heq
        . next hdigit' => exact ⟨by omega, hdigit'⟩
        . next hdigit' =>
          have hvalue' := (digitValue_of_not_isDigit hc' hdigit').1
          omega
      . next hdigit =>
        have hvalue := (digitValue_of_not_isDigit hc hdigit).1
        omega
    exact ⟨digitValue_eq_zero hc hzero.1, hzero.2⟩
  . rintro ⟨rfl, hdigit'⟩
    have hzero : digitValue (chr '0') = 0 := rfl
    rw [if_pos (by decide), if_pos hdigit', hzero]

def decimalByte (p : UInt8 × UInt8) : UInt8 := (parseNum [p.1, p.2]).toUInt8

theorem decimalByte_eq {p : UInt8 × UInt8} (hc' : isHexDigit p.2)
    : decimalByte p = UInt8.ofNat (decimalPair p.1 p.2) := by
  unfold decimalByte
  rw [parseNum_pair hc', UInt64.toUInt8_ofNat']

theorem decimalByte_ne_ret {p : UInt8 × UInt8} (hc' : isHexDigit p.2)
    : decimalByte p ≠ ASM_RET := by
  have hlt := decimalPair_lt p.1 p.2
  rw [decimalByte_eq hc']
  intro hret
  have hnat := congrArg UInt8.toNat hret
  have hvalue : ASM_RET.toNat = 195 := rfl
  rw [UInt8.toNat_ofNat', hvalue] at hnat
  omega

theorem decimalByte_eq_iff {p : UInt8 × UInt8} (hc : isHexDigit p.1) (hc' : isHexDigit p.2)
    : decimalByte p = hexByte p ↔ p.1 = chr '0' ∧ isDigit p.2 := by
  have hlt := decimalPair_lt p.1 p.2
  have hnum : numeral 16 [p.1, p.2] < 256 := by
    have hvalue : ∀ c, isHexDigit c → digitValue c < 16 := by
      intro c hc
      by_cases hdigit : isDigit c
      . have hten := digitValue_of_isDigit hdigit
        omega
      . exact (digitValue_of_not_isDigit hc hdigit).2
    have h1 := hvalue p.1 hc
    have h2 := hvalue p.2 hc'
    rw [numeral_pair]
    omega
  rw [← decimalPair_eq_iff hc hc', decimalByte_eq hc']
  unfold hexByte
  rw [← UInt8.toNat_inj, UInt8.toNat_ofNat', UInt8.toNat_ofNat']
  rw [Nat.mod_eq_of_lt (by omega), Nat.mod_eq_of_lt (by omega)]

end Pairs

section Tokens

variable {tok payload : List UInt8} {args : Argv}

theorem length_hexPairs (digits : List UInt8) : (hexPairs digits).length = digits.length / 2 := by
  fun_induction hexPairs digits with
  | case1 c c' digits ih =>
    rw [List.length_cons, List.length_cons, List.length_cons, ih]
    omega
  | case2 digits hshort =>
    cases digits with
    | nil => rfl
    | cons c digits =>
      cases digits with
      | nil =>
        show 0 = 1 / 2
        omega
      | cons c' digits => exact absurd rfl (hshort c c' digits)

theorem mem_hexPairs {digits : List UInt8} (h : ∀ c ∈ digits, isHexDigit c)
    : ∀ p ∈ hexPairs digits, isHexDigit p.1 ∧ isHexDigit p.2 := by
  fun_induction hexPairs digits with
  | case1 c c' digits ih =>
    rw [List.forall_mem_cons, List.forall_mem_cons] at h
    rw [List.forall_mem_cons]
    exact ⟨⟨h.1, h.2.1⟩, ih h.2.2⟩
  | case2 digits hshort =>
    intro p hp
    exact absurd hp List.not_mem_nil

theorem asmPairs_eq {digits : List UInt8} (heven : digits.length % 2 = 0)
    (hfits : payload.length + digits.length / 2 ≤ 254)
    : asmPairs payload digits = payload ++ (hexPairs digits).map decimalByte := by
  have hsize : ASM_PAYLOAD_SIZE = 256 := rfl
  fun_induction asmPairs payload digits with
  | case1 payload =>
    show payload = payload ++ []
    rw [List.append_nil]
  | case2 payload c hfull => cases heven
  | case3 payload c hroom => cases heven
  | case4 payload c c' digits hfull =>
    rw [List.length_cons, List.length_cons] at hfits
    omega
  | case5 payload c c' digits hroom ih =>
    rw [List.length_cons, List.length_cons] at hfits heven
    rw [ih (by omega) (by rw [List.length_append, List.length_singleton]; omega)]
    rw [hexPairs, List.map_cons, List.append_assoc, List.singleton_append]
    rfl

theorem IsBytecode.cstr_digits (h : IsBytecode tok) : cstr (asmDigits tok) = asmDigits tok := by
  apply NulFree.cstr
  intro hnul
  exact absurd (h.hex NUL hnul) (by decide)

theorem IsBytecode.asmToken_eq (h : IsBytecode tok)
    (hfits : payload.length + (hexPairs (asmDigits tok)).length ≤ 254)
    : asmToken payload tok = payload ++ (hexPairs (asmDigits tok)).map decimalByte := by
  rw [length_hexPairs] at hfits
  unfold asmToken
  rw [h.cstr_digits, asmPairs_eq h.even hfits]

theorem foldl_asmToken (hargs : ∀ tok ∈ args, IsBytecode tok)
    (hfits : payload.length + (bytecodePairs args).length ≤ 254)
    : args.foldl asmToken payload = payload ++ (bytecodePairs args).map decimalByte := by
  induction args generalizing payload with
  | nil =>
    unfold bytecodePairs
    rw [List.foldl_nil, List.flatMap_nil, List.map_nil, List.append_nil]
  | cons tok args ih =>
    have hcons : bytecodePairs (tok :: args) = hexPairs (asmDigits tok) ++ bytecodePairs args := by
      unfold bytecodePairs
      rw [List.flatMap_cons]
    rw [List.forall_mem_cons] at hargs
    rw [hcons, List.length_append] at hfits
    rw [List.foldl_cons, hargs.1.asmToken_eq (by omega), hcons]
    rw [ih hargs.2]
    . rw [List.append_assoc, List.map_append]
    . rw [List.length_append, List.length_map]
      omega

-- A mnemonic has a letter that is no digit, and no prefix.
theorem IsBytecode.not_mnemonic (h : IsBytecode tok) {name : List UInt8} (hname : NulFree name)
    (hhead : name.headD NUL ≠ chr '0') (hletter : ∃ c ∈ name, ¬isHexDigit c)
    : strcmp tok name ≠ 0 := by
  rw [ne_eq, strcmp_eq_zero_iff, hname.cstr]
  rintro rfl
  have hdigits : asmDigits tok = tok := by
    unfold asmDigits
    rw [if_neg]
    intro hhex
    obtain ⟨x, t, rfl, _⟩ := isHexPrefix_cons hhex
    apply hhead
    rw [cstr_cons, if_neg (by decide), List.headD_cons]
  obtain ⟨c, hc, hnot⟩ := hletter
  have hmem : c ∈ asmDigits tok := by
    rw [hdigits]
    exact (List.takeWhile_sublist _).subset hc
  exact hnot (h.hex c hmem)

theorem getLast?_iff_getD {bytes : List UInt8} (hne : bytes ≠ []) (b : UInt8)
    : bytes.getLast? = some b ↔ bytes.getD (bytes.length - 1) 0 = b := by
  have hpos : 0 < bytes.length := List.length_pos_iff.mpr hne
  have hlast : bytes.length - 1 < bytes.length := by omega
  rw [List.getLast?_eq_getElem?, List.getD_eq_getElem?_getD, List.getElem?_eq_getElem hlast]
  rw [Option.getD_some, Option.some.injEq]

theorem cmdAsm_payload (hargs : ∀ tok ∈ args, IsBytecode tok)
    : (cmdAsm (str "asm" :: args)).payload = withReturn (args.foldl asmToken []) := by
  cases args with
  | nil => rfl
  | cons tok args =>
    have htok := hargs tok (List.mem_cons_self ..)
    unfold cmdAsm
    rw [if_neg (by rw [List.length_cons, List.length_cons]; omega)]
    have harg : Argv.arg (str "asm" :: tok :: args) 1 = tok := rfl
    rw [harg]
    rw [if_neg (htok.not_mnemonic (by decide) (by decide) (by decide))]
    rw [if_neg (htok.not_mnemonic (by decide) (by decide) (by decide))]
    rw [if_neg (htok.not_mnemonic (by decide) (by decide) (by decide))]
    rw [if_neg (htok.not_mnemonic (by decide) (by decide) (by decide))]
    rw [if_neg (htok.not_mnemonic (by decide) (by decide) (by decide))]
    rw [List.drop_succ_cons, List.drop_zero]
    dsimp only
    generalize (tok :: args).foldl asmToken [] = payload
    unfold withReturn
    split
    . next hzero =>
      rw [List.length_eq_zero_iff] at hzero
      rw [if_pos (.inl hzero), hzero]
      rfl
    . next hpos =>
      have hne : payload ≠ [] := fun hnil => hpos (List.length_eq_zero_iff.mpr hnil)
      have hlast := getLast?_iff_getD hne ASM_RET
      split
      . next hret =>
        rw [if_neg]
        . rfl
        . rw [not_or, hlast]
          exact ⟨hne, hret⟩
      . next hret =>
        rw [if_pos (.inr (hlast.mpr (not_not.mp hret)))]
        rfl

theorem mem_bytecodePairs (hargs : ∀ tok ∈ args, IsBytecode tok)
    : ∀ p ∈ bytecodePairs args, isHexDigit p.1 ∧ isHexDigit p.2 := by
  intro p hp
  unfold bytecodePairs at hp
  rw [List.mem_flatMap] at hp
  obtain ⟨tok, htok, hp⟩ := hp
  exact mem_hexPairs (hargs tok htok).hex p hp

theorem withReturn_eq_iff {bytes bytes' : List UInt8} (hlen : bytes.length = bytes'.length)
    (hret : ∀ b ∈ bytes, b ≠ ASM_RET) : withReturn bytes = withReturn bytes' ↔ bytes = bytes' := by
  constructor
  . intro heq
    by_cases hnil : bytes = []
    . rw [hnil, List.length_nil, eq_comm, List.length_eq_zero_iff] at hlen
      rw [hnil, hlen]
    . have happend : withReturn bytes = bytes ++ [ASM_RET] := by
        unfold withReturn
        rw [if_neg]
        rintro (h | h)
        . exact hnil h
        . exact hret ASM_RET (List.mem_of_getLast? h) rfl
      rw [happend] at heq
      unfold withReturn at heq
      split at heq
      . have hlen' := congrArg List.length heq
        rw [List.length_append, List.length_singleton] at hlen'
        omega
      . exact List.append_cancel_right heq
  . intro heq
    rw [heq]

theorem decodes_iff (hargs : ∀ tok ∈ args, IsBytecode tok)
    (hfits : (bytecodePairs args).length ≤ 254)
    : Decodes args ↔ ∀ p ∈ bytecodePairs args, p.1 = chr '0' ∧ isDigit p.2 := by
  have hhex := mem_bytecodePairs hargs
  have hpayload : args.foldl asmToken [] = [] ++ (bytecodePairs args).map decimalByte := by
    apply foldl_asmToken hargs
    rw [List.length_nil]
    omega
  unfold Decodes
  rw [cmdAsm_payload hargs, hpayload, List.nil_append, withReturn_eq_iff]
  . rw [List.map_inj_left]
    constructor
    . intro h p hp
      exact (decimalByte_eq_iff (hhex p hp).1 (hhex p hp).2).mp (h p hp)
    . intro h p hp
      exact (decimalByte_eq_iff (hhex p hp).1 (hhex p hp).2).mpr (h p hp)
  . rw [List.length_map, List.length_map]
  . intro b hb
    rw [List.mem_map] at hb
    obtain ⟨p, hp, rfl⟩ := hb
    exact decimalByte_ne_ret (hhex p hp).2

theorem decodes_small
    : Decodes [str "0x0509", str "00"]
        ↔ ∀ p ∈ bytecodePairs [str "0x0509", str "00"], p.1 = chr '0' ∧ isDigit p.2 := by
  apply decodes_iff
  . intro tok htok
    rw [List.mem_cons, List.mem_singleton] at htok
    rcases htok with rfl | rfl
    . exact ⟨List.all_eq_true.mp (by decide), by decide⟩
    . exact ⟨List.all_eq_true.mp (by decide), by decide⟩
  . decide

-- The bytes of the manual: two `nop` and a return.
def nopBytes : Argv := [str "90", str "90", str "c3"]

theorem nopBytes_not_decodes
    : (∀ tok ∈ nopBytes, IsBytecode tok)
        ∧ cmdAsm (str "asm" :: nopBytes) = .call [0x5A, 0x5A, 0x00, 0xC3]
        ∧ ¬Decodes nopBytes := by
  refine ⟨?_, by decide, ?_⟩
  . intro tok htok
    unfold nopBytes at htok
    rw [List.mem_cons, List.mem_cons, List.mem_singleton] at htok
    rcases htok with rfl | rfl | rfl
    . exact ⟨List.all_eq_true.mp (by decide), by decide⟩
    . exact ⟨List.all_eq_true.mp (by decide), by decide⟩
    . exact ⟨List.all_eq_true.mp (by decide), by decide⟩
  . unfold Decodes
    decide

end Tokens

end DismasmOS
