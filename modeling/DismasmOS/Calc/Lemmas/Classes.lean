import DismasmOS.Calc.Command
import DismasmOS.Calc.Lemmas.Fault

/-!
This module contains the error that `calc` reports for a text: complete expressions with a value are
those without an error, and the first error of all others decides.
-/

namespace DismasmOS

section Classes

variable {text : List UInt8} {e : CalcExpr} {v : Int64} {c : Calc}

theorem calcRun_error {stop : CalcStop} (h : calcStart text = .error stop)
    : calcRun text = .error stop := by
  unfold calcRun
  rw [h]
  rfl

theorem calcRun_err (h : calcStart text = .ok ⟨v, c⟩) (hc : c.err ≠ .none)
    : calcRun text = .ok ⟨v, c.skip⟩ := by
  unfold calcRun
  rw [h, ok_bind]
  dsimp only
  rw [if_neg]
  intro hend
  exact hc hend.2

theorem calcRun_rest (h : calcStart text = .ok ⟨v, c⟩) (hpeek : c.skip.peek ≠ NUL)
    (hc : c.err = .none) : calcRun text = .ok ⟨v, c.skip.fail .invalidSyntax⟩ := by
  unfold calcRun
  rw [h, ok_bind]
  dsimp only
  rw [if_pos]
  exact ⟨hpeek, hc⟩

theorem calcRun_end (h : calcStart text = .ok ⟨v, c⟩) (hpeek : c.skip.peek = NUL)
    : calcRun text = .ok ⟨v, c.skip⟩ := by
  unfold calcRun
  rw [h, ok_bind]
  dsimp only
  rw [if_neg]
  intro hend
  exact hend.1 hpeek

theorem CompleteAs.calcStart_eq (h : CompleteAs text e) (hv : e.eval ≠ none)
    : ∃ v, calcStart text = .ok ⟨v, ⟨[], .none⟩⟩ := by
  obtain ⟨rest, hread, hrest⟩ := h
  obtain ⟨v, hv⟩ := Option.ne_none_iff_exists'.mp hv
  exact ⟨v, calcStart_reads hread hv hrest⟩

theorem Meets.err_of_start {l : Int64} {depth : Nat} {rest : List UInt8}
    (h : Meets l 0 .expr depth text rest) (hstart : calcStart text = .ok ⟨v, c⟩)
    : c = Calc.close^[depth] ⟨rest, .divisionByZero⟩ := by
  obtain ⟨x, hx⟩ := h.calcStart_eq
  rw [hstart] at hx
  unfold calcStopped at hx
  rw [if_pos rfl, Except.ok.injEq, Prod.mk.injEq] at hx
  exact hx.2

theorem Complete.value (h : Complete text) (hzero : ¬DividesByZero text)
    (hstart : calcStart text = .ok ⟨v, c⟩) : ∃ e, CompleteAs text e ∧ e.eval ≠ none := by
  obtain ⟨e, rest, hread, hrest⟩ := h
  refine ⟨e, ⟨rest, hread, hrest⟩, ?_⟩
  intro hnone
  obtain ⟨l, r, depth, rest', hmeets⟩ := hread.meets hnone
  cases hmeets.undefined with
  | inl hr =>
    rw [hr] at hmeets
    exact hzero ⟨l, depth, rest', hmeets⟩
  | inr hmin =>
    rw [hmin.1, hmin.2] at hmeets
    have hfaults := mt (calcStart_faults_iff text).mp (not_not_intro ⟨depth, rest', hmeets⟩)
    rw [hstart] at hfaults
    apply hfaults
    intro h
    cases h

theorem errorClass_none (hend : CompleteAs text e) (hv : e.eval ≠ none)
    : ErrorClass text .none where
  none_iff := iff_of_true rfl ⟨e, hend, hv⟩
  invalid_iff _ := iff_of_false (by decide) (not_not_intro ⟨e, hend⟩)
  zero_divides h := by cases h
  divides_zero l depth rest hmeets _ := by
    obtain ⟨v, hstart⟩ := hend.calcStart_eq hv
    have herr := err_iterate_close depth rest
    rw [← hmeets.err_of_start hstart] at herr
    exact absurd rfl herr

theorem errorClass_zero (hstart : calcStart text = .ok ⟨v, c⟩) (hc : c.err ≠ .none)
    (hzero : DividesByZero text) : ErrorClass text .divisionByZero where
  none_iff := by
    apply iff_of_false (by decide)
    rintro ⟨e, hend, hv⟩
    obtain ⟨x, hx⟩ := hend.calcStart_eq hv
    rw [hstart] at hx
    cases hx
    exact hc rfl
  invalid_iff h := absurd hzero h
  zero_divides _ := hzero
  divides_zero _ _ _ _ _ := rfl

theorem errorClass_invalid (hstart : calcStart text = .ok ⟨v, c⟩)
    (hc : c.err = .invalidSyntax ∨ c.err = .none ∧ skipBlanks c.ptr ≠ [])
    : ErrorClass text .invalidSyntax := by
  have hvalue : ¬∃ e, CompleteAs text e ∧ e.eval ≠ none := by
    rintro ⟨e, hend, hv⟩
    obtain ⟨x, hx⟩ := hend.calcStart_eq hv
    rw [hstart] at hx
    cases hx
    cases hc with
    | inl herr => cases herr
    | inr hrest => exact hrest.2 rfl
  constructor
  . exact iff_of_false (by decide) hvalue
  . intro hzero
    apply iff_of_true rfl
    intro hcomplete
    exact hvalue (hcomplete.value hzero hstart)
  . intro h
    cases h
  . intro l depth rest hmeets hcloses
    have herr := err_iterate_eq hcloses
    rw [← hmeets.err_of_start hstart] at herr
    rw [herr] at hc
    cases hc with
    | inl hinvalid => cases hinvalid
    | inr hrest => cases hrest.1

theorem peek_ne_nul (htext : NulFree text) (hsuffix : c.ptr <:+ text) (hrest : skipBlanks c.ptr ≠ [])
    : c.skip.peek ≠ NUL := by
  intro hnul
  cases hs : skipBlanks c.ptr with
  | nil => exact hrest hs
  | cons x t =>
    unfold Calc.skip Calc.peek at hnul
    rw [hs, List.headD_cons] at hnul
    have hmem : x ∈ c.ptr := by
      apply (skipBlanks_suffix c.ptr).subset
      rw [hs]
      exact List.mem_cons_self ..
    rw [hnul] at hmem
    exact htext (hsuffix.subset hmem)

-- Behind an expression with a value the end-of-input check decides.
theorem calcRun_value {rest : List UInt8} (htext : NulFree text) (hstart : calcStart text = .ok ⟨v, c⟩)
    (hc : c.err = .none) (hread : Reads .expr e text rest) (hv : e.eval = some v)
    (hblanks : skipBlanks rest = skipBlanks c.ptr) (hsuffix : c.ptr <:+ text)
    : ∃ v c, calcRun text = .ok ⟨v, c⟩ ∧ ErrorClass text c.err := by
  by_cases hend : skipBlanks c.ptr = []
  . refine ⟨_, _, calcRun_end hstart ?_, ?_⟩
    . unfold Calc.skip Calc.peek
      rw [hend, List.headD_nil]
    . show ErrorClass text c.err
      rw [hc]
      rw [hend, skipBlanks_eq_nil_iff] at hblanks
      apply errorClass_none ⟨rest, hread, hblanks⟩
      rw [hv]
      exact Option.some_ne_none v
  . have hpeek := peek_ne_nul htext hsuffix hend
    exact ⟨_, _, calcRun_rest hstart hpeek hc, errorClass_invalid hstart (.inr ⟨hc, hend⟩)⟩

theorem calcRun_stopped (hstart : calcStart text = .ok ⟨v, c⟩) (hc : c.err ≠ .none)
    (hclass : ErrorClass text c.err) : ∃ v c, calcRun text = .ok ⟨v, c⟩ ∧ ErrorClass text c.err :=
  ⟨v, c.skip, calcRun_err hstart hc, hclass⟩

theorem calcRun_classes (htext : NulFree text)
    : (calcRun text = .error .divideFault ∧ DivisionOverflows text)
        ∨ ∃ v c, calcRun text = .ok ⟨v, c⟩ ∧ ErrorClass text c.err := by
  have hexplained := calcStart_explained text
  cases hstart : calcStart text with
  | error stop =>
    rw [hstart] at hexplained
    cases hexplained with
    | fault hmeets => exact .inl ⟨calcRun_error hstart, _, _, hmeets⟩
  | ok r =>
    obtain ⟨v, c⟩ := r
    rw [hstart] at hexplained
    right
    cases hexplained with
    | value hc hread hv hblanks hsuffix =>
      exact calcRun_value htext hstart hc hread hv hblanks hsuffix
    | zero hc hmeets hsuffix =>
      have hne : c.err ≠ .none := by
        rw [hc]
        decide
      apply calcRun_stopped hstart hne
      rw [hc]
      exact errorClass_zero hstart hne ⟨_, _, _, hmeets⟩
    | invalid hc hsuffix =>
      have hne : c.err ≠ .none := by
        rw [hc]
        decide
      apply calcRun_stopped hstart hne
      rw [hc]
      exact errorClass_invalid hstart (.inl hc)

theorem calcRun_classes_nested
    : (calcRun (str "2*(1/0)+3") = .error .divideFault ∧ DivisionOverflows (str "2*(1/0)+3"))
        ∨ ∃ v c, calcRun (str "2*(1/0)+3") = .ok ⟨v, c⟩ ∧ ErrorClass (str "2*(1/0)+3") c.err :=
  calcRun_classes (by decide)

end Classes

section Balanced

variable {level : CalcLevel} {e : CalcExpr} {text rest : List UInt8}

theorem count_dropWhile {p : UInt8 → Bool} {c : UInt8} (hc : ¬p c) (s : List UInt8)
    : (s.dropWhile p).count c = s.count c := by
  have hsplit := congrArg (List.count c) (s.takeWhile_append_dropWhile (p := p))
  have hzero : (s.takeWhile p).count c = 0 := by
    apply List.count_eq_zero_of_not_mem
    intro hmem
    exact hc (List.mem_takeWhile_imp hmem)
  rw [List.count_append, hzero, Nat.zero_add] at hsplit
  exact hsplit

theorem count_scanLiteral {c : UInt8} (hc : ¬isHexDigit c) (hx : c ≠ chr 'x' ∧ c ≠ chr 'X')
    (s : List UInt8) : (scanLiteral s).count c = s.count c := by
  have hdigit : ¬isDigit c := by
    intro hdigit
    apply hc
    rw [isHexDigit_iff]
    exact .inl (isDigit_iff.mp hdigit)
  unfold scanLiteral
  split
  . next hhex =>
    obtain ⟨x, t, rfl, hmark⟩ := isHexPrefix_cons hhex
    have hzero : chr '0' ≠ c := by
      rintro rfl
      exact hdigit (by decide)
    have hne : x ≠ c := by
      cases hmark with
      | inl hlower =>
        rw [hlower]
        exact hx.1.symm
      | inr hupper =>
        rw [hupper]
        exact hx.2.symm
    rw [List.count_cons_of_ne hzero, List.count_cons_of_ne hne]
    exact count_dropWhile hc t
  . exact count_dropWhile hdigit s

theorem Reads.balanced (h : Reads level e text rest)
    : text.count (chr '(') + rest.count (chr ')') = text.count (chr ')') + rest.count (chr '(') := by
  have hopen : ∀ s, (skipBlanks s).count (chr '(') = s.count (chr '(') :=
    fun s => count_dropWhile (by decide) s
  have hclose : ∀ s, (skipBlanks s).count (chr ')') = s.count (chr ')') :=
    fun s => count_dropWhile (by decide) s
  have hskip : ∀ {s c t}, skipBlanks s = c :: t →
      s.count (chr '(') = (c :: t).count (chr '(') ∧ s.count (chr ')') = (c :: t).count (chr ')') := by
    intro s c t hs
    rw [← hopen s, ← hclose s, hs]
    exact ⟨rfl, rfl⟩
  induction h with
  | @lit text n _ _ =>
    rw [count_scanLiteral (by decide) (by decide), count_scanLiteral (by decide) (by decide)]
    rw [hopen, hclose]
    omega
  | sign g htext _ ih =>
    obtain ⟨ho, hc⟩ := hskip htext
    have hnone : g.char ≠ chr '(' ∧ g.char ≠ chr ')' := by
      cases g <;> decide
    rw [List.count_cons_of_ne hnone.1] at ho
    rw [List.count_cons_of_ne hnone.2] at hc
    omega
  | paren htext _ hmid ih =>
    obtain ⟨ho, hc⟩ := hskip htext
    obtain ⟨ho', hc'⟩ := hskip hmid
    rw [List.count_cons_self] at ho hc'
    rw [List.count_cons_of_ne (by decide)] at hc ho'
    omega
  | factor _ ih => exact ih
  | term _ ih => exact ih
  | op g _ hmid _ ihl ihr =>
    obtain ⟨ho, hc⟩ := hskip hmid
    have hnone : g.char ≠ chr '(' ∧ g.char ≠ chr ')' := by
      cases g <;> decide
    rw [List.count_cons_of_ne hnone.1] at ho
    rw [List.count_cons_of_ne hnone.2] at hc
    omega

theorem Complete.balanced (h : Complete text) : text.count (chr '(') = text.count (chr ')') := by
  obtain ⟨e, rest, hread, hrest⟩ := h
  have hzero : ∀ c, ¬isBlank c → rest.count c = 0 := by
    intro c hc
    apply List.count_eq_zero_of_not_mem
    intro hmem
    exact hc (hrest c hmem)
  have hbalanced := hread.balanced
  rw [hzero _ (by decide), hzero _ (by decide)] at hbalanced
  exact hbalanced

theorem calcRun_incomplete
    : calcRun (str "1/0)") = .ok ⟨1, ⟨str ")", .divisionByZero⟩⟩ ∧ ¬Complete (str "1/0)") := by
  refine ⟨by decide +kernel, ?_⟩
  intro hcomplete
  exact absurd hcomplete.balanced (by decide)

end Balanced

end DismasmOS
