import DismasmOS.Calc.Lemmas.Stop

/-!
This module contains the outcomes of the recursive descent on all texts: by induction on its calls,
it returns the value of a tree that it has read, or a division or modulo without a result explains
why it stops. The texts on which the processor faults are those with an overflow on the way.
-/

namespace DismasmOS

section Explained

variable {level : CalcLevel} {text t mid : List UInt8} {result : CalcResult}

inductive Explained (level : CalcLevel) (text : List UInt8) : CalcResult → Prop
  | value {e : CalcExpr} {v : Int64} {c : Calc} {rest : List UInt8} (hc : c.err = .none)
      (hread : Reads level e text rest) (hv : e.eval = some v)
      (hblanks : skipBlanks rest = skipBlanks c.ptr) (hsuffix : c.ptr <:+ text)
      : Explained level text (.ok ⟨v, c⟩)
  | zero {l v : Int64} {c : Calc} {depth : Nat} {rest : List UInt8} (hc : c.err = .divisionByZero)
      (hmeets : Meets l 0 level depth text rest) (hsuffix : c.ptr <:+ text)
      : Explained level text (.ok ⟨v, c⟩)
  | invalid {v : Int64} {c : Calc} (hc : c.err = .invalidSyntax) (hsuffix : c.ptr <:+ text)
      : Explained level text (.ok ⟨v, c⟩)
  | fault {depth : Nat} {rest : List UInt8}
      (hmeets : Meets Int64.minValue (-1) level depth text rest)
      : Explained level text (.error .divideFault)

theorem Explained.sign (g : CalcSign) (htext : skipBlanks text = g.char :: t)
    (h : Explained .factor t result)
    : Explained .factor text (result.map fun r => (g.eval r.1, r.2)) := by
  have ht := suffix_of_skipBlanks htext
  cases h with
  | @value e v c rest hc hread hv hblanks hsuffix =>
    apply Explained.value hc (.sign g htext hread) _ hblanks (hsuffix.trans ht)
    rw [CalcExpr.eval, hv]
    rfl
  | zero hc hmeets hsuffix => exact .zero hc (hmeets.sign g htext) (hsuffix.trans ht)
  | invalid hc hsuffix => exact .invalid hc (hsuffix.trans ht)
  | fault hmeets => exact .fault (hmeets.sign g htext)

theorem Calc.close_suffix (c : Calc) : c.close.ptr <:+ c.ptr := by
  unfold Calc.close
  split
  . exact (List.tail_suffix _).trans (skipBlanks_suffix c.ptr)
  . exact skipBlanks_suffix c.ptr

theorem Calc.close_cases (c : Calc)
    : (∃ rest, skipBlanks c.ptr = chr ')' :: rest ∧ c.close = ⟨rest, c.err⟩)
        ∨ c.close.err = .invalidSyntax := by
  unfold Calc.close
  split
  . next hparen =>
    unfold Calc.skip Calc.peek at hparen
    dsimp only at hparen
    cases hs : skipBlanks c.ptr with
    | nil =>
      rw [hs, List.headD_nil] at hparen
      exact absurd hparen (by decide)
    | cons x rest =>
      rw [hs, List.headD_cons] at hparen
      refine .inl ⟨rest, ?_, ?_⟩
      . rw [hparen]
      . unfold Calc.skip Calc.advance
        rw [hs, List.tail_cons]
  . exact .inr rfl

theorem Explained.paren (htext : skipBlanks text = chr '(' :: t) (h : Explained .expr t result)
    : Explained .factor text (result.map fun r => (r.1, r.2.close)) := by
  have ht := suffix_of_skipBlanks htext
  cases h with
  | @value e v c rest hc hread hv hblanks hsuffix =>
    have hclose := (c.close_suffix.trans hsuffix).trans ht
    cases c.close_cases with
    | inl hparen =>
      obtain ⟨rest', hrest', heq⟩ := hparen
      apply Explained.value _ (.paren htext hread (hblanks.trans hrest')) hv _ hclose
      . rw [heq, hc]
      . rw [heq]
    | inr herr => exact .invalid herr hclose
  | @zero l v c depth rest hc hmeets hsuffix =>
    have hclose := (c.close_suffix.trans hsuffix).trans ht
    cases c.close_cases with
    | inl hparen =>
      obtain ⟨rest', hrest', heq⟩ := hparen
      apply Explained.zero _ (hmeets.paren htext) hclose
      rw [heq, hc]
    | inr herr => exact .invalid herr hclose
  | @invalid v c hc hsuffix =>
    have hclose := (c.close_suffix.trans hsuffix).trans ht
    cases c.close_cases with
    | inl hparen =>
      obtain ⟨rest', hrest', heq⟩ := hparen
      apply Explained.invalid _ hclose
      rw [heq, hc]
    | inr herr => exact .invalid herr hclose
  | fault hmeets => exact .fault (hmeets.paren htext)

-- What the loop of a function does behind an operand that has a value.
def LoopExplained (level : CalcLevel) (text : List UInt8) (bound : Nat)
    (loop : Int64 → Calc → CalcResult) : Prop :=
  ∀ e v c rest, Reads level e text rest → e.eval = some v → c.err = .none →
    skipBlanks rest = skipBlanks c.ptr → c.ptr <:+ text → c.ptr.length ≤ bound →
      Explained level text (loop v c)

theorem Explained.op {lhs : CalcExpr} {l : Int64} {loop : Int64 → Calc → CalcResult} (g : CalcOp)
    (hlhs : Reads g.level lhs text mid) (hl : lhs.eval = some l)
    (hmid : skipBlanks mid = g.char :: t) (h : Explained g.rhsLevel t result)
    (hloop : LoopExplained g.level text t.length loop)
    : Explained g.level text (result >>= calcContinue g l loop) := by
  have ht : t <:+ text := (suffix_of_skipBlanks hmid).trans hlhs.suffix
  cases h with
  | @value e r c rest hc hread hr hblanks hsuffix =>
    rw [ok_bind, calcContinue_eq hc]
    cases hv : g.eval l r with
    | some v =>
      apply hloop (.op g lhs e) v c rest (.op g hlhs hmid hread)
      . rw [CalcExpr.eval, hl, hr]
        exact hv
      . exact hc
      . exact hblanks
      . exact hsuffix.trans ht
      . exact hsuffix.length_le
    | none =>
      have hmeets : Meets l r g.level 0 text rest := .here g hlhs hl hmid hread hr hv
      dsimp only
      unfold calcStopped
      split
      . next hzero =>
        rw [hzero] at hmeets
        exact .zero rfl hmeets (hsuffix.trans ht)
      . next hzero =>
        obtain ⟨rfl, rfl⟩ := hmeets.undefined.resolve_left hzero
        exact .fault hmeets
  | zero hc hmeets hsuffix =>
    rw [ok_bind, calcContinue_err (by rw [hc]; decide)]
    exact .zero hc (.right g hlhs hl hmid hmeets) (hsuffix.trans ht)
  | invalid hc hsuffix =>
    rw [ok_bind, calcContinue_err (by rw [hc]; decide)]
    exact .invalid hc (hsuffix.trans ht)
  | fault hmeets => exact .fault (.right g hlhs hl hmid hmeets)

theorem Explained.loop {fuel : Nat} (hlevel : level ≠ .factor)
    (h : Explained level.lower text result)
    (hloop : LoopExplained level text text.length (level.loop (fuel + 1)))
    : Explained level text (result >>= fun r => level.loop (fuel + 1) r.1 r.2) := by
  cases h with
  | value hc hread hv hblanks hsuffix =>
    exact hloop _ _ _ _ (hread.lower hlevel) hv hc hblanks hsuffix hsuffix.length_le
  | zero hc hmeets hsuffix =>
    rw [ok_bind, loop_err (by rw [hc]; decide)]
    exact .zero hc (hmeets.lower hlevel) hsuffix
  | invalid hc hsuffix =>
    rw [ok_bind, loop_err (by rw [hc]; decide)]
    exact .invalid hc hsuffix
  | fault hmeets => exact .fault (hmeets.lower hlevel)

theorem parseFactor_explained {fuel : Nat} (hfuel : 3 * text.length < fuel + 1)
    (hfactor : ∀ t, 3 * t.length < fuel → Explained .factor t (calcParseFactor fuel ⟨t, .none⟩))
    (hexpr : ∀ t, 3 * t.length + 2 < fuel → Explained .expr t (calcParseExpr fuel ⟨t, .none⟩))
    : Explained .factor text (calcParseFactor (fuel + 1) ⟨text, .none⟩) := by
  have hlen := length_skipBlanks_le text
  by_cases hsign : ∃ (g : CalcSign) (t : List UInt8), skipBlanks text = g.char :: t
  . obtain ⟨g, t, ht⟩ := hsign
    rw [ht, List.length_cons] at hlen
    rw [calcParseFactor_sign g ht]
    exact (hfactor t (by omega)).sign g ht
  . by_cases hparen : ∃ t, skipBlanks text = chr '(' :: t
    . obtain ⟨t, ht⟩ := hparen
      rw [ht, List.length_cons] at hlen
      rw [calcParseFactor_paren ht]
      exact (hexpr t (by omega)).paren ht
    . by_cases hdigit : isDigit ((skipBlanks text).headD NUL)
      . rw [calcParseFactor_lit hdigit]
        have hsuffix := (scanLiteral_suffix (skipBlanks text)).trans (skipBlanks_suffix text)
        have hn : Int64.ofNat (parseNum (skipBlanks text)).toNat
            = (parseNum (skipBlanks text)).toInt64 := by
          show (UInt64.ofNat _).toInt64 = _
          rw [UInt64.ofNat_toNat]
        exact .value rfl (.lit hdigit hn) (by rw [CalcExpr.eval, hn]) rfl hsuffix
      . have hhead : ∀ c, c ≠ NUL → (¬∃ t, skipBlanks text = c :: t) →
            (skipBlanks text).headD NUL ≠ c := by
          intro c hne hno heq
          cases hs : skipBlanks text with
          | nil =>
            rw [hs, List.headD_nil] at heq
            exact hne heq.symm
          | cons x t =>
            rw [hs, List.headD_cons] at heq
            rw [heq] at hs
            exact hno ⟨t, hs⟩
        have hplain : ∀ g : CalcSign, (skipBlanks text).headD NUL ≠ g.char := by
          intro g
          apply hhead
          . cases g <;> decide
          . intro hex
            exact hsign ⟨g, hex⟩
        rw [calcParseFactor_other hplain (hhead _ (by decide) hparen) hdigit]
        exact .invalid rfl (skipBlanks_suffix text)

theorem loop_explained {fuel : Nat}
    (hparse : ∀ level t, 3 * t.length + level.depth < fuel →
      Explained level t (level.parse fuel ⟨t, .none⟩))
    (hloop : ∀ level text bound, 3 * bound < fuel →
      LoopExplained level text bound (level.loop fuel))
    (level : CalcLevel) (text : List UInt8) {bound : Nat} (hbound : 3 * bound < fuel + 1)
    : LoopExplained level text bound (level.loop (fuel + 1)) := by
  intro e v c rest hread hv hc hblanks hsuffix hlen
  obtain ⟨ptr, err⟩ := c
  dsimp only at hc hblanks hsuffix hlen
  rw [hc]
  by_cases hlevel : level = .factor
  . rw [hlevel] at hread ⊢
    exact .value rfl hread hv hblanks hsuffix
  . cases op_or_noOp level ptr with
    | inl hop =>
      obtain ⟨g, t, rfl, hs⟩ := hop
      have ht := length_skipBlanks_le ptr
      rw [hs, List.length_cons] at ht
      have hdepth : g.rhsLevel.depth ≤ 1 := by
        cases g <;> decide
      rw [loop_op g hs]
      apply Explained.op g hread hv (hblanks.trans hs)
      . apply hparse
        omega
      . apply hloop
        omega
    | inr hno =>
      rw [loop_end hlevel hno]
      apply Explained.value rfl hread hv
      . dsimp only
        rw [hblanks, skipBlanks_skipBlanks]
      . exact (skipBlanks_suffix ptr).trans hsuffix

theorem parse_explained_step {fuel : Nat}
    (hparse : ∀ level t, 3 * t.length + level.depth < fuel →
      Explained level t (level.parse fuel ⟨t, .none⟩))
    (hloop : ∀ level text bound, 3 * bound < fuel →
      LoopExplained level text bound (level.loop fuel))
    (level : CalcLevel) (text : List UInt8) (hfuel : 3 * text.length + level.depth < fuel + 1)
    : Explained level text (level.parse (fuel + 1) ⟨text, .none⟩) := by
  by_cases hlevel : level = .factor
  . rw [hlevel] at hfuel ⊢
    have hdepth : CalcLevel.factor.depth = 0 ∧ CalcLevel.expr.depth = 2 := ⟨rfl, rfl⟩
    apply parseFactor_explained hfuel
    . intro t ht
      apply hparse .factor t
      omega
    . intro t ht
      apply hparse .expr t
      omega
  . rw [CalcLevel.depth_lower hlevel] at hfuel
    rw [parse_succ hlevel]
    cases fuel with
    | zero => omega
    | succ fuel =>
      have hoperand := hparse level.lower text (by omega)
      apply hoperand.loop hlevel
      apply hloop
      omega

-- By induction on the calls that may still be made, for the functions and their loops at once.
theorem parse_and_loop_explained (fuel : Nat)
    : (∀ level text, 3 * text.length + level.depth < fuel →
        Explained level text (level.parse fuel ⟨text, .none⟩))
      ∧ ∀ level text bound, 3 * bound < fuel →
        LoopExplained level text bound (level.loop fuel) := by
  induction fuel with
  | zero =>
    constructor
    . intro level text hfuel
      omega
    . intro level text bound hbound
      omega
  | succ fuel ih =>
    constructor
    . exact parse_explained_step ih.1 ih.2
    . intro level text bound hbound
      exact loop_explained ih.1 ih.2 level text hbound

theorem calcParseExpr_explained {fuel : Nat} (hfuel : 3 * text.length + 2 < fuel)
    : Explained .expr text (calcParseExpr fuel ⟨text, .none⟩) :=
  (parse_and_loop_explained fuel).1 .expr text hfuel

theorem calcStart_explained (text : List UInt8) : Explained .expr text (calcStart text) := by
  rw [calcStart_eq_parse]
  exact calcParseExpr_explained (Nat.lt_succ_self _)

end Explained

section Faults

variable {text : List UInt8} {fuel : Nat}

theorem calcParseExpr_faults_iff (hfuel : 3 * text.length + 2 < fuel)
    : calcParseExpr fuel ⟨text, .none⟩ = .error .divideFault ↔ DivisionOverflows text := by
  constructor
  . intro hfault
    have hexplained := calcParseExpr_explained hfuel
    rw [hfault] at hexplained
    cases hexplained with
    | fault hmeets => exact ⟨_, _, hmeets⟩
  . rintro ⟨depth, rest, hmeets⟩
    obtain ⟨v, hv⟩ := hmeets.stops fuel hfuel
    exact hv

theorem calcParseExpr_ok_iff (hfuel : 3 * text.length + 2 < fuel)
    : (∃ r, calcParseExpr fuel ⟨text, .none⟩ = .ok r) ↔ ¬DivisionOverflows text := by
  rw [← calcParseExpr_faults_iff hfuel]
  have hexplained := calcParseExpr_explained hfuel
  generalize calcParseExpr fuel ⟨text, .none⟩ = result at *
  cases hexplained with
  | fault _ => exact iff_of_false (fun ⟨_, h⟩ => nomatch h) fun h => h rfl
  | value | zero | invalid => exact iff_of_true ⟨_, rfl⟩ fun h => nomatch h

-- A divisor that is zero never gets as far as to the division.
theorem calcStart_faults_iff (text : List UInt8)
    : calcStart text ≠ .error .divideFault ↔ ¬DivisionOverflows text := by
  rw [not_iff_not, calcStart_eq_parse]
  exact calcParseExpr_faults_iff (Nat.lt_succ_self _)

theorem calcStart_min_faults : calcStart (str "9223372036854775808/-1") = .error .divideFault := by
  decide +kernel

end Faults

end DismasmOS
