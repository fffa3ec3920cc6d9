import DismasmOS.Calc.Lemmas.Print
import DismasmOS.Calc.Lemmas.Round
import DismasmOS.Calc.Reads

/-!
This module contains the recursive descent on the texts that are read as an expression tree: by
induction on the reading, it returns the value of the tree with the cursor behind it. All writings
of a tree are read as this tree.
-/

namespace DismasmOS

section Descent

variable {level : CalcLevel} {e : CalcExpr} {v l r : Int64} {text t mid rest : List UInt8}

def Delimited (level : CalcLevel) (rest : List UInt8) : Prop := level = .expr → NoOp .term rest

-- The function for `level` reads `text` up to `rest`, `result` is what its loop does from there.
def Parses (level : CalcLevel) (v : Int64) (text rest : List UInt8) : Prop :=
  ∀ result, Delimited level rest →
    (∀ fuel, 3 * rest.length < fuel → level.loop fuel v ⟨rest, .none⟩ = result) →
      ∀ fuel, 3 * text.length + level.depth < fuel → level.parse fuel ⟨text, .none⟩ = result

theorem Parses.factor_eq (h : Parses .factor v text rest) {fuel : Nat}
    (hfuel : 3 * text.length < fuel)
    : calcParseFactor fuel ⟨text, .none⟩ = .ok ⟨v, ⟨rest, .none⟩⟩ := by
  apply h
  . intro hlevel
    cases hlevel
  . intro fuel _
    rfl
  . exact hfuel

theorem Parses.stop (h : Parses level v text rest) (hdelim : Delimited level rest)
    (hop : level ≠ .factor → NoOp level rest) {fuel : Nat}
    (hfuel : 3 * text.length + level.depth < fuel)
    : ∃ rest', skipBlanks rest' = skipBlanks rest ∧ rest'.length ≤ rest.length ∧
        level.parse fuel ⟨text, .none⟩ = .ok ⟨v, ⟨rest', .none⟩⟩ := by
  by_cases hlevel : level = .factor
  . cases hlevel
    exact ⟨rest, rfl, Nat.le_refl _, h.factor_eq hfuel⟩
  . refine ⟨skipBlanks rest, skipBlanks_skipBlanks rest, length_skipBlanks_le rest, ?_⟩
    apply h _ hdelim
    . intro fuel hfuel
      cases fuel with
      | zero => omega
      | succ fuel => exact loop_end hlevel (hop hlevel)
    . exact hfuel

theorem loop_blanks {s s' : List UInt8} (h : skipBlanks s = skipBlanks s') (hlevel : level ≠ .factor)
    (fuel : Nat) : level.loop fuel v ⟨s, .none⟩ = level.loop fuel v ⟨s', .none⟩ := by
  cases fuel with
  | zero =>
    cases level with
    | factor => exact absurd rfl hlevel
    | term =>
      unfold CalcLevel.loop
      dsimp only
      rw [calcTermLoop, calcTermLoop]
    | expr =>
      unfold CalcLevel.loop
      dsimp only
      rw [calcExprLoop, calcExprLoop]
  | succ fuel =>
    cases op_or_noOp level s with
    | inl hop =>
      obtain ⟨g, t, rfl, hs⟩ := hop
      rw [loop_op g hs, loop_op g (h.symm.trans hs)]
    | inr hno =>
      have hno' : NoOp level s' := by
        unfold NoOp at hno ⊢
        rw [← h]
        exact hno
      rw [loop_end hlevel hno, loop_end hlevel hno', h]

theorem CalcOp.level_ne_factor (g : CalcOp) : g.level ≠ .factor := by
  cases g <;> decide

theorem noOp_rhs {g : CalcOp} (hdelim : Delimited g.level rest) (hlevel : g.rhsLevel ≠ .factor)
    : NoOp g.rhsLevel rest := by
  cases g with
  | add | sub => exact hdelim rfl
  | mul | div | mod => exact absurd rfl hlevel

theorem delimited_rhs (g : CalcOp) : Delimited g.rhsLevel rest := by
  intro hlevel
  cases g <;> cases hlevel

theorem parses_lit {n : Nat} (hdigit : isDigit ((skipBlanks text).headD NUL))
    (hn : Int64.ofNat n = (parseNum (skipBlanks text)).toInt64)
    : Parses .factor (Int64.ofNat n) text (scanLiteral (skipBlanks text)) := by
  intro result _ hloop fuel hfuel
  rw [← hloop (3 * (scanLiteral (skipBlanks text)).length + 1) (Nat.lt_succ_self _)]
  cases fuel with
  | zero => omega
  | succ fuel =>
    rw [hn]
    exact calcParseFactor_lit hdigit

theorem Parses.sign (g : CalcSign) (htext : skipBlanks text = g.char :: t)
    (h : Parses .factor v t rest) : Parses .factor (g.eval v) text rest := by
  intro result _ hloop fuel hfuel
  have hlen := length_skipBlanks_le text
  rw [htext, List.length_cons] at hlen
  rw [← hloop (3 * rest.length + 1) (Nat.lt_succ_self _)]
  cases fuel with
  | zero => omega
  | succ fuel =>
    show calcParseFactor (fuel + 1) _ = _
    rw [calcParseFactor_sign g htext, h.factor_eq (by omega)]
    rfl

theorem Parses.paren (htext : skipBlanks text = chr '(' :: t) (h : Parses .expr v t mid)
    (hmid : skipBlanks mid = chr ')' :: rest) : Parses .factor v text rest := by
  intro result _ hloop fuel hfuel
  have hlen := length_skipBlanks_le text
  rw [htext, List.length_cons] at hlen
  rw [← hloop (3 * rest.length + 1) (Nat.lt_succ_self _)]
  have hno : ∀ level, NoOp level mid := by
    apply noOp_of_head
    . rw [hmid, List.headD_cons]
    . intro g
      cases g <;> decide
  cases fuel with
  | zero => omega
  | succ fuel =>
    have hfuel : 3 * t.length + CalcLevel.expr.depth < fuel := by
      have hdepth : CalcLevel.expr.depth = 2 := rfl
      have hdepth' : CalcLevel.factor.depth = 0 := rfl
      omega
    obtain ⟨rest', hblanks, _, hparse⟩ := h.stop (fun _ => hno .term) (fun _ => hno .expr) hfuel
    show calcParseFactor (fuel + 1) _ = _
    rw [calcParseFactor_paren htext]
    show (CalcLevel.expr.parse fuel _).map _ = _
    rw [hparse]
    show Except.ok (v, Calc.close ⟨rest', .none⟩) = _
    rw [Calc.close_paren (hblanks.trans hmid)]
    rfl

theorem delimited_lower : Delimited level.lower rest := by
  intro hlower
  cases level <;> cases hlower

theorem noOp_lower (hdelim : Delimited level rest) (hlower : level.lower ≠ .factor)
    : NoOp level.lower rest := by
  cases level with
  | expr => exact hdelim rfl
  | term | factor => exact absurd rfl hlower

theorem Parses.lower (hlevel : level ≠ .factor) (h : Parses level.lower v text rest)
    (hlen : rest.length ≤ text.length) : Parses level v text rest := by
  intro result hdelim hloop fuel hfuel
  rw [CalcLevel.depth_lower hlevel] at hfuel
  cases fuel with
  | zero => omega
  | succ fuel =>
    have hfuel : 3 * text.length + level.lower.depth < fuel := by omega
    obtain ⟨rest', hblanks, _, hparse⟩ := h.stop delimited_lower (noOp_lower hdelim) hfuel
    rw [parse_succ hlevel, hparse, ok_bind]
    dsimp only
    rw [loop_blanks hblanks hlevel]
    apply hloop
    omega

theorem Parses.op (g : CalcOp) (hl : Parses g.level l text mid)
    (hmid : skipBlanks mid = g.char :: t) (hr : Parses g.rhsLevel r t rest)
    (hlen : rest.length ≤ t.length) (hv : g.eval l r = some v)
    : Parses g.level v text rest := by
  intro result hdelim hloop
  apply hl
  . intro hlevel
    exact CalcOp.noOp hmid hlevel
  . intro fuel hfuel
    have hmidLen := length_skipBlanks_le mid
    rw [hmid, List.length_cons] at hmidLen
    cases fuel with
    | zero => omega
    | succ fuel =>
      have hdepth : g.rhsLevel.depth ≤ 1 := by
        cases g <;> decide
      have hfuel : 3 * t.length + g.rhsLevel.depth < fuel := by omega
      obtain ⟨rest', hblanks, _, hparse⟩ := hr.stop (delimited_rhs g) (noOp_rhs hdelim) hfuel
      rw [loop_op g hmid, hparse, ok_bind, calcContinue_eq rfl, hv]
      dsimp only
      rw [loop_blanks hblanks g.level_ne_factor]
      apply hloop
      omega

end Descent

section Readings

variable {level : CalcLevel} {e : CalcExpr} {v : Int64} {text rest : List UInt8}

theorem CalcExpr.eval_sign {g : CalcSign} (hv : (CalcExpr.sign g e).eval = some v)
    : ∃ x, e.eval = some x ∧ g.eval x = v := by
  rw [CalcExpr.eval] at hv
  cases hx : e.eval with
  | none =>
    rw [hx] at hv
    cases hv
  | some x =>
    rw [hx] at hv
    cases hv
    exact ⟨x, rfl, rfl⟩

theorem CalcExpr.eval_op {g : CalcOp} {lhs rhs : CalcExpr}
    (hv : (CalcExpr.op g lhs rhs).eval = some v)
    : ∃ l r, lhs.eval = some l ∧ rhs.eval = some r ∧ g.eval l r = some v := by
  rw [CalcExpr.eval] at hv
  cases hl : lhs.eval with
  | none =>
    rw [hl] at hv
    cases hv
  | some l =>
    cases hr : rhs.eval with
    | none =>
      rw [hl, hr] at hv
      cases hv
    | some r =>
      rw [hl, hr] at hv
      exact ⟨l, r, rfl, rfl, hv⟩

theorem skipBlanks_suffix (s : List UInt8) : skipBlanks s <:+ s :=
  List.dropWhile_suffix ..

theorem suffix_of_skipBlanks {s t : List UInt8} {c : UInt8} (h : skipBlanks s = c :: t) : t <:+ s := by
  apply List.IsSuffix.trans (List.suffix_cons c t)
  rw [← h]
  exact skipBlanks_suffix s

theorem scanLiteral_suffix (s : List UInt8) : scanLiteral s <:+ s := by
  unfold scanLiteral
  split
  . exact (List.dropWhile_suffix ..).trans (List.drop_suffix 2 s)
  . exact List.dropWhile_suffix ..

theorem Reads.suffix (h : Reads level e text rest) : rest <:+ text := by
  induction h with
  | lit _ _ => exact (scanLiteral_suffix _).trans (skipBlanks_suffix _)
  | sign _ htext _ ih => exact ih.trans (suffix_of_skipBlanks htext)
  | paren htext _ hmid ih =>
    exact ((suffix_of_skipBlanks hmid).trans ih).trans (suffix_of_skipBlanks htext)
  | factor _ ih => exact ih
  | term _ ih => exact ih
  | op _ _ hmid _ ihl ihr => exact (ihr.trans (suffix_of_skipBlanks hmid)).trans ihl

theorem Reads.lower (hlevel : level ≠ .factor) (h : Reads level.lower e text rest)
    : Reads level e text rest := by
  cases level with
  | factor => exact absurd rfl hlevel
  | term => exact h.factor
  | expr => exact h.term

theorem Reads.parses (h : Reads level e text rest) (hv : e.eval = some v)
    : Parses level v text rest := by
  induction h generalizing v with
  | lit hdigit hn =>
    cases hv
    exact parses_lit hdigit hn
  | sign g htext _ ih =>
    obtain ⟨x, hx, hgv⟩ := CalcExpr.eval_sign hv
    rw [← hgv]
    exact (ih hx).sign g htext
  | paren htext _ hmid ih => exact (ih hv).paren htext hmid
  | factor he ih => exact (ih hv).lower (by decide) he.suffix.length_le
  | term he ih => exact (ih hv).lower (by decide) he.suffix.length_le
  | op g hlhs hmid hrhs ihl ihr =>
    obtain ⟨l, r, hl, hr, hgv⟩ := CalcExpr.eval_op hv
    exact (ihl hl).op g hmid (ihr hr) hrhs.suffix.length_le hgv

theorem calcStart_reads (h : Reads .expr e text rest) (hv : e.eval = some v) (hrest : Blanks rest)
    : calcStart text = .ok ⟨v, ⟨[], .none⟩⟩ := by
  have hskip := skipBlanks_eq_nil_iff.mpr hrest
  have hno : ∀ level, NoOp level rest := by
    apply noOp_of_head
    . rw [hskip, List.headD_nil]
    . intro g
      cases g <;> decide
  rw [calcStart_eq_parse]
  apply h.parses hv
  . intro _
    exact hno .term
  . intro fuel hfuel
    cases fuel with
    | zero => omega
    | succ fuel => rw [loop_end (by decide) (hno .expr), hskip]
  . exact Nat.lt_succ_self _

end Readings

section Writings

variable {level : CalcLevel} {e : CalcExpr} {s w rest : List UInt8} {v : Int64}

-- The characters that end a literal.
def LiteralEnds (rest : List UInt8) : Prop :=
  ¬isDigit (rest.headD NUL) ∧ rest.headD NUL ≠ chr 'x' ∧ rest.headD NUL ≠ chr 'X'

theorem LiteralEnds.blanks (hw : Blanks w) (h : LiteralEnds rest) : LiteralEnds (w ++ rest) := by
  cases w with
  | nil => exact h
  | cons c w =>
    have hc : isBlank c := hw c (List.mem_cons_self ..)
    unfold LiteralEnds
    rw [List.cons_append, List.headD_cons]
    rw [isBlank_iff] at hc
    cases hc with
    | inl hspace =>
      rw [hspace]
      decide
    | inr htab =>
      rw [htab]
      decide

theorem CalcOp.literalEnds (g : CalcOp) : LiteralEnds (g.char :: rest) := by
  unfold LiteralEnds
  rw [List.headD_cons]
  cases g <;> decide

theorem literalEnds_paren : LiteralEnds (chr ')' :: rest) := by
  unfold LiteralEnds
  rw [List.headD_cons]
  decide

theorem CalcOp.not_isBlank (g : CalcOp) : ¬isBlank g.char := by
  cases g <;> decide

theorem CalcSign.not_isBlank (g : CalcSign) : ¬isBlank g.char := by
  cases g <;> decide

theorem not_isHexPrefix {digits rest : List UInt8} (hne : digits ≠ [])
    (hdigits : ∀ c ∈ digits, isDigit c) (hrest : LiteralEnds rest)
    : ¬isHexPrefix (digits ++ rest) := by
  have hmark : (digits ++ rest).tail.headD NUL ≠ chr 'x'
      ∧ (digits ++ rest).tail.headD NUL ≠ chr 'X' := by
    cases digits with
    | nil => exact absurd rfl hne
    | cons c digits =>
      cases digits with
      | nil => exact hrest.2
      | cons c' digits =>
        have hc' : isDigit c' := hdigits c' (by simp)
        constructor
        all_goals
          rintro rfl
          exact absurd hc' (by decide)
  unfold isHexPrefix
  rw [decide_eq_false hmark.1, decide_eq_false hmark.2, Bool.or_false, Bool.and_false]
  exact Bool.false_ne_true

theorem reads_digits {digits : List UInt8} (hw : Blanks w) (hne : digits ≠ [])
    (hdigits : ∀ c ∈ digits, isDigit c) (hrest : LiteralEnds rest)
    : Reads .factor (.lit (numeral 10 digits)) (w ++ digits ++ rest) rest := by
  have hhead : isDigit ((digits ++ rest).headD NUL) := by
    cases digits with
    | nil => exact absurd rfl hne
    | cons c digits => exact hdigits c (List.mem_cons_self ..)
  have hblank : ¬isBlank ((digits ++ rest).headD NUL) := by
    rw [isBlank_iff]
    rintro (hc | hc)
    all_goals
      rw [hc] at hhead
      exact absurd hhead (by decide)
  have hskip : skipBlanks (w ++ digits ++ rest) = digits ++ rest := by
    rw [List.append_assoc, skipBlanks_append hw, skipBlanks_eq_self hblank]
  have hhex := not_isHexPrefix hne hdigits hrest
  have hparse := parseDec_append hdigits hrest.1 0
  rw [Nat.zero_mul, Nat.zero_add] at hparse
  have hscan : scanLiteral (digits ++ rest) = rest := by
    unfold scanLiteral
    rw [if_neg hhex, List.dropWhile_append_of_pos hdigits, dropWhile_eq_self hrest.1]
  have hlit : ∀ {n}, isDigit ((skipBlanks (w ++ digits ++ rest)).headD NUL)
      → Int64.ofNat n = (parseNum (skipBlanks (w ++ digits ++ rest))).toInt64
      → Reads .factor (.lit n) (w ++ digits ++ rest)
        (scanLiteral (skipBlanks (w ++ digits ++ rest))) := Reads.lit
  rw [hskip, hscan] at hlit
  apply hlit hhead
  unfold parseNum
  rw [if_neg hhex]
  show Int64.ofNat _ = (parseDec (UInt64.ofNat 0) (digits ++ rest)).toInt64
  rw [hparse]
  rfl

theorem Writes.reads (h : Writes level e s) (hrest : LiteralEnds rest)
    : Reads level e (s ++ rest) rest := by
  induction h generalizing rest with
  | lit hw hne hdigits => exact reads_digits hw hne hdigits hrest
  | sign g hw _ ih =>
    rw [List.append_assoc, List.cons_append]
    exact .sign g (skipBlanks_cons hw g.not_isBlank) (ih hrest)
  | @paren w s w' e hw _ hw' ih =>
    have hassoc : w ++ chr '(' :: (s ++ (w' ++ [chr ')'])) ++ rest
        = w ++ chr '(' :: (s ++ (w' ++ chr ')' :: rest)) := by
      simp
    rw [hassoc]
    apply Reads.paren (skipBlanks_cons hw (by decide))
    . exact ih (literalEnds_paren.blanks hw')
    . exact skipBlanks_cons hw' (by decide)
  | factor _ ih => exact (ih hrest).factor
  | term _ ih => exact (ih hrest).term
  | @op s w t lhs rhs g _ hw _ ihl ihr =>
    have hassoc : s ++ (w ++ g.char :: t) ++ rest = s ++ (w ++ g.char :: (t ++ rest)) := by
      simp
    rw [hassoc]
    apply Reads.op g
    . exact ihl (g.literalEnds.blanks hw)
    . exact skipBlanks_cons hw g.not_isBlank
    . exact ihr hrest

theorem calcStart_eval (h : Writes .expr e s) (hv : e.eval = some v) (hw : Blanks w)
    : calcStart (s ++ w) = .ok ⟨v, ⟨[], .none⟩⟩ := by
  have hends : LiteralEnds ([] : List UInt8) := by
    unfold LiteralEnds
    decide
  apply calcStart_reads _ hv hw
  apply h.reads
  rw [← List.append_nil w]
  exact hends.blanks hw

def sumModulo : CalcExpr :=
  .op .mod (.op .sub (.lit 2) (.sign .minus (.sign .plus (.lit 3)))) (.lit 4)

theorem calcStart_sumModulo
    : sumModulo.text .expr = str "(2--+3)%4"
        ∧ calcStart (sumModulo.text .expr ++ [chr ' ']) = .ok ⟨1, ⟨[], .none⟩⟩ := by
  refine ⟨by decide +kernel, ?_⟩
  apply calcStart_eval (Writes.text sumModulo .expr)
  . rfl
  . intro c hc
    rw [List.mem_singleton] at hc
    rw [hc]
    decide

end Writings

end DismasmOS
