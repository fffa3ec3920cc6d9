import DismasmOS.Shell.History
import DismasmOS.Shell.Lemmas.LineShown

/-!
This module contains the refinement of the line and the history at the prompt: an ever growing total,
indices modulo 32 and a sentinel stand for the last lines and the position of the recalled one.
-/

namespace DismasmOS

section Recalls

variable {h : Hist} {r : History UInt8}

def historyIndex (total : Nat) (back : Option Nat) : Int :=
  match back with
  | none => -1
  | some k => total - 1 - k

structure Hist.Recalls (h : Hist) (r : History UInt8) : Prop where
  total : h.total = r.collapsed.length
  slots : HoldsLast HIST_MAX (fun i => (h.entry i).str) r.collapsed
  index : h.index = historyIndex h.total r.back
  valid : r.Valid HIST_MAX

theorem Hist.recalls_empty : Hist.empty.Recalls .empty where
  total := rfl
  slots := holdsLast_nil _
  index := rfl
  valid := History.valid_empty

namespace Hist.Recalls

-- The entry that a new line is compared with is the newest one.
theorem newest_iff (hrec : h.Recalls r) (a : CharArray CMD_MAX_LEN)
    : (h.total > 0 ∧ strcmp (h.entry (h.total - 1)).chars a.chars = 0)
        ↔ r.collapsed.getLast? = some a.str := by
  have hmax : 0 < HIST_MAX := by decide
  rw [strcmp_eq_zero_iff, hrec.total, List.getLast?_eq_getElem?]
  constructor
  . rintro ⟨hpos, heq⟩
    have hslot := hrec.slots (r.collapsed.length - 1) (by omega) (by omega)
    rw [List.getElem?_eq_getElem (by omega), ← hslot]
    exact congrArg some heq
  . intro hlast
    obtain ⟨hlt, heq⟩ := List.getElem?_eq_some_iff.mp hlast
    have hslot := hrec.slots (r.collapsed.length - 1) hlt (by omega)
    refine ⟨by omega, ?_⟩
    rw [heq] at hslot
    exact hslot

theorem histAdd (hrec : h.Recalls r) {a : CharArray CMD_MAX_LEN} (ha : IsLine a)
    : Hist.Recalls { histAdd h a.chars with index := -1 } (r.submit a.str) := by
  have hcollapsed := r.collapsed_submit a.str
  have hvalid := History.valid_submit (n := HIST_MAX) r a.str
  unfold DismasmOS.histAdd
  by_cases hempty : a.chars.headD NUL = NUL
  . rw [if_pos (.inl ((headD_eq_nul_iff _).mp hempty))] at hcollapsed
    rw [if_pos hempty]
    refine ⟨?_, ?_, rfl, hvalid⟩
    . rw [hcollapsed]
      exact hrec.total
    . rw [hcollapsed]
      exact hrec.slots
  . rw [if_neg hempty]
    by_cases hlast : h.total > 0 ∧ strcmp (h.entry (h.total - 1)).chars a.chars = 0
    . rw [if_pos (.inr ((hrec.newest_iff a).mp hlast))] at hcollapsed
      rw [if_pos hlast]
      refine ⟨?_, ?_, rfl, hvalid⟩
      . rw [hcollapsed]
        exact hrec.total
      . rw [hcollapsed]
        exact hrec.slots
    . have hnew : ¬(a.str = [] ∨ r.collapsed.getLast? = some a.str) :=
        not_or.mpr ⟨(headD_eq_nul_iff _).not.mp hempty, (hrec.newest_iff a).not.mp hlast⟩
      rw [if_neg hnew] at hcollapsed
      rw [if_neg hlast]
      refine ⟨?_, ?_, rfl, hvalid⟩
      . rw [hcollapsed, List.length_append, List.length_singleton]
        exact congrArg (· + 1) hrec.total
      . rw [hcollapsed]
        apply hrec.slots.push
        intro i
        show ((h.setEntry h.total ((h.entry h.total).assign a.chars)).entry i).str = _
        rw [Hist.entry_setEntry, ← hrec.total]
        split
        . rw [(h.entry h.total).str_assign (by decide), List.take_of_length_le]
          . rfl
          . exact Nat.le_pred_of_lt ha.strlen_lt
        . rfl

theorem total_eq_zero_iff (hrec : h.Recalls r) : h.total = 0 ↔ r.kept HIST_MAX = [] := by
  have hlen := r.length_kept (n := HIST_MAX)
  have hmax : 0 < HIST_MAX := by decide
  rw [← List.length_eq_zero_iff, hlen, hrec.total]
  omega

theorem index_eq_iff (hrec : h.Recalls r) : h.index = -1 ↔ r.back = none := by
  have hindex := hrec.index
  have htotal := hrec.total
  unfold historyIndex at hindex
  cases hback : r.back with
  | none =>
    rw [hback] at hindex
    simp [hindex]
  | some k =>
    have hlt := hrec.valid k hback
    rw [History.length_kept] at hlt
    rw [hback] at hindex
    dsimp only at hindex
    simp only [reduceCtorEq, iff_false]
    omega

theorem entry_eq (hrec : h.Recalls r) (hback : r.back ≠ none)
    : (h.entry h.index.toNat).str = r.recalled HIST_MAX := by
  have hindex := hrec.index
  have htotal := hrec.total
  unfold historyIndex at hindex
  cases hk : r.back with
  | none => exact absurd hk hback
  | some k =>
    have hlt := hrec.valid k hk
    rw [History.recalled_some hk hlt]
    rw [History.length_kept] at hlt
    rw [hk] at hindex
    dsimp only at hindex
    have heq : h.index.toNat = r.collapsed.length - 1 - k := by omega
    have hslot := hrec.slots (r.collapsed.length - 1 - k) (by omega) (by omega)
    rw [heq, List.getD_eq_getElem?_getD, List.getElem?_eq_getElem (by omega), Option.getD_some]
    exact hslot

theorem setIndex (hrec : h.Recalls r) {r' : History UInt8} (hvalid : r'.Valid HIST_MAX)
    (hsubmitted : r'.submitted = r.submitted) {index : Int} (hindex : index = historyIndex h.total r'.back)
    : Hist.Recalls { h with index := index } r' := by
  have hcollapsed : r'.collapsed = r.collapsed := by
    unfold History.collapsed
    rw [hsubmitted]
  constructor
  . rw [hcollapsed]
    exact hrec.total
  . rw [hcollapsed]
    exact hrec.slots
  . exact hindex
  . exact hvalid

theorem older (hrec : h.Recalls r) (htotal : h.total ≠ 0)
    : Hist.Recalls { h with index := h.olderIndex } (r.older HIST_MAX)
        ∧ (r.older HIST_MAX).back ≠ none := by
  have hindex := hrec.index
  have hlen := r.length_kept (n := HIST_MAX)
  have hvalid := hrec.valid
  have holder := hvalid.older
  rw [← hrec.total] at hlen
  unfold historyIndex at hindex
  unfold Hist.olderIndex
  rw [ne_eq, hrec.total_eq_zero_iff] at htotal
  unfold History.older at *
  cases hback : r.back with
  | none =>
    rw [hback] at hindex holder
    dsimp only at holder ⊢
    rw [if_neg htotal] at holder ⊢
    rw [if_pos hindex]
    refine ⟨hrec.setIndex holder rfl ?_, by simp⟩
    unfold historyIndex
    dsimp only
    omega
  | some k =>
    have hlt := hvalid k hback
    rw [hback] at hindex holder
    dsimp only at hindex holder ⊢
    rw [if_neg (by omega)]
    by_cases hroom : k + 1 < (r.kept HIST_MAX).length
    . rw [if_pos hroom] at holder ⊢
      rw [if_pos (by omega)]
      refine ⟨hrec.setIndex holder rfl ?_, by simp⟩
      unfold historyIndex
      dsimp only
      omega
    . rw [if_neg hroom] at holder ⊢
      rw [if_neg (by omega)]
      refine ⟨hrec.setIndex holder rfl ?_, by simp [hback]⟩
      exact hrec.index

theorem newer (hrec : h.Recalls r) (hback : r.back ≠ none)
    : if h.index < h.total - 1 then
        Hist.Recalls { h with index := h.index + 1 } r.newer ∧ r.newer.back ≠ none
      else
        Hist.Recalls { h with index := -1 } r.newer ∧ r.newer.back = none := by
  have hindex := hrec.index
  have hvalid := hrec.valid
  have hnewer := hvalid.newer
  unfold historyIndex at hindex
  unfold History.newer at *
  cases hk : r.back with
  | none => exact absurd hk hback
  | some k =>
    rw [hk] at hindex hnewer
    cases k with
    | zero =>
      dsimp only at hindex hnewer ⊢
      rw [if_neg (by omega)]
      exact ⟨hrec.setIndex hnewer rfl rfl, rfl⟩
    | succ k =>
      dsimp only at hindex hnewer ⊢
      rw [if_pos (by omega)]
      refine ⟨hrec.setIndex hnewer rfl ?_, by simp⟩
      unfold historyIndex
      dsimp only
      omega

end Hist.Recalls

end Recalls

namespace Repl

variable {s s' : Repl} {r : PromptRef}

-- Where the line stands on the screen does not matter here.
structure Follows (s : Repl) (r : PromptRef) : Prop extends s.Kept where
  line : s.cmdBuf.chars.take s.cmdLen = r.line
  cmdLen_lt : s.cmdLen < CMD_MAX_LEN
  plain : PlainText r.line
  recalls : s.hist.Recalls r.history

theorem Follows.length (h : s.Follows r) : r.line.length = s.cmdLen := by
  have hlen := s.cmdBuf.length_chars
  have hlt := h.cmdLen_lt
  rw [← h.line, List.length_take]
  omega

theorem Kept.erase (h : s.Kept)
    : ∃ s', s.erase = some s' ∧ s'.Kept ∧ s'.cmdLen = 0 ∧ s'.cmdBuf = s.cmdBuf
        ∧ s'.hist = s.hist := by
  have hkept : Kept { s with cmdLen := 0 } := ⟨h.shows, h.hist⟩
  exact hkept.draw _

theorem Kept.setIndex (h : s.Kept) {index : Int} (hindex : -1 ≤ index) : (s.setIndex index).Kept :=
  ⟨h.shows, h.hist.setIndex hindex⟩

theorem Kept.recallLine (h : s.Kept) {history : History UInt8} (hrec : s.hist.Recalls history)
    (hback : history.back ≠ none)
    : ∃ s', s.recallLine = some s' ∧ s'.Follows (.recalling history) := by
  obtain ⟨v, cmdBuf, hrecall, hshows, hline, htake, hstr⟩ := recallLine_eq h
  rw [hrec.entry_eq hback] at hstr
  refine ⟨_, hrecall, ⟨hshows, h.hist⟩, ?_, ?_, ?_, hrec⟩
  . dsimp only
    rw [htake]
    exact hstr
  . dsimp only
    rw [strlen_eq]
    exact hline.strlen_lt
  . show PlainText (history.recalled HIST_MAX)
    rw [← hstr]
    exact hline.plain

theorem Follows.up (h : s.Follows r) : ∃ s', s.up = some s' ∧ s'.Follows r.up := by
  unfold PromptRef.up
  split
  . next hkept =>
    rw [← h.recalls.total_eq_zero_iff] at hkept
    refine ⟨s, ?_, h⟩
    unfold Repl.up
    rw [hkept]
    rfl
  . next htotal =>
    rw [← h.recalls.total_eq_zero_iff] at htotal
    obtain ⟨hrec, hback⟩ := h.recalls.older htotal
    obtain ⟨s₁, herase, hkept, _, _, hhist⟩ := (h.toKept.setIndex h.hist.olderIndex_ge).erase
    rw [up_eq htotal, herase, Option.bind_some]
    apply hkept.recallLine _ hback
    rw [hhist]
    exact hrec

theorem Follows.down (h : s.Follows r) : ∃ s', s.down = some s' ∧ s'.Follows r.down := by
  have hindex := h.recalls.index_eq_iff
  unfold PromptRef.down Repl.down
  by_cases hback : r.history.back = none
  . rw [if_pos hback, if_neg (not_not.mpr (hindex.mpr hback))]
    exact ⟨s, rfl, h⟩
  . have hnewer := h.recalls.newer hback
    obtain ⟨s₁, herase, hkept, hlen, _, hhist⟩ := h.toKept.erase
    rw [if_neg hback, if_pos (hindex.not.mpr hback), herase, Option.bind_eq_bind, Option.bind_some, hhist]
    split at hnewer
    . next hlt =>
      rw [if_pos hlt]
      have hge : -1 ≤ s.hist.index + 1 := by
        have hold := h.hist.index_ge
        omega
      apply (hkept.setIndex hge).recallLine _ hnewer.2
      unfold Repl.setIndex
      rw [hhist]
      exact hnewer.1
    . next hlast =>
      rw [if_neg hlast]
      have hempty : PromptRef.recalling r.history.newer = ⟨[], r.history.newer⟩ := by
        unfold PromptRef.recalling History.recalled
        rw [hnewer.2]
      rw [hempty]
      refine ⟨_, rfl, ⟨hkept.shows, hkept.hist.setIndex (Int.le_refl _)⟩, rfl, ?_, ?_, ?_⟩
      . show 0 < CMD_MAX_LEN
        decide
      . intro c hc
        cases hc
      . unfold Repl.setIndex
        dsimp only
        rw [hhist]
        exact hnewer.1

theorem Follows.enter (h : s.Follows r) (outcome : LineOutcome)
    : ∃ s', s.enter outcome = some s' ∧ s'.Follows (.recalling (r.history.submit r.line)) := by
  have hplain : PlainText (s.cmdBuf.chars.take s.cmdLen) := by
    rw [h.line]
    exact h.plain
  have hline := isLine_set h.cmdLen_lt hplain
  have hstr := s.cmdBuf.str_set_nul h.cmdLen_lt hplain.nulFree
  have hrec := h.recalls.histAdd hline
  obtain ⟨s', henter, hinv, hlen, hhist⟩ := h.toKept.enter h.cmdLen_lt hplain outcome
  rw [hstr, h.line, ← hhist] at hrec
  refine ⟨s', henter, hinv.toKept, ?_, hinv.cmdLen_lt, ?_, hrec⟩
  . rw [hlen]
    rfl
  . intro c hc
    cases hc

theorem Follows.backspace (h : s.Follows r)
    : ∃ s', s.backspace = some s' ∧ s'.Follows { r with line := r.line.dropLast } := by
  have hlen := h.length
  unfold Repl.backspace
  split
  . next hpos =>
    have hkept : Kept { s with cmdLen := s.cmdLen - 1 } := ⟨h.shows, h.hist⟩
    obtain ⟨s', hdraw, hkept', hlen', hbuf, hhist⟩ := hkept.draw [.backspace]
    refine ⟨s', hdraw, hkept', ?_, ?_, ?_, ?_⟩
    . rw [hbuf, hlen', List.dropLast_eq_take, hlen, ← h.line, List.take_take]
      congr 1
      exact (Nat.min_eq_left (Nat.sub_le ..)).symm
    . rw [hlen']
      exact Nat.lt_of_le_of_lt (Nat.sub_le ..) h.cmdLen_lt
    . intro c hc
      exact h.plain c (List.dropLast_subset _ hc)
    . rw [hhist]
      exact h.recalls
  . next hzero =>
    have hnil : r.line = [] := List.eq_nil_of_length_eq_zero (by omega)
    refine ⟨s, rfl, h.toKept, ?_, h.cmdLen_lt, ?_, h.recalls⟩
    . rw [h.line, hnil]
      rfl
    . rw [hnil]
      intro c hc
      cases hc

theorem Follows.insert (h : s.Follows r) {c : UInt8} (hc : 32 ≤ c.toNat)
    : ∃ s', s.insert c = some s'
        ∧ s'.Follows
            (if r.line.length < CMD_MAX_LEN - 1 then { r with line := r.line ++ [c] } else r) := by
  unfold Repl.insert
  rw [h.length]
  split
  . next hroom =>
    have hlt : s.cmdLen < CMD_MAX_LEN := h.cmdLen_lt
    have hkept : Kept { s with cmdBuf := s.cmdBuf.set s.cmdLen c, cmdLen := s.cmdLen + 1 } :=
      ⟨h.shows, h.hist⟩
    obtain ⟨s', hdraw, hkept', hlen, hbuf, hhist⟩ := hkept.draw [.putchar c]
    refine ⟨s', hdraw, hkept', ?_, ?_, ?_, ?_⟩
    . rw [hbuf, hlen, s.cmdBuf.take_set hlt, h.line]
    . rw [hlen]
      exact Nat.add_lt_of_lt_sub hroom
    . intro x hx
      rw [List.mem_append, List.mem_singleton] at hx
      cases hx with
      | inl hx => exact h.plain x hx
      | inr hx =>
        rw [hx]
        exact hc
    . rw [hhist]
      exact h.recalls
  . exact ⟨s, rfl, h⟩

theorem Follows.step (h : s.Follows r) (input : ReplInput)
    : ∃ s', s.step input = some s' ∧ s'.Follows (r.key input.key) := by
  unfold Repl.step PromptRef.key
  dsimp only
  split
  . exact h.enter input.outcome
  split
  . exact h.backspace
  split
  . exact h.up
  split
  . exact h.down
  by_cases hchar : (input.key ≥ 32 ∧ input.key ≤ 255) ∧ input.key ≠ 127
  . have hc : 32 ≤ (UInt8.ofNat input.key.toNat).toNat := by
      rw [UInt8.toNat_ofNat']
      omega
    have hinsert := h.insert hc
    rw [if_pos hchar]
    simp only [and_iff_right hchar]
    exact hinsert
  . rw [if_neg hchar, if_neg (fun hand => hchar hand.1)]
    exact ⟨s, rfl, h⟩

theorem Follows.run (h : s.Follows r) (inputs : List ReplInput)
    : (∃ s', Run Repl.Types s inputs s')
        ∧ ∀ s', Run Repl.Types s inputs s' → s'.Follows (r.keys (inputs.map (·.key))) := by
  induction inputs generalizing s r with
  | nil =>
    refine ⟨⟨s, .nil s⟩, ?_⟩
    intro s' hrun
    cases hrun
    exact h
  | cons input inputs ih =>
    obtain ⟨s₁, hstep, hnext⟩ := h.step input
    obtain ⟨hruns, hfollows⟩ := ih hnext
    obtain ⟨s', hrun⟩ := hruns
    refine ⟨⟨s', .cons hstep hrun⟩, ?_⟩
    intro s' hrun
    cases hrun with
    | cons head tail =>
      unfold Types at head
      rw [hstep, Option.some.injEq] at head
      rw [← head] at tail
      exact hfollows s' tail

end Repl

section Start

theorem length_submitted_key (r : PromptRef) (c : Int)
    : (r.key c).history.submitted.length
        = r.history.submitted.length + if c = KEY_NEWLINE then 1 else 0 := by
  unfold PromptRef.key
  split
  . next henter => exact List.length_append
  . next hother =>
    suffices hsame : ∀ r' : PromptRef, r'.history.submitted = r.history.submitted
        → r'.history.submitted.length = r.history.submitted.length + 0 by
      apply hsame
      unfold PromptRef.up PromptRef.down PromptRef.recalling
      split
      . rfl
      split
      . split
        . rfl
        . exact r.history.submitted_older _
      split
      . split
        . rfl
        . exact r.history.submitted_newer
      split <;> rfl
    intro r' heq
    rw [heq]
    rfl

theorem length_submitted_keys (r : PromptRef) (cs : List Int)
    : (r.keys cs).history.submitted.length
        = r.history.submitted.length + cs.countP (· = KEY_NEWLINE) := by
  induction cs generalizing r with
  | nil => rfl
  | cons c cs ih =>
    show ((r.key c).keys cs).history.submitted.length = _
    rw [ih, length_submitted_key, List.countP_cons]
    simp only [decide_eq_true_iff]
    omega

theorem Hist.Recalls.bounds {h : Hist} {r : History UInt8} (hrec : h.Recalls r)
    : h.total ≤ r.submitted.length ∧ -1 ≤ h.index ∧ h.index < h.total := by
  have htotal := hrec.total
  have hle := r.length_collapsed_le
  have hindex := hrec.index
  unfold historyIndex at hindex
  split at hindex
  . omega
  . next k hback =>
    have hlt := hrec.valid k hback
    rw [History.length_kept] at hlt
    omega

-- As long as fewer than `2 ^ 31` lines were submitted, `total` and `index` fit into an `int`.
theorem history_recalled (v : Vga) (cmdBuf : CharArray CMD_MAX_LEN) (cwd : List UInt8)
    : ∃ s₀, shellInit v cmdBuf cwd = some s₀
        ∧ ∀ inputs, (∃ s, Run Repl.Types s₀ inputs s)
          ∧ ∀ s, Run Repl.Types s₀ inputs s
            → s.cmdBuf.chars.take s.cmdLen = (PromptRef.start.keys (inputs.map (·.key))).line
              ∧ s.hist.total ≤ inputs.countP (·.key = KEY_NEWLINE)
              ∧ -1 ≤ s.hist.index ∧ s.hist.index < s.hist.total := by
  obtain ⟨s₀, hinit, hinv, hlen, hhist, _⟩ := shellInit_inv v cmdBuf cwd
  have hstart : s₀.Follows .start := by
    refine ⟨hinv.toKept, ?_, hinv.cmdLen_lt, ?_, ?_⟩
    . rw [hlen]
      rfl
    . intro c hc
      cases hc
    . rw [hhist]
      exact Hist.recalls_empty
  refine ⟨s₀, hinit, ?_⟩
  intro inputs
  obtain ⟨hruns, hfollows⟩ := hstart.run inputs
  refine ⟨hruns, ?_⟩
  intro s hrun
  have hs := hfollows s hrun
  have hcount := length_submitted_keys .start (inputs.map (·.key))
  have hbounds := hs.recalls.bounds
  rw [hcount, List.countP_map] at hbounds
  refine ⟨hs.line, ?_, hbounds.2⟩
  have hzero : PromptRef.start.history.submitted.length = 0 := rfl
  rw [hzero, Nat.zero_add] at hbounds
  exact hbounds.1

end Start

end DismasmOS
