import DismasmOS.Em.Lemmas.Render

/-!
This module contains where the editor hops to, and which of these words its screen marks as typos.
-/

namespace DismasmOS

-- A misspelt word of the text begins at position `p`.
def Em.TypoAt (e : Em) (p : Nat) : Prop :=
  ∃ word, IsWordRun isalpha e.text p word ∧ isTypo e.curFileType word

-- A word of the text that begins in its rows on the screen, and whether it is misspelt.
def Em.InSight (e : Em) (w : ScannedWord) : Prop :=
  ∃ word p, IsWordRun isalpha e.text w.start word ∧ word.length = w.len
    ∧ isTypo e.curFileType word = w.typo
    ∧ getCursorRowCol { e with cursorPos := w.start } = some p ∧ p.row < EM_TEXT_ROWS

variable {e : Em}

theorem mem_wordsInSight (h : e.Inv) {w : ScannedWord}
    : w ∈ wordsInSight e.curFileType e.text 0 ↔ e.InSight w := by
  have hplace := getCursorRowCol_eq (e := { e with cursorPos := w.start }) h.bufLen_lt.le
  unfold wordsInSight
  rw [List.mem_map]
  constructor
  . rintro ⟨⟨start, word⟩, hmem, heq⟩
    rw [List.mem_filter, decide_eq_true_iff] at hmem
    rw [← heq] at hplace ⊢
    exact ⟨word, _, mem_wordRuns.mp hmem.1, rfl, rfl, hplace, hmem.2⟩
  . rintro ⟨word, p, hrun, hlen, htypo, hp, hrow⟩
    rw [hplace, Option.some_inj] at hp
    rw [← hp] at hrow
    refine ⟨⟨w.start, word⟩, ?_, ?_⟩
    . rw [List.mem_filter, decide_eq_true_iff]
      exact ⟨mem_wordRuns.mpr hrun, hrow⟩
    . rw [hlen, htypo]

theorem emHopError_render (h : e.Inv) (v : Vga)
    : ∃ e' w words, emHopError e = some e' ∧ emRender e v = some ⟨w, words⟩
        ∧ ((∃ p, e.TypoAt p) → ∃ p msg, e' = { e with cursorPos := p, msgBuf := msg } ∧ e.TypoAt p
          ∧ ∀ q, e.TypoAt q
            → wayTo isalpha e.text e.cursorPos p ≤ wayTo isalpha e.text e.cursorPos q)
        ∧ ((¬∃ p, e.TypoAt p) → e' = { e with msgBuf := str "no typos found" })
        ∧ ∀ s, s ∈ words ↔ e.InSight s := by
  have hcursor := h.cursor_le_text
  obtain ⟨w, hrender, _⟩ := emRender_spec h.bufLen_lt.le (h.cmdLen_le.trans (by decide)) v
  have hhop := Em.emHopError_eq h
  cases hnext : e.nextTypo with
  | some next =>
    obtain ⟨hrun, htypo, hfirst⟩ := nextRun_some hcursor hnext
    rw [hnext] at hhop
    refine ⟨_, w, _, hhop, hrender, ?_, ?_, fun _ => mem_wordsInSight h⟩
    . intro _
      refine ⟨next.1, _, rfl, ⟨next.2, hrun, htypo⟩, ?_⟩
      rintro q ⟨word, hword, htypoWord⟩
      exact hfirst q word hword htypoWord
    . intro hnone
      exact absurd ⟨next.1, next.2, hrun, htypo⟩ hnone
  | none =>
    have hnone := (nextRun_eq_none_iff hcursor).mp hnext
    rw [hnext] at hhop
    refine ⟨_, w, _, hhop, hrender, ?_, fun _ => rfl, fun _ => mem_wordsInSight h⟩
    rintro ⟨p, word, hrun, htypo⟩
    exact absurd htypo (hnone p word hrun)

theorem isTypo_qzxv : isTypo .generic (str "qzxv") := by decide +kernel

def misspelt : Em :=
  { Em.zero with buffer := (CharArray.zero EM_BUF_SIZE).assign (str "the qzxv"), bufLen := 8 }

theorem misspelt_text : misspelt.text = str "the qzxv" := by decide +kernel

theorem emHopError_misspelt
    : ∃ e' w words, emHopError misspelt = some e' ∧ emRender misspelt vgaZero = some ⟨w, words⟩
        ∧ misspelt.TypoAt e'.cursorPos ∧ ⟨4, 4, true⟩ ∈ words := by
  have hinv : misspelt.Inv := by
    constructor <;> decide +kernel
  have hrun : IsWordRun isalpha misspelt.text 4 (str "qzxv") := by
    rw [misspelt_text]
    exact ⟨by decide, by decide +kernel, str "the ", [], rfl, rfl, by decide +kernel, by decide +kernel⟩
  have htypo : isTypo misspelt.curFileType (str "qzxv") := isTypo_qzxv
  have hplace : getCursorRowCol { misspelt with cursorPos := 4 } = some ⟨0, 4⟩ := by decide +kernel
  obtain ⟨e', w, words, hhop, hrender, hsome, _, hwords⟩ := emHopError_render hinv vgaZero
  obtain ⟨p, msg, he', htypoAt, _⟩ := hsome ⟨4, _, hrun, htypo⟩
  refine ⟨e', w, words, hhop, hrender, ?_, ?_⟩
  . rw [he']
    exact htypoAt
  . rw [hwords]
    exact ⟨_, _, hrun, rfl, htypo, hplace, by decide⟩

-- The only word is below the rows of the text.
def belowScreen : Em :=
  { Em.zero with
      buffer := (CharArray.zero EM_BUF_SIZE).assign (List.replicate 23 newline ++ str "qzxv")
      bufLen := 27 }

theorem emHopError_belowScreen
    : belowScreen.Inv ∧ ∃ e' w words, emHopError belowScreen = some e' ∧ e'.cursorPos = 23
        ∧ emRender belowScreen vgaZero = some ⟨w, words⟩ ∧ ∀ s ∈ words, s.typo = false := by
  have hinv : belowScreen.Inv := by
    constructor <;> decide +kernel
  have htext : belowScreen.text = List.replicate 23 newline ++ str "qzxv" := by decide +kernel
  have hruns : wordRuns isalpha 0 belowScreen.text = [⟨23, str "qzxv"⟩] := by
    have hempty : ∀ c ∈ List.replicate 23 newline, ¬isalpha c := by decide +kernel
    have hapart : Unjoined isalpha (List.replicate 23 newline) (str "qzxv") :=
      fun c hc _ _ hor => hempty c (List.mem_of_getLast? hc) hor.1
    rw [htext, wordRuns_append hapart, wordRuns_none hempty, wordRuns_all (by decide) (by decide +kernel)]
    rfl
  have hwords : wordsInSight belowScreen.curFileType belowScreen.text 0 = [] := by
    unfold wordsInSight
    rw [List.drop_zero, hruns, htext]
    decide +kernel
  have hrun : IsWordRun isalpha belowScreen.text 23 (str "qzxv") := by
    rw [← mem_wordRuns, hruns]
    exact List.mem_singleton_self _
  obtain ⟨w, hrender, _⟩ := emRender_spec (e := belowScreen) (by decide) (by decide) vgaZero
  rw [hwords] at hrender
  have hhop := Em.emHopError_eq hinv
  cases hnext : belowScreen.nextTypo with
  | some next =>
    have hmem := mem_wordRuns.mpr (nextRun_some hinv.cursor_le_text hnext).1
    rw [hruns, List.mem_singleton] at hmem
    rw [hnext] at hhop
    exact ⟨hinv, _, w, [], hhop, congrArg Prod.fst hmem, hrender, fun _ hs => nomatch hs⟩
  | none =>
    have hnone := (nextRun_eq_none_iff hinv.cursor_le_text).mp hnext
    exact absurd isTypo_qzxv (hnone 23 _ hrun)

end DismasmOS
