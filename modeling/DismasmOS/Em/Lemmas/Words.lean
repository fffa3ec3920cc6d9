import DismasmOS.Lib.WordRuns
import DismasmOS.Em.Lemmas.Edit

/-!
This module contains the words of the text that the editor looks at: where its loops find their ends,
and which of them the search for typos goes to.
-/

namespace DismasmOS

section Scan

variable {buf : EmBuffer} {limit i : Nat} {x : UInt8} {rest : List UInt8}

theorem read_of_drop (h : (buf.chars.take limit).drop i = x :: rest)
    : i < limit ∧ buf.read i = some x ∧ (buf.chars.take limit).drop (i + 1) = rest := by
  have hlen := congrArg List.length h
  rw [List.length_drop, List.length_take, List.length_cons] at hlen
  have hi : i < limit := by omega
  refine ⟨hi, ?_, ?_⟩
  . have hget : ((buf.chars.take limit).drop i)[0]? = some x := by
      rw [h]
      rfl
    rw [List.getElem?_drop, Nat.add_zero, List.getElem?_take_of_lt hi] at hget
    exact hget
  . rw [← List.drop_drop, h]
    rfl

theorem le_of_drop_nil (hlimit : limit ≤ EM_BUF_SIZE) (h : (buf.chars.take limit).drop i = [])
    : limit ≤ i := by
  rw [List.drop_eq_nil_iff, List.length_take, buf.length_chars] at h
  omega

-- The word that begins at position `i`.
theorem wordEnd_of_drop (hlimit : limit ≤ EM_BUF_SIZE)
    (h : (buf.chars.take limit).drop i = x :: rest) (hword : isalpha x)
    : wordEnd buf i (limit - i) = some (i + (x :: rest.takeWhile isalpha).length)
      ∧ (buf.chars.drop i).take (x :: rest.takeWhile isalpha).length = x :: rest.takeWhile isalpha
      ∧ (buf.chars.take limit).drop (i + (x :: rest.takeWhile isalpha).length)
        = rest.dropWhile isalpha := by
  have hi := (read_of_drop h).1
  have hline := h
  rw [List.drop_take] at hline
  have htake := List.takeWhile_prefix isalpha (l := x :: rest)
  rw [List.takeWhile_cons_of_pos hword] at htake
  have hlen := htake.length_le
  rw [← hline, List.length_take] at hlen
  refine ⟨?_, ?_, ?_⟩
  . rw [wordEnd_eq buf (by omega), hline, List.takeWhile_cons_of_pos hword]
  . conv => rhs; rw [List.prefix_iff_eq_take.mp htake]
    rw [← hline, List.take_take, Nat.min_eq_left (by omega)]
  . rw [← List.drop_drop, h, ← List.takeWhile_cons_of_pos hword, drop_length_takeWhile,
      List.dropWhile_cons_of_pos hword]

theorem findTypo_eq (fileType : EmFileType) {fuel : Nat} (hlimit : limit ≤ EM_BUF_SIZE)
    (hfuel : limit - i ≤ fuel)
    : findTypo fileType buf limit fuel i
        = some (((wordRuns isalpha i ((buf.chars.take limit).drop i)).find?
            (isTypo fileType ·.2)).map fun w => ⟨w.1, w.2.length⟩) := by
  induction fuel generalizing i with
  | zero =>
    rw [List.drop_of_length_le (by rw [List.length_take]; omega), wordRuns_nil]
    rfl
  | succ fuel ih =>
    unfold findTypo
    cases hdrop : (buf.chars.take limit).drop i with
    | nil =>
      have hle := le_of_drop_nil hlimit hdrop
      rw [if_neg (by omega), wordRuns_nil]
      rfl
    | cons x rest =>
      obtain ⟨hi, hread, hrest⟩ := read_of_drop hdrop
      rw [if_pos hi, hread]
      simp only [Option.bind_eq_bind, Option.bind_some]
      by_cases hword : isalpha x
      . obtain ⟨hend, htake, hbehind⟩ := wordEnd_of_drop hlimit hdrop hword
        rw [if_pos hword, hend, Option.bind_some, sizeSub_of_le (by omega), Option.bind_some,
          Nat.add_sub_cancel_left, htake, wordRuns_of_pos hword, List.find?_cons]
        split
        . next htypo =>
          rw [htypo]
          rfl
        . next htypo =>
          rw [Bool.not_eq_true] at htypo
          rw [htypo, ih (by rw [List.length_cons]; omega), hbehind, List.length_cons]
          dsimp only
          rw [Nat.add_right_comm i 1]
          rfl
      . rw [if_neg hword, wordRuns_of_neg hword, ih (by omega), hrest]

end Scan

namespace Em

variable {e : Em}

def hopStart (e : Em) : Nat := behindWord isalpha e.text e.cursorPos

def typoAhead (e : Em) : Option (Nat × List UInt8) :=
  (wordRuns isalpha e.hopStart (e.text.drop e.hopStart)).find? (isTypo e.curFileType ·.2)

def typoBehind (e : Em) : Option (Nat × List UInt8) :=
  (wordRuns isalpha 0 (e.text.take e.hopStart)).find? (isTypo e.curFileType ·.2)

-- The word that `emHopError` goes to.
def nextTypo (e : Em) : Option (Nat × List UInt8) :=
  nextRun isalpha (isTypo e.curFileType) e.text e.cursorPos

theorem nextTypo_eq (e : Em) : e.nextTypo = e.typoAhead.or e.typoBehind := rfl

theorem hopStart_le_of_ahead {w : Nat × List UInt8} (h : e.typoAhead = some w)
    : e.hopStart ≤ w.1 :=
  (isWordRun_of_mem (List.mem_of_find?_eq_some h)).1

theorem lt_hopStart_of_behind {w : Nat × List UInt8} (h : e.typoBehind = some w)
    : w.1 < e.hopStart :=
  lt_of_mem_before (List.mem_of_find?_eq_some h)

theorem Inv.cursor_le_text (h : e.Inv) : e.cursorPos ≤ e.text.length := by
  rw [h.length_text]
  exact h.cursor_le

theorem Inv.hopStart_le (h : e.Inv) : e.hopStart ≤ e.bufLen := by
  rw [← h.length_text]
  exact behindWord_le h.cursor_le_text

theorem Inv.wordEnd_cursor (h : e.Inv)
    : wordEnd e.buffer e.cursorPos (e.bufLen - e.cursorPos) = some e.hopStart := by
  have hlt := h.bufLen_lt
  have hcursor := h.cursor_le
  rw [wordEnd_eq e.buffer (by omega), ← List.drop_take]
  rfl

theorem Inv.findTypo_ahead (h : e.Inv)
    : findTypo e.curFileType e.buffer e.bufLen (e.bufLen - e.hopStart) e.hopStart
        = some (e.typoAhead.map fun w => ⟨w.1, w.2.length⟩) :=
  findTypo_eq e.curFileType h.bufLen_lt.le (Nat.le_refl _)

theorem Inv.findTypo_behind (h : e.Inv)
    : findTypo e.curFileType e.buffer e.hopStart e.hopStart 0
        = some (e.typoBehind.map fun w => ⟨w.1, w.2.length⟩) := by
  have htake : e.buffer.chars.take e.hopStart = e.text.take e.hopStart := by
    unfold text
    rw [List.take_take, Nat.min_eq_left h.hopStart_le]
  rw [findTypo_eq e.curFileType (h.hopStart_le.trans h.bufLen_lt.le) (Nat.sub_le _ _), htake,
    List.drop_zero]
  rfl

theorem emHopError_eq (h : e.Inv)
    : emHopError e
        = some (match e.nextTypo with
          | some w =>
            hopTo e w.1 w.2.length
              (if e.hopStart ≤ w.1 then str "hop to typo: '" else str "hop to typo (wrap): '")
          | none => { e with msgBuf := str "no typos found" }) := by
  unfold emHopError
  rw [h.wordEnd_cursor, Option.bind_eq_bind, Option.bind_some, h.findTypo_ahead, Option.bind_eq_bind,
    Option.bind_some, nextTypo_eq]
  cases hahead : e.typoAhead with
  | some w =>
    have hle := hopStart_le_of_ahead hahead
    rw [Option.some_or]
    dsimp only [Option.map_some]
    rw [if_pos hle]
  | none =>
    rw [Option.none_or]
    dsimp only [Option.map_none]
    rw [h.findTypo_behind, Option.bind_some]
    cases hbehind : e.typoBehind with
    | some w =>
      have hlt := lt_hopStart_of_behind hbehind
      dsimp only [Option.map_some]
      rw [if_neg (Nat.not_le.mpr hlt)]
    | none => rfl

end Em

end DismasmOS
