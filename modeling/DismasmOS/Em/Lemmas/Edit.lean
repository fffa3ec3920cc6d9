import DismasmOS.Em.Lemmas.Buffer

/-!
This module contains the refinement of the reference editor by the single editing operations: each
one stays inside the buffer and does to its text what the operation on lists does.
-/

namespace DismasmOS

-- The text and the cursor of the editor are those of the reference.
structure Em.Shows (e : Em) (d : Doc UInt8) : Prop where
  inv : e.Inv
  text : e.text = d.text
  cursor : e.cursorPos = d.cursor

-- An operation succeeds and touches nothing but the text and the cursor.
def Em.Performs (e : Em) (result : Option Em) (d : Doc UInt8) : Prop :=
  ∃ buf n p, result = some { e with buffer := buf, bufLen := n, cursorPos := p }
    ∧ Em.Shows { e with buffer := buf, bufLen := n, cursorPos := p } d

namespace Em

variable {e : Em} {d : Doc UInt8}

theorem Inv.bufLen_lt (h : e.Inv) : e.bufLen < EM_BUF_SIZE := by
  have := h.bufLen_le
  have : 0 < EM_BUF_SIZE := by decide
  unfold EM_CAPACITY at *
  omega

theorem Inv.length_text (h : e.Inv) : e.text.length = e.bufLen := by
  have := h.bufLen_lt
  unfold text
  rw [List.length_take, e.buffer.length_chars]
  omega

theorem Shows.length_text (h : e.Shows d) : d.text.length = e.bufLen := by
  rw [← h.text]
  exact h.inv.length_text

theorem chars_eq (e : Em) : e.buffer.chars = e.text ++ e.buffer.chars.drop e.bufLen :=
  (List.take_append_drop _ _).symm

theorem Performs.self (h : e.Shows d) : e.Performs (some e) d :=
  ⟨e.buffer, e.bufLen, e.cursorPos, rfl, h⟩

theorem Performs.move (h : e.Shows d) {d' : Doc UInt8} (htext : d'.text = d.text) {p : Nat}
    (hp : p = d'.cursor)
    : e.Performs (some { e with cursorPos := p }) d' := by
  have hle := d'.cursor_le
  have hlen := h.length_text
  refine ⟨e.buffer, e.bufLen, p, rfl, ?_, ?_, hp⟩
  . constructor
    . dsimp only
      rw [hp, ← hlen, ← htext]
      exact hle
    . exact h.inv.bufLen_le
    . exact h.inv.terminated
    . exact h.inv.cmdLen_le
    . exact h.inv.typed
  . rw [htext]
    exact h.text

section Move

theorem Shows.left (h : e.Shows d) : e.Performs (some (emMoveLeft e)) d.left := by
  have hcursor := h.cursor
  have hle := d.cursor_le
  unfold emMoveLeft
  split
  . apply Performs.move h
    . rfl
    . unfold Doc.left Doc.moveTo
      dsimp only
      omega
  . have hsame : d.left = d := by
      unfold Doc.left Doc.moveTo
      cases d
      congr 1
      dsimp only at *
      omega
    rw [hsame]
    exact Performs.self h

theorem Shows.right (h : e.Shows d) : e.Performs (some (emMoveRight e)) d.right := by
  have hcursor := h.cursor
  have hle := d.cursor_le
  have hlen := h.length_text
  unfold emMoveRight
  split
  . apply Performs.move h
    . rfl
    . unfold Doc.right Doc.moveTo
      dsimp only
      omega
  . have hsame : d.right = d := by
      unfold Doc.right Doc.moveTo
      cases d
      congr 1
      dsimp only at *
      omega
    rw [hsame]
    exact Performs.self h

end Move

section Lines

variable {above below : List (List UInt8)} {before after : List UInt8}

theorem last_above (above : List (List UInt8))
    : ∀ c ∈ (above.flatMap (· ++ [newline])).getLast?, c = newline := by
  cases above.eq_nil_or_concat' with
  | inl hnil =>
    rw [hnil]
    simp
  | inr hconcat =>
    obtain ⟨front, l, hl⟩ := hconcat
    rw [hl]
    simp

theorem Shows.chars_view (h : e.Shows d) (hview : d.View newline above before after below)
    : e.buffer.chars
        = above.flatMap (· ++ [newline])
          ++ (before ++ (after ++ (below.flatMap (newline :: ·) ++ e.buffer.chars.drop e.bufLen))) := by
  conv => lhs; rw [e.chars_eq, h.text, hview.text]
  simp only [List.append_assoc]

theorem Shows.lineStart_cursor (h : e.Shows d) (hview : d.View newline above before after below)
    : lineStart e.buffer e.cursorPos = some (above.flatMap (· ++ [newline])).length := by
  rw [h.cursor, hview.cursor]
  exact lineStart_eq (h.chars_view hview) hview.before (last_above above)

theorem Shows.lineEnd_cursor (h : e.Shows d) (hview : d.View newline above before after below)
    : lineEnd e.buffer e.cursorPos (e.bufLen - e.cursorPos)
        = some ((above.flatMap (· ++ [newline])).length + (before.length + after.length)) := by
  have hlen := hview.length_text
  have hcursor := hview.cursor
  rw [h.length_text] at hlen
  have hchars := h.chars_view hview
  rw [← List.append_assoc] at hchars
  have hpre : e.cursorPos = (above.flatMap (· ++ [newline]) ++ before).length := by
    rw [h.cursor, hcursor, List.length_append]
  have hrest : e.bufLen - e.cursorPos = after.length + (below.flatMap (newline :: ·)).length := by
    rw [h.cursor]
    omega
  rw [hrest, hpre, lineEnd_eq hchars hview.after]
  . rw [List.length_append]
    congr 1
    omega
  . cases below with
    | nil => simp
    | cons l below =>
      right
      simp

theorem Shows.home (h : e.Shows d) : e.Performs (emMoveHome e) (d.home newline) := by
  obtain ⟨above, before, after, below, hview⟩ := d.exists_view newline
  unfold emMoveHome
  rw [h.lineStart_cursor hview]
  simp only [Option.bind_eq_bind, Option.bind_some]
  apply Performs.move h
  . rfl
  . rw [hview.home]

theorem Shows.lineEnd (h : e.Shows d) : e.Performs (emMoveEnd e) (d.lineEnd newline) := by
  obtain ⟨above, before, after, below, hview⟩ := d.exists_view newline
  unfold emMoveEnd
  rw [h.lineEnd_cursor hview]
  simp only [Option.bind_eq_bind, Option.bind_some]
  apply Performs.move h
  . rfl
  . rw [hview.lineEnd]

theorem min_eq_ite (a b : Nat) : (if a > b then b else a) = min a b := by
  split <;> omega

theorem Shows.up (h : e.Shows d) : e.Performs (emMoveUp e) (d.up newline) := by
  obtain ⟨above, before, after, below, hview⟩ := d.exists_view newline
  have hcursor := h.cursor
  have hpos := hview.cursor
  unfold emMoveUp
  rw [h.lineStart_cursor hview]
  simp only [Option.bind_eq_bind, Option.bind_some]
  cases above.eq_nil_or_concat' with
  | inl hnil =>
    rw [hnil] at hview ⊢
    rw [hview.up_nil]
    exact Performs.self h
  | inr hconcat =>
    obtain ⟨front, l, hl⟩ := hconcat
    rw [hl] at hview hpos ⊢
    have hline : newline ∉ l := hview.above l (by simp)
    have hchars := h.chars_view hview
    generalize e.buffer.chars.drop e.bufLen = rest at hchars
    have hfront : e.buffer.chars = front.flatMap (· ++ [newline])
        ++ (l ++ ([newline] ++ (before ++ (after ++ (below.flatMap (newline :: ·) ++ rest))))) := by
      rw [hchars]
      simp
    have hprev := lineStart_eq hfront hline (last_above front)
    have hup := hview.up_concat
    have hlen : ((front ++ [l]).flatMap (· ++ [newline])).length
        = (front.flatMap (· ++ [newline])).length + l.length + 1 := by
      simp only [List.flatMap_append, List.length_append, List.flatMap_cons, List.flatMap_nil,
        List.length_cons, List.length_nil]
      omega
    rw [hlen] at hpos ⊢
    rw [if_pos (by omega), sizeSub_of_le (by omega)]
    simp only [Option.bind_some, Nat.add_sub_cancel]
    rw [hprev, sizeSub_of_le (by omega), Option.bind_some, Option.bind_some,
      sizeSub_of_le (by omega), Option.bind_some, min_eq_ite]
    apply Performs.move h
    . unfold Doc.up Doc.toLine Doc.moveTo
      split <;> rfl
    . rw [hup]
      omega

theorem Shows.down (h : e.Shows d) : e.Performs (emMoveDown e) (d.down newline) := by
  obtain ⟨above, before, after, below, hview⟩ := d.exists_view newline
  have hcursor := h.cursor
  have hpos := hview.cursor
  have htext := hview.length_text
  rw [h.length_text] at htext
  unfold emMoveDown
  rw [h.lineEnd_cursor hview, h.lineStart_cursor hview]
  simp only [Option.bind_eq_bind, Option.bind_some]
  cases below with
  | nil =>
    simp only [List.flatMap_nil, List.length_nil, Nat.add_zero] at htext
    rw [hview.down_nil, if_neg (by omega)]
    exact Performs.self h
  | cons l below =>
    have hline : newline ∉ l := hview.below l (by simp)
    have hchars := h.chars_view hview
    generalize e.buffer.chars.drop e.bufLen = rest at hchars
    have hbelow : e.buffer.chars = (above.flatMap (· ++ [newline]) ++ before ++ after ++ [newline])
        ++ (l ++ (below.flatMap (newline :: ·) ++ rest)) := by
      rw [hchars]
      simp
    have hdown := hview.down_cons
    have hflat : ((l :: below).flatMap (newline :: ·)).length
        = l.length + 1 + (below.flatMap (newline :: ·)).length := by
      rw [List.flatMap_cons, List.length_append, List.length_cons]
    have hpre : (above.flatMap (· ++ [newline]) ++ before ++ after ++ [newline]).length
        = (above.flatMap (· ++ [newline])).length + (before.length + after.length) + 1 := by
      simp only [List.length_append, List.length_cons, List.length_nil]
      omega
    rw [hflat] at htext
    have hnext := lineEnd_eq (n := e.bufLen - ((above.flatMap (· ++ [newline])).length
      + (before.length + after.length) + 1)) hbelow hline (by
        cases below with
        | nil =>
          left
          simp only [List.flatMap_nil, List.length_nil] at htext
          omega
        | cons b below =>
          right
          simp only [List.flatMap_cons, List.length_append, List.length_cons] at htext
          exact ⟨by omega, rfl⟩)
    rw [hpre] at hnext
    rw [if_pos (by omega), sizeSub_of_le (by omega), Option.bind_some, hnext, Option.bind_some,
      sizeSub_of_le (by omega), Option.bind_some, min_eq_ite]
    apply Performs.move h
    . unfold Doc.down Doc.toLine Doc.moveTo
      split <;> rfl
    . rw [hdown]
      omega

end Lines

section Change

theorem Performs.change (h : e.Shows d) {d' : Doc UInt8} {buf : EmBuffer} {n p : Nat}
    (hn : n ≤ EM_CAPACITY) (htext : (buf.set n NUL).chars.take n = d'.text) (hp : p = d'.cursor)
    : e.Performs (some { e with buffer := buf.set n NUL, bufLen := n, cursorPos := p }) d' := by
  have hcap : EM_CAPACITY < EM_BUF_SIZE := by decide
  have hle := d'.cursor_le
  have hlen := congrArg List.length htext
  rw [List.length_take, EmBuffer.length_chars] at hlen
  refine ⟨_, _, _, rfl, ?_, htext, hp⟩
  constructor
  . dsimp only
    omega
  . exact hn
  . unfold CharArray.get CharArray.set
    dsimp only
    rw [List.getD_eq_getElem?_getD, List.getElem?_set_self (by rw [buf.length_chars]; omega)]
    rfl
  . exact h.inv.cmdLen_le
  . exact h.inv.typed

theorem Shows.getElem_text (h : e.Shows d) {i : Nat} (hi : i < e.bufLen)
    : d.text[i]? = e.buffer.chars[i]? := by
  rw [← h.text]
  exact List.getElem?_take_of_lt hi

theorem Shows.shifted (h : e.Shows d) {p : Nat} (hp : p < e.bufLen) {buf : EmBuffer}
    (hchars : ∀ j : Nat,
      buf.chars[j]?
        = if p ≤ j ∧ j < p + (e.bufLen - 1 - p) then e.buffer.chars[j + 1]? else e.buffer.chars[j]?)
    : (buf.set (e.bufLen - 1) NUL).chars.take (e.bufLen - 1)
        = d.text.take p ++ d.text.drop (p + 1) := by
  have hlen := h.length_text
  apply List.ext_getElem?
  intro i
  unfold CharArray.set
  dsimp only
  rw [List.take_set_of_le (Nat.le_refl _), List.getElem?_take, hchars]
  by_cases hi : i < e.bufLen - 1
  . rw [if_pos hi]
    by_cases hip : i < p
    . rw [if_neg (by omega), List.getElem?_append_left (by simp; omega)]
      rw [List.getElem?_take_of_lt hip, h.getElem_text (by omega)]
    . rw [if_pos (by omega), List.getElem?_append_right (by simp; omega), List.getElem?_drop]
      rw [List.length_take, h.getElem_text (by omega)]
      congr 1
      omega
  . rw [if_neg hi, List.getElem?_eq_none]
    simp only [List.length_append, List.length_take, List.length_drop]
    omega

theorem Shows.opened (h : e.Shows d) {p : Nat} (hp : p ≤ e.bufLen) {buf : EmBuffer} {c : UInt8}
    (hchars : ∀ j : Nat,
      buf.chars[j]?
        = if e.bufLen - (e.bufLen - p) < j ∧ j ≤ e.bufLen then e.buffer.chars[j - 1]?
          else e.buffer.chars[j]?)
    : ((buf.set p c).set (e.bufLen + 1) NUL).chars.take (e.bufLen + 1)
        = d.text.take p ++ c :: d.text.drop p := by
  have hlen := h.length_text
  have hlt := h.inv.bufLen_lt
  have hbuf := buf.length_chars
  apply List.ext_getElem?
  intro i
  unfold CharArray.set
  dsimp only
  rw [List.take_set_of_le (Nat.le_refl _), List.getElem?_take]
  by_cases hi : i < e.bufLen + 1
  . rw [if_pos hi]
    by_cases hip : i < p
    . rw [List.getElem?_set_ne (by omega), hchars, if_neg (by omega)]
      rw [List.getElem?_append_left (by simp; omega), List.getElem?_take_of_lt hip]
      rw [h.getElem_text (by omega)]
    . rw [List.getElem?_append_right (by simp; omega), List.length_take]
      have hmin : min p d.text.length = p := by omega
      rw [hmin]
      by_cases heq : i = p
      . rw [heq, List.getElem?_set_self (by omega), Nat.sub_self, List.getElem?_cons_zero]
      . rw [List.getElem?_set_ne (by omega), hchars, if_pos (by omega)]
        have hpred : i - p = i - 1 - p + 1 := by omega
        rw [hpred, List.getElem?_cons_succ, List.getElem?_drop, h.getElem_text (by omega)]
        congr 1
        omega
  . rw [if_neg hi, List.getElem?_eq_none]
    simp only [List.length_append, List.length_take, List.length_cons, List.length_drop]
    omega

theorem Shows.delete (h : e.Shows d) : e.Performs (emDeleteChar e) d.delete := by
  have hcursor := h.cursor
  have hle := d.cursor_le
  have hlen := h.length_text
  have hlt := h.inv.bufLen_lt
  have hcap := h.inv.bufLen_le
  unfold emDeleteChar
  split
  . obtain ⟨buf, hshift, hchars⟩ := shiftDown_spec e.buffer
      (show e.cursorPos + (e.bufLen - 1 - e.cursorPos) < EM_BUF_SIZE by omega)
    simp only [Option.bind_eq_bind]
    rw [sizeSub_of_le (by omega), Option.bind_some, hshift, Option.bind_some,
      buf.write_of_lt (by omega), Option.bind_some]
    apply Performs.change h
    . omega
    . rw [h.shifted (by omega) hchars, hcursor]
      rfl
    . exact hcursor
  . have hsame : d.delete = d := by
      unfold Doc.delete
      cases d
      congr 1
      dsimp only at *
      rw [List.drop_of_length_le (by omega), List.take_of_length_le (by omega), List.append_nil]
    rw [hsame]
    exact Performs.self h

theorem Shows.backspace (h : e.Shows d)
    : e.Performs (emBackspace e) (if 0 < d.cursor then d.backspace else d) := by
  have hcursor := h.cursor
  have hle := d.cursor_le
  have hlen := h.length_text
  have hlt := h.inv.bufLen_lt
  have hcap := h.inv.bufLen_le
  unfold emBackspace
  split
  . next hpos =>
    rw [if_pos (by omega)]
    obtain ⟨buf, hshift, hchars⟩ := shiftDown_spec e.buffer
      (show e.cursorPos - 1 + (e.bufLen - 1 - (e.cursorPos - 1)) < EM_BUF_SIZE by omega)
    simp only [Option.bind_eq_bind]
    rw [sizeSub_of_le (by omega), Option.bind_some, sizeSub_of_le (by omega), Option.bind_some,
      hshift, Option.bind_some, buf.write_of_lt (by omega), Option.bind_some]
    apply Performs.change h
    . omega
    . rw [h.shifted (by omega) hchars, Nat.sub_add_cancel (by omega), hcursor]
      rfl
    . unfold Doc.backspace
      dsimp only
      omega
  . rw [if_neg (by omega)]
    exact Performs.self h

theorem Shows.insert (h : e.Shows d) (c : UInt8)
    : e.Performs (emInsertChar e c) (EmRef.insert c d) := by
  have hcursor := h.cursor
  have hle := d.cursor_le
  have hlen := h.length_text
  have hlt := h.inv.bufLen_lt
  have hsize : EM_CAPACITY = EM_BUF_SIZE - 1 := rfl
  unfold emInsertChar EmRef.insert Doc.insert
  split
  . rw [if_pos (by omega)]
    obtain ⟨buf, hshift, hchars⟩ := shiftUp_spec e.buffer
      (show e.bufLen - e.cursorPos ≤ e.bufLen by omega) hlt
    have hbuf := buf.length_chars
    simp only [Option.bind_eq_bind]
    rw [hshift, Option.bind_some, buf.write_of_lt (by omega), Option.bind_some,
      EmBuffer.write_of_lt _ (by omega), Option.bind_some]
    apply Performs.change h
    . omega
    . rw [h.opened (by omega) hchars, hcursor]
    . dsimp only
      rw [hcursor]
  . rw [if_neg (by omega)]
    exact Performs.self h

end Change

end Em

end DismasmOS
