import DismasmOS.Kbd.Lemmas.Queue

/-!
This module contains the theorem that every printable character can be typed on both layouts: there are keys
for any text, and the handler puts this text into the queue.
-/

namespace DismasmOS

inductive Modifier where
  | none
  | shift
  | altgr
  deriving DecidableEq, Repr

-- A key that is pressed and released while a modifier is held.
structure Stroke where
  modifier : Modifier
  scancode : UInt8
  deriving DecidableEq, Repr

namespace Modifier

def press (m : Modifier) : List UInt8 :=
  match m with
  | .none => []
  | .shift => [0x2A]
  | .altgr => [0xE0, 0x38]

def release (m : Modifier) : List UInt8 :=
  match m with
  | .none => []
  | .shift => [0xAA]
  | .altgr => [0xE0, 0xB8]

def hold (m : Modifier) (k : Kbd) : Kbd :=
  { k with shiftPressed := m == .shift, altgrPressed := m == .altgr }

end Modifier

namespace Stroke

def codes (s : Stroke) : List UInt8 :=
  s.modifier.press ++ [s.scancode, s.scancode ||| 0x80] ++ s.modifier.release

-- The handler has no other use for the code and for the one of the release.
def ordinary (s : Stroke) : Bool :=
  s.scancode &&& 0x80 = 0 ∧ s.scancode ∉ [0xE0, 0x2A, 0x36, 0xAA, 0xB6, 0x38, 0xB8]
    ∧ (s.scancode ||| 0x80) &&& 0x80 ≠ 0 ∧ (s.scancode ||| 0x80) ∉ [0xE0, 0x2A, 0x36, 0xAA, 0xB6, 0x38]

-- The key for a stroke on a layout.
def key (s : Stroke) (layout : KbdLayout) : Int :=
  kbdKey (s.modifier.hold { KeySystem.boot.kbd with currentLayout := layout }) s.scancode

end Stroke

-- No modifier is held and no prefix is open.
structure Kbd.Idle (k : Kbd) : Prop where
  shift : k.shiftPressed = false
  altgr : k.altgrPressed = false
  extended : k.extended = false

section Strokes

variable {k : Kbd} {m : Modifier} {s : Stroke} {layout : KbdLayout}

theorem press_eq (h : k.Idle) : m.press.foldl kbdHandler k = m.hold k := by
  obtain ⟨queue, shift, altgr, extended, currentLayout, accepted⟩ := k
  cases h.shift
  cases h.altgr
  cases h.extended
  cases m with
  | none => rfl
  | shift => rfl
  | altgr => rfl

theorem release_eq (h : k.Idle) : m.release.foldl kbdHandler (m.hold k) = k := by
  obtain ⟨queue, shift, altgr, extended, currentLayout, accepted⟩ := k
  cases h.shift
  cases h.altgr
  cases h.extended
  cases m with
  | none => rfl
  | shift => rfl
  | altgr => rfl

theorem enqueue_hold (k : Kbd) (key : Int) : kbdEnqueueKey (m.hold k) key = m.hold (kbdEnqueueKey k key) := by
  unfold kbdEnqueueKey Modifier.hold
  dsimp only
  cases k.queue.push key with
  | none => rfl
  | some queue => rfl

theorem Kbd.Idle.enqueue (h : k.Idle) (key : Int) : (kbdEnqueueKey k key).Idle := by
  unfold kbdEnqueueKey
  split
  . exact ⟨h.shift, h.altgr, h.extended⟩
  . exact h

theorem enqueue_layout (k : Kbd) (key : Int) : (kbdEnqueueKey k key).currentLayout = k.currentLayout := by
  unfold kbdEnqueueKey
  split
  . rfl
  . rfl

theorem kbdKey_congr {k' : Kbd} (hlayout : k'.currentLayout = k.currentLayout)
    (haltgr : k'.altgrPressed = k.altgrPressed) (hshift : k'.shiftPressed = k.shiftPressed) (scancode : UInt8)
    : kbdKey k' scancode = kbdKey k scancode := by
  unfold kbdKey
  rw [hlayout, haltgr, hshift]

theorem handle_make (hs : s.ordinary = true) (hext : k.extended = false) (hkey : kbdKey k s.scancode ≠ 0)
    : kbdHandler k s.scancode = kbdEnqueueKey k (kbdKey k s.scancode) := by
  obtain ⟨hlow, hmem, -⟩ := of_decide_eq_true hs
  simp only [List.mem_cons, List.not_mem_nil, or_false, not_or] at hmem
  obtain ⟨hE0, h2A, h36, hAA, hB6, h38, hB8⟩ := hmem
  unfold kbdHandler kbdHandlePlain
  rw [if_neg hE0, if_neg (by rw [hext]; exact Bool.false_ne_true), if_neg (not_or.mpr ⟨h2A, h36⟩),
    if_neg (not_or.mpr ⟨hAA, hB6⟩), if_neg h38, if_neg hB8, if_neg (not_not_intro hlow)]
  exact if_pos hkey

theorem handle_break (hs : s.ordinary = true) (hext : k.extended = false)
    : kbdHandler k (s.scancode ||| 0x80) = k := by
  obtain ⟨-, -, hhigh, hmem⟩ := of_decide_eq_true hs
  simp only [List.mem_cons, List.not_mem_nil, or_false, not_or] at hmem
  obtain ⟨hE0, h2A, h36, hAA, hB6, h38⟩ := hmem
  unfold kbdHandler kbdHandlePlain
  rw [if_neg hE0, if_neg (by rw [hext]; exact Bool.false_ne_true), if_neg (not_or.mpr ⟨h2A, h36⟩),
    if_neg (not_or.mpr ⟨hAA, hB6⟩), if_neg h38, if_pos hhigh, ite_self]

-- A stroke puts its key into the queue and leaves nothing else behind.
theorem stroke_eq (hs : s.ordinary = true) (hidle : k.Idle) (hlayout : k.currentLayout = layout)
    (hkey : s.key layout ≠ 0)
    : s.codes.foldl kbdHandler k = kbdEnqueueKey k (s.key layout) := by
  have hlayout_eq : (s.modifier.hold k).currentLayout
      = (s.modifier.hold { KeySystem.boot.kbd with currentLayout := layout }).currentLayout := hlayout
  have hkey_eq : kbdKey (s.modifier.hold k) s.scancode = s.key layout := kbdKey_congr hlayout_eq rfl rfl _
  have hext : (s.modifier.hold k).extended = false := hidle.extended
  have hext' : (s.modifier.hold (kbdEnqueueKey k (s.key layout))).extended = false := (hidle.enqueue _).extended
  unfold Stroke.codes
  rw [List.foldl_append, List.foldl_append, press_eq hidle, List.foldl_cons,
    handle_make hs hext (by rw [hkey_eq]; exact hkey), hkey_eq, enqueue_hold, List.foldl_cons,
    handle_break hs hext', List.foldl_nil, release_eq (hidle.enqueue _)]

end Strokes

-- The keys of a layout with and without shift, and the scancodes that are keys with AltGr.
def keymaps (layout : KbdLayout) : Keymap × Keymap :=
  match layout with
  | .de => ⟨kbdMapDeNormal, kbdMapDeShifted⟩
  | .en => ⟨kbdMapEnNormal, kbdMapEnShifted⟩

def altgrCodes : List UInt8 := [0x10, 0x03, 0x04, 0x08, 0x09, 0x0A, 0x0B, 0x0C, 0x12, 0x1B, 0x32, 0x56]

def strokeFor (layout : KbdLayout) (c : UInt8) : Stroke :=
  match (keymaps layout).1.find? fun e => e.2 = c with
  | some e => ⟨.none, e.1⟩
  | none =>
    match (keymaps layout).2.find? fun e => e.2 = c with
    | some e => ⟨.shift, e.1⟩
    | none => ⟨.altgr, (altgrCodes.find? fun sc => kbdAltgrKey sc = charKey c).getD 0⟩

def typeText (layout : KbdLayout) (text : List UInt8) : List UInt8 :=
  text.flatMap fun c => (strokeFor layout c).codes

-- The printable characters and those that enter, tabulator, backspace and escape stand for.
def typable : List UInt8 :=
  (List.range 95).map (fun i => UInt8.ofNat (0x20 + i)) ++ [chr '\n', chr '\t', 0x08, 27]

theorem strokeFor_spec (layout : KbdLayout)
    : ∀ c ∈ typable, (strokeFor layout c).ordinary = true ∧ (strokeFor layout c).key layout = charKey c
        ∧ charKey c ≠ 0 := by
  have hall : typable.all (fun c => (strokeFor layout c).ordinary
      && decide ((strokeFor layout c).key layout = charKey c) && decide (charKey c ≠ 0)) = true := by
    cases layout with
    | de => decide +kernel
    | en => decide +kernel
  intro c hc
  have hc := List.all_eq_true.mp hall c hc
  rw [Bool.and_eq_true, Bool.and_eq_true, decide_eq_true_iff, decide_eq_true_iff] at hc
  exact ⟨hc.1.1, hc.1.2, hc.2⟩

section Text

variable {k : Kbd} {layout : KbdLayout} {text : List UInt8}

theorem typeText_eq (hidle : k.Idle) (hlayout : k.currentLayout = layout) (htext : ∀ c ∈ text, c ∈ typable)
    : (typeText layout text).foldl kbdHandler k = kbdEnqueueKeys k (text.map charKey) := by
  induction text generalizing k with
  | nil => rfl
  | cons c text ih =>
    obtain ⟨hordinary, hkey, hne⟩ := strokeFor_spec layout c (htext c List.mem_cons_self)
    have hcons : typeText layout (c :: text) = (strokeFor layout c).codes ++ typeText layout text := rfl
    rw [hcons, List.foldl_append, stroke_eq hordinary hidle hlayout (by rw [hkey]; exact hne), hkey,
      ih (hidle.enqueue _) ((enqueue_layout k _).trans hlayout) fun d hd => htext d (List.mem_cons_of_mem c hd)]
    rfl

/--
For every text of printable characters there are scancodes, on both layouts, after which a driver that holds no
modifier and waits for no second byte is as if the characters had been put into the queue one by one, and if
there is room they are its next keys.
-/
theorem typing_enters_text (k : Kbd) (layout : KbdLayout) (text : List UInt8) (hidle : k.Idle)
    (hlayout : k.currentLayout = layout) (htext : ∀ c ∈ text, c ∈ typable)
    : ∃ codes : List UInt8, codes.foldl kbdHandler k = kbdEnqueueKeys k (text.map charKey)
      ∧ (k.queue.pending.length + text.length < KBD_BUF_SIZE
        → (codes.foldl kbdHandler k).queue.pending = k.queue.pending ++ text.map charKey) := by
  have htyped := typeText_eq hidle hlayout htext
  refine ⟨typeText layout text, htyped, ?_⟩
  intro hroom
  rw [htyped]
  apply kbdEnqueueKeys_pending
  rwa [List.length_map]

theorem typing_enters_text_hello
    : ∃ codes : List UInt8, codes.foldl kbdHandler KeySystem.boot.kbd
        = kbdEnqueueKeys KeySystem.boot.kbd ([chr '@', chr 'Z', 0x7B].map charKey) := by
  have htext : ∀ c ∈ [chr '@', chr 'Z', 0x7B], c ∈ typable := by
    simp only [List.forall_mem_cons]
    exact ⟨by decide, by decide, by decide, fun c hc => absurd hc List.not_mem_nil⟩
  obtain ⟨codes, hcodes, -⟩ := typing_enters_text KeySystem.boot.kbd .de [chr '@', chr 'Z', 0x7B] ⟨rfl, rfl, rfl⟩
    rfl htext
  exact ⟨codes, hcodes⟩

end Text

end DismasmOS
