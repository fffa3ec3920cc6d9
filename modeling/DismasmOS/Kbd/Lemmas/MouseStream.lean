import DismasmOS.Kbd.Lemmas.Queue
import DismasmOS.Lib.Framer

/-!
This module contains the theorem that the mouse handler decodes the packets the mouse sends, and finds their
beginning again after noise.
-/

namespace DismasmOS

-- A packet has a fourth byte if the mouse has a wheel, and bit 3 of the first one is set.
def packetFramer (hasWheel : Bool) : Framer UInt8 where
  size := if hasWheel then 4 else 3
  two_le_size := by cases hasWheel <;> decide
  starts := fun b => b &&& 0x08 ≠ 0

-- The key for the fourth byte of a packet.
def scrollKey (p : List UInt8) : Option Int :=
  match p[3]? with
  | some b => if b.toInt8 > 0 then some KEY_SCROLL_UP else if b.toInt8 < 0 then some KEY_SCROLL_DOWN else none
  | none => none

namespace Mouse

-- What the handler has of the current packet.
def opened (m : Mouse) : List UInt8 := m.packet.toList.take m.cycle.toNat

def framer (m : Mouse) : Framer UInt8 := packetFramer m.hasWheel

structure InPacket (m : Mouse) : Prop where
  cycle_lt : m.cycle.toNat < m.framer.size

end Mouse

-- The controller has a byte, and it is from the mouse.
def isMouseByte (status : UInt8) : Bool :=
  status &&& MOUSE_STATUS_OUTPUT_BUFFER_FULL ≠ 0 ∧ status &&& MOUSE_STATUS_MOUSE_DATA ≠ 0

section Handler

variable {m : Mouse} {k : Kbd} {status data : UInt8}

theorem mouseHandler_other (h : isMouseByte status = false) : mouseHandler m k status data = ⟨m, k⟩ := by
  unfold mouseHandler
  unfold isMouseByte at h
  rw [decide_eq_false_iff_not] at h
  rw [if_neg h]

-- The handler behind the test of the status.
theorem mouseHandler_eq (h : isMouseByte status = true)
    : mouseHandler m k status data
        = if m.cycle = 0 then
            if data &&& 0x08 ≠ 0 then
              ⟨{ m with packet := m.packet.set 0 data (by decide), cycle := 1 }, k⟩
            else
              ⟨m, k⟩
          else if m.cycle = 1 then ⟨{ m with packet := m.packet.set 1 data (by decide), cycle := 2 }, k⟩
          else if m.cycle = 2 then
            ⟨{ m with packet := m.packet.set 2 data (by decide), cycle := if m.hasWheel then 3 else 0 }, k⟩
          else if m.cycle = 3 then
            ⟨{ m with packet := m.packet.set 3 data (by decide), cycle := 0 },
              if data.toInt8 > 0 then kbdEnqueueKey k KEY_SCROLL_UP
              else if data.toInt8 < 0 then kbdEnqueueKey k KEY_SCROLL_DOWN else k⟩
          else ⟨m, k⟩ := by
  have hset : (m.packet.set 3 data)[3] = data := Vector.getElem_set_self _
  unfold mouseHandler
  unfold isMouseByte at h
  rw [if_pos (of_decide_eq_true h)]
  dsimp only
  rw [hset]

theorem framer_size (m : Mouse) : m.framer.size = if m.hasWheel then 4 else 3 := rfl

theorem cycle_lt_four (hm : m.InPacket) : m.cycle.toNat < 4 := by
  have hcycle := hm.cycle_lt
  rw [framer_size] at hcycle
  split at hcycle
  . exact hcycle
  . omega

theorem cycle_cases (hm : m.InPacket)
    : m.cycle = 0 ∨ m.cycle = 1 ∨ m.cycle = 2 ∨ m.cycle = 3 ∧ m.hasWheel = true := by
  have hlt := cycle_lt_four hm
  have hcycle := hm.cycle_lt
  rw [framer_size] at hcycle
  have hcases : m.cycle.toNat = 0 ∨ m.cycle.toNat = 1 ∨ m.cycle.toNat = 2 ∨ m.cycle.toNat = 3 := by omega
  obtain h | h | h | h := hcases
  . exact .inl (UInt8.toNat_inj.mp h)
  . exact .inr (.inl (UInt8.toNat_inj.mp h))
  . exact .inr (.inr (.inl (UInt8.toNat_inj.mp h)))
  . refine .inr (.inr (.inr ⟨UInt8.toNat_inj.mp h, ?_⟩))
    cases hwheel : m.hasWheel with
    | true => rfl
    | false =>
      rw [hwheel, if_neg Bool.false_ne_true] at hcycle
      omega

theorem length_opened (hm : m.InPacket) : m.opened.length = m.cycle.toNat := by
  have hcycle := cycle_lt_four hm
  unfold Mouse.opened
  rw [List.length_take, Vector.length_toList]
  omega

theorem opened_zero (h : m.cycle = 0) : m.opened = [] := by
  unfold Mouse.opened
  rw [h]
  rfl

-- The handler has stored a byte.
theorem opened_store {i : Nat} (hi : i < 4) (hcycle : m.cycle.toNat = i) {cycle : UInt8}
    (hnext : cycle.toNat = i + 1)
    : Mouse.opened { m with packet := m.packet.set i data, cycle := cycle } = m.opened ++ [data] := by
  unfold Mouse.opened
  dsimp only
  have hlen : i < (m.packet.toList.set i data).length := by
    rw [List.length_set, Vector.length_toList]
    exact hi
  rw [hnext, hcycle, Vector.toList_set, List.take_succ_eq_append_getElem hlen, List.getElem_set_self,
    List.take_set_of_le (Nat.le_refl i)]

theorem inPacket_iff : m.InPacket ↔ m.cycle.toNat < if m.hasWheel then 4 else 3 :=
  ⟨fun h => h.cycle_lt, fun h => ⟨h⟩⟩

theorem scrollKey_end {p : List UInt8} (h : p.length = 3)
    : scrollKey (p ++ [data])
        = if data.toInt8 > 0 then some KEY_SCROLL_UP
          else if data.toInt8 < 0 then some KEY_SCROLL_DOWN else none := by
  unfold scrollKey
  rw [List.getElem?_append_right (by omega), h]
  rfl

theorem scrollKey_short {p : List UInt8} (h : p.length = 3) : scrollKey p = none := by
  unfold scrollKey
  rw [List.getElem?_eq_none (by omega)]

theorem mouseHandler_byte (data : UInt8) (h : isMouseByte status = true) (hm : m.InPacket)
    : (mouseHandler m k status data).1.InPacket
      ∧ (mouseHandler m k status data).1.hasWheel = m.hasWheel
      ∧ (mouseHandler m k status data).1.opened = (m.framer.feed m.opened data).2
      ∧ (mouseHandler m k status data).2
        = kbdEnqueueKeys k ((m.framer.feed m.opened data).1.bind scrollKey).toList := by
  have hlen := length_opened hm
  have hsize := framer_size m
  have h1 : (1 : UInt8) ≠ 0 := by decide
  have h2 : (2 : UInt8) ≠ 0 ∧ (2 : UInt8) ≠ 1 := by decide
  have h3 : (3 : UInt8) ≠ 0 ∧ (3 : UInt8) ≠ 1 ∧ (3 : UInt8) ≠ 2 := by decide
  rw [mouseHandler_eq h]
  obtain hcycle | hcycle | hcycle | ⟨hcycle, hwheel⟩ := cycle_cases hm
  . rw [if_pos hcycle]
    by_cases hstart : data &&& 0x08 ≠ 0
    . have hfeed : m.framer.feed m.opened data = ⟨none, m.opened ++ [data]⟩ := by
        apply Framer.feed_more (.inr (decide_eq_true hstart))
        rw [hlen, hcycle, hsize]
        split <;> decide
      rw [if_pos hstart, hfeed]
      refine ⟨?_, rfl, opened_store (i := 0) (by decide) (by rw [hcycle]; rfl) rfl, rfl⟩
      rw [inPacket_iff]
      dsimp only
      split <;> decide
    . have hfeed : m.framer.feed m.opened data = ⟨none, []⟩ := by
        rw [opened_zero hcycle]
        exact Framer.feed_skip (decide_eq_false hstart)
      rw [if_neg hstart, hfeed]
      exact ⟨hm, rfl, opened_zero hcycle, rfl⟩
  . have hne : m.opened ≠ [] := List.ne_nil_of_length_pos (by rw [hlen, hcycle]; decide)
    have hfeed : m.framer.feed m.opened data = ⟨none, m.opened ++ [data]⟩ := by
      apply Framer.feed_more (.inl hne)
      rw [hlen, hcycle, hsize]
      split <;> decide
    rw [hcycle, if_neg h1, if_pos rfl, hfeed]
    refine ⟨?_, rfl, opened_store (i := 1) (by decide) (by rw [hcycle]; rfl) rfl, rfl⟩
    rw [inPacket_iff]
    dsimp only
    split <;> decide
  . have hne : m.opened ≠ [] := List.ne_nil_of_length_pos (by rw [hlen, hcycle]; decide)
    rw [hcycle, if_neg h2.1, if_neg h2.2, if_pos rfl]
    cases hwheel : m.hasWheel with
    | true =>
      have hfeed : m.framer.feed m.opened data = ⟨none, m.opened ++ [data]⟩ := by
        apply Framer.feed_more (.inl hne)
        rw [hlen, hcycle, hsize, hwheel]
        decide
      rw [hfeed]
      refine ⟨?_, rfl, opened_store (i := 2) (by decide) (by rw [hcycle]; rfl) rfl, rfl⟩
      rw [inPacket_iff]
      dsimp only
      split <;> decide
    | false =>
      have hfeed : m.framer.feed m.opened data = ⟨some (m.opened ++ [data]), []⟩ := by
        apply Framer.feed_end (.inl hne)
        rw [hlen, hcycle, hsize, hwheel]
        decide
      have hkey : scrollKey (m.opened ++ [data]) = none := by
        apply scrollKey_short
        rw [List.length_append, hlen, hcycle]
        rfl
      rw [hfeed, Option.bind_some, hkey]
      refine ⟨?_, rfl, opened_zero rfl, rfl⟩
      rw [inPacket_iff]
      dsimp only
      split <;> decide
  . have hne : m.opened ≠ [] := List.ne_nil_of_length_pos (by rw [hlen, hcycle]; decide)
    have hfeed : m.framer.feed m.opened data = ⟨some (m.opened ++ [data]), []⟩ := by
      apply Framer.feed_end (.inl hne)
      rw [hlen, hcycle, hsize, hwheel]
      decide
    rw [hcycle, if_neg h3.1, if_neg h3.2.1, if_neg h3.2.2, if_pos rfl, hfeed, Option.bind_some,
      scrollKey_end (by rw [hlen, hcycle]; rfl)]
    refine ⟨?_, rfl, opened_zero rfl, ?_⟩
    . rw [inPacket_iff]
      dsimp only
      split <;> decide
    . dsimp only
      split
      . rfl
      split
      . rfl
      . rfl

end Handler

-- Interrupts one after the other, each with what the ports of the controller deliver.
def mouseHandlers (m : Mouse) (k : Kbd) (interrupts : List (UInt8 × UInt8)) : Mouse × Kbd :=
  interrupts.foldl (fun s i => mouseHandler s.1 s.2 i.1 i.2) ⟨m, k⟩

def mouseBytes (interrupts : List (UInt8 × UInt8)) : List UInt8 :=
  (interrupts.filter fun i => isMouseByte i.1).map Prod.snd

section Stream

variable {m m' : Mouse} {k k' : Kbd} {interrupts : List (UInt8 × UInt8)}

-- The handler refines the decoder of frames.
theorem mouseHandlers_run (hm : m.InPacket) (hrun : mouseHandlers m k interrupts = ⟨m', k'⟩)
    : m'.InPacket ∧ m'.hasWheel = m.hasWheel
      ∧ m'.opened = (m.framer.run m.opened (mouseBytes interrupts)).2
      ∧ k' = kbdEnqueueKeys k ((m.framer.run m.opened (mouseBytes interrupts)).1.filterMap scrollKey) := by
  induction interrupts generalizing m k with
  | nil =>
    cases hrun
    exact ⟨hm, rfl, rfl, rfl⟩
  | cons i interrupts ih =>
    cases hbyte : isMouseByte i.1 with
    | false =>
      have hbytes : mouseBytes (i :: interrupts) = mouseBytes interrupts := by
        unfold mouseBytes
        rw [List.filter_cons_of_neg (by rw [hbyte]; exact Bool.false_ne_true)]
      have hrest : mouseHandlers m k interrupts = ⟨m', k'⟩ := by
        rw [← hrun]
        unfold mouseHandlers
        rw [List.foldl_cons, mouseHandler_other hbyte]
      rw [hbytes]
      exact ih hm hrest
    | true =>
      obtain ⟨hin, hwheel, hopened, hkeys⟩ := mouseHandler_byte (k := k) i.2 hbyte hm
      have hbytes : mouseBytes (i :: interrupts) = i.2 :: mouseBytes interrupts := by
        unfold mouseBytes
        rw [List.filter_cons_of_pos (by rw [hbyte])]
        rfl
      have hframer : (mouseHandler m k i.1 i.2).1.framer = m.framer := by
        unfold Mouse.framer
        rw [hwheel]
      have hrest : mouseHandlers (mouseHandler m k i.1 i.2).1 (mouseHandler m k i.1 i.2).2 interrupts
          = ⟨m', k'⟩ := hrun
      obtain ⟨hin', hwheel', hopened', hkeys'⟩ := ih hin hrest
      rw [hframer, hopened] at hopened' hkeys'
      rw [hbytes, Framer.run_cons, List.filterMap_append, kbdEnqueueKeys_append]
      refine ⟨hin', hwheel'.trans hwheel, hopened', ?_⟩
      rw [hkeys', hkeys]
      congr 2
      cases (m.framer.feed m.opened i.2).1 with
      | none => rfl
      | some p =>
        show (scrollKey p).toList = [p].filterMap scrollKey
        cases h : scrollKey p <;> simp [List.filterMap, h]

theorem cycle_eq_zero (hm : m.InPacket) (h : m.opened = []) : m.cycle = 0 := by
  have hlen := length_opened hm
  rw [h] at hlen
  exact UInt8.toNat_inj.mp hlen.symm

/--
Packets are decoded one by one, whatever other interrupts come between their bytes. After noise of three
bytes the handler has found the beginning of the packets, wherever it was, at the cost of at most one key.
-/
theorem mouse_packets_decode (m m' : Mouse) (k k' : Kbd) (interrupts : List (UInt8 × UInt8))
    (noise : List UInt8) (packets : List (List UInt8)) (hm : m.InPacket)
    (hpackets : ∀ p ∈ packets, (packetFramer m.hasWheel).IsFrame p) (hnoise : ∀ b ∈ noise, b &&& 0x08 = 0)
    (hsync : m.cycle = 0 ∨ 3 ≤ noise.length) (hbytes : mouseBytes interrupts = noise ++ packets.flatten)
    (hrun : mouseHandlers m k interrupts = ⟨m', k'⟩)
    : m'.cycle = 0 ∧ m'.hasWheel = m.hasWheel
      ∧ ∃ stray : Option Int, (m.cycle = 0 → stray = none)
        ∧ k' = kbdEnqueueKeys k (stray.toList ++ packets.filterMap scrollKey) := by
  obtain ⟨hin, hwheel, hopened, hkeys⟩ := mouseHandlers_run hm hrun
  have hlen := length_opened hm
  have hnoise' : ∀ b ∈ noise, m.framer.starts b = false := fun b hb => by
    unfold Mouse.framer packetFramer
    exact decide_eq_false (not_not_intro (hnoise b hb))
  have hsync' : m.opened = [] ∨ m.framer.size ≤ m.opened.length + noise.length := by
    obtain hcycle | hlong := hsync
    . exact .inl (opened_zero hcycle)
    . by_cases hcycle : m.cycle = 0
      . exact .inl (opened_zero hcycle)
      . have hpos : m.cycle.toNat ≠ 0 := fun h => hcycle (UInt8.toNat_inj.mp h)
        rw [framer_size]
        split <;> omega
  have hlt : m.opened.length < m.framer.size := by
    rw [hlen]
    exact hm.cycle_lt
  obtain ⟨hrest, hcount⟩ := Framer.run_noise hlt hnoise' hsync'
  have hframes : m.framer.run [] packets.flatten = ⟨packets, []⟩ := Framer.run_flatten hpackets
  rw [hbytes, Framer.run_append, hrest, hframes] at hopened hkeys
  refine ⟨cycle_eq_zero hin hopened, hwheel, ?_⟩
  dsimp only at hkeys
  rw [List.filterMap_append] at hkeys
  match hstray : (m.framer.run m.opened noise).1 with
  | [] =>
    rw [hstray] at hkeys
    exact ⟨none, fun _ => rfl, hkeys⟩
  | [p] =>
    rw [hstray] at hkeys hcount
    refine ⟨scrollKey p, ?_, ?_⟩
    . intro hcycle
      rw [if_pos (opened_zero hcycle)] at hcount
      cases hcount
    . rw [hkeys]
      cases h : scrollKey p <;> simp [List.filterMap, h]
  | p :: q :: ps =>
    rw [hstray] at hcount
    split at hcount <;> simp at hcount

-- The handler is in the middle of a packet when the noise comes.
theorem mouse_packets_decode_noise
    : let m : Mouse := ⟨2, #v[8, 1, 0, 0], true⟩
      let interrupts : List (UInt8 × UInt8) := [
        (0x21, 0), (0x21, 0), (0x1D, 0xF0), (0x21, 0), (0x21, 8), (0x21, 0), (0x21, 0), (0x21, 1), (0x21, 8),
        (0x21, 0), (0x21, 0), (0x21, 255)]
      let k := KeySystem.boot.kbd
      ∃ stray : Option Int, (mouseHandlers m k interrupts).2
        = kbdEnqueueKeys k (stray.toList ++ [KEY_SCROLL_UP, KEY_SCROLL_DOWN]) := by
  intro m interrupts k
  have hpackets : ∀ p ∈ [[8, 0, 0, 1], [8, 0, 0, 255]], (packetFramer m.hasWheel).IsFrame p := by
    intro p hp
    obtain rfl | hp := List.mem_cons.mp hp
    . exact ⟨rfl, 8, [0, 0, 1], rfl, rfl⟩
    . rw [List.mem_singleton.mp hp]
      exact ⟨rfl, 8, [0, 0, 255], rfl, rfl⟩
  have hbytes : mouseBytes interrupts = [0, 0, 0] ++ [[8, 0, 0, 1], [8, 0, 0, 255]].flatten := by decide
  have hkeys : [[8, 0, 0, 1], [8, 0, 0, 255]].filterMap scrollKey = [KEY_SCROLL_UP, KEY_SCROLL_DOWN] := by decide
  cases hrun : mouseHandlers m k interrupts with
  | mk m' k' =>
    obtain ⟨-, -, stray, -, hstray⟩ := mouse_packets_decode m m' k k' interrupts [0, 0, 0]
      [[8, 0, 0, 1], [8, 0, 0, 255]] ⟨by decide⟩ hpackets (by simp) (.inr (by decide)) hbytes hrun
    rw [hkeys] at hstray
    exact ⟨stray, hstray⟩

-- A mouse without a wheel never puts a key into the queue.
theorem mouse_without_wheel (hm : m.InPacket) (hwheel : m.hasWheel = false)
    (hrun : mouseHandlers m k interrupts = ⟨m', k'⟩)
    : k' = k := by
  obtain ⟨-, -, -, hkeys⟩ := mouseHandlers_run hm hrun
  have hsize : m.framer.size = 3 := by
    rw [framer_size, hwheel]
    rfl
  have hnone : (m.framer.run m.opened (mouseBytes interrupts)).1.filterMap scrollKey = [] := by
    rw [List.filterMap_eq_nil_iff]
    intro p hp
    exact scrollKey_short ((Framer.length_of_mem_run hp).trans hsize)
  rw [hkeys, hnone]
  rfl

end Stream

end DismasmOS
