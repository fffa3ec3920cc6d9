import DismasmOS.Vga.Reference

/-!
This module contains the loops of the console over its cells, described by the characters they leave
on the screen.
-/

namespace DismasmOS

theorem vgaIndex_eq {y x : Nat} (hy : y ≤ VGA_HEIGHT) (hx : x < VGA_WIDTH)
    : vgaIndex y x = y * VGA_WIDTH + x := by
  unfold vgaIndex VGA_WIDTH VGA_HEIGHT at *
  rw [Word.mul_of_lt (by unfold Word.modulus; omega), Word.add_of_lt (by unfold Word.modulus; omega)]

theorem vgaIndex_lt {y x : Nat} (hy : y < VGA_HEIGHT) (hx : x < VGA_WIDTH)
    : vgaIndex y x < VGA_HEIGHT * VGA_WIDTH := by
  rw [vgaIndex_eq (by omega) hx]
  unfold VGA_WIDTH VGA_HEIGHT at *
  omega

theorem vgaIndex_inj {y x y' x' : Nat} (hy : y < VGA_HEIGHT) (hx : x < VGA_WIDTH)
    (hy' : y' < VGA_HEIGHT) (hx' : x' < VGA_WIDTH)
    : vgaIndex y x = vgaIndex y' x' ↔ y = y' ∧ x = x' := by
  rw [vgaIndex_eq (by omega) hx, vgaIndex_eq (by omega) hx']
  unfold VGA_WIDTH at *
  omega

theorem toUInt8_vgaCell (c attrib : UInt8) : (vgaCell c attrib).toUInt8 = c := by
  unfold vgaCell
  apply UInt8.toBitVec_inj.mp
  ext i hi
  simp

/-- The screen shows the characters `f`. -/
def Vga.Grid (v : Vga) (f : Nat → Nat → UInt8) : Prop :=
  ∀ y x, y < VGA_HEIGHT → x < VGA_WIDTH → v.charAt y x = some (f y x)

namespace Vga.Grid

variable {v : Vga} {f g : Nat → Nat → UInt8}

theorem congr (h : v.Grid f) (hfg : ∀ y x, y < VGA_HEIGHT → x < VGA_WIDTH → f y x = g y x)
    : v.Grid g := by
  intro y x hy hx
  rw [← hfg y x hy hx]
  exact h y x hy hx

theorem exists_of (v : Vga) : ∃ f, v.Grid f := by
  refine ⟨fun y x => (v.charAt y x).getD 0, ?_⟩
  intro y x hy hx
  have hlt := vgaIndex_lt hy hx
  unfold Vga.charAt Vga.read
  dsimp only
  rw [Vector.getElem?_eq_getElem hlt]
  rfl

theorem read (h : v.Grid f) {y x : Nat} (hy : y < VGA_HEIGHT) (hx : x < VGA_WIDTH)
    : ∃ cell, v.read (vgaIndex y x) = some cell ∧ cell.toUInt8 = f y x :=
  Option.map_eq_some_iff.mp (h y x hy hx)

theorem write (h : v.Grid f) {y x : Nat} (hy : y < VGA_HEIGHT) (hx : x < VGA_WIDTH) (cell : UInt16)
    : ∃ b, v.write (vgaIndex y x) cell = some { v with buffer := b }
        ∧ { v with buffer := b }.Grid
            fun y' x' => if y' = y ∧ x' = x then cell.toUInt8 else f y' x' := by
  have hlt := vgaIndex_lt hy hx
  unfold Vga.write
  rw [dif_pos hlt]
  refine ⟨_, rfl, ?_⟩
  intro y' x' hy' hx'
  unfold Vga.charAt Vga.read
  dsimp only
  rw [Vector.getElem?_set]
  simp only [vgaIndex_inj hy hx hy' hx']
  split
  . next heq =>
    rw [if_pos ⟨heq.1.symm, heq.2.symm⟩]
    rfl
  . next hne =>
    rw [if_neg (by omega)]
    exact h y' x' hy' hx'

theorem fillRow (h : v.Grid f) (y : Nat) (g : Nat → UInt8) (body : Nat → Vga → Option Vga)
    (hbody : ∀ x (w : Vga) (k : Nat → Nat → UInt8), x < VGA_WIDTH → (∃ b, w = { v with buffer := b })
      → w.Grid k → (∀ y' x', y' ≠ y → k y' x' = f y' x')
      → ∃ b, body x w = some { w with buffer := b }
        ∧ { w with buffer := b }.Grid fun y' x' => if y' = y ∧ x' = x then g x else k y' x')
    : ∃ b, forUpTo VGA_WIDTH body v = some { v with buffer := b }
        ∧ { v with buffer := b }.Grid fun y' x' => if y' = y then g x' else f y' x' := by
  have hloop := forUpTo_spec VGA_WIDTH body v
    (fun i w => ∃ b, w = { v with buffer := b }
      ∧ w.Grid fun y' x' => if y' = y ∧ x' < i then g x' else f y' x')
    ⟨v.buffer, rfl, h.congr (by simp)⟩ ?_
  . obtain ⟨w, hw, b, rfl, hgrid⟩ := hloop
    refine ⟨b, hw, hgrid.congr ?_⟩
    intro y' x' _ hx'
    simp only [hx', and_true]
  . intro x w hx hw
    obtain ⟨b, rfl, hgrid⟩ := hw
    obtain ⟨b', hb', hgrid'⟩ := hbody x _ _ hx ⟨b, rfl⟩ hgrid (by intro y' x' hne; simp [hne])
    refine ⟨_, hb', b', rfl, hgrid'.congr ?_⟩
    intro y' x' _ _
    grind

theorem clear (h : v.Grid f)
    : ∃ w, vgaClear v = some w ∧ w.Grid (fun _ _ => chr ' ') ∧ w.row = 0 ∧ w.col = 0 := by
  have hloop := forUpTo_spec VGA_HEIGHT
    (fun y => forUpTo VGA_WIDTH fun x v =>
      v.write (vgaIndex y x) (vgaCell (chr ' ') v.attrib)) v
    (fun i w => ∃ b, w = { v with buffer := b }
      ∧ w.Grid fun y' x' => if y' < i then chr ' ' else f y' x')
    ⟨v.buffer, rfl, h.congr (by simp)⟩ ?_
  . obtain ⟨w, hw, b, rfl, hgrid⟩ := hloop
    refine ⟨vgaUpdateCursor { v with buffer := b, row := 0, col := 0 } 0 0, ?_, ?_, rfl, rfl⟩
    . unfold vgaClear
      rw [hw]
      rfl
    . apply hgrid.congr
      intro y x hy _
      rw [if_pos hy]
  . intro y w hy hw
    obtain ⟨b, rfl, hgrid⟩ := hw
    have hrow := hgrid.fillRow y (fun _ => chr ' ') (fun x v =>
      v.write (vgaIndex y x) (vgaCell (chr ' ') v.attrib)) ?_
    . obtain ⟨b', hb', hgrid'⟩ := hrow
      refine ⟨_, hb', b', rfl, hgrid'.congr ?_⟩
      intro y' x' _ _
      grind
    . intro x w k hx _ hk _
      have hwrite := hk.write hy hx (vgaCell (chr ' ') w.attrib)
      rw [toUInt8_vgaCell] at hwrite
      exact hwrite

theorem scroll (h : v.Grid f) (hrow : v.row ≥ VGA_HEIGHT)
    : ∃ b, vgaScroll v = some { v with buffer := b, row := VGA_HEIGHT - 1 }
        ∧ { v with buffer := b, row := VGA_HEIGHT - 1 }.Grid
            fun y x => if y + 1 < VGA_HEIGHT then f (y + 1) x else chr ' ' := by
  have hloop := forUpTo_spec (VGA_HEIGHT - 1)
    (fun y => forUpTo VGA_WIDTH fun x v => do
      let cell ← v.read (vgaIndex (y + 1) x)
      v.write (vgaIndex y x) cell) v
    (fun i w => ∃ b, w = { v with buffer := b }
      ∧ w.Grid fun y' x' => if y' < i then f (y' + 1) x' else f y' x')
    ⟨v.buffer, rfl, h.congr (by simp)⟩ ?_
  . obtain ⟨w, hw, b, rfl, hgrid⟩ := hloop
    have hlast := hgrid.fillRow (VGA_HEIGHT - 1) (fun _ => chr ' ') (fun x v =>
      v.write (vgaIndex (VGA_HEIGHT - 1) x) (vgaCell (chr ' ') v.attrib)) ?_
    . obtain ⟨b', hb', hgrid'⟩ := hlast
      refine ⟨b', ?_, hgrid'.congr ?_⟩
      . unfold vgaScroll
        rw [if_pos hrow, hw, Option.bind_eq_bind, Option.bind_some, hb']
        rfl
      . intro y x hy _
        grind
    . intro x w k hx _ hk _
      have hwrite := hk.write (y := VGA_HEIGHT - 1) (by decide) hx (vgaCell (chr ' ') w.attrib)
      rw [toUInt8_vgaCell] at hwrite
      exact hwrite
  . intro y w hy hw
    obtain ⟨b, rfl, hgrid⟩ := hw
    have hline := hgrid.fillRow y (f (y + 1)) (fun x v => do
      let cell ← v.read (vgaIndex (y + 1) x)
      v.write (vgaIndex y x) cell) ?_
    . obtain ⟨b', hb', hgrid'⟩ := hline
      refine ⟨_, hb', b', rfl, hgrid'.congr ?_⟩
      intro y' x' _ _
      grind
    . intro x w k hx _ hk hother
      obtain ⟨cell, hread, hcell⟩ := hk.read (y := y + 1) (by omega) hx
      have hwrite := hk.write (y := y) (by omega) hx cell
      rw [hcell, hother _ _ (by omega), if_neg (by omega)] at hwrite
      rw [hread]
      exact hwrite

end Vga.Grid

end DismasmOS
