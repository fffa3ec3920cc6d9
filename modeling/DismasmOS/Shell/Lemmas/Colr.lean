import DismasmOS.Shell.Colr
import DismasmOS.Shell.Lemmas.ArgBuffer
import DismasmOS.Vga.Lemmas.Color

/-!
This module contains the theorem that `colr` shows the color that its arguments name, however they are cut into
words and decorated.
-/

namespace DismasmOS

section Spelled

variable {s t : List UInt8} {args : Argv}

theorem spelled_append (hs : NulFree s) (ht : NulFree t) : spelled (s ++ t) = spelled s ++ spelled t := by
  have hst : NulFree (s ++ t) := by
    rw [NulFree.append]
    exact ⟨hs, ht⟩
  unfold spelled
  rw [hst.cstr, hs.cstr, ht.cstr, List.filter_append, List.map_append]

theorem nulFree_flatten (hargs : ∀ a ∈ args, NulFree a) : NulFree args.flatten := by
  intro hmem
  obtain ⟨a, ha, hnul⟩ := List.mem_flatten.mp hmem
  exact hargs a ha hnul

theorem spelled_flatten (hargs : ∀ a ∈ args, NulFree a) : spelled args.flatten = args.flatMap spelled := by
  induction args with
  | nil => rfl
  | cons a args ih =>
    rw [List.forall_mem_cons] at hargs
    rw [List.flatten_cons, spelled_append hargs.1 (nulFree_flatten hargs.2), ih hargs.2, List.flatMap_cons]

-- The blanks between the arguments are decoration.
theorem spelled_joinParts (hargs : ∀ a ∈ args, NulFree a)
    : spelled (joinParts args).flatten = spelled args.flatten := by
  have hparts : ∀ a ∈ joinParts args, NulFree a := by
    cases args with
    | nil => exact hargs
    | cons a args =>
      rw [List.forall_mem_cons] at hargs
      unfold joinParts
      rw [List.forall_mem_cons]
      refine ⟨hargs.1, ?_⟩
      intro b hb
      obtain ⟨a', ha', hb⟩ := List.mem_flatMap.mp hb
      obtain rfl | hb := List.mem_cons.mp hb
      . decide
      . rw [List.mem_singleton.mp hb]
        exact hargs.2 a' ha'
  rw [spelled_flatten hparts, spelled_flatten hargs]
  cases args with
  | nil => rfl
  | cons a args =>
    unfold joinParts
    rw [List.flatMap_cons, List.flatMap_cons, List.flatMap_assoc]
    congr 2
    funext b
    have hblank : spelled (str " ") = [] := rfl
    rw [List.flatMap_cons, List.flatMap_singleton, hblank, List.nil_append]

end Spelled

section Colr

variable {argv : Argv}

theorem cmdColr_eq (hargv : ∀ a ∈ argv, NulFree a) (hargs : 2 ≤ argv.length) (hfit : joinedLength argv.tail ≤ 63)
    : ∃ buf, spelled buf = spelled argv.tail.flatten
      ∧ cmdColr argv
        = if vgaParseColor buf < 0 ∨ vgaParseColor buf > 15 then some ⟨1, colrUnknown buf⟩
          else some ⟨0, colrSpot (UInt8.ofInt (vgaParseColor buf))⟩ := by
  have htail : (argv.drop 1).take (argv.length - 1) = argv.tail := by
    rw [List.drop_one, List.take_of_length_le (by rw [List.length_tail])]
  have htailNul : ∀ a ∈ argv.tail, NulFree a := fun a ha => hargv a (List.mem_of_mem_tail ha)
  have hjoin : joinArgs 64 argv 1 argv.length = appendAllIn 64 [] (joinParts argv.tail) := by
    rw [joinArgs_eq hargv (by omega) (Nat.le_refl _), htail]
  have hsome : joinArgs 64 argv 1 argv.length ≠ none := by
    rw [joinArgs_isSome_iff hargv (by omega) (Nat.le_refl _) (by decide), htail]
    omega
  obtain ⟨buf, hbuf⟩ := Option.ne_none_iff_exists'.mp hsome
  have hflat := appendAllIn_some (hjoin.symm.trans hbuf)
  refine ⟨buf, ?_, ?_⟩
  . rw [hflat, List.nil_append, spelled_joinParts htailNul]
  . unfold cmdColr
    rw [if_neg (by omega), hbuf]
    rfl

theorem ofInt_toNat (c : UInt8) : UInt8.ofInt c.toNat = c := by
  have hlt := c.toNat_lt
  unfold UInt8.ofInt
  have hmod : ((c.toNat : Int) % 2 ^ 8).toNat = c.toNat := by omega
  rw [hmod, UInt8.ofNat_toNat]

theorem colrSpot_inj {color color' : UInt8} (h : colrSpot color = colrSpot color') : color = color' := by
  cases h
  rfl

/--
A color is shown if and only if the arguments, put together, are its number or one of its names in any case and
with any brackets and blanks in it. Every color can be named, by its number and by the name in the table.
-/
theorem colr_shows_color (argv : Argv) (hargv : ∀ a ∈ argv, NulFree a) (hargs : 2 ≤ argv.length)
    (hfit : joinedLength argv.tail ≤ 63)
    : (∀ color : UInt8, color < 16 →
        (cmdColr argv = some ⟨0, colrSpot color⟩ ↔ (spelled argv.tail.flatten, color) ∈ colorSpellings)
        ∧ (vgaGetColorName color, color) ∈ colorSpellings ∧ (itoa color.toNat, color) ∈ colorSpellings)
      ∧ ((∀ color : UInt8, (spelled argv.tail.flatten, color) ∉ colorSpellings)
        → ∃ buf, cmdColr argv = some ⟨1, colrUnknown buf⟩) := by
  obtain ⟨buf, hspelled, heq⟩ := cmdColr_eq hargv hargs hfit
  rw [heq, ← hspelled]
  obtain ⟨⟨name, color'⟩, hword, hname, hparse⟩ | ⟨hnone, hparse⟩ := vgaParseColor_cases buf
  . have hlt : color'.toNat < 16 := colorSpellings_color _ hword
    have hvalue : vgaParseColor buf = (color'.toNat : Int) := hparse
    have hshows : (if vgaParseColor buf < 0 ∨ vgaParseColor buf > 15 then some ⟨1, colrUnknown buf⟩
        else some ⟨0, colrSpot (UInt8.ofInt (vgaParseColor buf))⟩) = some ((0 : Int), colrSpot color') := by
      rw [hvalue, if_neg (by omega), ofInt_toNat]
    rw [hshows, hname]
    refine ⟨?_, fun h => absurd hword (h color')⟩
    intro color hcolor
    refine ⟨?_, colorNames_mem hcolor⟩
    constructor
    . intro h
      have hspot := (Prod.mk.inj (Option.some.inj h)).2
      rw [← colrSpot_inj hspot]
      exact hword
    . intro hmem
      rw [colorSpellings_inj hword hmem]
  . have hunknown : (if vgaParseColor buf < 0 ∨ vgaParseColor buf > 15 then some ⟨1, colrUnknown buf⟩
        else some ⟨0, colrSpot (UInt8.ofInt (vgaParseColor buf))⟩) = some ((1 : Int), colrUnknown buf) := by
      rw [hparse, if_pos (by omega)]
    rw [hunknown]
    refine ⟨?_, fun _ => ⟨buf, rfl⟩⟩
    intro color hcolor
    refine ⟨?_, colorNames_mem hcolor⟩
    constructor
    . intro h
      exact absurd (Prod.mk.inj (Option.some.inj h)).1 (by decide)
    . intro hmem
      exact absurd rfl (hnone _ hmem)

-- `colr [DARK grey]`
theorem colr_shows_color_grey
    : cmdColr [str "colr", str "[DARK", str "grey]"] = some ⟨0, colrSpot 8⟩ := by
  have hargv : ∀ a ∈ [str "colr", str "[DARK", str "grey]"], NulFree a := by decide
  exact ((colr_shows_color _ hargv (by decide) (by decide)).1 8 (by decide)).1.mpr (by decide +kernel)

end Colr

end DismasmOS
