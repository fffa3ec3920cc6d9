import DismasmOS.Str.Lemmas
import DismasmOS.Vga.Color
import Mathlib.Data.List.Nodup

/-!
This module contains the theorem that a color is read by all its names and by its number, however these are
decorated, and that nothing else is read.
-/

namespace DismasmOS

-- What is left of a text without its decoration.
def spelled (text : List UInt8) : List UInt8 := ((cstr text).filter fun c => !isColorPunct c).map tolower

-- All that a color can be called by.
def colorSpellings : List (List UInt8 × UInt8) :=
  (List.range 16).map (fun n => ⟨itoa n, UInt8.ofNat n⟩) ++ colorWords

section Clean

variable {clean text : List UInt8}

theorem cleanColor_eq (hlen : clean.length ≤ 31) : cleanColor clean text = (clean ++ spelled text).take 31 := by
  induction text generalizing clean with
  | nil =>
    have hnil : clean ++ spelled [] = clean := List.append_nil clean
    rw [hnil, List.take_of_length_le hlen]
    rfl
  | cons c text ih =>
    unfold cleanColor
    by_cases hend : c = NUL
    . have hnil : spelled (c :: text) = [] := by
        unfold spelled
        rw [cstr_cons, if_pos hend]
        rfl
      rw [if_neg (fun h => h.1 hend), hnil, List.append_nil, List.take_of_length_le hlen]
    . by_cases hroom : clean.length < 31
      . rw [if_pos ⟨hend, hroom⟩]
        cases hpunct : isColorPunct c with
        | true =>
          have hskip : spelled (c :: text) = spelled text := by
            unfold spelled
            rw [cstr_cons, if_neg hend, List.filter_cons_of_neg (by rw [hpunct]; decide)]
          rw [if_pos rfl, ih hlen, hskip]
        | false =>
          have hkeep : spelled (c :: text) = tolower c :: spelled text := by
            unfold spelled
            rw [cstr_cons, if_neg hend, List.filter_cons_of_pos (by rw [hpunct]; decide)]
            rfl
          rw [if_neg Bool.false_ne_true, ih (by rw [List.length_append]; exact hroom), hkeep,
            List.append_assoc]
          rfl
      . rw [if_neg (fun h => hroom h.2), List.take_append_of_le_length (by omega), List.take_of_length_le hlen]

theorem tolower_ne_nul {c : UInt8} (hc : c ≠ NUL) : tolower c ≠ NUL := by
  unfold tolower
  split
  . next h =>
    have hlow : 65 ≤ c.toNat := UInt8.le_iff_toNat_le.mp h.1
    have hhigh : c.toNat ≤ 90 := UInt8.le_iff_toNat_le.mp h.2
    have hsum : (c + (chr 'a' - chr 'A')).toNat = (c.toNat + 32) % 256 := UInt8.toNat_add c 32
    intro heq
    rw [heq] at hsum
    have hzero : NUL.toNat = 0 := rfl
    omega
  . exact hc

theorem nulFree_spelled (text : List UInt8) : NulFree (spelled text) := by
  intro hmem
  obtain ⟨c, hc, heq⟩ := List.mem_map.mp hmem
  have hne : c ≠ NUL := by
    rintro rfl
    exact nulFree_cstr text (List.mem_filter.mp hc).1
  exact tolower_ne_nul hne heq

end Clean

section Number

variable {clean : List UInt8} {n : Int}

theorem digit_itoa {c : UInt8} (h : c ≥ chr '0' ∧ c ≤ chr '9')
    : ∃ k < 10, [c] = itoa (k : Nat) ∧ (c.toNat : Int) - (chr '0').toNat = k := by
  have hlow : 48 ≤ c.toNat := UInt8.le_iff_toNat_le.mp h.1
  have hhigh : c.toNat ≤ 57 := UInt8.le_iff_toNat_le.mp h.2
  have hdigits : ∀ k < 10, itoa (k : Nat) = [UInt8.ofNat (48 + k)] := by decide
  refine ⟨c.toNat - 48, by omega, ?_, ?_⟩
  . rw [hdigits _ (by omega), Nat.add_sub_cancel' hlow, UInt8.ofNat_toNat]
  . show (c.toNat : Int) - 48 = _
    omega

theorem teen_itoa {c : UInt8} (h : c ≥ chr '0' ∧ c ≤ chr '5')
    : ∃ k < 16, [chr '1', c] = itoa (k : Nat) ∧ 10 + ((c.toNat : Int) - (chr '0').toNat) = k := by
  have hlow : 48 ≤ c.toNat := UInt8.le_iff_toNat_le.mp h.1
  have hhigh : c.toNat ≤ 53 := UInt8.le_iff_toNat_le.mp h.2
  have hdigits : ∀ k < 6, itoa (10 + k : Nat) = [chr '1', UInt8.ofNat (48 + k)] := by decide
  refine ⟨10 + (c.toNat - 48), by omega, ?_, ?_⟩
  . rw [hdigits _ (by omega), Nat.add_sub_cancel' hlow, UInt8.ofNat_toNat]
  . show 10 + ((c.toNat : Int) - 48) = _
    omega

-- Numbers are read if they are written as `itoa` writes them.
theorem colorNumber_some (hnul : NulFree clean) (h : colorNumber clean = some n)
    : ∃ k < 16, clean = itoa (k : Nat) ∧ n = k := by
  unfold colorNumber at h
  dsimp only at h
  split at h
  . next hdigit =>
    match clean with
    | [] => exact absurd hdigit.1 (by decide)
    | [a] =>
      obtain ⟨k, hk, heq, hval⟩ := digit_itoa hdigit
      cases h
      exact ⟨k, by omega, heq, hval⟩
    | a :: b :: rest =>
      have hb : (a :: b :: rest).getD 1 NUL ≠ NUL := by
        rintro rfl
        exact hnul (by simp)
      rw [if_neg hb] at h
      split at h
      . next hteen =>
        obtain ⟨ha, hlow, hhigh, hend⟩ := hteen
        have hrest : rest = [] := by
          cases rest with
          | nil => rfl
          | cons c rest =>
            have hc : c = NUL := hend
            rw [hc] at hnul
            exact absurd (by simp) hnul
        obtain ⟨k, hk, heq, hval⟩ := teen_itoa ⟨hlow, hhigh⟩
        cases h
        have hone : a = chr '1' := ha
        rw [hone, hrest]
        exact ⟨k, hk, heq, hval⟩
      . cases h
  . cases h

theorem colorNumber_itoa : ∀ k < 16, colorNumber (itoa (k : Nat)) = some k := by decide

end Number

section Words

theorem colorSpellings_nodup : (colorSpellings.map Prod.fst).Nodup := by decide +kernel

theorem colorSpellings_short : ∀ word ∈ colorSpellings, word.1 ≠ [] ∧ word.1.length < 31 ∧ NulFree word.1 := by
  decide +kernel

theorem colorSpellings_color : ∀ word ∈ colorSpellings, word.2 < 16 := by decide +kernel

theorem mem_colorSpellings {word : List UInt8 × UInt8}
    : word ∈ colorSpellings ↔ (∃ k < 16, word = ⟨itoa (k : Nat), UInt8.ofNat k⟩) ∨ word ∈ colorWords := by
  unfold colorSpellings
  rw [List.mem_append, List.mem_map]
  apply or_congr_left
  apply exists_congr
  intro k
  rw [List.mem_range, eq_comm (a := word)]

-- One name is the name of one color.
theorem colorSpellings_inj {name : List UInt8} {color color' : UInt8} (h : (name, color) ∈ colorSpellings)
    (h' : (name, color') ∈ colorSpellings)
    : color = color' :=
  congrArg Prod.snd (List.inj_on_of_nodup_map colorSpellings_nodup h h' rfl)

end Words

section Parse

variable {text name : List UInt8} {color : UInt8}

-- The names are shorter than the buffer, so that what does not fit was no name.
theorem cleanColor_eq_iff (hlen : name.length < 31) : cleanColor [] text = name ↔ spelled text = name := by
  rw [cleanColor_eq (Nat.zero_le _), List.nil_append]
  constructor
  . intro h
    have hcut := congrArg List.length h
    rw [List.length_take] at hcut
    rw [← h, List.take_of_length_le (by omega)]
  . rintro rfl
    exact List.take_of_length_le (by omega)

theorem nulFree_cleanColor (text : List UInt8) : NulFree (cleanColor [] text) := by
  rw [cleanColor_eq (Nat.zero_le _), List.nil_append]
  exact (nulFree_spelled text).sublist (List.take_sublist _ _)

theorem strcmp_colorWord {clean : List UInt8} (hnul : NulFree clean) {word : List UInt8 × UInt8}
    (hword : word ∈ colorWords)
    : strcmp clean word.1 = 0 ↔ clean = word.1 :=
  hnul.strcmp_eq_zero_iff (colorSpellings_short word (mem_colorSpellings.mpr (.inr hword))).2.2

theorem vgaParseColor_cases (text : List UInt8)
    : (∃ word ∈ colorSpellings, spelled text = word.1 ∧ vgaParseColor text = word.2.toNat)
      ∨ (∀ word ∈ colorSpellings, spelled text ≠ word.1) ∧ vgaParseColor text = -1 := by
  have hnul := nulFree_cleanColor text
  have hclean : ∀ word ∈ colorSpellings, cleanColor [] text = word.1 ↔ spelled text = word.1 :=
    fun word hword => cleanColor_eq_iff (colorSpellings_short word hword).2.1
  unfold vgaParseColor
  generalize cleanColor [] text = clean at hnul hclean
  dsimp only
  by_cases hempty : clean.length = 0
  . right
    rw [if_pos hempty]
    refine ⟨?_, rfl⟩
    intro word hword hspelled
    apply (colorSpellings_short word hword).1
    rw [← (hclean word hword).mpr hspelled]
    exact List.length_eq_zero_iff.mp hempty
  rw [if_neg hempty]
  cases hnumber : colorNumber clean with
  | some n =>
    obtain ⟨k, hk, heq, rfl⟩ := colorNumber_some hnul hnumber
    have hword : (itoa (k : Nat), UInt8.ofNat k) ∈ colorSpellings := mem_colorSpellings.mpr (.inl ⟨k, hk, rfl⟩)
    refine .inl ⟨_, hword, (hclean _ hword).mp heq, ?_⟩
    dsimp only
    rw [UInt8.toNat_ofNat', Nat.mod_eq_of_lt (by omega)]
  | none =>
    dsimp only
    cases hfind : colorWords.find? fun word => strcmp clean word.1 = 0 with
    | some word =>
      have hmem := List.mem_of_find?_eq_some hfind
      have hfound := List.find?_some hfind
      have hword := mem_colorSpellings.mpr (.inr hmem)
      have heq := (strcmp_colorWord hnul hmem).mp (by simpa only [decide_eq_true_eq] using hfound)
      exact .inl ⟨word, hword, (hclean word hword).mp heq, rfl⟩
    | none =>
      refine .inr ⟨?_, rfl⟩
      intro word hword hspelled
      have heq := (hclean word hword).mpr hspelled
      obtain ⟨k, hk, rfl⟩ | hmem := mem_colorSpellings.mp hword
      . rw [heq, colorNumber_itoa k hk] at hnumber
        cases hnumber
      . have hnone := List.find?_eq_none.mp hfind word hmem
        exact hnone (decide_eq_true ((strcmp_colorWord hnul hmem).mpr heq))

theorem vgaParseColor_iff (text : List UInt8) (color : UInt8)
    : vgaParseColor text = color.toNat ↔ (spelled text, color) ∈ colorSpellings := by
  obtain ⟨⟨name, color'⟩, hword, hname, hparse⟩ | ⟨hnone, hparse⟩ := vgaParseColor_cases text
  . rw [hparse, hname]
    constructor
    . intro heq
      have hcolor : color' = color := UInt8.toNat_inj.mp (Int.ofNat.inj heq)
      rw [← hcolor]
      exact hword
    . intro hmem
      rw [colorSpellings_inj hword hmem]
  . rw [hparse]
    constructor
    . intro heq
      omega
    . intro hmem
      exact absurd rfl (hnone _ hmem)

-- The name that is shown and the number are names, too.
theorem colorNames_mem {color : UInt8} (hcolor : color < 16)
    : (vgaGetColorName color, color) ∈ colorSpellings ∧ (itoa color.toNat, color) ∈ colorSpellings := by
  have hlt : color.toNat < 16 := hcolor
  have hnames : ∀ k < 16, (vgaGetColorName (UInt8.ofNat k), UInt8.ofNat k) ∈ colorSpellings := by decide +kernel
  have hname := hnames color.toNat hlt
  rw [UInt8.ofNat_toNat] at hname
  refine ⟨hname, mem_colorSpellings.mpr (.inl ⟨color.toNat, hlt, ?_⟩)⟩
  rw [UInt8.ofNat_toNat]

end Parse

end DismasmOS
