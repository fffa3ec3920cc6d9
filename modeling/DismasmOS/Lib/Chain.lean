import Mathlib.Data.List.Basic
import DismasmOS.Lib.Occurrence

/-!
This module contains chains: the pieces of a text between the leftmost occurrences of a separator of two
characters, and their execution up to the first one that fails.
-/

section Split

variable {α : Type} [DecidableEq α]

def splitPair (a b : α) (text : List α) : List (List α) :=
  match text with
  | [] => [[]]
  | [c] => [[c]]
  | c :: d :: text =>
    if c = a ∧ d = b then
      [] :: splitPair a b text
    else
      (splitPair a b (d :: text)).modifyHead (c :: ·)

theorem splitPair_pair (a b : α) (text : List α)
    : splitPair a b (a :: b :: text) = [] :: splitPair a b text := by
  rw [splitPair, if_pos ⟨rfl, rfl⟩]

theorem splitPair_cons {a b c : α} {text : List α} (h : ¬(c = a ∧ text.head? = some b))
    : splitPair a b (c :: text) = (splitPair a b text).modifyHead (c :: ·) := by
  cases text with
  | nil => rfl
  | cons d text =>
    rw [splitPair, if_neg]
    intro hpair
    apply h
    rw [hpair.2]
    exact ⟨hpair.1, rfl⟩

omit [DecidableEq α] in
theorem pair_prefix_iff {a b c : α} {text : List α}
    : [a, b] <+: c :: text ↔ c = a ∧ text.head? = some b := by
  rw [List.cons_prefix_cons, eq_comm (a := a)]
  apply and_congr_right
  intro _
  cases text with
  | nil => exact iff_of_false (fun h => List.cons_ne_nil _ _ (List.prefix_nil.mp h)) nofun
  | cons d text =>
    rw [List.cons_prefix_cons, List.head?_cons, Option.some_inj, and_iff_left List.nil_prefix, eq_comm]

theorem splitPair_of_firstAt {a b : α} {text : List α} {i : Nat} (h : FirstAt [a, b] text i)
    : splitPair a b text = text.take i :: splitPair a b (text.drop (i + 2)) := by
  induction text generalizing i with
  | nil => exact absurd h (not_firstAt_nil (List.cons_ne_nil _ _))
  | cons c text ih =>
    cases i with
    | zero =>
      obtain ⟨rest, hrest⟩ := firstAt_zero_iff.mp h
      rw [← hrest]
      exact splitPair_pair a b rest
    | succ i =>
      obtain ⟨hhead, htail⟩ := firstAt_succ_iff.mp h
      rw [splitPair_cons (mt pair_prefix_iff.mpr hhead), ih htail]
      rfl

theorem splitPair_of_not_infix {a b : α} {text : List α} (h : ¬[a, b] <:+: text)
    : splitPair a b text = [text] := by
  induction text with
  | nil => rfl
  | cons c text ih =>
    rw [List.infix_cons_iff, not_or] at h
    rw [splitPair_cons (mt pair_prefix_iff.mpr h.1), ih h.2]
    rfl

theorem sublist_of_mem_splitPair {a b : α} {text piece : List α} (h : piece ∈ splitPair a b text)
    : piece.Sublist text := by
  fun_induction splitPair a b text generalizing piece with
  | case1 =>
    rw [List.mem_singleton] at h
    rw [h]
  | case2 c =>
    rw [List.mem_singleton] at h
    rw [h]
  | case3 c d text hpair ih =>
    cases List.mem_cons.mp h with
    | inl hnil =>
      rw [hnil]
      apply List.nil_sublist
    | inr hrest =>
      apply ((ih hrest).cons d).cons c
  | case4 c d text hpair ih =>
    cases hsplit : splitPair a b (d :: text) with
    | nil =>
      rw [hsplit] at h
      cases h
    | cons first rest =>
      rw [hsplit] at h ih
      cases List.mem_cons.mp h with
      | inl hfirst =>
        rw [hfirst]
        apply (ih (List.mem_cons_self ..)).cons_cons
      | inr hrest =>
        apply (ih (List.mem_cons_of_mem _ hrest)).cons

end Split

section Execution

variable {σ ε : Type}

-- The executed commands and the state behind them. A status other than 0 ends the chain.
def runChain (exec : σ → ε → Int × σ) (s : σ) (commands : List ε) : List ε × σ :=
  match commands with
  | [] => ⟨[], s⟩
  | command :: commands =>
    let r := exec s command
    if r.1 ≠ 0 then
      ⟨[command], r.2⟩
    else
      let rest := runChain exec r.2 commands
      ⟨command :: rest.1, rest.2⟩

theorem runChain_singleton (exec : σ → ε → Int × σ) (s : σ) (command : ε)
    : runChain exec s [command] = ⟨[command], (exec s command).2⟩ := by
  unfold runChain
  dsimp only
  split <;> rfl

theorem mem_of_mem_runChain {exec : σ → ε → Int × σ} {s : σ} {commands : List ε} {command : ε}
    (h : command ∈ (runChain exec s commands).1)
    : command ∈ commands := by
  induction commands generalizing s with
  | nil => cases h
  | cons first commands ih =>
    rw [List.mem_cons]
    unfold runChain at h
    dsimp only at h
    split at h
    . exact .inl (List.mem_singleton.mp h)
    . cases List.mem_cons.mp h with
      | inl hfirst => exact .inl hfirst
      | inr hrest => exact .inr (ih hrest)

end Execution
