import Mathlib.Data.List.Chain
import Mathlib.Logic.Relation
import DismasmOS.Lib.BlockList

/-!
This module contains the steps an allocator takes on its list of blocks, one block handed out or
taken back at a time, and what they preserve: neighbours are coalesced at once, so a list that has no
two free neighbours never gets any.
-/

namespace BlockList

variable (hdr gran : Nat)

inductive Step : List Block → List Block → Prop
  | take {pre : List Block} {b : Block} {post : List Block} (size : Nat) (hfree : b.free = true)
      : Step (pre ++ b :: post) (pre ++ (carve hdr gran size b ++ post))
  | giveBack {pre : List Block} {b : Block} {post : List Block} (hused : b.free = false)
      : Step (pre ++ b :: post) (release hdr pre b post)

abbrev Steps : List Block → List Block → Prop := Relation.ReflTransGen (Step hdr gran)

def NoFreeNeighbours (bs : List Block) : Prop :=
  bs.IsChain (fun x y => x.free = false ∨ y.free = false)

variable {hdr gran}

theorem Steps.invariant {bs bs' : List Block} (h : Steps hdr gran bs bs') (P : List Block → Prop)
    (hstep : ∀ {xs ys}, P xs → Step hdr gran xs ys → P ys) (hbs : P bs)
    : P bs' := by
  induction h with
  | refl => exact hbs
  | tail _ hlast ih => exact hstep ih hlast

namespace NoFreeNeighbours

theorem singleton (b : Block) : NoFreeNeighbours [b] := List.isChain_singleton b

theorem append_iff {xs ys : List Block}
    : NoFreeNeighbours (xs ++ ys)
        ↔
      NoFreeNeighbours xs ∧ NoFreeNeighbours ys
        ∧ ∀ x ∈ xs.getLast?, ∀ y ∈ ys.head?, x.free = false ∨ y.free = false :=
  List.isChain_append

theorem cons_iff {x : Block} {ys : List Block}
    : NoFreeNeighbours (x :: ys)
        ↔
      (∀ y ∈ ys.head?, x.free = false ∨ y.free = false) ∧ NoFreeNeighbours ys :=
  List.isChain_cons

-- A block matters to its neighbours by its `free` flag alone.
theorem replace {pre post : List Block} {b : Block} {ys : List Block}
    (h : NoFreeNeighbours (pre ++ b :: post)) (hys : NoFreeNeighbours ys)
    (hhead : ∀ y ∈ ys.head?, y.free = false ∨ y.free = b.free)
    : NoFreeNeighbours (pre ++ ys) := by
  rw [append_iff] at *
  obtain ⟨hpre, _, hseam⟩ := h
  refine ⟨hpre, hys, ?_⟩
  intro x hx y hy
  have := hseam x hx b (by simp)
  cases hhead y hy with
  | inl hused => exact .inr hused
  | inr heq =>
    rw [heq]
    exact this

theorem carve {b : Block} {post : List Block} (size : Nat) (h : NoFreeNeighbours (b :: post))
    (hfree : b.free = true)
    : NoFreeNeighbours (carve hdr gran size b ++ post) := by
  rw [cons_iff] at h
  obtain ⟨hnext, hpost⟩ := h
  unfold BlockList.carve
  split
  . -- what is left over lies between a used block and the old successor
    simp only [List.cons_append, List.nil_append, cons_iff]
    refine ⟨by simp, ?_, hpost⟩
    intro y hy
    rw [hfree] at hnext
    exact hnext y hy
  . simp only [List.cons_append, List.nil_append, cons_iff]
    exact ⟨by simp, hpost⟩

theorem absorb {b : Block} {bs : List Block} (h : NoFreeNeighbours bs) (hfree : b.free = true)
    : NoFreeNeighbours (absorb hdr b bs) := by
  cases bs with
  | nil => exact singleton b
  | cons y ys =>
    simp only [BlockList.absorb]
    split
    . next hy =>
      rw [cons_iff] at *
      rw [hy] at h
      rw [hfree]
      exact h
    . next hy =>
      rw [cons_iff]
      refine ⟨?_, h⟩
      simp only [List.head?_cons, Option.mem_def, Option.some.injEq, forall_eq']
      exact .inr (by simpa using hy)

theorem release {pre : List Block} {b : Block} {post : List Block}
    (h : NoFreeNeighbours (pre ++ b :: post))
    : NoFreeNeighbours (release hdr pre b post) := by
  have hpost := (cons_iff.mp (append_iff.mp h).2.1).2
  have hrest : NoFreeNeighbours (BlockList.absorb hdr ⟨b.size, true⟩ post) := absorb hpost rfl
  rcases release_cases hdr pre b post with ⟨_, heq⟩ | ⟨front, p, rfl, ⟨hp, heq⟩ | ⟨hp, heq⟩⟩
  . rw [heq]
    exact hrest
  . rw [List.append_assoc] at h
    rw [heq]
    apply replace h (absorb hrest hp)
    obtain ⟨y, ys, habsorb, hy⟩ := absorb_eq_cons hdr p (BlockList.absorb hdr ⟨b.size, true⟩ post)
    simp [habsorb, hy]
  . rw [List.append_assoc] at h
    rw [heq]
    apply replace h
    . rw [cons_iff]
      refine ⟨?_, hrest⟩
      simp [hp]
    . simp

theorem step {bs bs' : List Block} (h : NoFreeNeighbours bs) (hstep : Step hdr gran bs bs')
    : NoFreeNeighbours bs' := by
  cases hstep with
  | take size hfree =>
    apply replace h (carve size (append_iff.mp h).2.1 hfree)
    unfold BlockList.carve
    split <;> simp
  | giveBack _ => exact h.release

theorem steps {bs bs' : List Block} (h : NoFreeNeighbours bs) (hsteps : Steps hdr gran bs bs')
    : NoFreeNeighbours bs' :=
  hsteps.invariant NoFreeNeighbours step h

-- Without a used block there is nothing that could keep two blocks apart.
theorem eq_singleton {bs : List Block} (h : NoFreeNeighbours bs) (hne : bs ≠ [])
    (hfree : ∀ b ∈ bs, b.free = true)
    : ∃ size, bs = [⟨size, true⟩] := by
  cases bs with
  | nil => exact absurd rfl hne
  | cons x xs =>
    have hx := hfree x (by simp)
    cases xs with
    | nil => exact ⟨x.size, by rw [← hx]⟩
    | cons y ys =>
      have hy := hfree y (by simp)
      have hseam := (cons_iff.mp h).1 y (by simp)
      simp [hx, hy] at hseam

end NoFreeNeighbours

theorem usedAt_of_mem (a : Nat) {bs : List Block} {b : Block} (hb : b ∈ bs)
    (hused : b.free = false)
    : ∃ c, UsedAt hdr a bs c := by
  obtain ⟨pre, post, rfl⟩ := List.append_of_mem hb
  refine ⟨a + total hdr pre, ?_⟩
  rw [usedAt_append]
  exact .inr (.inl ⟨rfl, hused⟩)

end BlockList
