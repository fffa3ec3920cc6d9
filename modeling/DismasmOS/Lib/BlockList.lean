import Mathlib.Data.List.Basic

/-!
This module contains lists of blocks that tile an interval: block after block, each one a header of
`hdr` bytes followed by its payload. The address of a block is determined by the blocks before it.
-/

structure Block where
  size : Nat
  free : Bool
  deriving DecidableEq, Repr

namespace BlockList

variable (hdr : Nat)

def total : List Block → Nat
  | [] => 0
  | b :: bs => hdr + b.size + total bs

def addrs (a : Nat) : List Block → List Nat
  | [] => []
  | b :: bs => a :: addrs (a + (hdr + b.size)) bs

/-- The address of the last block, `prev` if there is none. -/
def lastAddr (prev a : Nat) : List Block → Nat
  | [] => prev
  | b :: bs => lastAddr a (a + (hdr + b.size)) bs

def UsedAt (a : Nat) (bs : List Block) (c : Nat) : Prop :=
  match bs with
  | [] => False
  | b :: bs => (c = a ∧ b.free = false) ∨ UsedAt (a + (hdr + b.size)) bs c

def usedBytes : List Block → Nat
  | [] => 0
  | b :: bs => (if b.free then 0 else b.size) + usedBytes bs

def usedCount : List Block → Nat
  | [] => 0
  | b :: bs => (if b.free then 0 else 1) + usedCount bs

/--
Hand out `size` bytes of a free block. What is left of it stays a free block if it has room for a
header and `gran` bytes.
-/
def carve (gran size : Nat) (b : Block) : List Block :=
  if size + hdr + gran ≤ b.size then
    [⟨size, false⟩, ⟨b.size - size - hdr, true⟩]
  else
    [⟨b.size, false⟩]

/-- Let a block absorb its successor if that one is free. -/
def absorb (b : Block) : List Block → List Block
  | [] => [b]
  | y :: ys => if y.free then ⟨b.size + (hdr + y.size), b.free⟩ :: ys else b :: y :: ys

/-- Take the block `b` back, coalescing it with its neighbours. -/
def release (pre : List Block) (b : Block) (post : List Block) : List Block :=
  let rest := absorb hdr ⟨b.size, true⟩ post
  match pre.getLast? with
  | none => rest
  | some p => if p.free then pre.dropLast ++ absorb hdr p rest else pre ++ rest

@[simp]
theorem total_nil : total hdr [] = 0 := rfl

@[simp]
theorem total_cons (b : Block) (bs : List Block)
    : total hdr (b :: bs) = hdr + b.size + total hdr bs := rfl

@[simp]
theorem total_append (xs ys : List Block)
    : total hdr (xs ++ ys) = total hdr xs + total hdr ys := by
  induction xs with
  | nil => simp
  | cons x xs ih =>
    simp only [List.cons_append, total_cons]
    rw [ih]
    omega

theorem addrs_append (a : Nat) (xs ys : List Block)
    : addrs hdr a (xs ++ ys) = addrs hdr a xs ++ addrs hdr (a + total hdr xs) ys := by
  induction xs generalizing a with
  | nil => simp [addrs]
  | cons x xs ih =>
    simp only [List.cons_append, addrs, total_cons]
    rw [ih]
    simp [Nat.add_assoc]

theorem mem_addrs_bounds {a : Nat} {bs : List Block} {c : Nat} (h : c ∈ addrs hdr a bs)
    : a ≤ c ∧ c + hdr ≤ a + total hdr bs := by
  induction bs generalizing a with
  | nil => simp [addrs] at h
  | cons b bs ih =>
    simp only [addrs, List.mem_cons] at h
    simp only [total_cons]
    cases h with
    | inl heq => omega
    | inr hmem =>
      have := ih hmem
      omega

theorem exists_of_mem_addrs {a : Nat} {bs : List Block} {c : Nat} (h : c ∈ addrs hdr a bs)
    : ∃ pre b post, bs = pre ++ b :: post ∧ c = a + total hdr pre := by
  induction bs generalizing a with
  | nil => simp [addrs] at h
  | cons b bs ih =>
    simp only [addrs, List.mem_cons] at h
    cases h with
    | inl heq => exact ⟨[], b, bs, by simp, by simp [heq]⟩
    | inr hmem =>
      obtain ⟨pre, b', post, hbs, hc⟩ := ih hmem
      refine ⟨b :: pre, b', post, by simp [hbs], ?_⟩
      simp only [total_cons]
      omega

theorem usedAt_append (a : Nat) (xs ys : List Block) (c : Nat)
    : UsedAt hdr a (xs ++ ys) c ↔ UsedAt hdr a xs c ∨ UsedAt hdr (a + total hdr xs) ys c := by
  induction xs generalizing a with
  | nil => simp [UsedAt]
  | cons x xs ih =>
    simp only [List.cons_append, UsedAt, total_cons]
    rw [ih]
    rw [or_assoc]
    simp [Nat.add_assoc]

theorem UsedAt.mem_addrs {a : Nat} {bs : List Block} {c : Nat} (h : UsedAt hdr a bs c)
    : c ∈ addrs hdr a bs := by
  induction bs generalizing a with
  | nil => exact h.elim
  | cons b bs ih =>
    simp only [addrs, List.mem_cons]
    cases h with
    | inl hc => exact .inl hc.1
    | inr hrest => exact .inr (ih hrest)

theorem UsedAt.bounds {a : Nat} {bs : List Block} {c : Nat} (h : UsedAt hdr a bs c)
    : a ≤ c ∧ c + hdr ≤ a + total hdr bs :=
  mem_addrs_bounds hdr (h.mem_addrs hdr)

theorem UsedAt.exists {a : Nat} {bs : List Block} {c : Nat} (h : UsedAt hdr a bs c)
    : ∃ pre b post, bs = pre ++ b :: post ∧ c = a + total hdr pre ∧ b.free = false := by
  induction bs generalizing a with
  | nil => exact h.elim
  | cons b bs ih =>
    cases h with
    | inl hc => exact ⟨[], b, bs, by simp, by simp [hc.1], hc.2⟩
    | inr hrest =>
      obtain ⟨pre, b', post, hbs, hc, hfree⟩ := ih hrest
      refine ⟨b :: pre, b', post, by simp [hbs], ?_, hfree⟩
      simp only [total_cons]
      omega

section Mid

variable {a : Nat} {pre post : List Block} {b : Block}

theorem usedAt_mid_iff (hhdr : 0 < hdr)
    : UsedAt hdr a (pre ++ b :: post) (a + total hdr pre) ↔ b.free = false := by
  rw [usedAt_append]
  constructor
  . rintro (hpre | hb | hpost)
    . have := hpre.bounds
      omega
    . exact hb.2
    . have := hpost.bounds
      omega
  . intro hfree
    exact .inr (.inl ⟨rfl, hfree⟩)

theorem mem_addrs_mid : a + total hdr pre ∈ addrs hdr a (pre ++ b :: post) := by
  rw [addrs_append, addrs]
  simp

theorem apart_of_mem_addrs {c : Nat} (hc : c ∈ addrs hdr a (pre ++ b :: post))
    : c = a + total hdr pre ∨ c + hdr ≤ a + total hdr pre
        ∨ a + total hdr pre + (hdr + b.size) ≤ c := by
  rw [addrs_append, addrs, List.mem_append, List.mem_cons] at hc
  rcases hc with hpre | heq | hpost
  . have := mem_addrs_bounds _ hpre
    omega
  . omega
  . have := mem_addrs_bounds _ hpost
    omega

end Mid

@[simp]
theorem usedBytes_append (xs ys : List Block)
    : usedBytes (xs ++ ys) = usedBytes xs + usedBytes ys := by
  induction xs with
  | nil => simp [usedBytes]
  | cons x xs ih =>
    simp only [List.cons_append, usedBytes]
    omega

@[simp]
theorem usedCount_append (xs ys : List Block)
    : usedCount (xs ++ ys) = usedCount xs + usedCount ys := by
  induction xs with
  | nil => simp [usedCount]
  | cons x xs ih =>
    simp only [List.cons_append, usedCount]
    omega

theorem usedBytes_le_total (bs : List Block) : usedBytes bs ≤ total hdr bs := by
  induction bs with
  | nil => simp [usedBytes]
  | cons b bs ih =>
    simp only [usedBytes, total_cons]
    split <;> omega

theorem usedCount_le_total (bs : List Block) (hhdr : 0 < hdr) : usedCount bs ≤ total hdr bs := by
  induction bs with
  | nil => simp [usedCount]
  | cons b bs ih =>
    simp only [usedCount, total_cons]
    split <;> omega

theorem total_carve (gran size : Nat) (b : Block)
    : total hdr (carve hdr gran size b) = hdr + b.size := by
  unfold carve
  split
  . simp only [total_cons, total_nil]
    omega
  . simp

theorem total_absorb (b : Block) (bs : List Block)
    : total hdr (absorb hdr b bs) = total hdr (b :: bs) := by
  cases bs with
  | nil => rfl
  | cons y ys =>
    simp only [absorb]
    split
    . simp only [total_cons]
      omega
    . rfl

theorem carve_ne_nil (gran size : Nat) (b : Block) : carve hdr gran size b ≠ [] := by
  unfold carve
  split <;> simp

theorem absorb_ne_nil (b : Block) (bs : List Block) : absorb hdr b bs ≠ [] := by
  unfold absorb
  split
  . simp
  . split <;> simp

theorem absorb_eq_cons (b : Block) (bs : List Block)
    : ∃ y ys, absorb hdr b bs = y :: ys ∧ y.free = b.free := by
  cases bs with
  | nil => exact ⟨b, [], rfl, rfl⟩
  | cons x xs =>
    simp only [absorb]
    split
    . exact ⟨_, xs, rfl, rfl⟩
    . exact ⟨b, x :: xs, rfl, rfl⟩

theorem length_le_total (bs : List Block) (hhdr : 0 < hdr) : bs.length ≤ total hdr bs := by
  induction bs with
  | nil => simp
  | cons b bs ih =>
    simp only [List.length_cons, total_cons]
    omega

-- The shapes of a list one of whose blocks is taken back.
theorem release_nil (b : Block) (post : List Block)
    : release hdr [] b post = absorb hdr ⟨b.size, true⟩ post := rfl

theorem release_concat (pre : List Block) (p b : Block) (post : List Block)
    : release hdr (pre ++ [p]) b post
        =
      if p.free then
        pre ++ absorb hdr p (absorb hdr ⟨b.size, true⟩ post)
      else
        pre ++ p :: absorb hdr ⟨b.size, true⟩ post := by
  simp [release]

theorem release_cases (pre : List Block) (b : Block) (post : List Block)
    : (pre = [] ∧ release hdr pre b post = absorb hdr ⟨b.size, true⟩ post)
        ∨ ∃ front p, pre = front ++ [p]
          ∧ ((p.free = true
              ∧ release hdr pre b post = front ++ absorb hdr p (absorb hdr ⟨b.size, true⟩ post))
            ∨ (p.free = false
              ∧ release hdr pre b post = front ++ p :: absorb hdr ⟨b.size, true⟩ post)) := by
  cases pre.eq_nil_or_concat' with
  | inl hnil =>
    left
    rw [hnil]
    exact ⟨rfl, release_nil hdr b post⟩
  | inr hconcat =>
    obtain ⟨front, p, rfl⟩ := hconcat
    right
    refine ⟨front, p, rfl, ?_⟩
    rw [release_concat]
    cases hfree : p.free with
    | true => exact .inl ⟨rfl, if_pos rfl⟩
    | false => exact .inr ⟨rfl, if_neg Bool.false_ne_true⟩

theorem total_release (pre : List Block) (b : Block) (post : List Block)
    : total hdr (release hdr pre b post) = total hdr (pre ++ b :: post) := by
  rcases release_cases hdr pre b post with ⟨rfl, heq⟩ | ⟨front, p, rfl, ⟨_, heq⟩ | ⟨_, heq⟩⟩
  . rw [heq, total_absorb]
    simp
  . rw [heq]
    simp only [total_append, total_absorb, total_cons, total_nil]
    omega
  . rw [heq]
    simp only [total_append, total_absorb, total_cons, total_nil]
    omega

section Used

theorem usedAt_absorb (a : Nat) (b : Block) (bs : List Block) (c : Nat)
    : UsedAt hdr a (absorb hdr b bs) c ↔ UsedAt hdr a (b :: bs) c := by
  cases bs with
  | nil => rfl
  | cons y ys =>
    simp only [absorb]
    split
    . next hfree =>
      have : a + (hdr + (b.size + (hdr + y.size))) = a + (hdr + b.size) + (hdr + y.size) := by omega
      simp [UsedAt, hfree, this]
    . rfl

theorem usedAt_carve (a gran size : Nat) (b : Block) (post : List Block) (c : Nat)
    (hfree : b.free = true)
    : UsedAt hdr a (carve hdr gran size b ++ post) c ↔ c = a ∨ UsedAt hdr a (b :: post) c := by
  unfold carve
  split
  . have : a + (hdr + size) + (hdr + (b.size - size - hdr)) = a + (hdr + b.size) := by omega
    simp [UsedAt, hfree, this]
  . simp [UsedAt, hfree]

theorem usedAt_taken (a gran size : Nat) (pre : List Block) (b : Block) (post : List Block)
    (c : Nat) (hfree : b.free = true)
    : UsedAt hdr a (pre ++ (carve hdr gran size b ++ post)) c
        ↔
      c = a + total hdr pre ∨ UsedAt hdr a (pre ++ b :: post) c := by
  rw [usedAt_append _ _ pre, usedAt_append _ _ pre, usedAt_carve _ _ _ _ _ _ _ hfree]
  constructor
  . rintro (h | h | h) <;> simp [h]
  . rintro (h | h | h) <;> simp [h]

theorem usedAt_release (a : Nat) (pre : List Block) (b : Block) (post : List Block) (c : Nat)
    (hhdr : 0 < hdr)
    : UsedAt hdr a (release hdr pre b post) c
        ↔
      UsedAt hdr a (pre ++ b :: post) c ∧ c ≠ a + total hdr pre := by
  have hfreed : UsedAt hdr a (release hdr pre b post) c
      ↔ UsedAt hdr a (pre ++ ⟨b.size, true⟩ :: post) c := by
    rcases release_cases hdr pre b post with ⟨rfl, heq⟩ | ⟨front, p, rfl, ⟨_, heq⟩ | ⟨_, heq⟩⟩
    . rw [heq, usedAt_absorb]
      simp
    . rw [heq, usedAt_append, usedAt_absorb, UsedAt, usedAt_absorb, ← UsedAt, ← usedAt_append]
      simp
    . rw [heq, usedAt_append, UsedAt, usedAt_absorb, ← UsedAt, ← usedAt_append]
      simp
  rw [hfreed, usedAt_append, usedAt_append]
  simp only [UsedAt, Bool.true_eq_false, and_false, false_or]
  constructor
  . rintro (h | h)
    . have := h.bounds
      exact ⟨.inl h, by omega⟩
    . have := h.bounds
      exact ⟨.inr (.inr h), by omega⟩
  . rintro ⟨h | h | h, hne⟩
    . exact .inl h
    . omega
    . exact .inr h

end Used

section Sums

theorem usedBytes_absorb (b : Block) (bs : List Block) (hfree : b.free = true)
    : usedBytes (absorb hdr b bs) = usedBytes bs := by
  cases bs with
  | nil => simp [absorb, usedBytes, hfree]
  | cons y ys =>
    simp only [absorb]
    split
    . next hy => simp [usedBytes, hfree, hy]
    . simp [usedBytes, hfree]

theorem usedCount_absorb (b : Block) (bs : List Block) (hfree : b.free = true)
    : usedCount (absorb hdr b bs) = usedCount bs := by
  cases bs with
  | nil => simp [absorb, usedCount, hfree]
  | cons y ys =>
    simp only [absorb]
    split
    . next hy => simp [usedCount, hfree, hy]
    . simp [usedCount, hfree]

theorem usedBytes_release (pre : List Block) (b : Block) (post : List Block)
    (hfree : b.free = false)
    : usedBytes (release hdr pre b post) + b.size = usedBytes (pre ++ b :: post) := by
  rcases release_cases hdr pre b post with ⟨rfl, heq⟩ | ⟨front, p, rfl, ⟨hp, heq⟩ | ⟨hp, heq⟩⟩
  . rw [heq, usedBytes_absorb _ _ _ rfl]
    simp [usedBytes, hfree, Nat.add_comm]
  . rw [heq, usedBytes_append, usedBytes_absorb _ _ _ hp, usedBytes_absorb _ _ _ rfl]
    simp [usedBytes, hfree, hp]
    omega
  . rw [heq]
    simp only [usedBytes_append, usedBytes, usedBytes_absorb, hfree, hp]
    simp
    omega

theorem usedCount_release (pre : List Block) (b : Block) (post : List Block)
    (hfree : b.free = false)
    : usedCount (release hdr pre b post) + 1 = usedCount (pre ++ b :: post) := by
  rcases release_cases hdr pre b post with ⟨rfl, heq⟩ | ⟨front, p, rfl, ⟨hp, heq⟩ | ⟨hp, heq⟩⟩
  . rw [heq, usedCount_absorb _ _ _ rfl]
    simp [usedCount, hfree, Nat.add_comm]
  . rw [heq, usedCount_append, usedCount_absorb _ _ _ hp, usedCount_absorb _ _ _ rfl]
    simp [usedCount, hfree, hp]
    omega
  . rw [heq]
    simp only [usedCount_append, usedCount, usedCount_absorb, hfree, hp]
    simp
    omega

theorem usedCount_carve (gran size : Nat) (b : Block) : usedCount (carve hdr gran size b) = 1 := by
  unfold carve
  split
  . simp [usedCount]
  . simp [usedCount]

theorem usedBytes_carve_le (gran : Nat) {size : Nat} {b : Block} (hsize : size ≤ b.size)
    : usedBytes (carve hdr gran size b) ≤ b.size := by
  unfold carve
  split
  . simpa [usedBytes] using hsize
  . simp [usedBytes]

end Sums

section Sizes

variable {k : Nat}

theorem dvd_absorb (hhdr : k ∣ hdr) {b : Block} {bs : List Block}
    (h : ∀ x ∈ b :: bs, k ∣ x.size)
    : ∀ x ∈ absorb hdr b bs, k ∣ x.size := by
  cases bs with
  | nil => exact h
  | cons y ys =>
    simp only [absorb]
    split
    . intro x hx
      simp only [List.mem_cons] at hx h
      cases hx with
      | inl heq =>
        rw [heq]
        exact Nat.dvd_add (h b (by simp)) (Nat.dvd_add hhdr (h y (by simp)))
      | inr hmem => exact h x (by simp [hmem])
    . exact h

theorem dvd_carve (hhdr : k ∣ hdr) {gran size : Nat} {b : Block} (hsize : k ∣ size)
    (hb : k ∣ b.size)
    : ∀ x ∈ carve hdr gran size b, k ∣ x.size := by
  unfold carve
  split
  . simp only [List.mem_cons, List.not_mem_nil, or_false, forall_eq_or_imp, forall_eq]
    exact ⟨hsize, Nat.dvd_sub (Nat.dvd_sub hb hsize) hhdr⟩
  . simpa using hb

theorem dvd_taken (hhdr : k ∣ hdr) {gran size : Nat} (hsize : k ∣ size) {pre : List Block} {b : Block}
    {post : List Block} (h : ∀ x ∈ pre ++ b :: post, k ∣ x.size)
    : ∀ x ∈ pre ++ (carve hdr gran size b ++ post), k ∣ x.size := by
  simp only [List.mem_append, List.mem_cons, or_imp, forall_and, forall_eq] at *
  exact ⟨h.1, dvd_carve _ hhdr hsize h.2.1, h.2.2⟩

theorem dvd_release (hhdr : k ∣ hdr) {pre : List Block} {b : Block} {post : List Block}
    (h : ∀ x ∈ pre ++ b :: post, k ∣ x.size)
    : ∀ x ∈ release hdr pre b post, k ∣ x.size := by
  have hrest : ∀ x ∈ absorb hdr ⟨b.size, true⟩ post, k ∣ x.size := by
    apply dvd_absorb _ hhdr
    intro x hx
    simp only [List.mem_cons] at hx
    cases hx with
    | inl heq => simpa [heq] using h b (by simp)
    | inr hmem => exact h x (by simp [hmem])
  rcases release_cases hdr pre b post with ⟨_, heq⟩ | ⟨front, p, rfl, hcase⟩
  . rw [heq]
    exact hrest
  . have hp : ∀ x ∈ p :: absorb hdr ⟨b.size, true⟩ post, k ∣ x.size := by
      simp only [List.mem_cons, forall_eq_or_imp]
      exact ⟨h p (by simp), hrest⟩
    have hfront : ∀ x ∈ front, k ∣ x.size := by
      intro x hx
      exact h x (by simp [hx])
    rcases hcase with ⟨_, heq⟩ | ⟨_, heq⟩
    . rw [heq]
      simp only [List.mem_append, or_imp, forall_and]
      exact ⟨hfront, dvd_absorb _ hhdr hp⟩
    . rw [heq]
      simp only [List.mem_append, or_imp, forall_and]
      exact ⟨hfront, hp⟩

def LastAtLeast (k : Nat) (bs : List Block) : Prop := ∀ x ∈ bs.getLast?, k ≤ x.size

theorem lastAtLeast_append {xs ys : List Block} (hne : ys ≠ [])
    : LastAtLeast k (xs ++ ys) ↔ LastAtLeast k ys := by
  unfold LastAtLeast
  rw [List.getLast?_append_of_ne_nil _ hne]

theorem lastAtLeast_cons {x : Block} {ys : List Block} (hne : ys ≠ [])
    : LastAtLeast k (x :: ys) ↔ LastAtLeast k ys := by
  rw [← List.singleton_append]
  exact lastAtLeast_append hne

theorem lastAtLeast_singleton {x : Block} : LastAtLeast k [x] ↔ k ≤ x.size := by
  simp [LastAtLeast]

theorem lastAtLeast_absorb {b : Block} {bs : List Block} (h : LastAtLeast k (b :: bs))
    : LastAtLeast k (absorb hdr b bs) := by
  cases bs with
  | nil => exact h
  | cons y ys =>
    rw [lastAtLeast_cons (by simp)] at h
    simp only [absorb]
    split
    . cases ys with
      | nil =>
        rw [lastAtLeast_singleton] at *
        dsimp only
        omega
      | cons z zs =>
        rw [lastAtLeast_cons (by simp)] at *
        exact h
    . rw [lastAtLeast_cons (by simp)]
      exact h

theorem lastAtLeast_carve {gran size : Nat} {b : Block} (hk : k ≤ gran) (hb : k ≤ b.size)
    : LastAtLeast k (carve hdr gran size b) := by
  unfold carve
  split
  . rw [lastAtLeast_cons (by simp), lastAtLeast_singleton]
    dsimp only
    omega
  . rw [lastAtLeast_singleton]
    exact hb

theorem lastAtLeast_taken {gran size : Nat} (hk : k ≤ gran) {pre : List Block} {b : Block}
    {post : List Block} (h : LastAtLeast k (pre ++ b :: post))
    : LastAtLeast k (pre ++ (carve hdr gran size b ++ post)) := by
  rw [lastAtLeast_append (by simp)] at h
  rw [lastAtLeast_append (by simp [carve_ne_nil])]
  cases post with
  | nil =>
    rw [lastAtLeast_singleton] at h
    rw [List.append_nil]
    exact lastAtLeast_carve _ hk h
  | cons y ys =>
    rw [lastAtLeast_cons (by simp)] at h
    rw [lastAtLeast_append (by simp)]
    exact h

theorem lastAtLeast_release {pre : List Block} {b : Block} {post : List Block}
    (h : LastAtLeast k (pre ++ b :: post))
    : LastAtLeast k (release hdr pre b post) := by
  rw [lastAtLeast_append (by simp)] at h
  have hfreed : LastAtLeast k (⟨b.size, true⟩ :: post) := by
    cases post with
    | nil =>
      rw [lastAtLeast_singleton] at *
      exact h
    | cons y ys =>
      rw [lastAtLeast_cons (by simp)] at *
      exact h
  have hrest := lastAtLeast_absorb hdr hfreed
  have hcons : ∀ p, LastAtLeast k (p :: absorb hdr ⟨b.size, true⟩ post) := by
    intro p
    rw [lastAtLeast_cons (absorb_ne_nil hdr _ _)]
    exact hrest
  rcases release_cases hdr pre b post with ⟨_, heq⟩ | ⟨front, p, _, ⟨_, heq⟩ | ⟨_, heq⟩⟩
  . rw [heq]
    exact hrest
  . rw [heq, lastAtLeast_append (absorb_ne_nil hdr _ _)]
    exact lastAtLeast_absorb hdr (hcons p)
  . rw [heq, lastAtLeast_append (by simp)]
    exact hcons p

end Sizes

end BlockList
