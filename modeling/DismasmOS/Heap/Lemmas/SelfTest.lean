import DismasmOS.Heap.SelfTest
import DismasmOS.Heap.Lemmas.Layout
import DismasmOS.Heap.Lemmas.Objects

/-!
This module contains the verification of the heap's self-test: it borrows blocks from a heap that is in
use, never finds a payload that differs, and leaves the heap as it found it.
-/

namespace DismasmOS

open HeapBlock
open BlockList

section Filled

variable {h h' : Heap} {p n : Nat} {v : UInt8}

structure Heap.Filled (h : Heap) (p : Nat) (v : UInt8) (n : Nat) : Prop where
  size : n ≤ payloadSize h p
  bytes : ∀ i < n, h.mem (p + i) = v

theorem Heap.Filled.same (hfilled : h.Filled p v n) (hsame : h.SamePayload h' p) : h'.Filled p v n := by
  constructor
  . rw [hsame.1]
    exact hfilled.size
  . intro i hi
    rw [hsame.2 i (Nat.lt_of_lt_of_le hi hfilled.size)]
    exact hfilled.bytes i hi

theorem Heap.Filled.not_differs (hfilled : h.Filled p v n)
    (hlt : p + payloadSize h p < Word.modulus)
    : h.differs p v n = false := by
  have hsize := hfilled.size
  unfold Heap.differs
  rw [List.any_eq_false]
  intro i hi
  rw [List.mem_range] at hi
  rw [Word.add_of_lt (by omega), hfilled.bytes i hi]
  simp

theorem Heap.Filled.not_differsWords (hfilled : h.Filled p 0 (4 * n))
    (hlt : p + payloadSize h p < Word.modulus)
    : h.differsWords p n = false := by
  have hsize := hfilled.size
  unfold Heap.differsWords
  rw [List.any_eq_false]
  intro i hi
  rw [List.mem_range] at hi
  rw [Word.add_of_lt (by omega), ByteMem.readLE_eq_zero]
  . simp
  . intro j hj
    rw [Nat.add_assoc]
    apply hfilled.bytes
    omega

end Filled

section Room

variable {h : Heap} {bs : List Block} {n r : Nat}

theorem Heap.Repr.hasRoom_iff (hr : h.Repr bs)
    : h.HasRoom r ↔ ∃ b ∈ bs, b.free = true ∧ r ≤ b.size := by
  unfold Heap.HasRoom
  simp only [hr.walk, Option.some.injEq, exists_eq_left']
  constructor
  . rintro ⟨c, hc, hfree, hle⟩
    obtain ⟨pre, b, post, rfl, _, hheader⟩ := hr.segment.header_at hc
    rw [hheader.isFree_ne_zero_iff] at hfree
    rw [hheader.size] at hle
    exact ⟨b, by simp, hfree, hle⟩
  . rintro ⟨b, hb, hfree, hle⟩
    obtain ⟨pre, post, rfl⟩ := List.append_of_mem hb
    have hheader := (Segment.append_cons.mp hr.segment).2.1
    refine ⟨_, mem_addrs_mid _, ?_, ?_⟩
    . rw [hheader.isFree_ne_zero_iff]
      exact hfree
    . rw [hheader.size]
      exact hle

-- What is left of a block that is big enough to be split is big enough for the rest.
theorem room_carve {b : Block} {s : Nat} (hroom : s + sizeofHeapBlock + HEAP_ALIGNMENT ≤ r)
    (hle : r ≤ b.size)
    : ∃ x ∈ carve sizeofHeapBlock HEAP_ALIGNMENT s b, x.free = true
        ∧ r - s - sizeofHeapBlock ≤ x.size := by
  unfold carve
  rw [if_pos (Nat.le_trans hroom hle)]
  refine ⟨⟨b.size - s - sizeofHeapBlock, true⟩, by simp, rfl, ?_⟩
  dsimp only
  omega

theorem Heap.Repr.malloc_room (hr : h.Repr bs) (hpos : n ≠ 0)
    (hroom : heapAlign n + sizeofHeapBlock + HEAP_ALIGNMENT ≤ r) (hhas : h.HasRoom r) {p : Nat}
    {h' : Heap} (hcall : malloc h n = some ⟨p, h'⟩)
    : p ≠ NULL ∧ h'.HasRoom (r - heapAlign n - sizeofHeapBlock) := by
  obtain ⟨y, hy, hyfree, hyle⟩ := hr.hasRoom_iff.mp hhas
  cases hr.malloc_cases n with
  | inl hnone =>
    have hfits := hnone.2.resolve_left hpos y hy
    exact absurd ⟨hyfree, by omega⟩ hfits
  | inr hsome =>
    obtain ⟨pre, b, post, h'', _, rfl, hfits, _, hcall', _, hr'⟩ := hsome
    rw [hcall'] at hcall
    cases hcall
    refine ⟨by unfold NULL sizeofHeapBlock; omega, ?_⟩
    rw [hr'.hasRoom_iff]
    simp only [List.mem_append, List.mem_cons] at hy
    rcases hy with hpre | rfl | hpost
    . exact ⟨y, by simp [hpre], hyfree, by omega⟩
    . obtain ⟨x, hx, hxfree, hxle⟩ := room_carve hroom hyle
      exact ⟨x, by simp [hx], hxfree, hxle⟩
    . exact ⟨y, by simp [hpost], hyfree, by omega⟩

end Room

-- `t` is what `s` has become by calls that allocated the blocks `ps` for themselves.
structure HeapClient.Borrows (s t : HeapClient) (ps : List Nat) : Prop where
  repr : ∃ bs, t.ReprBy bs ∧ NoFreeNeighbours bs
  base : t.heap.heapBase = s.heap.heapBase
  live : ∀ q, q ∈ t.live ↔ q ∈ ps ∨ q ∈ s.live
  apart : ∀ q ∈ ps, q ∉ s.live
  nodup : ps.Nodup
  same : ∀ q ∈ s.live, s.heap.SamePayload t.heap q

namespace HeapClient.Borrows

variable {s t : HeapClient} {ps : List Nat} {p n : Nat} {h' : Heap}

theorem refl {bs : List Block} (h : s.ReprBy bs) (hbs : NoFreeNeighbours bs) : s.Borrows s [] where
  repr := ⟨bs, h, hbs⟩
  base := rfl
  live := by simp
  apart := by simp
  nodup := List.nodup_nil
  same := fun _ _ => ⟨rfl, fun _ _ => rfl⟩

theorem mem (h : s.Borrows t ps) (hp : p ∈ ps) : p ∈ t.live := (h.live p).mpr (.inl hp)

theorem payload_lt (h : s.Borrows t ps) (hp : p ∈ ps)
    : p + payloadSize t.heap p < Word.modulus := by
  obtain ⟨_, hrepr, _⟩ := h.repr
  exact hrepr.payload_lt (h.mem hp)

theorem malloc_isSome (h : s.Borrows t ps) (n : Nat) : ∃ p h', malloc t.heap n = some ⟨p, h'⟩ := by
  obtain ⟨_, hrepr, _⟩ := h.repr
  obtain ⟨⟨p, h'⟩, hcall⟩ := Option.isSome_iff_exists.mp (HeapClient.Inv.malloc_isSome ⟨_, hrepr⟩ n)
  exact ⟨p, h', hcall⟩

theorem malloc_null (h : s.Borrows t ps) (hcall : malloc t.heap n = some ⟨NULL, h'⟩)
    : h' = t.heap := by
  obtain ⟨_, hrepr, _⟩ := h.repr
  exact hrepr.malloc_null hcall

theorem malloc_room (h : s.Borrows t ps) (hpos : n ≠ 0) {r : Nat}
    (hroom : heapAlign n + sizeofHeapBlock + HEAP_ALIGNMENT ≤ r) (hhas : t.heap.HasRoom r)
    (hcall : malloc t.heap n = some ⟨p, h'⟩)
    : p ≠ NULL ∧ h'.HasRoom (r - heapAlign n - sizeofHeapBlock) := by
  obtain ⟨_, hrepr, _⟩ := h.repr
  exact hrepr.repr.malloc_room hpos hroom hhas hcall

theorem malloc (h : s.Borrows t ps) (hcall : DismasmOS.malloc t.heap n = some ⟨p, h'⟩)
    (hp : p ≠ NULL)
    : s.Borrows ⟨h', insert p t.live⟩ (p :: ps)
        ∧ (∀ q ∈ ps, t.heap.SamePayload h' q)
        ∧ heapAlign n ≤ payloadSize h' p := by
  obtain ⟨bs, hrepr, hbs⟩ := h.repr
  obtain ⟨pre, x, post, _, hbase, _, hfresh, hstep, hrepr'⟩ := hrepr.malloc_some hcall hp
  rw [h.live, not_or] at hfresh
  refine ⟨?_, fun q hq => hrepr.malloc_same hcall (h.mem hq), hrepr.malloc_payload hcall hp⟩
  constructor
  . exact ⟨_, hrepr', hbs.step hstep⟩
  . exact hbase.trans h.base
  . intro q
    rw [Finset.mem_insert, h.live, List.mem_cons, or_assoc]
  . simpa using ⟨hfresh.2, h.apart⟩
  . exact List.nodup_cons.mpr ⟨hfresh.1, h.nodup⟩
  . intro q hq
    exact (h.same q hq).trans (hrepr.malloc_same hcall ((h.live q).mpr (.inr hq)))

theorem memset (h : s.Borrows t ps) (hp : p ∈ ps) (v : UInt8) (hn : n ≤ payloadSize t.heap p)
    : s.Borrows ⟨t.heap.memset p v n, t.live⟩ ps
        ∧ (∀ q ∈ ps, q ≠ p → t.heap.SamePayload (t.heap.memset p v n) q)
        ∧ (t.heap.memset p v n).Filled p v n
        ∧ ∀ r, t.heap.HasRoom r → (t.heap.memset p v n).HasRoom r := by
  obtain ⟨bs, hrepr, hbs⟩ := h.repr
  have hlt := h.payload_lt hp
  have hagree : ∀ {a k : Nat}, a + k ≤ p ∨ p + payloadSize t.heap p ≤ a
      → t.heap.mem.AgreeOn (t.heap.mem.fill Word.modulus p v n) a k := by
    intro a k hout
    apply ByteMem.agreeOn_fill
    . omega
    . omega
  have hrepr' : HeapClient.ReprBy ⟨t.heap.memset p v n, t.live⟩ bs := by
    obtain ⟨c, rfl, hused⟩ := (hrepr.live p).mp (h.mem hp)
    obtain ⟨pre, b, post, rfl, _, rfl, hsize⟩ := hrepr.repr.block_at hused
    apply hrepr.writePayload
    intro a k hout
    apply hagree
    rw [hsize]
    omega
  have hsame : ∀ q ∈ t.live, q ≠ p → t.heap.SamePayload (t.heap.memset p v n) q := by
    intro q hq hne
    exact hrepr.write_same (h.mem hp) hagree hq hne
  refine ⟨?_, fun q hq => hsame q (h.mem hq), ?_, ?_⟩
  . constructor
    . exact ⟨bs, hrepr', hbs⟩
    . exact h.base
    . exact h.live
    . exact h.apart
    . exact h.nodup
    . intro q hq
      apply (h.same q hq).trans
      apply hsame
      . exact (h.live q).mpr (.inr hq)
      . rintro rfl
        exact h.apart q hp hq
  . constructor
    . unfold Heap.memset
      rw [hrepr.write_payloadSize (h.mem hp) hagree]
      exact hn
    . intro i hi
      exact ByteMem.fill_inside v (by omega) hi
  . intro r hroom
    rw [hrepr'.repr.hasRoom_iff, ← hrepr.repr.hasRoom_iff]
    exact hroom

theorem free (h : s.Borrows t ps) (hp : p ∈ ps)
    : s.Borrows ⟨DismasmOS.free t.heap p, t.live.erase p⟩ (ps.erase p) := by
  obtain ⟨bs, hrepr, hbs⟩ := h.repr
  have hmem := h.mem hp
  have hsteps := hrepr.free (.inr hmem)
  have hsame : ∀ q ∈ t.live, q ≠ p → t.heap.SamePayload (DismasmOS.free t.heap p) q := by
    intro q hq hne
    obtain ⟨c, rfl, hc⟩ := (hrepr.live p).mp hmem
    obtain ⟨d, rfl, hd⟩ := (hrepr.live q).mp hq
    exact (hrepr.repr.free_keeps_at hc hd (by omega)).samePayload
  constructor
  . obtain ⟨bs', hrepr', hsteps⟩ := hsteps
    exact ⟨bs', hrepr', hbs.steps hsteps⟩
  . dsimp only
    rw [(free_pool t.heap p).1, h.base]
  . intro q
    rw [Finset.mem_erase, h.live, h.nodup.mem_erase_iff, and_or_left]
    apply or_congr_right
    constructor
    . exact And.right
    . intro hq
      refine ⟨?_, hq⟩
      rintro rfl
      exact h.apart q hp hq
  . intro q hq
    exact h.apart q (List.mem_of_mem_erase hq)
  . exact h.nodup.erase p
  . intro q hq
    apply (h.same q hq).trans
    apply hsame
    . exact (h.live q).mpr (.inr hq)
    . rintro rfl
      exact h.apart q hp hq

-- Whatever the order is in which the blocks are given back.
theorem freeAll (h : s.Borrows t ps) {qs : List Nat} (hqs : qs.Perm ps)
    : ∃ live, s.Borrows ⟨freeAll t.heap qs, live⟩ [] := by
  induction qs generalizing t ps with
  | nil =>
    rw [List.nil_perm] at hqs
    rw [hqs] at h
    exact ⟨t.live, h⟩
  | cons q qs ih =>
    have hq : q ∈ ps := hqs.subset List.mem_cons_self
    have hrest : qs.Perm (ps.erase q) := by
      have herase := hqs.erase q
      rwa [List.erase_cons_head] at herase
    exact ih (h.free hq) hrest

theorem restored (h : s.Borrows t []) {bs : List Block} (hrepr : s.ReprBy bs)
    (hbs : NoFreeNeighbours bs)
    : s.heap.SameLayout t.heap := by
  obtain ⟨bs', hrepr', hbs'⟩ := h.repr
  have hlive : t.live = s.live := by
    ext q
    simpa using h.live q
  have heq := hrepr.eq_of_live hrepr' hbs hbs' h.base hlive (fun q hq => (h.same q hq).1)
  rw [heq] at hrepr'
  exact hrepr.repr.sameLayout hrepr'.repr h.base

theorem perm (h : s.Borrows t ps) {qs : List Nat} (hqs : ps.Perm qs) : s.Borrows t qs where
  repr := h.repr
  base := h.base
  live := by
    intro q
    rw [h.live, hqs.mem_iff]
  apart := fun q hq => h.apart q (hqs.mem_iff.mpr hq)
  nodup := hqs.nodup_iff.mp h.nodup
  same := h.same

theorem calloc (h : s.Borrows t ps) (nmemb size : Nat)
    (hrange : nmemb * size + HEAP_ALIGNMENT ≤ Word.modulus)
    : ∃ p h', DismasmOS.calloc t.heap nmemb size = some ⟨p, h'⟩
        ∧ (p = NULL → h' = t.heap)
        ∧ (p ≠ NULL → s.Borrows ⟨h', insert p t.live⟩ (p :: ps)
          ∧ (∀ q ∈ ps, t.heap.SamePayload h' q)
          ∧ h'.Filled p 0 (nmemb * size))
        ∧ ∀ r, nmemb * size ≠ 0 → heapAlign (nmemb * size) + sizeofHeapBlock + HEAP_ALIGNMENT ≤ r
          → t.heap.HasRoom r
          → p ≠ NULL ∧ h'.HasRoom (r - heapAlign (nmemb * size) - sizeofHeapBlock) := by
  have hal : 0 < HEAP_ALIGNMENT := by decide
  obtain ⟨p, h1, hcall⟩ := h.malloc_isSome (nmemb * size)
  have hlt : nmemb * size < Word.modulus := by omega
  have heq := calloc_of_lt t.heap hlt
  rw [hcall, Option.map_some] at heq
  dsimp only at heq
  by_cases hp : p = NULL
  . rw [if_neg (not_not.mpr hp)] at heq
    refine ⟨p, h1, heq, ?_, fun hne => absurd hp hne, ?_⟩
    . rw [hp] at hcall
      exact fun _ => h.malloc_null hcall
    . intro r hpos hroom hhas
      exact absurd hp (h.malloc_room hpos hroom hhas hcall).1
  . rw [if_pos hp] at heq
    obtain ⟨hborrows, hsame, hsize⟩ := h.malloc hcall hp
    obtain ⟨hset, hothers, hfilled, hkept⟩ := hborrows.memset List.mem_cons_self 0
      (Nat.le_trans (le_heapAlign hrange) hsize)
    refine ⟨p, _, heq, fun hnull => absurd hnull hp, fun _ => ⟨hset, ?_, hfilled⟩, ?_⟩
    . intro q hq
      apply (hsame q hq).trans
      apply hothers q (List.mem_cons_of_mem p hq)
      rintro rfl
      exact (List.nodup_cons.mp hborrows.nodup).1 hq
    . intro r hpos hroom hhas
      exact ⟨hp, hkept _ (h.malloc_room hpos hroom hhas hcall).2⟩

theorem realloc (h : s.Borrows t ps) (hp : p ∈ ps) (size : Nat) (hpos : 0 < size)
    (hrange : size + HEAP_ALIGNMENT ≤ Word.modulus)
    : ∃ q h', DismasmOS.realloc t.heap p size = some ⟨q, h'⟩
        ∧ (q = NULL → h' = t.heap)
        ∧ (q ≠ NULL → ∃ live, s.Borrows ⟨h', live⟩ (q :: ps.erase p)
          ∧ ∀ v, ∀ n ≤ size, t.heap.Filled p v n → h'.Filled q v n)
        ∧ (t.heap.HasRoom (heapAlign size + sizeofHeapBlock + HEAP_ALIGNMENT) → q ≠ NULL) := by
  obtain ⟨bs, hrepr, hbs⟩ := h.repr
  have hmem := h.mem hp
  have hnull : p ≠ NULL := hrepr.pos hmem
  have heq := realloc_live hrepr hmem hpos
  split at heq
  . refine ⟨p, t.heap, heq, fun _ => rfl, fun _ => ⟨t.live, ?_, fun _ _ _ => id⟩, fun _ => hnull⟩
    exact h.perm (List.perm_cons_erase hp)
  . next hfit =>
    have hlt := Nat.lt_of_not_le hfit
    obtain ⟨q, h1, hcall⟩ := h.malloc_isSome size
    rw [hcall, Option.map_some] at heq
    dsimp only at heq
    by_cases hq : q = NULL
    . rw [if_pos hq] at heq
      refine ⟨NULL, h1, heq, ?_, fun hne => absurd rfl hne, ?_⟩
      . rw [hq] at hcall
        exact fun _ => h.malloc_null hcall
      . intro hhas
        exact absurd hq (h.malloc_room (by omega) (Nat.le_refl _) hhas hcall).1
    . rw [if_neg hq] at heq
      have hmoves := hrepr.moves hmem hrange hlt hcall hq
      have hfresh := hmoves.fresh
      rw [h.live, not_or] at hfresh
      refine ⟨q, _, heq, fun hnull => absurd hnull hq, fun _ => ?_, fun _ => hq⟩
      obtain ⟨bs', hrepr', hsteps⟩ := hrepr.realloc (.inr hmem) hrange heq
      refine ⟨_, ⟨⟨bs', hrepr', hbs.steps hsteps⟩, ?_, ?_, ?_, ?_, ?_⟩, ?_⟩
      . rw [(realloc_pool heq).1, h.base]
      . intro x
        unfold reallocated
        rw [if_pos hq, Finset.mem_insert, Finset.mem_erase, h.live, List.mem_cons,
          h.nodup.mem_erase_iff, or_assoc, and_or_left]
        apply or_congr_right
        apply or_congr_right
        constructor
        . exact And.right
        . intro hx
          refine ⟨?_, hx⟩
          rintro rfl
          exact h.apart x hp hx
      . intro x hx
        rw [List.mem_cons] at hx
        cases hx with
        | inl hx =>
          rw [hx]
          exact hfresh.2
        | inr hx => exact h.apart x (List.mem_of_mem_erase hx)
      . exact List.nodup_cons.mpr ⟨fun hx => hfresh.1 (List.mem_of_mem_erase hx), h.nodup.erase p⟩
      . intro x hx
        apply (h.same x hx).trans
        apply hmoves.others x ((h.live x).mpr (.inr hx))
        rintro rfl
        exact h.apart x hp hx
      . intro v n hn hfilled
        constructor
        . exact Nat.le_trans hn hmoves.payload
        . intro i hi
          rw [hmoves.data i (Nat.lt_of_lt_of_le hi hfilled.size)]
          exact hfilled.bytes i hi

end HeapClient.Borrows

-- The code and the heap that the test leaves.
def HeapClient.Tested (s : HeapClient) (r : Option (Int × Heap)) : Prop :=
  ∃ code h, r = some ⟨code, h⟩ ∧ code ∈ selfTestCodes ∧ (s.heap.HasRoom 1856 → code = 0)
    ∧ s.heap.SameLayout h ∧ ∀ p ∈ s.live, s.heap.SamePayload h p

-- The three blocks are written one after the other, each keeps its bytes while the next one is written.
theorem HeapClient.Borrows.filled {s t : HeapClient} {p1 p2 p3 : Nat} (h : s.Borrows t [p3, p2, p1])
    (h1 : 64 ≤ payloadSize t.heap p1) (h2 : 256 ≤ payloadSize t.heap p2)
    (h3 : 1024 ≤ payloadSize t.heap p3) (hroom : s.heap.HasRoom 1856 → t.heap.HasRoom 368)
    : ∃ u : HeapClient,
        u.heap = ((t.heap.memset p1 0xAA 64).memset p2 0xBB 256).memset p3 0xCC 1024
        ∧ s.Borrows u [p3, p2, p1] ∧ u.heap.Filled p1 0xAA 64 ∧ u.heap.Filled p2 0xBB 256
        ∧ u.heap.Filled p3 0xCC 1024 ∧ (s.heap.HasRoom 1856 → u.heap.HasRoom 368) := by
  have hnodup := h.nodup
  simp only [List.nodup_cons, List.mem_cons, List.not_mem_nil, or_false, not_or] at hnodup
  obtain ⟨⟨h32, h31⟩, h21, _⟩ := hnodup
  obtain ⟨hset1, hsame1, hfill1, hroom1⟩ := h.memset (p := p1) (by simp) 0xAA h1
  have hsize2 := (hsame1 p2 (by simp) h21).1
  have hsize3 := (hsame1 p3 (by simp) h31).1
  obtain ⟨hset2, hsame2, hfill2, hroom2⟩ := hset1.memset (p := p2) (by simp) 0xBB
    (Nat.le_trans h2 (Nat.le_of_eq hsize2.symm))
  have hsize3' := (hsame2 p3 (by simp) h32).1
  obtain ⟨hset3, hsame3, hfill3, hroom3⟩ := hset2.memset (p := p3) (by simp) 0xCC
    (Nat.le_trans h3 (Nat.le_of_eq (hsize3'.trans hsize3).symm))
  refine ⟨⟨((t.heap.memset p1 0xAA 64).memset p2 0xBB 256).memset p3 0xCC 1024, t.live⟩, by rfl,
    hset3, ?_, ?_, hfill3, ?_⟩
  . have hfilled := hfill1.same (hsame2 p1 (by simp) (Ne.symm h21))
    exact hfilled.same (hsame3 p1 (by simp) (Ne.symm h31))
  . exact hfill2.same (hsame3 p2 (by simp) (Ne.symm h32))
  . intro hhas
    exact hroom3 _ (hroom2 _ (hroom1 _ (hroom hhas)))

section SelfTest

variable {s t : HeapClient} {bs : List Block} (hrepr : s.ReprBy bs) (hbs : NoFreeNeighbours bs)
include hrepr hbs

theorem HeapClient.Borrows.tested {ps qs : List Nat} (h : s.Borrows t ps) (hqs : qs.Perm ps)
    {code : Int} (hcode : code ∈ selfTestCodes) (hroom : s.heap.HasRoom 1856 → code = 0)
    : s.Tested (some ⟨code, DismasmOS.freeAll t.heap qs⟩) := by
  obtain ⟨live, hdone⟩ := h.freeAll hqs
  exact ⟨code, _, rfl, hcode, hroom, hdone.restored hrepr hbs, hdone.same⟩

theorem selfTestResize_tested {p1 p2 p3 p4 : Nat} (h : s.Borrows t [p4, p3, p2, p1])
    (hfilled : t.heap.Filled p1 0xAA 64) (hroom : s.heap.HasRoom 1856 → t.heap.HasRoom 192)
    : s.Tested (selfTestResize t.heap p1 p2 p3 p4) := by
  have hp1 : p1 ∈ [p4, p3, p2, p1] := by simp
  have hnodup := h.nodup
  obtain ⟨q, h', hcall, hnull, hmoved, hgranted⟩ := h.realloc hp1 128 (by decide) (by decide)
  unfold selfTestResize
  rw [hcall]
  simp only [Option.pure_def, Option.bind_eq_bind, Option.bind_some]
  by_cases hq : q = NULL
  . rw [if_pos hq, hnull hq]
    apply h.tested hrepr hbs
    . exact (List.reverse_perm [p4, p3, p2, p1])
    . decide
    . intro hhas
      exact absurd hq (hgranted (hroom hhas))
  . rw [if_neg hq]
    obtain ⟨live, hborrows, hkept⟩ := hmoved hq
    have hsame := (hkept _ 64 (by decide) hfilled).not_differs (hborrows.payload_lt List.mem_cons_self)
    rw [hsame, if_neg Bool.false_ne_true]
    apply hborrows.tested hrepr hbs
    . apply List.Perm.cons
      have herase := (List.reverse_perm [p4, p3, p2, p1]).erase p1
      rwa [List.reverse_cons, List.reverse_cons, List.reverse_cons, List.reverse_singleton,
        List.cons_append, List.cons_append, List.cons_append, List.erase_cons_head] at herase
    . decide
    . exact fun _ => rfl

theorem selfTestClear_tested {p1 p2 p3 : Nat} (h : s.Borrows t [p3, p2, p1])
    (hfilled : t.heap.Filled p1 0xAA 64) (hroom : s.heap.HasRoom 1856 → t.heap.HasRoom 368)
    : s.Tested (selfTestClear t.heap p1 p2 p3) := by
  obtain ⟨p4, h', hcall, hnull, hgot, hgranted⟩ := h.calloc 32 4 (by decide)
  unfold selfTestClear
  rw [hcall]
  simp only [Option.pure_def, Option.bind_eq_bind, Option.bind_some]
  by_cases hp4 : p4 = NULL
  . rw [if_pos hp4, hnull hp4]
    apply h.tested hrepr hbs
    . exact (List.reverse_perm [p3, p2, p1])
    . decide
    . intro hhas
      exact absurd hp4 (hgranted 368 (by decide) (by decide) (hroom hhas)).1
  . rw [if_neg hp4]
    obtain ⟨hborrows, hsame, hzero⟩ := hgot hp4
    rw [hzero.not_differsWords (hborrows.payload_lt List.mem_cons_self), if_neg Bool.false_ne_true]
    apply selfTestResize_tested hrepr hbs hborrows
    . exact hfilled.same (hsame p1 (by simp))
    . intro hhas
      exact (hgranted 368 (by decide) (by decide) (hroom hhas)).2

theorem heapSelfTest_tested : s.Tested (heapSelfTest s.heap) := by
  have hstart := HeapClient.Borrows.refl hrepr hbs
  unfold heapSelfTest
  obtain ⟨p1, h1, hcall1⟩ := hstart.malloc_isSome 64
  rw [hcall1]
  simp only [Option.pure_def, Option.bind_eq_bind, Option.bind_some]
  by_cases hp1 : p1 = NULL
  . rw [hp1] at hcall1
    rw [if_pos hp1, hstart.malloc_null hcall1]
    apply hstart.tested hrepr hbs (List.Perm.refl [])
    . decide
    . intro hhas
      rw [← hp1] at hcall1
      exact absurd hp1 (hstart.malloc_room (by decide) (by decide) hhas hcall1).1
  rw [if_neg hp1]
  have hroom1 := fun hhas : s.heap.HasRoom 1856 =>
    (hstart.malloc_room (by decide) (by decide) hhas hcall1).2
  obtain ⟨hb1, _, hsize1⟩ := hstart.malloc hcall1 hp1
  obtain ⟨p2, h2, hcall2⟩ := hb1.malloc_isSome 256
  rw [hcall2]
  dsimp only [Option.bind_some]
  by_cases hp2 : p2 = NULL
  . rw [hp2] at hcall2
    rw [if_pos hp2, hb1.malloc_null hcall2]
    apply hb1.tested hrepr hbs (List.Perm.refl [p1])
    . decide
    . intro hhas
      rw [← hp2] at hcall2
      exact absurd hp2 (hb1.malloc_room (by decide) (by decide) (hroom1 hhas) hcall2).1
  rw [if_neg hp2]
  have hroom2 := fun hhas : s.heap.HasRoom 1856 =>
    (hb1.malloc_room (by decide) (by decide) (hroom1 hhas) hcall2).2
  obtain ⟨hb2, hsame2, hsize2⟩ := hb1.malloc hcall2 hp2
  obtain ⟨p3, h3, hcall3⟩ := hb2.malloc_isSome 1024
  rw [hcall3]
  dsimp only [Option.bind_some]
  by_cases hp3 : p3 = NULL
  . rw [hp3] at hcall3
    rw [if_pos hp3, hb2.malloc_null hcall3]
    apply hb2.tested hrepr hbs (List.Perm.swap p2 p1 [])
    . decide
    . intro hhas
      rw [← hp3] at hcall3
      exact absurd hp3 (hb2.malloc_room (by decide) (by decide) (hroom2 hhas) hcall3).1
  rw [if_neg hp3]
  have hroom3 := fun hhas : s.heap.HasRoom 1856 =>
    (hb2.malloc_room (by decide) (by decide) (hroom2 hhas) hcall3).2
  obtain ⟨hb3, hsame3, hsize3⟩ := hb2.malloc hcall3 hp3
  have hkept1 := (hsame2 p1 (by simp)).trans (hsame3 p1 (by simp))
  have hkept2 := hsame3 p2 (by simp)
  obtain ⟨u, hu, hborrows, hfill1, hfill2, hfill3, hroom⟩ := hb3.filled
    (Nat.le_trans hsize1 (Nat.le_of_eq hkept1.1.symm))
    (Nat.le_trans hsize2 (Nat.le_of_eq hkept2.1.symm)) hsize3 hroom3
  dsimp only at hu ⊢
  rw [← hu, hfill1.not_differs (hborrows.payload_lt (by simp)),
    hfill2.not_differs (hborrows.payload_lt (by simp)),
    hfill3.not_differs (hborrows.payload_lt (by simp))]
  exact selfTestClear_tested hrepr hbs hborrows hfill1 hroom

end SelfTest

theorem heap_self_test_passes {kernelEnd : Nat} {mem : ByteMem} {calls : List HeapCall}
    {s : HeapClient} (hpool : PoolFits kernelEnd)
    (hrun : Run HeapStep (HeapClient.init kernelEnd mem) calls s)
    (hcalls : ∀ e ∈ calls, e.InRange)
    : ∃ code h, heapSelfTest s.heap = some ⟨code, h⟩ ∧ code ∈ selfTestCodes
        ∧ (s.heap.HasRoom 1856 → code = 0)
        ∧ s.heap.SameLayout h ∧ ∀ p ∈ s.live, s.heap.SamePayload h p := by
  obtain ⟨bs, hrepr, hsteps⟩ := HeapStep.run_reprFrom hpool hrun hcalls
  exact heapSelfTest_tested hrepr ((NoFreeNeighbours.singleton _).steps hsteps)

theorem heap_self_test_passes_first
    : ∃ p s, Run HeapStep (HeapClient.init 0x200000 (fun _ => 0)) [.malloc 24] s ∧ s.heap.Live p
        ∧ ∃ code h, heapSelfTest s.heap = some ⟨code, h⟩ ∧ s.heap.SameLayout h := by
  obtain ⟨p, s, hrun, hlive⟩ := HeapStep.run_malloc
  have hcalls : ∀ e ∈ [HeapCall.malloc 24], e.InRange := by simp [HeapCall.InRange]
  obtain ⟨code, h, hcall, _, _, hsame, _⟩ := heap_self_test_passes poolFits_first hrun hcalls
  exact ⟨p, s, hrun, hlive, code, h, hcall, hsame⟩

end DismasmOS
