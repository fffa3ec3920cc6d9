import DismasmOS.Str.Lemmas
import DismasmOS.Proc.Map

/-!
This module contains the verification of the process table as a map from names to processes. Names
are compared in full but stored in 32 bytes, so the table finds again only what fits in there.
-/

namespace DismasmOS

theorem shellToken_iff (s : List UInt8)
    : ShellToken s ↔ s ≠ [] ∧ s.length ≤ 127 ∧ s.all (fun c => c ≠ NUL && !isBlank c) = true := by
  unfold ShellToken
  simp

theorem ShellToken.nulFree {s : List UInt8} (h : ShellToken s) : NulFree s :=
  fun hmem => (h.2.2 NUL hmem).1 rfl

namespace ProcTable

variable {t : ProcTable} {i j : Nat} {name : List UInt8} {f : Process → Process}

theorem get_modify_same (hi : i < MAX_PROCS) : (t.modify i f).get i = f (t.get i) := by
  unfold get modify
  have hlen : i < t.procs.length := by rw [t.length_procs]; exact hi
  simp only [List.getD_eq_getElem?_getD, List.getElem?_modify_eq, List.getElem?_eq_getElem hlen]
  rfl

theorem get_modify_ne (hij : i ≠ j) : (t.modify i f).get j = t.get j := by
  unfold get modify
  simp only [List.getD_eq_getElem?_getD]
  rw [List.getElem?_modify_ne _ _ hij]

theorem get_of_findIdx? {p : Process → Bool} (h : t.procs.findIdx? p = some i)
    : i < MAX_PROCS ∧ p (t.get i) = true := by
  rw [List.findIdx?_eq_some_iff_getElem] at h
  obtain ⟨hi, hp, _⟩ := h
  rw [← t.length_procs]
  refine ⟨hi, ?_⟩
  unfold get
  rw [List.getD_eq_getElem?_getD, List.getElem?_eq_getElem hi]
  exact hp

theorem get_of_findIdx?_none {p : Process → Bool} (h : t.procs.findIdx? p = none)
    (hi : i < MAX_PROCS)
    : p (t.get i) = false := by
  rw [← t.length_procs] at hi
  rw [List.findIdx?_eq_none_iff] at h
  unfold get
  rw [List.getD_eq_getElem?_getD, List.getElem?_eq_getElem hi]
  apply h
  apply List.getElem_mem

theorem find_some (hname : NulFree name) (h : procFind t name = some i) : t.Entry i name := by
  obtain ⟨hi, hp⟩ := get_of_findIdx? h
  rw [Bool.and_eq_true, decide_eq_true_eq, strcmp_eq_zero_iff, hname.cstr] at hp
  exact ⟨hi, hp.1, hp.2⟩

theorem find_none (hname : NulFree name) (h : procFind t name = none) (i : Nat)
    : ¬t.Entry i name := by
  intro hentry
  have hp := get_of_findIdx?_none h hentry.lt
  rw [hentry.used, Bool.true_and, decide_eq_false_iff_not, strcmp_eq_zero_iff, hname.cstr] at hp
  exact hp hentry.name

-- The table in which slot `i` holds a new process.
def occupied (t : ProcTable) (i : Nat) (name : List UInt8) : ProcTable :=
  { t.modify i (·.occupy t.nextPid name) with nextPid := t.nextPid + 1 }

theorem get_occupied_same (hi : i < MAX_PROCS)
    : (t.occupied i name).get i = (t.get i).occupy t.nextPid name :=
  get_modify_same hi

theorem get_occupied_ne (hij : i ≠ j) : (t.occupied i name).get j = t.get j := get_modify_ne hij

theorem str_occupied (hi : i < MAX_PROCS) (hname : NulFree name)
    : ((t.occupied i name).get i).name.str = name.take (PROC_NAME_MAX - 1) := by
  rw [get_occupied_same hi]
  change ((t.get i).name.assign name).str = _
  rw [CharArray.str_assign _ (by decide), hname.cstr]

theorem entry_occupied {n : List UInt8} (hname : NulFree name) (hj : (t.occupied i name).Entry j n)
    : (j = i ∧ n = name.take (PROC_NAME_MAX - 1)) ∨ (i ≠ j ∧ t.Entry j n) := by
  by_cases hij : i = j
  . left
    rw [← hij] at hj
    rw [← hj.name, str_occupied hj.lt hname]
    exact ⟨hij.symm, rfl⟩
  . right
    have hold : (t.occupied i name).get j = t.get j := get_occupied_ne hij
    refine ⟨hij, hj.lt, ?_, ?_⟩
    . rw [← hold]
      exact hj.used
    . rw [← hold]
      exact hj.name

structure Inv (t : ProcTable) : Prop where
  names : ∀ {i j n}, t.Entry i n → t.Entry j n → i = j
  pids : ∀ {i j n k}, t.Entry i n → t.Entry j k → (t.get i).pid = (t.get j).pid → i = j
  bound : ∀ {i n}, t.Entry i n → (t.get i).pid < t.nextPid
  short : ∀ {i n}, t.Entry i n → n.length < PROC_NAME_MAX
  system : t.Entry 0 (str "system")
  running : (t.get 0).state = .running

namespace Inv

theorem distinct (h : t.Inv) : t.Distinct := by
  intro i j n k hi hj heq
  cases heq with
  | inl hname =>
    rw [hname] at hi
    exact h.names hi hj
  | inr hpid => exact h.pids hi hj hpid

theorem systemRuns (h : t.Inv) : t.SystemRuns := ⟨0, h.system, h.running⟩

theorem find_eq (h : t.Inv) (hname : NulFree name) (hentry : t.Entry i name)
    : procFind t name = some i := by
  cases hfind : procFind t name with
  | none => exact absurd hentry (find_none hname hfind i)
  | some j => rw [h.names hentry (find_some hname hfind)]

theorem modify (h : t.Inv)
    (hf : ∀ p, (f p).pid = p.pid ∧ (f p).name = p.name ∧ (f p).used = p.used)
    (hsystem : i = 0 → (f (t.get 0)).state = .running)
    : (t.modify i f).Inv := by
  have hkeep : ∀ j, j < MAX_PROCS → ((t.modify i f).get j).pid = (t.get j).pid
      ∧ ((t.modify i f).get j).name = (t.get j).name
      ∧ ((t.modify i f).get j).used = (t.get j).used := by
    intro j hj
    by_cases hij : i = j
    . rw [hij, get_modify_same hj]
      apply hf
    . rw [get_modify_ne hij]
      simp
  have hentry : ∀ {j n}, (t.modify i f).Entry j n → t.Entry j n := by
    intro j n hj
    have hk := hkeep j hj.lt
    refine ⟨hj.lt, ?_, ?_⟩
    . rw [← hk.2.2]
      exact hj.used
    . rw [← hk.2.1]
      exact hj.name
  constructor
  . intro a b n ha hb
    exact h.names (hentry ha) (hentry hb)
  . intro a b n k ha hb
    rw [(hkeep a ha.lt).1, (hkeep b hb.lt).1]
    exact h.pids (hentry ha) (hentry hb)
  . intro a n ha
    rw [(hkeep a ha.lt).1]
    exact h.bound (hentry ha)
  . intro a n ha
    exact h.short (hentry ha)
  . have hk := hkeep 0 (by decide)
    refine ⟨h.system.lt, ?_, ?_⟩
    . rw [hk.2.2]
      exact h.system.used
    . rw [hk.2.1]
      exact h.system.name
  . by_cases hi : i = 0
    . rw [hi, get_modify_same (by decide)]
      exact hsystem hi
    . rw [get_modify_ne hi]
      exact h.running

theorem occupy (h : t.Inv) (hname : NulFree name) (hlen : name.length < PROC_NAME_MAX)
    (hnew : procFind t name = none) (hslot : procFindSlot t = some i)
    : (t.occupied i name).Inv ∧ (t.occupied i name).Entry i name := by
  obtain ⟨hi, hfree⟩ := get_of_findIdx? hslot
  simp only [Bool.not_eq_eq_eq_not, Bool.not_true] at hfree
  have hfits : name.take (PROC_NAME_MAX - 1) = name := by
    rw [List.take_of_length_le]
    omega
  have hnext : (t.occupied i name).nextPid = t.nextPid + 1 := rfl
  have hother : ∀ j, i ≠ j → (t.occupied i name).get j = t.get j := fun _ => get_occupied_ne
  have hpid : ((t.occupied i name).get i).pid = t.nextPid := by
    rw [get_occupied_same hi]
    rfl
  have hcases : ∀ j n, (t.occupied i name).Entry j n
      → (j = i ∧ n = name) ∨ (i ≠ j ∧ t.Entry j n) := by
    intro j n hj
    rw [← hfits]
    apply entry_occupied hname hj
  have hzero : i ≠ 0 := by
    intro hi0
    rw [hi0, h.system.used] at hfree
    simp at hfree
  have hentry : (t.occupied i name).Entry i name := by
    refine ⟨hi, ?_, ?_⟩
    . rw [get_occupied_same hi]
      rfl
    . rw [str_occupied hi hname, hfits]
  refine ⟨?_, hentry⟩
  constructor
  . intro a b n ha hb
    rcases hcases _ _ ha with ⟨rfl, rfl⟩ | ⟨_, ha'⟩ <;>
      rcases hcases _ _ hb with ⟨rfl, hn⟩ | ⟨_, hb'⟩
    . rfl
    . exact absurd hb' (find_none hname hnew b)
    . rw [hn] at ha'
      exact absurd ha' (find_none hname hnew a)
    . exact h.names ha' hb'
  . intro a b n k ha hb heq
    rcases hcases _ _ ha with ⟨rfl, _⟩ | ⟨hia, ha'⟩ <;>
      rcases hcases _ _ hb with ⟨rfl, _⟩ | ⟨hib, hb'⟩
    . rfl
    . have := h.bound hb'
      rw [hpid, hother b hib] at heq
      omega
    . have := h.bound ha'
      rw [hpid, hother a hia] at heq
      omega
    . rw [hother a hia, hother b hib] at heq
      exact h.pids ha' hb' heq
  . intro a n ha
    rcases hcases _ _ ha with ⟨rfl, _⟩ | ⟨hia, ha⟩
    . omega
    . have := h.bound ha
      rw [hother a hia]
      omega
  . intro a n ha
    rcases hcases _ _ ha with ⟨_, rfl⟩ | ⟨_, ha⟩
    . exact hlen
    . exact h.short ha
  . have hold := hother 0 hzero
    exact ⟨h.system.lt, by rw [hold]; exact h.system.used, by rw [hold]; exact h.system.name⟩
  . rw [hother 0 hzero]
    exact h.running

end Inv

section Init

theorem init_entry {n : List UInt8} (h : procInit.Entry i n)
    : (i = 0 ∧ n = str "system") ∨ (i = 1 ∧ n = str "shell") := by
  by_cases h0 : i = 0
  . left
    refine ⟨h0, ?_⟩
    rw [← h.name, h0]
    decide
  . by_cases h1 : i = 1
    . right
      refine ⟨h1, ?_⟩
      rw [← h.name, h1]
      decide
    . have hused := h.used
      unfold procInit at hused
      rw [get_modify_ne (by omega), get_modify_ne (by omega)] at hused
      unfold get zero at hused
      rw [List.getD_eq_getElem?_getD, List.getElem?_replicate] at hused
      split at hused <;> simp [Process.zero] at hused

theorem init_inv : procInit.Inv := by
  constructor
  . intro a b n ha hb
    rcases init_entry ha with ⟨rfl, rfl⟩ | ⟨rfl, rfl⟩ <;>
      rcases init_entry hb with ⟨rfl, hn⟩ | ⟨rfl, hn⟩
    . rfl
    . exact absurd hn (by decide)
    . exact absurd hn (by decide)
    . rfl
  . intro a b n k ha hb hpid
    rcases init_entry ha with ⟨rfl, _⟩ | ⟨rfl, _⟩ <;>
      rcases init_entry hb with ⟨rfl, _⟩ | ⟨rfl, _⟩
    . rfl
    . exact absurd hpid (by decide)
    . exact absurd hpid (by decide)
    . rfl
  . intro a n ha
    rcases init_entry ha with ⟨rfl, _⟩ | ⟨rfl, _⟩ <;> decide
  . intro a n ha
    rcases init_entry ha with ⟨_, rfl⟩ | ⟨_, rfl⟩ <;> decide
  . exact ⟨by decide, by decide, by decide⟩
  . decide

end Init

section Started

theorem Inv.started (h : t.Inv) (hname : NulFree name) (hentry : t.Entry i name)
    (hrunning : (t.get i).state = .running)
    : t.Started name := by
  have hfind := h.find_eq hname hentry
  refine ⟨i, hentry, fun j hj => h.names hj hentry, hrunning, ?_, ?_⟩
  . unfold procStart
    simp only [hfind, hrunning, ↓reduceIte]
  . intro hsystem
    have hcmp : strcmp name (str "system") ≠ 0 := by
      rw [ne_eq, hname.strcmp_eq_zero_iff (by decide)]
      exact hsystem
    unfold procKill
    rw [if_neg hcmp, hfind]
    rfl

-- A longer name is cut off when it is stored and cannot be found again.
theorem Inv.not_entry_occupy (h : t.Inv) (hname : NulFree name) (hlen : PROC_NAME_MAX ≤ name.length)
    (j : Nat)
    : ¬(t.occupied i name).Entry j name := by
  intro hentry
  cases entry_occupied hname hentry with
  | inl hcut =>
    have hlength := congrArg List.length hcut.2
    rw [List.length_take] at hlength
    unfold PROC_NAME_MAX at *
    omega
  | inr hold =>
    have := h.short hold.2
    omega

-- What `proc_start` can do to a table whose names are unique.
theorem Inv.start_cases (h : t.Inv) (hname : NulFree name)
    : (procStart t name = ⟨-1, t⟩ ∧ procFindSlot t = none)
        ∨ ((procStart t name).1 = 0
          ∧ ((name.length < PROC_NAME_MAX ∧ (procStart t name).2.Inv
              ∧ ∃ i, (procStart t name).2.Entry i name
                ∧ ((procStart t name).2.get i).state = .running)
            ∨ (PROC_NAME_MAX ≤ name.length ∧ procFindSlot t ≠ none
              ∧ ∀ i, ¬(procStart t name).2.Entry i name))) := by
  unfold procStart
  cases hfind : procFind t name with
  | some i =>
    have hentry := find_some hname hfind
    have hlen := h.short hentry
    right
    dsimp only
    split
    . next hrunning => exact ⟨rfl, .inl ⟨hlen, h, i, hentry, hrunning⟩⟩
    . have hget := get_modify_same (t := t) (f := fun p => { p with state := .running }) hentry.lt
      refine ⟨rfl, .inl ⟨hlen, h.modify (by simp) (by simp), i, ⟨hentry.lt, ?_, ?_⟩, ?_⟩⟩
      . rw [hget]
        exact hentry.used
      . rw [hget]
        exact hentry.name
      . rw [hget]
  | none =>
    cases hslot : procFindSlot t with
    | none => exact .inl ⟨rfl, rfl⟩
    | some i =>
      right
      refine ⟨rfl, ?_⟩
      by_cases hlen : name.length < PROC_NAME_MAX
      . obtain ⟨hinv, hentry⟩ := h.occupy hname hlen hfind hslot
        refine .inl ⟨hlen, hinv, i, hentry, ?_⟩
        change ((t.occupied i name).get i).state = .running
        rw [get_occupied_same hentry.lt]
        rfl
      . exact .inr ⟨by omega, by simp, h.not_entry_occupy hname (by omega)⟩

end Started

end ProcTable

namespace ProcCall

open ProcTable

variable {t : ProcTable} {call : ProcCall}

theorem inv_exec (h : t.Inv) (hname : NulFree call.name) (hfits : call.Fits t)
    : (call.exec t).2.Inv := by
  cases call with
  | start name =>
    change NulFree name at hname
    rcases h.start_cases hname with ⟨heq, _⟩ | ⟨_, ⟨_, hinv, _⟩ | ⟨hlen, hslot, _⟩⟩
    . change (procStart t name).2.Inv
      rw [heq]
      exact h
    . exact hinv
    . cases hfits name rfl with
      | inl hlt => omega
      | inr hnone => exact absurd hnone hslot
  | kill name =>
    change NulFree name at hname
    unfold exec procKill
    dsimp only
    split
    . exact h
    . next hsystem =>
      cases hfind : procFind t name with
      | none => exact h
      | some i =>
        apply h.modify (by simp)
        -- the entry of the system process is another one
        intro hi
        have hentry := find_some hname hfind
        rw [hi] at hentry
        rw [← hentry.name, h.system.name] at hsystem
        exact absurd (by decide) hsystem
  | setComment name comment =>
    unfold exec procSetComment
    dsimp only
    cases hfind : procFind t name with
    | none => exact h
    | some i =>
      apply h.modify (by simp)
      intro _
      exact h.running

theorem unchanged_of_failed (h : (call.exec t).1 = -1) : (call.exec t).2 = t := by
  cases call with
  | start name =>
    unfold exec procStart at *
    dsimp only at *
    cases hfind : procFind t name with
    | some i =>
      rw [hfind] at h
      dsimp only at h
      split at h <;> simp at h
    | none =>
      rw [hfind] at h
      cases hslot : procFindSlot t with
      | some i => simp [hslot] at h
      | none => rfl
  | kill name =>
    unfold exec procKill at *
    dsimp only at *
    split
    . rfl
    . cases hfind : procFind t name with
      | some i =>
        simp only [hfind] at h
        split at h <;> simp_all
      | none => rfl
  | setComment name comment =>
    unfold exec procSetComment at *
    dsimp only at *
    cases hfind : procFind t name with
    | some i => simp [hfind] at h
    | none => rfl

theorem honoured_iff (h : t.Inv) (hname : NulFree call.name) : call.Honoured t ↔ call.Fits t := by
  constructor
  . rintro ⟨_, hstarted⟩ name rfl
    change NulFree name at hname
    rcases h.start_cases hname with ⟨_, hslot⟩ | ⟨hzero, ⟨hlen, _⟩ | ⟨_, _, hlost⟩⟩
    . exact .inr hslot
    . exact .inl hlen
    . obtain ⟨i, hentry, _⟩ := hstarted name rfl hzero
      exact absurd hentry (hlost i)
  . intro hfits
    refine ⟨unchanged_of_failed, ?_⟩
    rintro name rfl hzero
    have hinv := inv_exec h hname hfits
    change NulFree name at hname
    rcases h.start_cases hname with ⟨heq, _⟩ | ⟨_, ⟨_, _, i, hentry, hrunning⟩ | ⟨hlen, hslot, _⟩⟩
    . change (procStart t name).1 = 0 at hzero
      rw [heq] at hzero
      simp at hzero
    . exact hinv.started hname hentry hrunning
    . cases hfits name rfl with
      | inl hlt => omega
      | inr hnone => exact absurd hnone hslot

end ProcCall

theorem proc_table_map_iff {calls : List ProcCall} {t : ProcTable}
    (hrun : Run (fun t call t' => ProcStep t call t' ∧ call.Fits t) procInit calls t)
    : t.Distinct ∧ t.SystemRuns
        ∧ ∀ call : ProcCall, ShellToken call.name → (call.Honoured t ↔ call.Fits t) := by
  have hinv : t.Inv := by
    apply hrun.invariant
    . rintro t call t' _ hinv ⟨⟨hname, rfl⟩, hfits⟩
      exact ProcCall.inv_exec hinv hname.nulFree hfits
    . exact ProcTable.init_inv
  refine ⟨hinv.distinct, hinv.systemRuns, ?_⟩
  intro call hname
  exact ProcCall.honoured_iff hinv hname.nulFree

theorem proc_table_map_worker
    : (procStart procInit (str "worker")).2.Distinct
        ∧ (ProcCall.kill (str "worker")).Honoured (procStart procInit (str "worker")).2 := by
  have htoken : ShellToken (str "worker") := by
    rw [shellToken_iff]
    decide
  have hfits : (ProcCall.start (str "worker")).Fits procInit := by
    rintro name ⟨⟩
    left
    decide
  have hstep : ProcStep procInit (.start (str "worker")) (procStart procInit (str "worker")).2 :=
    ⟨htoken, rfl⟩
  have hmap := proc_table_map_iff (Run.cons ⟨hstep, hfits⟩ (Run.nil _))
  refine ⟨hmap.1, (hmap.2.2 (.kill (str "worker")) htoken).mpr ?_⟩
  rintro name ⟨⟩

-- 32 characters, one more than `name` has room for.
def longToken : List UInt8 := List.replicate 32 (chr 'a')

theorem proc_start_longName_twice
    : ShellToken longToken
        ∧ ¬(ProcCall.start longToken).Honoured procInit
        ∧ ¬(procStart (procStart procInit longToken).2 longToken).2.Distinct := by
  have htoken : ShellToken longToken := by
    rw [shellToken_iff]
    decide
  refine ⟨htoken, ?_, ?_⟩
  . have hname : NulFree (ProcCall.start longToken).name := htoken.nulFree
    rw [ProcCall.honoured_iff ProcTable.init_inv hname]
    intro hfits
    cases hfits longToken rfl with
    | inl hlt => exact absurd hlt (by decide)
    | inr hfull => exact absurd hfull (by decide)
  . intro hdistinct
    have hentry : ∀ i, i = 2 ∨ i = 3
        → (procStart (procStart procInit longToken).2 longToken).2.Entry i (longToken.take 31) := by
      rintro i (rfl | rfl) <;> exact ⟨by decide, by decide, by decide⟩
    have heq := hdistinct 2 3 _ _ (hentry 2 (by simp)) (hentry 3 (by simp)) (.inl rfl)
    exact absurd heq (by decide)

end DismasmOS
