import BrkKernel.Mm.PgallocInv

/-!
# Every history of the page allocator

The boot code hands the free ranges over (`memblockFreeAll_inv`), and from there any sequence of
`page_alloc` and `page_free` keeps the partition. `page_allocator_contract` says for every state
that such a sequence reaches that each page handed over is in one place, and that the next call
meets no failing `assert` and hands out a block of its own. The free lists stay fully coalesced
(`free_lists_coalesced`).

The boot code cuts its blocks by physical addresses, while `find_buddy_pfn` pairs blocks by page
frame numbers, which count from `phys_offset`. The two agree where the base of memory is aligned to
the largest block (`base_works_of_aligned`), but not everywhere (`base_breaks`).
-/

set_option autoImplicit false

namespace BrkKernel.Pgalloc

open Lib Domain

variable {ranges : List (Nat × Nat)} {cpu : Nat} {r : Nat × Nat}

/-! ## The boot memory -/

section Boot

variable {m : Machine} {s : PageAlloc} {live : List (Nat × Nat)} {M : Domain} {a b o x : Nat}

/-- The pages from `a` up to `b`. -/
def pages (a b : Nat) : Nat → Nat := fun x => if a ≤ x ∧ x < b then 1 else 0

theorem pages_of_not_mem (h : ¬ (a ≤ x ∧ x < b)) : pages a b x = 0 := if_neg h

theorem pages_of_le (h : b ≤ a) : pages a b = 0 := by
  funext x
  exact pages_of_not_mem (by omega)

/-- The first block of a range and the rest. -/
theorem pages_eq_span_add (h : a + 2 ^ o ≤ b) : pages a b = span a o + pages (a + 2 ^ o) b := by
  funext x
  have hpos := Nat.two_pow_pos o
  rw [Pi.add_apply]
  unfold pages span
  split <;> split <;> split <;> omega

/-- More pages to manage. -/
def Domain.add (M : Domain) (N : Nat → Nat) : Domain := { M with pages := M.pages + N }

theorem Domain.add_zero (M : Domain) : M.add 0 = M := by
  cases M
  simp [add]

theorem Domain.add_add (M : Domain) (N N' : Nat → Nat) : (M.add N).add N' = M.add (N + N') := by
  simp [add, add_assoc]

/-- A block outside the known pages comes in as an allocated one. -/
theorem BuddyInv.adopt (h : BuddyInv m s live 0 none M) (ho : o ≤ pageOrderMax)
    (hal : a % 2 ^ o = 0) (hM : ∀ x, a ≤ x → x < a + 2 ^ o → M.pages x = 0) :
    BuddyInv m (s.setFlags a .newPage) ((a, o) :: live) 0 none (M.add (span a o)) := by
  have hin : BuddyInv m s live (span a o) none (M.add (span a o)) := by
    refine ⟨fun x => ?_, fun x => ?_, h.live, h.area, h.pcp, h.free, h.count, fun x hx => ?_,
      h.coalesced⟩
    · have hcover := h.cover x
      rw [Pi.zero_apply] at hcover
      simp only [add, Pi.add_apply]
      omega
    · simp only [add, Pi.add_apply]
      by_cases hx : a ≤ x ∧ x < a + 2 ^ o
      · rw [hM x hx.1 hx.2, span_of_mem hx.1 hx.2]
      · rw [span_of_not_mem hx]
        exact h.once x
    · simp only [add, Pi.add_apply] at hx
      exact h.out x (by omega)
  have hset : BuddyInv m (s.setFlags a .newPage) live (span a o) none (M.add (span a o)) :=
    hin.setFlags (by rw [span_self]; omega) (fun hs => nomatch hs.2.2.1) fun _ _ hq => hq
  have hflight : BuddyInv m (s.setFlags a .newPage) live (0 + span a o) none
      (M.add (span a o)) := by rwa [zero_add]
  apply hflight.give_live ho hal
  simp only [PageAlloc.setFlags, Function.update_self]
  exact ⟨rfl, rfl, rfl, rfl⟩

/-- The order fits, or is the largest one. -/
theorem pageOrder_spec (size : Nat) : pageOrder size ≤ pageOrderMax ∧
    (size ≤ pageSize * 2 ^ pageOrder size ∨ pageOrder size = pageOrderMax) := by
  unfold pageOrder
  cases hf : (List.range pageOrderMax).find? fun order => size ≤ pageSize * 2 ^ order with
  | none => exact ⟨le_rfl, .inr rfl⟩
  | some order =>
    have hfit := List.find?_some hf
    exact ⟨le_of_lt (List.mem_range.1 (List.mem_of_find?_eq_some hf)),
      .inl (of_decide_eq_true hfit)⟩

theorem fitOrder_spec (start stop n : Nat) :
    fitOrder start stop n ≤ n ∧ (fitOrder start stop n = 0 ∨
      start % 2 ^ (pageShift + fitOrder start stop n) = 0 ∧
        2 ^ (pageShift + fitOrder start stop n) ≤ stop - start) := by
  induction n with
  | zero => exact ⟨Nat.le_refl 0, .inl rfl⟩
  | succ n ih =>
    rw [fitOrder]
    split
    next hfit => exact ⟨le_rfl, .inr hfit⟩
    next => exact ⟨Nat.le_succ_of_le ih.1, ih.2⟩

theorem pageToPhys_add (m : Machine) (a n : Nat) :
    pageToPhys m a + n * pageSize = pageToPhys m (a + n) := by
  unfold pageToPhys
  rw [add_mul]
  omega

theorem pageToPhys_lt_iff : pageToPhys m a < pageToPhys m b ↔ a < b := by
  unfold pageToPhys pageSize
  omega

theorem page_of_pageToPhys (m : Machine) (a : Nat) :
    (pageToPhys m a - m.physOffset) / pageSize = a := by
  unfold pageToPhys
  rw [Nat.add_sub_cancel, Nat.mul_div_cancel a (by decide)]

theorem freeRangeLoop_done {start stop fuel : Nat} (h : ¬ start < stop) :
    freeRangeLoop m cpu stop fuel start s = some s := by
  cases fuel with
  | zero => rfl
  | succ fuel => rw [freeRangeLoop, if_neg h]

/-- A turn of the loop of `memblock_free_range`. -/
theorem freeRangeLoop_step {fuel : Nat} (hab : a < b)
    (ho : fitOrder (pageToPhys m a) (pageToPhys m b)
      (pageOrder (pageToPhys m b - pageToPhys m a)) = o) :
    freeRangeLoop m cpu (pageToPhys m b) (fuel + 1) (pageToPhys m a) s =
      (pageFree m (s.setFlags a .newPage) cpu a o).bind
        (freeRangeLoop m cpu (pageToPhys m b) fuel (pageToPhys m (a + 2 ^ o))) := by
  rw [freeRangeLoop, if_pos (pageToPhys_lt_iff.2 hab), page_of_pageToPhys, ho, pageToPhys_add]

/-- The pages that lie whole in one of the ranges of bytes. -/
def InitialFree (m : Machine) (ranges : List (Nat × Nat)) (x : Nat) : Prop :=
  ∃ r ∈ ranges, r.1 ≤ pageToPhys m x ∧ pageToPhys m x + pageSize ≤ r.2

theorem initialFree_cons :
    InitialFree m (r :: ranges) x ↔ InitialFree m [r] x ∨ InitialFree m ranges x := by
  simp [InitialFree]

/-- No pages, and a cleared `vmemmap`. -/
def Domain.empty : Domain := ⟨0, fun _ => .zero, fun _ => 0⟩

theorem pageAllocInit_inv (m : Machine) : BuddyInv m pageAllocInit [] 0 none .empty := by
  refine ⟨fun x => ?_, fun _ => Nat.zero_le _, nofun, nofun, nofun, nofun, fun _ => rfl,
    fun _ _ => ⟨rfl, rfl⟩, nofun⟩
  have harea : areaSpan pageAllocInit.area x = 0 := by simp [areaSpan, pageAllocInit]
  have hpcp : pcpSpan m.ncpu pageAllocInit.pcp x = 0 := by simp [pcpSpan, pageAllocInit]
  rw [harea, hpcp]
  rfl

variable (hm : m.physOffset % 2 ^ 24 = 0)

include hm

/-- The chunk that the loop picks is aligned and inside the range. -/
theorem chunk_fits (hab : a < b)
    (ho : o = fitOrder (pageToPhys m a) (pageToPhys m b)
      (pageOrder (pageToPhys m b - pageToPhys m a))) :
    o ≤ pageOrderMax ∧ a % 2 ^ o = 0 ∧ a + 2 ^ o ≤ b := by
  obtain ⟨hle, hcase⟩ := fitOrder_spec (pageToPhys m a) (pageToPhys m b)
    (pageOrder (pageToPhys m b - pageToPhys m a))
  rw [← ho] at hle hcase
  have hmax : o ≤ pageOrderMax := le_trans hle (pageOrder_spec _).1
  rcases hcase with hzero | ⟨halign, hfit⟩
  · subst hzero
    exact ⟨hmax, Nat.mod_one a, hab⟩
  have hpow : 2 ^ (pageShift + o) = 4096 * 2 ^ o := pow_add 2 12 o
  refine ⟨hmax, (phys_aligned_iff hm hmax).1 halign, ?_⟩
  unfold pageToPhys pageSize at hfit
  omega

variable (hcpu : cpu < m.ncpu)

include hcpu

/-- The loop of `memblock_free_range` hands over every page of the range. -/
theorem freeRangeLoop_inv {fuel : Nat} (h : BuddyInv m s live 0 none M)
    (hM : ∀ x, a ≤ x → x < b → M.pages x = 0) (hfuel : b - a ≤ fuel) :
    ∃ s', freeRangeLoop m cpu (pageToPhys m b) fuel (pageToPhys m a) s = some s' ∧
      BuddyInv m s' live 0 none (M.add (pages a b)) := by
  induction fuel generalizing a s M with
  | zero =>
    rw [pages_of_le (by omega), M.add_zero]
    exact ⟨s, rfl, h⟩
  | succ fuel ih =>
    by_cases hab : a < b
    · generalize ho : fitOrder (pageToPhys m a) (pageToPhys m b)
        (pageOrder (pageToPhys m b - pageToPhys m a)) = o
      obtain ⟨hmax, hal, hend⟩ := chunk_fits hm hab ho.symm
      obtain ⟨s1, hs1, h1⟩ := pageFree_inv hm hcpu
        (h.adopt hmax hal fun x hx hlt => hM x hx (by omega))
      rw [freeRangeLoop_step hab ho, hs1, pages_eq_span_add hend, ← M.add_add]
      apply ih h1 _ (by omega)
      intro x hx hlt
      simp only [add, Pi.add_apply]
      rw [hM x (by omega) hlt, span_of_not_mem (by omega)]
    · rw [pages_of_le (by omega), M.add_zero]
      exact ⟨s, freeRangeLoop_done (mt pageToPhys_lt_iff.1 hab), h⟩

/-- `memblock_free_range`. -/
theorem memblockFreeRange_inv (h : BuddyInv m s live 0 none M) (habove : m.physOffset ≤ r.1)
    (hM : ∀ x, InitialFree m [r] x → M.pages x = 0) :
    ∃ s' N, memblockFreeRange m cpu s r = some s' ∧ BuddyInv m s' live 0 none (M.add N) ∧
      ∀ x, 0 < N x ↔ InitialFree m [r] x := by
  have hinit : ∀ x, InitialFree m [r] x ↔
      r.1 ≤ pageToPhys m x ∧ pageToPhys m x + pageSize ≤ r.2 := by
    intro x
    simp [InitialFree]
  unfold memblockFreeRange
  by_cases hlt : roundUp r.1 pageSize < r.2 / pageSize * pageSize
  · -- both ends are whole pages above the offset
    obtain ⟨a, ha⟩ : ∃ a, roundUp r.1 pageSize = pageToPhys m a := by
      refine ⟨(roundUp r.1 pageSize - m.physOffset) / pageSize, ?_⟩
      unfold roundUp pageToPhys pageSize
      omega
    obtain ⟨b, hb⟩ : ∃ b, r.2 / pageSize * pageSize = pageToPhys m b := by
      refine ⟨(r.2 / pageSize * pageSize - m.physOffset) / pageSize, ?_⟩
      unfold roundUp pageSize at hlt
      unfold pageToPhys pageSize
      omega
    have hmem : ∀ x, a ≤ x ∧ x < b ↔ InitialFree m [r] x := by
      intro x
      rw [hinit x]
      unfold roundUp pageToPhys pageSize at *
      omega
    rw [ha, hb]
    obtain ⟨s', hs', h'⟩ := freeRangeLoop_inv hm hcpu h
      (fun x hx hxb => hM x ((hmem x).1 ⟨hx, hxb⟩)) (show b - a ≤ r.2 / pageSize by
        unfold pageToPhys pageSize at *
        omega)
    refine ⟨s', pages a b, hs', h', fun x => ?_⟩
    rw [← hmem x]
    unfold pages
    split
    next hin => exact ⟨fun _ => hin, fun _ => Nat.one_pos⟩
    next hout => exact ⟨fun h0 => absurd h0 (lt_irrefl 0), fun hin => absurd hin hout⟩
  · refine ⟨s, 0, ?_, by rwa [M.add_zero], fun x => ?_⟩
    · exact freeRangeLoop_done hlt
    rw [hinit x]
    unfold roundUp pageToPhys pageSize at *
    exact ⟨fun h0 => absurd h0 (lt_irrefl 0), fun hin => by omega⟩

variable (habove : ∀ r ∈ ranges, m.physOffset ≤ r.1)
  (hdisj : ranges.Pairwise fun r r' => r.2 ≤ r'.1 ∨ r'.2 ≤ r.1)

include habove hdisj

theorem foldlM_freeRange_inv (h : BuddyInv m s live 0 none M)
    (hM : ∀ x, InitialFree m ranges x → M.pages x = 0) :
    ∃ s' N, ranges.foldlM (memblockFreeRange m cpu) s = some s' ∧
      BuddyInv m s' live 0 none (M.add N) ∧ ∀ x, 0 < N x ↔ InitialFree m ranges x := by
  induction ranges generalizing s M with
  | nil => exact ⟨s, 0, rfl, by rwa [M.add_zero], fun x => by simp [InitialFree]⟩
  | cons r ranges ih =>
    obtain ⟨hr, hdisj⟩ := List.pairwise_cons.1 hdisj
    obtain ⟨s1, N1, hs1, h1, hN1⟩ := memblockFreeRange_inv hm hcpu h
      (habove r List.mem_cons_self) fun x hx => hM x (initialFree_cons.2 (.inl hx))
    have hapart : ∀ x, InitialFree m ranges x → ¬ InitialFree m [r] x := by
      rintro x ⟨r', hr', hlo, hhi⟩ ⟨r0, hr0, hlo0, hhi0⟩
      obtain rfl := List.mem_singleton.1 hr0
      have hsize : pageSize = 4096 := rfl
      have hd := hr r' hr'
      omega
    obtain ⟨s2, N2, hs2, h2, hN2⟩ := ih (fun r' hr' => habove r' (List.mem_cons_of_mem r hr'))
      hdisj h1 fun x hx => by
        have h0 := hM x (initialFree_cons.2 (.inr hx))
        have hn := mt (hN1 x).1 (hapart x hx)
        simp only [add, Pi.add_apply]
        omega
    refine ⟨s2, N1 + N2, ?_, by rwa [← M.add_add], fun x => ?_⟩
    · rw [List.foldlM_cons, hs1]
      exact hs2
    have h1x := hN1 x
    have h2x := hN2 x
    rw [initialFree_cons, ← h1x, ← h2x, Pi.add_apply]
    omega

/-- `memblock_free_all` hands over the pages that lie whole in its ranges. -/
theorem memblockFreeAll_inv :
    ∃ s N, memblockFreeAll m cpu ranges = some s ∧ BuddyInv m s [] 0 none N ∧
      ∀ x, 0 < N.pages x ↔ InitialFree m ranges x := by
  obtain ⟨s, N, hs, h, hN⟩ := foldlM_freeRange_inv hm hcpu habove hdisj (pageAllocInit_inv m)
    fun _ _ => rfl
  refine ⟨s, empty.add N, hs, h, fun x => ?_⟩
  rw [← hN x]
  simp [add, empty]

end Boot

/-! ## Sequences of calls -/

/-- The allocator, and the blocks in the hands of its callers. -/
structure Sys where
  pa : PageAlloc
  live : List (Nat × Nat)

/-- A call on some CPU. -/
inductive Call where
  | alloc (cpu order : Nat) (shrunk : List Nat)
  | free (cpu pg order : Nat)

/-- What a call returns and leaves behind. A failed `assert` is no result. -/
def Call.exec (m : Machine) (σ : Sys) : Call → Option (Option Nat × Sys)
  | .alloc cpu order shrunk =>
    (pageAlloc m σ.pa cpu order shrunk).map fun r =>
      (r.1, ⟨r.2.2, addBlock r.1 order (keptBlocks r.2.1 σ.live shrunk)⟩)
  | .free cpu pg order =>
    (pageFree m σ.pa cpu pg order).map fun s => (none, ⟨s, σ.live.erase (pg, order)⟩)

/-- What the callers promise: orders that exist, and frees of what is allocated. The page cache
gives back single pages that it holds. -/
def Call.Legal (m : Machine) (σ : Sys) : Call → Prop
  | .alloc cpu order shrunk =>
    cpu < m.ncpu ∧ order ≤ pageOrderMax ∧ shrunk.Nodup ∧ ∀ p ∈ shrunk, (p, 0) ∈ σ.live
  | .free cpu pg order => cpu < m.ncpu ∧ (pg, order) ∈ σ.live

/-- A block handed out is aligned to its size and apart from the blocks still allocated. -/
def Call.Sound (σ : Sys) (r : Option Nat) (σ' : Sys) : Call → Prop
  | .alloc _ order shrunk =>
    ∀ p, r = some p → p % 2 ^ order = 0 ∧ ∃ shrank,
      σ'.live = (p, order) :: keptBlocks shrank σ.live shrunk ∧
        ∀ b ∈ keptBlocks shrank σ.live shrunk, b.1 + 2 ^ b.2 ≤ p ∨ p + 2 ^ order ≤ b.1
  | .free _ pg order => σ'.live = σ.live.erase (pg, order)

/-- A legal call that returns. -/
def Step (m : Machine) (σ σ' : Sys) : Prop :=
  ∃ c : Call, c.Legal m σ ∧ ∃ r, c.exec m σ = some (r, σ')

section Calls

variable {m : Machine} {M : Domain} (hm : m.physOffset % 2 ^ 24 = 0)
include hm

/-- A legal call returns, keeps the partition and hands out a block of its own. -/
theorem Call.exec_inv {σ : Sys} (h : BuddyInv m σ.pa σ.live 0 none M) (c : Call)
    (hc : c.Legal m σ) :
    ∃ r σ', c.exec m σ = some (r, σ') ∧ c.Sound σ r σ' ∧ BuddyInv m σ'.pa σ'.live 0 none M := by
  cases c with
  | alloc cpu order shrunk =>
    obtain ⟨hcpu, -, hnd, hlive⟩ := hc
    obtain ⟨r, shrank, s', hs', h', -⟩ := pageAlloc_inv hm h order hcpu hnd hlive
    refine ⟨r, ⟨s', addBlock r order (keptBlocks shrank σ.live shrunk)⟩, ?_, ?_, h'⟩
    · rw [Call.exec, hs']
      rfl
    · rintro p rfl
      exact ⟨(h'.live (p, order) List.mem_cons_self).2.1, shrank, rfl, fun b hb =>
        ((List.pairwise_cons.1 h'.live_apart).1 b hb).symm⟩
  | free cpu pg order =>
    obtain ⟨hcpu, hmem⟩ := hc
    obtain ⟨s', hs', h'⟩ := pageFree_inv hm hcpu (h.perm (List.perm_cons_erase hmem))
    refine ⟨none, ⟨s', σ.live.erase (pg, order)⟩, ?_, rfl, h'⟩
    rw [Call.exec, hs']
    rfl

theorem Step.inv {σ σ' : Sys} (hstep : Step m σ σ') (h : BuddyInv m σ.pa σ.live 0 none M) :
    BuddyInv m σ'.pa σ'.live 0 none M := by
  obtain ⟨c, hc, r, hr⟩ := hstep
  obtain ⟨r', σ1, hr', -, h'⟩ := c.exec_inv hm h hc
  cases hr.symm.trans hr'
  exact h'

variable (hcpu : cpu < m.ncpu) (habove : ∀ r ∈ ranges, m.physOffset ≤ r.1)
  (hdisj : ranges.Pairwise fun r r' => r.2 ≤ r'.1 ∨ r'.2 ≤ r.1)
include hcpu habove hdisj

/-- Every state that the boot code and a sequence of legal calls reach is a partition. -/
theorem memblockFreeAll_run :
    ∃ s0 N, memblockFreeAll m cpu ranges = some s0 ∧ (∀ x, 0 < N.pages x ↔ InitialFree m ranges x) ∧
      ∀ σ, Run (Step m) ⟨s0, []⟩ σ → BuddyInv m σ.pa σ.live 0 none N := by
  obtain ⟨s0, N, hs0, h0, hN⟩ := memblockFreeAll_inv hm hcpu habove hdisj
  refine ⟨s0, N, hs0, hN, fun σ hrun => ?_⟩
  exact hrun.invariant (P := fun σ => BuddyInv m σ.pa σ.live 0 none N)
    (fun _ _ hstep => hstep.inv hm) h0

/-- In every state that the boot code and a sequence of legal calls reach, the free lists are fully
coalesced, and `page_is_buddy` knows the heads of the free blocks and no page inside of one. -/
theorem free_lists_coalesced : ∃ s0, memblockFreeAll m cpu ranges = some s0 ∧
    ∀ σ, Run (Step m) ⟨s0, []⟩ σ →
      (∀ k < pageOrderMax, ∀ p ∈ σ.pa.area k, findBuddyPfn p k ∉ σ.pa.area k) ∧
      ∀ k, ∀ p ∈ σ.pa.area k, pageIsBuddy σ.pa p k = true ∧
        ∀ x, p < x → x < p + 2 ^ k → ∀ j, pageIsBuddy σ.pa x j = false := by
  obtain ⟨s0, N, hs0, -, hinv⟩ := memblockFreeAll_run hm hcpu habove hdisj
  refine ⟨s0, hs0, fun σ hrun => ?_⟩
  have h := hinv σ hrun
  refine ⟨h.coalesced, fun k p hp => ⟨h.isBuddy_of_mem hp, fun x hlt hx j => ?_⟩⟩
  rw [Bool.eq_false_iff, Ne, pageIsBuddy_iff]
  rintro ⟨hfree, -⟩
  rcases h.free x hfree with hmem | hnone
  · -- with the block off its list, its pages are on no other
    apply (h.listDel hp).not_mem_area _ ((List.mem_erase_of_ne (ne_of_gt hlt)).2 hmem)
    rw [Pi.add_apply, span_of_mem (le_of_lt hlt) hx]
    omega
  · cases hnone

omit hm hcpu habove hdisj in
/-- One range of sixteen pages on one CPU. -/
theorem free_lists_coalesced_sixteen :
    ∃ s0, memblockFreeAll ⟨0x80000000, 1⟩ 0 [(0x80000000, 0x80010000)] = some s0 ∧
      ∀ σ, Run (Step ⟨0x80000000, 1⟩) ⟨s0, []⟩ σ →
        ∀ k < pageOrderMax, ∀ p ∈ σ.pa.area k, findBuddyPfn p k ∉ σ.pa.area k := by
  obtain ⟨s0, hs0, h⟩ := @free_lists_coalesced [(0x80000000, 0x80010000)] 0 ⟨0x80000000, 1⟩
    (by decide) (by decide) (by decide) (by decide)
  exact ⟨s0, hs0, fun σ hrun => (h σ hrun).1⟩

end Calls

/-- In every state that the boot code and a sequence of legal calls reach, each page handed over is
in one allocated block, one free list block or one per-CPU cache, and no other page is in any; and
every legal call returns without a failing `assert`, with a block that is aligned to its size and
apart from the blocks still allocated. -/
theorem page_allocator_contract {m : Machine} {cpu : Nat} {ranges : List (Nat × Nat)}
    (hm : m.physOffset % 2 ^ 24 = 0) (hcpu : cpu < m.ncpu)
    (habove : ∀ r ∈ ranges, m.physOffset ≤ r.1)
    (hdisj : ranges.Pairwise fun r r' => r.2 ≤ r'.1 ∨ r'.2 ≤ r.1) :
    ∃ s₀, memblockFreeAll m cpu ranges = some s₀ ∧ ∀ σ, Run (Step m) ⟨s₀, []⟩ σ →
        (∀ x, (InitialFree m ranges x →
            liveSpan σ.live x + areaSpan σ.pa.area x + pcpSpan m.ncpu σ.pa.pcp x = 1) ∧
          (¬ InitialFree m ranges x →
            liveSpan σ.live x + areaSpan σ.pa.area x + pcpSpan m.ncpu σ.pa.pcp x = 0)) ∧
        ∀ c : Call, c.Legal m σ → ∃ r σ', c.exec m σ = some (r, σ') ∧ c.Sound σ r σ' := by
  obtain ⟨s₀, N, hs0, hN, hinv⟩ := memblockFreeAll_run hm hcpu habove hdisj
  refine ⟨s₀, hs0, fun σ hrun => ?_⟩
  have h := hinv σ hrun
  refine ⟨fun x => ?_, fun c hc => ?_⟩
  · have hcover := h.cover x
    have honce := h.once x
    have hx := hN x
    rw [Pi.zero_apply] at hcover
    exact ⟨fun hin => by have := hx.2 hin; omega, fun hout => by have := mt hx.1 hout; omega⟩
  · obtain ⟨r, σ', hr, hsound, -⟩ := c.exec_inv hm h hc
    exact ⟨r, σ', hr, hsound⟩

/-- A machine with two CPUs whose memory has a hole of less than a page and ragged ends. -/
theorem page_allocator_contract_two_ranges :
    ∃ s₀, memblockFreeAll ⟨0x80000000, 2⟩ 1 [(0x80200123, 0x80300ff0), (0x80301000, 0x88000000)] =
        some s₀ ∧ ∀ σ, Run (Step ⟨0x80000000, 2⟩) ⟨s₀, []⟩ σ →
        ∀ c : Call, c.Legal ⟨0x80000000, 2⟩ σ →
          ∃ r σ', c.exec ⟨0x80000000, 2⟩ σ = some (r, σ') ∧ c.Sound σ r σ' := by
  obtain ⟨s₀, hs0, h⟩ := @page_allocator_contract ⟨0x80000000, 2⟩ 1
    [(0x80200123, 0x80300ff0), (0x80301000, 0x88000000)]
    (by decide) (by decide) (by decide) (by decide)
  exact ⟨s₀, hs0, fun σ hrun => (h σ hrun).2⟩

/-! ## Where memory may start -/

/-- For every memory map above `base`, and after every sequence of calls, the blocks handed out are
aligned to their size in physical memory and `page_free` takes them back. -/
def BaseWorks (base : Nat) : Prop :=
  ∀ ncpu cpu ranges, cpu < ncpu → (∀ r ∈ ranges, base ≤ r.1) →
    ranges.Pairwise (fun r r' : Nat × Nat => r.2 ≤ r'.1 ∨ r'.2 ≤ r.1) →
    ∃ s₀, memblockFreeAll ⟨base, ncpu⟩ cpu ranges = some s₀ ∧
      ∀ σ, Run (Step ⟨base, ncpu⟩) ⟨s₀, []⟩ σ →
        (∀ b ∈ σ.live, pageToPhys ⟨base, ncpu⟩ b.1 % 2 ^ (pageShift + b.2) = 0) ∧
        ∀ c b, c < ncpu → b ∈ σ.live → pageFree ⟨base, ncpu⟩ σ.pa c b.1 b.2 ≠ none

/-- The allocator works where the base of memory is aligned to the largest block. -/
theorem base_works_of_aligned (base : Nat) (hbase : base % 2 ^ 24 = 0) : BaseWorks base := by
  intro ncpu cpu ranges hcpu habove hdisj
  have hm : (Machine.mk base ncpu).physOffset % 2 ^ 24 = 0 := hbase
  obtain ⟨s0, N, hs0, -, hinv⟩ := memblockFreeAll_run hm hcpu habove hdisj
  refine ⟨s0, hs0, fun σ hrun => ?_⟩
  have h := hinv σ hrun
  refine ⟨fun b hb => (phys_aligned_iff hm (h.live b hb).1).2 (h.live b hb).2.1,
    fun c b hc hb => ?_⟩
  obtain ⟨s', hs', -⟩ := pageFree_inv hm hc (h.perm (List.perm_cons_erase hb))
  rw [hs']
  exact Option.some_ne_none s'

/-- The usual base of memory. -/
theorem base_works_dram : BaseWorks 0x80000000 := base_works_of_aligned 0x80000000 (by decide)

/-- With memory from `4096` on, the two pages of one range join to a block of two pages that starts
at an odd page, and `page_free` refuses it. -/
theorem base_breaks : ¬ BaseWorks 4096 := by
  intro h
  obtain ⟨s, s', hs, halloc, hfree⟩ : ∃ s s',
      memblockFreeAll ⟨4096, 1⟩ 0 [(4096, 12288)] = some s ∧
      pageAlloc ⟨4096, 1⟩ s 0 1 [] = some (some 0, true, s') ∧
      pageFree ⟨4096, 1⟩ s' 0 0 1 = none := ⟨_, _, rfl, rfl, rfl⟩
  obtain ⟨s0, hs0, hrun⟩ := h 1 0 [(4096, 12288)] (by decide) (by decide) (by decide)
  cases hs.symm.trans hs0
  have hstep : Step ⟨4096, 1⟩ ⟨s, []⟩ ⟨s', [(0, 1)]⟩ := by
    refine ⟨.alloc 0 1 [], ⟨by decide, by decide, List.nodup_nil, nofun⟩, some 0, ?_⟩
    rw [Call.exec, halloc]
    rfl
  exact (hrun _ (.single hstep)).2 0 (0, 1) (by decide) List.mem_cons_self hfree

end BrkKernel.Pgalloc
