import BrkKernel.Lib.Radix

/-!
# Mapping and unmapping page ranges

`map_pages`, `map_fixed_size_pages` and `__unmap_range` of `mm/mm.c` over a page table that is a
tree: addresses are page numbers, a leaf of level `0`, `1` or `2` covers `1`, `512` or `512 * 512`
pages, and the frames of new tables come from an allocator with its own state. The leaf that is made
for a physical page is a parameter, so the functions serve every kind of table entry. A failed
`assert` is the status `bad`, or no result.

`Mapped` is what a successful `map_pages` leaves behind: every page of the range has a leaf for the
right physical page, none of them had one before, and no other page notices. Undoing the range from
there restores every translation (`Mapped.unmapRange`).
-/

set_option autoImplicit false

namespace BrkKernel.Mm

open Lib Lib.Radix

variable {L σ : Type}

/-- `PTRS_PER_PGD`, `PTRS_PER_PMD` and `PTRS_PER_PT`. -/
def ptrsPerTable : Nat := 512

/-- The level above the entries of the page global directory. -/
def rootLevel : Nat := 3

/-- The pages of the virtual address space that a table translates. -/
def vpnCount : Nat := 2 ^ 27

/-- The pages below a leaf of level `t`: `PAGE_SIZE`, `PAGE_SIZE_2M` or `PAGE_SIZE_1G`. -/
def leafPages (t : Nat) : Nat := ptrsPerTable ^ t

/-- The leaf that translates the page `k`, with its level. -/
abbrev leafAt (e : Radix L) (k : Nat) : Option (Nat × L) := e.walk ptrsPerTable k rootLevel

/-- `__unmap_range` on the pages from `k` to `last`. -/
def unmapRange (last : Nat) : Nat → Nat → Radix L → Option (Radix L)
  | 0, _, e => some e
  | fuel + 1, k, e =>
    if k < last then
      match e.remove ptrsPerTable k rootLevel with
      | none => none
      | some (t, e') =>
        if leafPages t ≤ last - k then unmapRange last fuel (k + leafPages t) e' else none
    else some e

/-- `map_fixed_size_pages` with leaves of level `t` for `n` slots, of a range that began at
`start`. When a table cannot be made, what was mapped so far is unmapped. -/
def mapFixedSizePages (alloc : σ → Option Nat × σ) (mk : Nat → L) (t start : Nat) :
    Nat → Nat → Nat → Radix L → σ → Status × Radix L × σ
  | 0, _, _, e, s => (.ok, e, s)
  | n + 1, k, pfn, e, s =>
    match e.place ptrsPerTable alloc t k (mk pfn) rootLevel s with
    | (.ok, e', s') =>
      mapFixedSizePages alloc mk t start n (k + leafPages t) (pfn + leafPages t) e' s'
    | (.noMem, e', s') =>
      match unmapRange k (k - start) start e' with
      | some e'' => (.noMem, e'', s')
      | none => (.bad, e', s')
    | (.bad, e', s') => (.bad, e', s')

/-- The level of the leaves for the next `n` pages, by the alignment of both addresses. -/
def chunkLevel (k pfn n : Nat) : Nat :=
  if k % leafPages 2 = 0 ∧ pfn % leafPages 2 = 0 ∧ leafPages 2 ≤ n then 2
  else if k % leafPages 1 = 0 ∧ pfn % leafPages 1 = 0 ∧ leafPages 1 ≤ n then 1
  else 0

/-- The pages that the leaves of one level take: `rem_size` rounded down. -/
def chunkPages (k pfn n : Nat) : Nat :=
  n / leafPages (chunkLevel k pfn n) * leafPages (chunkLevel k pfn n)

/-- `map_pages` of `n` pages. -/
def mapPages (alloc : σ → Option Nat × σ) (mk : Nat → L) :
    Nat → Nat → Nat → Nat → Radix L → σ → Status × Radix L × σ
  | 0, _, _, _, e, s => (.ok, e, s)
  | fuel + 1, k, pfn, n, e, s =>
    if 0 < n then
      match mapFixedSizePages alloc mk (chunkLevel k pfn n) k
          (n / leafPages (chunkLevel k pfn n)) k pfn e s with
      | (.ok, e', s') =>
        mapPages alloc mk fuel (k + chunkPages k pfn n) (pfn + chunkPages k pfn n)
          (n - chunkPages k pfn n) e' s'
      | r => r
    else (.ok, e, s)

/-- The slots that `map_pages` uses as leaves, with their levels. -/
def leafSlots : Nat → Nat → Nat → Nat → List (Nat × Nat)
  | 0, _, _, _ => []
  | fuel + 1, k, pfn, n =>
    if 0 < n then
      ((List.range (n / leafPages (chunkLevel k pfn n))).map fun i =>
          (k + i * leafPages (chunkLevel k pfn n), chunkLevel k pfn n)) ++
        leafSlots fuel (k + chunkPages k pfn n) (pfn + chunkPages k pfn n)
          (n - chunkPages k pfn n)
    else []

/-! ## Slots -/

section Slots

variable {t k k' : Nat}

theorem level_cases (h : t < rootLevel) :
    t = 0 ∧ leafPages t = 1 ∨ t = 1 ∧ leafPages t = 512 ∨ t = 2 ∧ leafPages t = 262144 := by
  unfold rootLevel at h
  rcases (by omega : t = 0 ∨ t = 1 ∨ t = 2) with rfl | rfl | rfl
  · exact .inl ⟨rfl, rfl⟩
  · exact .inr (.inl ⟨rfl, rfl⟩)
  · exact .inr (.inr ⟨rfl, rfl⟩)

theorem leafPages_pos (h : t < rootLevel) : 0 < leafPages t := by
  rcases level_cases h with ⟨-, h⟩ | ⟨-, h⟩ | ⟨-, h⟩ <;> omega

theorem vpnCount_eq : vpnCount = 134217728 := rfl

theorem digit_zero (k : Nat) : digit ptrsPerTable k 0 = k % 512 := by
  simp [digit, ptrsPerTable]

theorem digit_one (k : Nat) : digit ptrsPerTable k 1 = k / 512 % 512 := by
  simp [digit, ptrsPerTable]

theorem digit_two (k : Nat) : digit ptrsPerTable k 2 = k / 262144 % 512 := rfl

/-- The pages of one slot agree in what is left of their number after the digits of the slot. -/
theorem sameSlot_iff (h : t < rootLevel) : SameSlot ptrsPerTable t rootLevel k k' ↔
      k % vpnCount / leafPages t = k' % vpnCount / leafPages t := by
  rw [vpnCount_eq]
  constructor
  · intro hs
    have h2 := hs 2 (Nat.le_of_lt_succ h) (by decide)
    rw [digit_two, digit_two] at h2
    rcases level_cases h with ⟨rfl, hl⟩ | ⟨rfl, hl⟩ | ⟨rfl, hl⟩
    · have h1 := hs 1 (by decide) (by decide)
      have h0 := hs 0 (by decide) (by decide)
      rw [digit_one, digit_one] at h1
      rw [digit_zero, digit_zero] at h0
      rw [hl]
      omega
    · have h1 := hs 1 (by decide) (by decide)
      rw [digit_one, digit_one] at h1
      rw [hl]
      omega
    · rw [hl]
      omega
  · intro hs j htj hj
    have hk : k % 134217728 / leafPages j = k' % 134217728 / leafPages j := by
      rcases level_cases h with ⟨rfl, hl⟩ | ⟨rfl, hl⟩ | ⟨rfl, hl⟩ <;>
        rcases level_cases hj with ⟨rfl, hj'⟩ | ⟨rfl, hj'⟩ | ⟨rfl, hj'⟩ <;>
        rw [hl] at hs <;> rw [hj'] <;> omega
    rcases level_cases hj with ⟨rfl, hj'⟩ | ⟨rfl, hj'⟩ | ⟨rfl, hj'⟩ <;> rw [hj'] at hk
    · rw [digit_zero, digit_zero]
      omega
    · rw [digit_one, digit_one]
      omega
    · rw [digit_two, digit_two]
      omega

/-- A page is translated by its low 27 bits. -/
theorem leafAt_congr (e : Radix L) (h : k % vpnCount = k' % vpnCount) :
    leafAt e k = leafAt e k' := by
  have hs : ∀ t, SameSlot ptrsPerTable t rootLevel k k' := by
    intro t j _ hj
    have h0 : SameSlot ptrsPerTable 0 rootLevel k k' := (sameSlot_iff (by decide)).2 (by rw [h])
    exact h0 j (Nat.zero_le j) hj
  ext r
  exact ⟨fun hk => walk_of_sameSlot hk (hs r.1), fun hk => walk_of_sameSlot hk (hs r.1).symm⟩

/-- The pages of an aligned slot within one turn of the address space. -/
theorem sameSlot_add_iff (h : t < rootLevel) {a i n : Nat} (hn : n ≤ vpnCount) (hi : i < n)
    (ha : a + leafPages t ≤ n) (hal : (k + a) % leafPages t = 0) :
    SameSlot ptrsPerTable t rootLevel (k + a) (k + i) ↔ a ≤ i ∧ i < a + leafPages t := by
  rw [sameSlot_iff h, vpnCount_eq]
  rw [vpnCount_eq] at hn
  rcases level_cases h with ⟨rfl, hl⟩ | ⟨rfl, hl⟩ | ⟨rfl, hl⟩ <;> rw [hl] at ha hal ⊢ <;> omega

/-- Slots that lie apart in one turn of the address space do not meet at any level. -/
theorem not_sameSlot_of_apart {t' b w x q : Nat} (ht : t < rootLevel) (ht' : t' < rootLevel)
    (hw : w ≤ vpnCount) (hx : x % leafPages t = 0) (hq : q % leafPages t' = 0) (hbx : b ≤ x)
    (hxw : x + leafPages t ≤ b + w) (hbq : b ≤ q) (hqw : q + leafPages t' ≤ b + w)
    (hapart : q + leafPages t' ≤ x ∨ x + leafPages t ≤ q) :
    ¬ SameSlot ptrsPerTable (max t t') rootLevel x q := by
  wlog hle : t' ≤ t generalizing t t' x q
  · rw [Nat.max_comm]
    exact fun hs => this ht' ht hq hx hbq hqw hbx hxw hapart.symm (Nat.le_of_not_le hle) hs.symm
  have hpos' := leafPages_pos ht'
  intro hs
  rw [Nat.max_eq_left hle] at hs
  have hiff := sameSlot_add_iff (k := b) (a := x - b) (i := q - b) ht hw (by omega) (by omega)
    (by rwa [Nat.add_sub_cancel' hbx])
  rw [Nat.add_sub_cancel' hbx, Nat.add_sub_cancel' hbq] at hiff
  have := hiff.1 hs
  omega

/-- A page of an aligned slot is one of those from its start on. -/
theorem exists_of_sameSlot (h : t < rootLevel) (hal : k % leafPages t = 0)
    (hs : SameSlot ptrsPerTable t rootLevel k k') :
    ∃ i < leafPages t, k' % vpnCount = (k + i) % vpnCount := by
  refine ⟨k' % vpnCount % leafPages t, Nat.mod_lt _ (leafPages_pos h), ?_⟩
  rw [sameSlot_iff h] at hs
  rw [vpnCount_eq] at hs ⊢
  rcases level_cases h with ⟨rfl, hl⟩ | ⟨rfl, hl⟩ | ⟨rfl, hl⟩ <;> rw [hl] at hal hs ⊢ <;> omega

end Slots

/-! ## A mapped range -/

/-- Page `k + i` of the table `e` belongs to a leaf for the right physical page whose slot lies in
the range of `n` pages, from page `from` of the range on. -/
def Covered (mk : Nat → L) (e : Radix L) (k pfn n low i : Nat) : Prop :=
  ∃ t p, t < rootLevel ∧ low ≤ p ∧ p ≤ i ∧ i < p + leafPages t ∧ p + leafPages t ≤ n ∧
    ((k + p) % leafPages t = 0 ∧ (pfn + p) % leafPages t = 0) ∧
    leafAt e (k + i) = some (t, mk (pfn + p))

/-- The table `e'` is the table `e` with the `n` pages from `k` on mapped to the physical pages
from `pfn` on. -/
structure Mapped (mk : Nat → L) (e e' : Radix L) (k pfn n : Nat) : Prop where
  small : n ≤ vpnCount
  inside : ∀ i, i < n → Covered mk e' k pfn n 0 i
  fresh : ∀ i, i < n → leafAt e (k + i) = none
  outside : ∀ k', (∀ i, i < n → k' % vpnCount ≠ (k + i) % vpnCount) → leafAt e' k' = leafAt e k'

section Mapped

variable {mk : Nat → L} {e e₁ e' : Radix L} {k pfn n m t : Nat} {alloc : σ → Option Nat × σ}
  {s s' : σ}

theorem Mapped.zero (mk : Nat → L) (e : Radix L) (k pfn : Nat) : Mapped mk e e k pfn 0 where
  small := Nat.zero_le _
  inside := fun _ hi => absurd hi (Nat.not_lt_zero _)
  fresh := fun _ hi => absurd hi (Nat.not_lt_zero _)
  outside := fun _ _ => rfl

/-- One leaf. -/
theorem Mapped.place (ht : t < rootLevel) (hal : k % leafPages t = 0) (hpfn : pfn % leafPages t = 0)
    (h : e.place ptrsPerTable alloc t k (mk pfn) rootLevel s = (.ok, e', s')) :
    Mapped mk e e' k pfn (leafPages t) := by
  obtain ⟨hok, rfl, -⟩ : _ ∧ _ ∧ _ := by simpa [Prod.ext_iff] using h
  have hsmall : leafPages t ≤ vpnCount := by
    rw [vpnCount_eq]
    rcases level_cases ht with ⟨-, h⟩ | ⟨-, h⟩ | ⟨-, h⟩ <;> omega
  have hsame : ∀ i, i < leafPages t → SameSlot ptrsPerTable t rootLevel k (k + i) := by
    intro i hi
    have hiff := sameSlot_add_iff (a := 0) ht hsmall hi (by omega) hal
    exact hiff.2 ⟨Nat.zero_le i, by omega⟩
  refine ⟨hsmall, ?_, ?_, ?_⟩
  · intro i hi
    refine ⟨t, 0, ht, Nat.le_refl 0, Nat.zero_le i, by omega, by omega, ⟨hal, hpfn⟩, ?_⟩
    exact walk_place_same (Nat.le_of_lt ht) hok (hsame i hi)
  · intro i hi
    exact (vacant_of_place_ok (Nat.le_of_lt ht) hok).walk_eq_none (hsame i hi)
  intro k' hk'
  refine walk_place_other (.inr ⟨Nat.le_of_lt ht, fun hs => ?_⟩)
  obtain ⟨i, hi, heq⟩ := exists_of_sameSlot ht hal hs
  exact hk' i hi heq

/-- Two ranges, one after the other. -/
theorem Mapped.append (h1 : Mapped mk e e₁ k pfn n) (h2 : Mapped mk e₁ e' (k + n) (pfn + n) m) :
    Mapped mk e e' k pfn (n + m) := by
  -- a page of the first range is not met again in the second one
  have hdisj : ∀ i j, i < n → j < m → (k + i) % vpnCount ≠ (k + n + j) % vpnCount := by
    intro i j hi hj heq
    obtain ⟨t, p, -, -, -, -, -, -, hleaf⟩ := h1.inside i hi
    have hnone := h2.fresh j hj
    rw [← leafAt_congr e₁ heq, hleaf] at hnone
    cases hnone
  have hsmall : n + m ≤ vpnCount := by
    by_contra hlt
    have hn := h1.small
    have hm := h2.small
    by_cases hz : n = 0
    · omega
    · apply hdisj 0 (vpnCount - n) (by omega) (by omega)
      rw [Nat.add_zero, show k + n + (vpnCount - n) = k + vpnCount by omega, Nat.add_mod_right]
  refine ⟨hsmall, ?_, ?_, ?_⟩
  · intro i hi
    by_cases hlt : i < n
    · obtain ⟨t, p, ht, hlow, hp, hip, hpn, hal, hleaf⟩ := h1.inside i hlt
      refine ⟨t, p, ht, hlow, hp, hip, by omega, hal, ?_⟩
      rw [h2.outside (k + i) fun j hj => hdisj i j hlt hj]
      exact hleaf
    · obtain ⟨t, p, ht, hlow, hp, hip, hpn, hal, hleaf⟩ := h2.inside (i - n) (by omega)
      refine ⟨t, n + p, ht, Nat.zero_le _, by omega, by omega, by omega, ?_, ?_⟩
      · rwa [← Nat.add_assoc, ← Nat.add_assoc]
      · rwa [show k + n + (i - n) = k + i by omega, Nat.add_assoc pfn] at hleaf
  · intro i hi
    by_cases hlt : i < n
    · exact h1.fresh i hlt
    have hnone := h2.fresh (i - n) (by omega)
    rw [show k + n + (i - n) = k + i by omega] at hnone
    rw [← h1.outside (k + i) fun j hj heq => ?_]
    · exact hnone
    · have := hdisj j (i - n) hj (by omega)
      rw [show k + n + (i - n) = k + i by omega] at this
      exact this heq.symm
  · intro k' hk'
    rw [h2.outside k' fun j hj => ?_, h1.outside k' fun i hi => hk' i (by omega)]
    rw [Nat.add_assoc]
    exact hk' (n + j) (by omega)

/-- What a successful `map_fixed_size_pages` leaves behind. -/
theorem mapped_of_mapFixedSizePages {start : Nat}
    (ht : t < rootLevel) (hal : k % leafPages t = 0) (hpal : pfn % leafPages t = 0)
    (h : mapFixedSizePages alloc mk t start n k pfn e s = (.ok, e', s')) :
    Mapped mk e e' k pfn (n * leafPages t) := by
  fun_induction mapFixedSizePages alloc mk t start n k pfn e s with
  | case1 k pfn =>
    cases h
    rw [zero_mul]
    exact Mapped.zero mk _ k pfn
  | case2 _ _ _ _ _ _ _ hp ih =>
    have hone := Mapped.place ht hal hpal hp
    rw [Nat.succ_mul, add_comm]
    exact hone.append (ih (by rwa [Nat.add_mod_right]) (by rwa [Nat.add_mod_right]) h)
  | case3 => cases h
  | case4 => cases h
  | case5 => cases h

theorem chunkLevel_lt (k pfn n : Nat) : chunkLevel k pfn n < rootLevel := by
  unfold chunkLevel
  split
  · decide
  · split <;> decide

/-- A chunk starts on a slot of its level and has at least one slot. -/
theorem chunkLevel_spec (k pfn : Nat) {n : Nat} (hn : 0 < n) :
    k % leafPages (chunkLevel k pfn n) = 0 ∧ pfn % leafPages (chunkLevel k pfn n) = 0 ∧
      leafPages (chunkLevel k pfn n) ≤ n := by
  unfold chunkLevel
  split
  · assumption
  · split
    · assumption
    · exact ⟨Nat.mod_one k, Nat.mod_one pfn, hn⟩

theorem chunkPages_le (k pfn n : Nat) : chunkPages k pfn n ≤ n := Nat.div_mul_le_self _ _

theorem chunkPages_pos (k pfn : Nat) {n : Nat} (hn : 0 < n) : 0 < chunkPages k pfn n := by
  have hpos := leafPages_pos (chunkLevel_lt k pfn n)
  exact Nat.mul_pos (Nat.div_pos (chunkLevel_spec k pfn hn).2.2 hpos) hpos

/-- What a successful `map_pages` leaves behind. -/
theorem mapped_of_mapPages {fuel : Nat} (hfuel : n ≤ fuel)
    (h : mapPages alloc mk fuel k pfn n e s = (.ok, e', s')) : Mapped mk e e' k pfn n := by
  fun_induction mapPages alloc mk fuel k pfn n e s with
  | case1 k pfn n =>
    obtain rfl : n = 0 := by omega
    cases h
    exact Mapped.zero mk _ k pfn
  | case2 _ k pfn n e _ hn e₁ _ hp ih =>
    have hle := chunkPages_le k pfn n
    have hpos := chunkPages_pos k pfn hn
    have hone : Mapped mk e e₁ k pfn (chunkPages k pfn n) :=
      mapped_of_mapFixedSizePages (chunkLevel_lt k pfn n) (chunkLevel_spec k pfn hn).1
        (chunkLevel_spec k pfn hn).2.1 hp
    have hall := hone.append (ih (by omega) h)
    rwa [Nat.add_sub_cancel' hle] at hall
  | case3 _ _ _ _ _ _ _ hne => exact absurd h (hne e' s')
  | case4 _ k pfn n =>
    obtain rfl : n = 0 := by omega
    cases h
    exact Mapped.zero mk _ k pfn

end Mapped

/-! ## Unmapping -/

/-- The range is unmapped up to its page `a`, which is the first page of a leaf. -/
structure Unmapping (mk : Nat → L) (e e' : Radix L) (k pfn n a : Nat) : Prop where
  left : ∀ i, a ≤ i → i < n → Covered mk e' k pfn n a i
  gone : ∀ i, i < a → i < n → leafAt e' (k + i) = none
  outside : ∀ k', (∀ i, i < n → k' % vpnCount ≠ (k + i) % vpnCount) → leafAt e' k' = leafAt e k'

section Unmapping

variable {mk : Nat → L} {e e₁ e' : Radix L} {k pfn n a : Nat}

/-- One leaf more. -/
theorem Unmapping.step (h : Unmapping mk e e₁ k pfn n a) (hn : n ≤ vpnCount) (ha : a < n) :
    ∃ t e', t < rootLevel ∧ e₁.remove ptrsPerTable (k + a) rootLevel = some (t, e') ∧
      a + leafPages t ≤ n ∧ Unmapping mk e e' k pfn n (a + leafPages t) := by
  obtain ⟨t, p, ht, hap, hpa, -, hpn, ⟨hal, -⟩, hleaf⟩ := h.left a (Nat.le_refl a) ha
  obtain rfl : a = p := by omega
  obtain ⟨e', he'⟩ := exists_remove hleaf
  have hslot : ∀ i, i < n →
      (SameSlot ptrsPerTable t rootLevel (k + a) (k + i) ↔ a ≤ i ∧ i < a + leafPages t) :=
    fun i hi => sameSlot_add_iff ht hn hi hpn hal
  refine ⟨t, e', ht, he', hpn, ?_, ?_, ?_⟩
  · intro i hai hi
    obtain ⟨t', p', ht', hap', hpi, hip, hpn', ⟨hal', hpal'⟩, hleaf'⟩ := h.left i (by omega) hi
    have hout : leafAt e' (k + i) = leafAt e₁ (k + i) :=
      walk_remove_other he' fun hs => by
        have := (hslot i hi).1 hs
        omega
    refine ⟨t', p', ht', ?_, hpi, hip, hpn', ⟨hal', hpal'⟩, hout.trans hleaf'⟩
    -- a leaf that began inside the removed slot would be the removed one
    by_contra hlt
    have hin := walk_of_sameSlot hleaf ((hslot p' (by omega)).2 ⟨hap', by omega⟩)
    have hp' : SameSlot ptrsPerTable t' rootLevel (k + i) (k + p') := by
      apply SameSlot.symm
      exact (sameSlot_add_iff ht' hn hi hpn' hal').2 ⟨hpi, hip⟩
    have hin' := walk_of_sameSlot hleaf' hp'
    rw [hin] at hin'
    have htt : t = t' := (Prod.mk.inj (Option.some.inj hin')).1
    subst htt
    have hpp : p' = a := by
      rcases level_cases ht with ⟨-, hl⟩ | ⟨-, hl⟩ | ⟨-, hl⟩ <;> rw [hl] at hal hal' hlt <;> omega
    omega
  · intro i hia hi
    by_cases hlt : i < a
    · exact (walk_remove_other he' fun hs => by
        have := (hslot i hi).1 hs
        omega).trans (h.gone i hlt hi)
    · exact walk_remove_same he' ((hslot i hi).2 ⟨by omega, hia⟩)
  · intro k' hk'
    rw [← h.outside k' hk']
    apply walk_remove_other he'
    intro hs
    -- `k'` would be a page of the removed slot
    obtain ⟨i, hi, heq⟩ := exists_of_sameSlot ht hal hs
    rw [add_assoc] at heq
    exact hk' (a + i) (by omega) heq

theorem Unmapping.finish (h : Unmapping mk e e₁ k pfn n a) (hn : n ≤ vpnCount) (ha : a ≤ n)
    {fuel : Nat} (hfuel : n - a ≤ fuel) :
    ∃ e', unmapRange (k + n) fuel (k + a) e₁ = some e' ∧ Unmapping mk e e' k pfn n n := by
  induction fuel generalizing e₁ a with
  | zero =>
    obtain rfl : a = n := by omega
    exact ⟨e₁, rfl, h⟩
  | succ fuel ih =>
    rw [unmapRange]
    by_cases hlt : a < n
    · obtain ⟨t, e2, ht, hrem, hle, hnext⟩ := h.step hn hlt
      have hpos := leafPages_pos ht
      obtain ⟨e', he', hend⟩ := ih hnext hle (by omega)
      refine ⟨e', ?_, hend⟩
      rw [if_pos (by omega), hrem]
      simp only
      rw [if_pos (by omega), add_assoc]
      exact he'
    · obtain rfl : a = n := by omega
      exact ⟨e₁, by rw [if_neg (by omega)], h⟩

/-- Unmapping a mapped range restores every translation. -/
theorem Mapped.unmapRange (h : Mapped mk e e' k pfn n) :
    ∃ e'', unmapRange (k + n) n k e' = some e'' ∧ ∀ k', leafAt e'' k' = leafAt e k' := by
  have hstart : Unmapping mk e e' k pfn n 0 :=
    ⟨fun i _ hi => h.inside i hi, fun i hi => absurd hi (Nat.not_lt_zero i), h.outside⟩
  obtain ⟨e'', he'', hend⟩ := hstart.finish h.small (Nat.zero_le n) (Nat.le_refl _)
  refine ⟨e'', he'', fun k' => ?_⟩
  by_cases hk' : ∃ i, i < n ∧ k' % vpnCount = (k + i) % vpnCount
  · obtain ⟨i, hi, heq⟩ := hk'
    rw [leafAt_congr e'' heq, leafAt_congr e heq, hend.gone i hi hi, h.fresh i hi]
  · exact hend.outside k' fun i hi heq => hk' ⟨i, hi, heq⟩

end Unmapping

/-! ## The frames of the tables -/

section Tables

variable {e e' : Radix L}

theorem unmapRange_tables {last fuel k : Nat} (h : unmapRange last fuel k e = some e') :
    tables ptrsPerTable e' = tables ptrsPerTable e := by
  fun_induction unmapRange last fuel k e with
  | case1 =>
    cases h
    rfl
  | case2 => cases h
  | case3 _ _ _ _ _ _ hr _ ih =>
    rw [ih h]
    exact tables_remove (by decide) hr
  | case4 => cases h
  | case5 =>
    cases h
    rfl

variable {alloc : σ → Option Nat × σ} {I : σ → (Nat → Nat) → Prop} {s : σ} {h : Nat → Nat}
  (hsome : ∀ s f s' h, alloc s = (some f, s') → I s h → I s' (h + Pi.single f 1))
  (hnone : ∀ s s' h, alloc s = (none, s') → I s h → I s' h) {mk : Nat → L}
  {t start fuel n k pfn : Nat} {out : Status × Radix L × σ}

include hsome hnone

/-- What the allocator keeps true of the frames in use, `map_fixed_size_pages` keeps true of them
with the frames of the table. -/
theorem mapFixedSizePages_tables (hI : I s (h + tables ptrsPerTable e))
    (hout : mapFixedSizePages alloc mk t start n k pfn e s = out) :
    I out.2.2 (h + tables ptrsPerTable out.2.1) := by
  subst hout
  have hone : ∀ {k pfn e s r}, I s (h + tables ptrsPerTable e) →
      e.place ptrsPerTable alloc t k (mk pfn) rootLevel s = r →
        I r.2.2 (h + tables ptrsPerTable r.2.1) := by
    rintro k pfn e s _ hI rfl
    exact place_tables (by decide) hsome hnone hI
  fun_induction mapFixedSizePages alloc mk t start n k pfn e s with
  | case1 => exact hI
  | case2 _ _ _ _ _ _ _ hp ih => exact ih (hone hI hp)
  | case3 _ _ _ _ _ _ _ hp _ hu =>
    rw [unmapRange_tables hu]
    exact hone hI hp
  | case4 _ _ _ _ _ _ _ hp => exact (hone hI hp :)
  | case5 _ _ _ _ _ _ _ hp => exact hone hI hp

theorem mapPages_tables (hI : I s (h + tables ptrsPerTable e))
    (hout : mapPages alloc mk fuel k pfn n e s = out) :
    I out.2.2 (h + tables ptrsPerTable out.2.1) := by
  subst hout
  fun_induction mapPages alloc mk fuel k pfn n e s with
  | case1 => exact hI
  | case2 _ _ _ _ _ _ _ _ _ hp ih => exact ih (mapFixedSizePages_tables hsome hnone hI hp)
  | case3 => exact mapFixedSizePages_tables hsome hnone hI rfl
  | case4 => exact hI

end Tables

/-! ## Mapping succeeds on vacant slots -/

section Success

variable {alloc : σ → Option Nat × σ} {room : Nat → σ → Prop} {mk : Nat → L} {e e₀ e₁ e' : Radix L}
  {t fuel k pfn n : Nat} {s : σ} {out : Status × Radix L × σ}

/-- The slots of a range lie in it and are aligned. -/
theorem leafSlots_spec {p : Nat × Nat} (h : p ∈ leafSlots fuel k pfn n) :
    p.2 < rootLevel ∧ p.1 % leafPages p.2 = 0 ∧ k ≤ p.1 ∧ p.1 + leafPages p.2 ≤ k + n := by
  fun_induction leafSlots fuel k pfn n with
  | case1 => cases h
  | case2 _ k pfn n hn ih =>
    rw [List.mem_append, List.mem_map] at h
    have hle := chunkPages_le k pfn n
    rcases h with ⟨i, hi, rfl⟩ | h
    · rw [List.mem_range] at hi
      obtain ⟨hal, -, -⟩ := chunkLevel_spec k pfn hn
      have hmul : (i + 1) * leafPages (chunkLevel k pfn n) ≤ chunkPages k pfn n :=
        Nat.mul_le_mul_right _ hi
      rw [Nat.succ_mul] at hmul
      refine ⟨chunkLevel_lt k pfn n, ?_, Nat.le_add_right _ _, by simp only; omega⟩
      rw [Nat.add_mul_mod_self_right]
      exact hal
    · obtain ⟨ht, hal, hk, hend⟩ := ih h
      exact ⟨ht, hal, by omega, by omega⟩
  | case3 => cases h

/-- What was mapped so far is there after a leaf could not be placed. -/
theorem Mapped.congr (h : Mapped mk e e₁ k pfn n) (hsame : ∀ k', leafAt e' k' = leafAt e₁ k') :
    Mapped mk e e' k pfn n where
  small := h.small
  inside := by
    intro i hi
    obtain ⟨t, p, ht, hlow, hp, hip, hpn, hal, hleaf⟩ := h.inside i hi
    exact ⟨t, p, ht, hlow, hp, hip, hpn, hal, (hsame _).trans hleaf⟩
  fresh := h.fresh
  outside := fun k' hk' => (hsame k').trans (h.outside k' hk')

/-- The vacant slots of the window of `w` pages from `b` on are still vacant, but for those that
meet the pages from `k` to `k'`. -/
def StaysVacant (b w k k' : Nat) (e e' : Radix L) : Prop :=
  ∀ q t, t < rootLevel → q % leafPages t = 0 → b ≤ q → q + leafPages t ≤ b + w →
    (q + leafPages t ≤ k ∨ k' ≤ q) → e.Vacant ptrsPerTable q t rootLevel →
      e'.Vacant ptrsPerTable q t rootLevel

variable (halloc : ∀ n s, room (n + 1) s → ∃ f s', alloc s = (some f, s') ∧ room n s')
  (hmono : ∀ m n s, m ≤ n → room n s → room m s)

include halloc hmono

/-- A leaf goes into a vacant slot, unless there is no frame for a table. -/
theorem place_vacant {b w r : Nat} (ht : t < rootLevel) (hw : w ≤ vpnCount)
    (hal : k % leafPages t = 0) (hbk : b ≤ k) (hkw : k + leafPages t ≤ b + w)
    (hv : e.Vacant ptrsPerTable k t rootLevel)
    (hout : e.place ptrsPerTable alloc t k (mk pfn) rootLevel s = out) :
    out.1 ≠ .bad ∧ (room (r + rootLevel) s → out.1 = .ok ∧ room r out.2.2) ∧
      StaysVacant b w k (k + leafPages t) e out.2.1 := by
  subst hout
  have hle := Nat.le_of_lt ht
  refine ⟨place_ne_bad hv hle, fun hr => ?_, fun q t' ht' hq hbq hqw hapart hvq => ?_⟩
  · apply place_ok hv hle halloc fun n s => hmono n (n + 1) s (Nat.le_succ n)
    exact hmono _ _ _ (by omega) hr
  · exact vacant_place hvq hle (Nat.le_of_lt ht')
      (not_sameSlot_of_apart ht ht' hw hal hq hbk hkw hbq hqw hapart)

/-- `map_fixed_size_pages` on vacant slots meets nothing that is in the way and keeps the other
slots of the range vacant. With three frames for every slot it succeeds. -/
theorem mapFixedSizePages_vacant {start pfn0 b w r : Nat} (ht : t < rootLevel) (hw : w ≤ vpnCount)
    (hal : k % leafPages t = 0) (hpal : pfn % leafPages t = 0) (hbk : b ≤ k)
    (hkw : k + n * leafPages t ≤ b + w) (hstart : start ≤ k) (hpfn : pfn = pfn0 + (k - start))
    (hm : Mapped mk e₀ e start pfn0 (k - start))
    (hvac : ∀ i, i < n → e.Vacant ptrsPerTable (k + i * leafPages t) t rootLevel)
    (hout : mapFixedSizePages alloc mk t start n k pfn e s = out) :
    out.1 ≠ .bad ∧ (room (r + rootLevel * n) s → out.1 = .ok ∧ room r out.2.2) ∧
      (out.1 = .ok → StaysVacant b w k (k + n * leafPages t) e out.2.1) := by
  subst hout
  induction n generalizing k pfn e s with
  | zero => exact ⟨nofun, fun h => ⟨rfl, h⟩, fun _ _ _ _ _ _ _ _ h => h⟩
  | succ n ih =>
    rw [Nat.succ_mul] at hkw ⊢
    rw [mapFixedSizePages, Nat.mul_succ, ← Nat.add_assoc]
    cases hp : e.place ptrsPerTable alloc t k (mk pfn) rootLevel s with
    | mk status rest =>
      obtain ⟨e₁, s1⟩ := rest
      obtain ⟨hbad, hroom, hkeep⟩ := place_vacant halloc hmono (r := r + rootLevel * n) ht hw hal
        hbk (by omega) (by simpa using hvac 0 (Nat.succ_pos n)) hp
      cases status with
      | ok =>
        have hm' : Mapped mk e₀ e₁ start pfn0 (k + leafPages t - start) := by
          rw [show k + leafPages t - start = k - start + leafPages t by omega]
          apply hm.append
          rw [Nat.add_sub_cancel' hstart, ← hpfn]
          exact Mapped.place ht hal hpal hp
        have hvac' : ∀ i, i < n →
            e₁.Vacant ptrsPerTable (k + leafPages t + i * leafPages t) t rootLevel := by
          intro i hi
          have hmul : (i + 1) * leafPages t ≤ n * leafPages t := Nat.mul_le_mul_right _ hi
          have hv := hvac (i + 1) (by omega)
          rw [Nat.succ_mul] at hmul hv
          rw [Nat.add_comm (i * leafPages t), ← Nat.add_assoc] at hv
          refine hkeep _ t ht ?_ (by omega) (by omega) (.inr (by omega)) hv
          rw [Nat.add_mul_mod_self_right, Nat.add_mod_right]
          exact hal
        obtain ⟨hb', hr', hk'⟩ := ih (s := s1) (by rwa [Nat.add_mod_right])
          (by rwa [Nat.add_mod_right]) (by omega) (by omega) (by omega)
          (show pfn + leafPages t = pfn0 + (k + leafPages t - start) by omega) hm' hvac'
        refine ⟨hb', fun h => hr' (hroom h).2, fun hok q t' ht' hq hbq hqw hapart hv => ?_⟩
        exact hk' hok q t' ht' hq hbq hqw (by omega) (hkeep q t' ht' hq hbq hqw (by omega) hv)
      | noMem =>
        have hsame : ∀ k', leafAt e₁ k' = leafAt e k' := by
          intro k'
          have hfail : leafAt (e.place ptrsPerTable alloc t k (mk pfn) rootLevel s).2.1 k' =
              leafAt e k' := walk_place_other (.inl (by rw [hp]; exact nofun))
          rwa [hp] at hfail
        obtain ⟨e2, hun, -⟩ := (hm.congr hsame).unmapRange
        rw [Nat.add_sub_cancel' hstart] at hun
        simp only [hun]
        exact ⟨nofun, fun h => absurd (hroom h).1 nofun, nofun⟩
      | bad => exact absurd rfl hbad

/-- `map_pages` on a range whose leaf slots are vacant meets nothing that is in the way, and
succeeds with three frames for every page. -/
theorem mapPages_vacant (hn : n ≤ vpnCount)
    (hvac : ∀ p ∈ leafSlots fuel k pfn n, e.Vacant ptrsPerTable p.1 p.2 rootLevel)
    (hout : mapPages alloc mk fuel k pfn n e s = out) :
    out.1 ≠ .bad ∧ (room (rootLevel * n) s → out.1 = .ok) := by
  subst hout
  induction fuel generalizing k pfn n e s with
  | zero => exact ⟨nofun, fun _ => rfl⟩
  | succ fuel ih =>
    rw [mapPages]
    split
    next hpos =>
      rw [leafSlots, if_pos hpos] at hvac
      have hle := chunkPages_le k pfn n
      have hcount : n / leafPages (chunkLevel k pfn n) ≤ chunkPages k pfn n :=
        Nat.le_mul_of_pos_right _ (leafPages_pos (chunkLevel_lt k pfn n))
      have hm : Mapped mk e e k pfn (k - k) := by
        rw [Nat.sub_self]
        exact Mapped.zero mk e k pfn
      obtain ⟨hbad, hroom, hkeep⟩ := mapFixedSizePages_vacant (b := k) (s := s)
        (r := rootLevel * (n - chunkPages k pfn n)) halloc hmono (chunkLevel_lt k pfn n) hn
        (chunkLevel_spec k pfn hpos).1 (chunkLevel_spec k pfn hpos).2.1 (Nat.le_refl k)
        (Nat.add_le_add_left hle k) (Nat.le_refl k) (show pfn = pfn + (k - k) by omega) hm
        (fun i hi => hvac _ (List.mem_append_left _
          (List.mem_map.2 ⟨i, List.mem_range.2 hi, rfl⟩))) rfl
      have hfirst : room (rootLevel * n) s →
          room (rootLevel * (n - chunkPages k pfn n) +
            rootLevel * (n / leafPages (chunkLevel k pfn n))) s := by
        apply hmono
        rw [← Nat.mul_add]
        exact Nat.mul_le_mul_left _ (by omega)
      split
      next e₁ s1 hp =>
        rw [hp] at hroom hkeep
        obtain ⟨hb', hr'⟩ := @ih e₁ (k + chunkPages k pfn n) (pfn + chunkPages k pfn n)
          (n - chunkPages k pfn n) s1 (by omega) (fun p hp => by
            obtain ⟨ht, hal, hk, hend⟩ := leafSlots_spec hp
            exact hkeep rfl p.1 p.2 ht hal (by omega) (by omega) (.inr hk)
              (hvac p (List.mem_append_right _ hp)))
        exact ⟨hb', fun h => hr' (hroom (hfirst h)).2⟩
      next => exact ⟨hbad, fun h => (hroom (hfirst h)).1⟩
    next => exact ⟨nofun, fun _ => rfl⟩

end Success

end BrkKernel.Mm
