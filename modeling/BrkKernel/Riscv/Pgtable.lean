import BrkKernel.Kern.Base
import BrkKernel.Mm.PageTable

/-!
# The Sv39 page table in memory

The entries of `arch/pgtable.h` as 64-bit words, tables as pages of words at physical addresses, and
`map_pages`, `map_fixed_size_pages`, `__unmap_range` and `unmap_pages` of `mm/mm.c` over them. What
`alloc_frame` answers is a list of physical addresses, `0` for a failure; the status `bad` is a
failed `assert`.

`translate` is the walk of the hardware: from the root down, by nine bits of the address at each
level, for the addresses whose upper bits repeat bit 38.
-/

set_option autoImplicit false

namespace BrkKernel.Riscv

open Lib Lib.Radix Mm Function

/-! ## Entries -/

/-- `PTE_V`. -/
def pteV : Nat := 1

/-- `PGD_FLAGS_MASK`, `PMD_FLAGS_MASK` and `PTE_FLAGS_MASK`. -/
def flagsMask : Nat := 0x3ff

/-- `pgd_flags`, `pmd_flags` and `pte_flags`. -/
def entryFlags (w : Nat) : Nat := w &&& flagsMask

/-- `pgd_is_valid`, `pmd_is_valid` and `pte_is_valid`. -/
def entryIsValid (w : Nat) : Bool := entryFlags w &&& pteV != 0

/-- `pgd_is_leaf` and `pmd_is_leaf`. -/
def entryIsLeaf (w : Nat) : Bool := entryIsValid w && entryFlags w != pteV

/-- `pgd_next` and `pmd_next`. -/
def entryNext (w : Nat) : Nat := u64 ((w >>> 10) <<< pageShift)

/-- `pgd_set_next` and `pmd_set_next`. -/
def entrySetNext (phys : Nat) : Nat := ((phys >>> pageShift) <<< 10) ||| pteV

/-- The index of an address in a table whose entries cover `2 ^ shift` bytes. -/
def entryIndex (shift va : Nat) : Nat := (va >>> shift) &&& (ptrsPerTable - 1)

/-- A leaf whose physical page number starts at bit `ppn` of the word. -/
def entrySetLeaf (shift ppn phys flags : Nat) : Nat := ((phys >>> shift) <<< ppn) ||| pteV ||| flags

/-- The physical address of such a leaf. -/
def entryLeaf (shift ppn w : Nat) : Nat := u64 ((w >>> ppn) <<< shift)

/-- `PGD_SHIFT`. -/
def pgdShift : Nat := 30

/-- `PMD_SHIFT`. -/
def pmdShift : Nat := 21

/-- `pgd_index`. -/
def pgdIndex (va : Nat) : Nat := entryIndex pgdShift va

/-- `pmd_index`. -/
def pmdIndex (va : Nat) : Nat := entryIndex pmdShift va

/-- `pte_index`. -/
def pteIndex (va : Nat) : Nat := entryIndex pageShift va

/-- `pgd_set_leaf`. -/
def pgdSetLeaf (phys flags : Nat) : Nat := entrySetLeaf pgdShift 28 phys flags

/-- `pmd_set_leaf`. -/
def pmdSetLeaf (phys flags : Nat) : Nat := entrySetLeaf pmdShift 19 phys flags

/-- `pte_set_leaf`. -/
def pteSetLeaf (phys flags : Nat) : Nat := entrySetLeaf pageShift 10 phys flags

/-! ## Tables in memory -/

/-- The words of the tables, by the physical address of the table and the index in it. -/
abbrev PtMem : Type := Nat → Nat → Nat

/-- Write one entry. -/
def PtMem.set (mem : PtMem) (t i w : Nat) : PtMem :=
  update mem t (update (mem t) i w)

/-- `memset(table, 0, PAGE_SIZE)`. -/
def PtMem.clear (mem : PtMem) (t : Nat) : PtMem := update mem t fun _ => 0

/-- `PAGE_SIZE_2M`. -/
def pageSize2M : Nat := 2 ^ 21

/-- `PAGE_SIZE_1G`. -/
def pageSize1G : Nat := 2 ^ 30

/-- `alloc_frame`, with the answers still to come. -/
def allocFrame (pool : List Nat) : Nat × List Nat := (pool.headD 0, pool.tail)

/-- The table below entry `i` of the table `t`. When there is none, a frame is cleared and linked;
`none` when there is no frame. -/
def nextTable (mem : PtMem) (pool : List Nat) (t i : Nat) : Option Nat × PtMem × List Nat :=
  if entryIsValid (mem t i) then (some (entryNext (mem t i)), mem, pool)
  else if (allocFrame pool).1 = 0 then (none, mem, (allocFrame pool).2)
  else
    (some (allocFrame pool).1,
      (mem.clear (allocFrame pool).1).set t i (entrySetNext (allocFrame pool).1),
      (allocFrame pool).2)

/-- Set a leaf after the `assert` that the entry is not in use. -/
def setLeaf (mem : PtMem) (pool : List Nat) (t i w : Nat) : Status × PtMem × List Nat :=
  if entryIsValid (mem t i) then (.bad, mem, pool) else (.ok, mem.set t i w, pool)

/-- The body of the loop of `map_fixed_size_pages`. -/
def mapStep (root flags pageSz addr paddr : Nat) (mem : PtMem) (pool : List Nat) :
    Status × PtMem × List Nat :=
  if pageSz = pageSize1G then setLeaf mem pool root (pgdIndex addr) (pgdSetLeaf paddr flags)
  else
    match nextTable mem pool root (pgdIndex addr) with
    | (none, mem, pool) => (.noMem, mem, pool)
    | (some pmd, mem, pool) =>
      if pageSz = pageSize2M then setLeaf mem pool pmd (pmdIndex addr) (pmdSetLeaf paddr flags)
      else
        match nextTable mem pool pmd (pmdIndex addr) with
        | (none, mem, pool) => (.noMem, mem, pool)
        | (some pt, mem, pool) => setLeaf mem pool pt (pteIndex addr) (pteSetLeaf paddr flags)

/-- The body of the loop of `__unmap_range` from the page table on. -/
def unmapPte (mem : PtMem) (pt addr : Nat) : Option (Nat × PtMem) :=
  if entryIsValid (mem pt (pteIndex addr)) then some (pageSize, mem.set pt (pteIndex addr) 0)
  else none

/-- The body of the loop of `__unmap_range` from the page middle directory on. -/
def unmapPmd (mem : PtMem) (pmd endAddr addr : Nat) : Option (Nat × PtMem) :=
  if entryIsLeaf (mem pmd (pmdIndex addr)) then
    if pageSize2M ≤ endAddr - addr then some (pageSize2M, mem.set pmd (pmdIndex addr) 0) else none
  else if entryIsValid (mem pmd (pmdIndex addr)) then
    unmapPte mem (entryNext (mem pmd (pmdIndex addr))) addr
  else none

/-- The body of the loop of `__unmap_range`: the size of the leaf that was cleared. -/
def unmapStep (root endAddr addr : Nat) (mem : PtMem) : Option (Nat × PtMem) :=
  if entryIsLeaf (mem root (pgdIndex addr)) then
    if pageSize1G ≤ endAddr - addr then some (pageSize1G, mem.set root (pgdIndex addr) 0) else none
  else if entryIsValid (mem root (pgdIndex addr)) then
    unmapPmd mem (entryNext (mem root (pgdIndex addr))) endAddr addr
  else none

/-- `__unmap_range`. -/
def unmapRange (root endAddr : Nat) : Nat → Nat → PtMem → Option PtMem
  | 0, _, mem => some mem
  | fuel + 1, addr, mem =>
    if addr < endAddr then
      match unmapStep root endAddr addr mem with
      | none => none
      | some (size, mem') => unmapRange root endAddr fuel (u64 (addr + size)) mem'
    else some mem

/-- `map_fixed_size_pages`. -/
def mapFixedSizePages (root flags pageSz startAddr endAddr : Nat) :
    Nat → Nat → Nat → PtMem → List Nat → Status × PtMem × List Nat
  | 0, _, _, mem, pool => (.ok, mem, pool)
  | fuel + 1, addr, paddr, mem, pool =>
    if addr < endAddr then
      match mapStep root flags pageSz addr paddr mem pool with
      | (.ok, mem', pool') =>
        mapFixedSizePages root flags pageSz startAddr endAddr fuel (u64 (addr + pageSz))
          (u64 (paddr + pageSz)) mem' pool'
      | (.noMem, mem', pool') =>
        match unmapRange root addr ((addr - startAddr) / pageSize) startAddr mem' with
        | some mem'' => (.noMem, mem'', pool')
        | none => (.bad, mem', pool')
      | (.bad, mem', pool') => (.bad, mem', pool')
    else (.ok, mem, pool)

/-- The page size of the next chunk of `map_pages`. -/
def chunkSize (addr paddr rem : Nat) : Nat :=
  if addr % pageSize1G = 0 ∧ paddr % pageSize1G = 0 ∧ pageSize1G ≤ rem then pageSize1G
  else if addr % pageSize2M = 0 ∧ paddr % pageSize2M = 0 ∧ pageSize2M ≤ rem then pageSize2M
  else pageSize

/-- `round_down` of what is left to the page size of the chunk. -/
def chunkBytes (addr paddr rem : Nat) : Nat :=
  rem / chunkSize addr paddr rem * chunkSize addr paddr rem

/-- The loop of `map_pages`. -/
def mapPagesLoop (root flags endAddr : Nat) :
    Nat → Nat → Nat → PtMem → List Nat → Status × PtMem × List Nat
  | 0, _, _, mem, pool => (.ok, mem, pool)
  | fuel + 1, addr, paddr, mem, pool =>
    if addr < endAddr then
      match mapFixedSizePages root flags (chunkSize addr paddr (endAddr - addr)) addr
          (u64 (addr + chunkBytes addr paddr (endAddr - addr)))
          ((endAddr - addr) / chunkSize addr paddr (endAddr - addr)) addr paddr mem pool with
      | (.ok, mem', pool') =>
        mapPagesLoop root flags endAddr fuel
          (u64 (addr + chunkBytes addr paddr (endAddr - addr)))
          (u64 (paddr + chunkBytes addr paddr (endAddr - addr))) mem' pool'
      | r => r
    else (.ok, mem, pool)

/-- `map_pages`. -/
def mapPages (mem : PtMem) (root addr paddr size flags : Nat) (pool : List Nat) :
    Status × PtMem × List Nat :=
  if addr % pageSize = 0 ∧ size % pageSize = 0 ∧ paddr % pageSize = 0 then
    mapPagesLoop root flags (u64 (addr + size)) (size / pageSize) addr paddr mem pool
  else (.bad, mem, pool)

/-- `unmap_pages`. -/
def unmapPages (mem : PtMem) (root addr size : Nat) : Option PtMem :=
  if addr % pageSize = 0 ∧ size % pageSize = 0 then
    unmapRange root (u64 (addr + size)) (size / pageSize) addr mem
  else none

/-! ## Entries by level -/

/-- A leaf of the tree: the physical page and the flags. -/
structure Leaf where
  pfn : Nat
  flags : Nat
deriving DecidableEq, Repr

/-- The leaf that a word of level `lvl` spells. -/
def decode (lvl w : Nat) : Leaf :=
  ⟨entryLeaf (12 + 9 * lvl) (10 + 9 * lvl) w / pageSize, entryFlags w⟩

/-- The word of a leaf of level `lvl`: `pte_set_leaf`, `pmd_set_leaf` or `pgd_set_leaf`. -/
def encode (lvl phys flags : Nat) : Nat := entrySetLeaf (12 + 9 * lvl) (10 + 9 * lvl) phys flags

section Words

theorem entryFlags_eq (w : Nat) : entryFlags w = w % 1024 := Nat.and_two_pow_sub_one_eq_mod w 10

theorem entryIsValid_iff {w : Nat} : entryIsValid w = true ↔ w % 2 = 1 := by
  unfold entryIsValid
  rw [entryFlags_eq, bne_iff_ne, pteV, Nat.and_one_is_mod]
  omega

theorem entryIsLeaf_iff {w : Nat} : entryIsLeaf w = true ↔ w % 2 = 1 ∧ w % 1024 ≠ 1 := by
  unfold entryIsLeaf
  rw [Bool.and_eq_true, entryIsValid_iff, bne_iff_ne, entryFlags_eq, pteV]

/-- A flag word beside a shifted number is added to it. -/
theorem shiftLeft_or_eq (x : Nat) {s b : Nat} (hb : b < 2 ^ s) :
    (x <<< s) ||| b = x * 2 ^ s + b := by
  rw [← Nat.shiftLeft_add_eq_or_of_lt hb, Nat.shiftLeft_eq]

theorem entrySetNext_eq (phys : Nat) : entrySetNext phys = phys / 4096 * 1024 + 1 := by
  unfold entrySetNext
  rw [pteV, shiftLeft_or_eq _ (by decide), Nat.shiftRight_eq_div_pow]
  rfl

theorem entrySetNext_flags (phys : Nat) : entrySetNext phys % 1024 = 1 := by
  rw [entrySetNext_eq]
  omega

theorem entryNext_entrySetNext {phys : Nat} (hal : phys % 4096 = 0) (hlt : phys < 2 ^ 64) :
    entryNext (entrySetNext phys) = phys := by
  unfold entryNext u64
  rw [entrySetNext_eq, Nat.shiftRight_eq_div_pow, Nat.shiftLeft_eq, pageShift]
  omega

theorem or_flags {flags : Nat} (hf : flags < 1024) :
    pteV ||| flags < 1024 ∧ (pteV ||| flags) % 2 = 1 ∧ flags ≤ pteV ||| flags :=
  ⟨Nat.or_lt_two_pow (n := 10) (by decide) hf, Nat.or_mod_two_eq_one.2 (.inl rfl), Nat.right_le_or⟩

theorem encode_eq (lvl phys : Nat) {flags : Nat} (hf : flags < 1024) : encode lvl phys flags =
      phys / 2 ^ (12 + 9 * lvl) * 2 ^ (10 + 9 * lvl) + (pteV ||| flags) := by
  have hlt : pteV ||| flags < 2 ^ (10 + 9 * lvl) :=
    lt_of_lt_of_le (or_flags hf).1
      (show 2 ^ 10 ≤ 2 ^ (10 + 9 * lvl) from Nat.pow_le_pow_right (by decide) (by omega))
  unfold encode entrySetLeaf
  rw [Nat.or_assoc, shiftLeft_or_eq _ hlt, Nat.shiftRight_eq_div_pow]

/-- A leaf is read back as it was written. -/
theorem decode_encode {lvl phys flags : Nat} (hlvl : lvl < rootLevel) (hf : flags < 1024)
    (hal : phys % (4096 * leafPages lvl) = 0) (hlt : phys < 2 ^ 64) :
    decode lvl (encode lvl phys flags) = ⟨phys / 4096, pteV ||| flags⟩ ∧
      (encode lvl phys flags) % 2 = 1 ∧ (2 ≤ flags → encode lvl phys flags % 1024 ≠ 1) := by
  obtain ⟨hsmall, hodd, hge⟩ := or_flags hf
  rw [encode_eq lvl phys hf]
  unfold decode entryLeaf u64 pageSize
  rw [entryFlags_eq, Nat.shiftRight_eq_div_pow, Nat.shiftLeft_eq, Leaf.mk.injEq]
  rcases level_cases hlvl with ⟨rfl, hl⟩ | ⟨rfl, hl⟩ | ⟨rfl, hl⟩ <;> rw [hl] at hal
  · refine ⟨⟨?_, ?_⟩, ?_, ?_⟩ <;> omega
  · refine ⟨⟨?_, ?_⟩, ?_, ?_⟩ <;> omega
  · refine ⟨⟨?_, ?_⟩, ?_, ?_⟩ <;> omega

theorem entryIndex_eq (shift va : Nat) : entryIndex shift va = va / 2 ^ shift % 512 := by
  unfold entryIndex
  rw [Nat.shiftRight_eq_div_pow]
  exact Nat.and_two_pow_sub_one_eq_mod _ 9

/-- The indices of an address are the digits of its page number. -/
theorem index_eq (k off : Nat) (hoff : off < 4096) :
    pgdIndex (4096 * k + off) = digit ptrsPerTable k 2 ∧
      pmdIndex (4096 * k + off) = digit ptrsPerTable k 1 ∧
      pteIndex (4096 * k + off) = digit ptrsPerTable k 0 := by
  rw [digit_two, digit_one, digit_zero]
  unfold pgdIndex pmdIndex pteIndex
  rw [entryIndex_eq, entryIndex_eq, entryIndex_eq]
  unfold pgdShift pmdShift pageShift
  refine ⟨?_, ?_, ?_⟩ <;> omega

end Words

/-! ## The walk of the hardware -/

/-- The search of the hardware for the leaf of page `k`, from the table `t` of level `lvl` on. -/
def walkFrom (mem : PtMem) (k : Nat) : Nat → Nat → Option (Nat × Leaf)
  | 0, t =>
    if entryIsValid (mem t (digit ptrsPerTable k 0)) then
      some (0, decode 0 (mem t (digit ptrsPerTable k 0)))
    else none
  | lvl + 1, t =>
    if entryIsLeaf (mem t (digit ptrsPerTable k (lvl + 1))) then
      some (lvl + 1, decode (lvl + 1) (mem t (digit ptrsPerTable k (lvl + 1))))
    else if entryIsValid (mem t (digit ptrsPerTable k (lvl + 1))) then
      walkFrom mem k lvl (entryNext (mem t (digit ptrsPerTable k (lvl + 1))))
    else none

/-- The addresses that Sv39 translates: the bits above bit 38 are copies of it. -/
def Canonical (va : Nat) : Prop := va < 2 ^ 38 ∨ 2 ^ 64 - 2 ^ 38 ≤ va ∧ va < 2 ^ 64

instance (va : Nat) : Decidable (Canonical va) :=
  inferInstanceAs (Decidable (va < 2 ^ 38 ∨ 2 ^ 64 - 2 ^ 38 ≤ va ∧ va < 2 ^ 64))

/-- The translation of an address: the physical address and the flags of the leaf. -/
def translate (mem : PtMem) (root va : Nat) : Option (Nat × Nat) :=
  if Canonical va then
    (walkFrom mem (va / pageSize) 2 root).map fun r =>
      (r.2.pfn * pageSize + va % (pageSize * leafPages r.1), r.2.flags)
  else none

end BrkKernel.Riscv
