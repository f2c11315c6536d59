import BrkKernel.Mm.PageCache

/-!
# What the page cache keeps of its host

A property of the host of a mapping that its allocator, `read_page` and `write_page` keep is kept by
every operation of the page cache (`Keeps.flush`, `Keeps.truncate`), and by `generic_file_write` if
the sizes and the time that it sets keep it as well (`Keeps.write`).
-/

set_option autoImplicit false

namespace BrkKernel.Mm

open Lib Lib.ByteMem

variable {σ : Type}

/-- The operations of a mapping keep a property of its host. -/
structure Keeps (ops : PageCacheOps σ) (P : σ → Prop) : Prop where
  alloc : ∀ h, P h → P (ops.alloc h).2
  readPage : ∀ h i data, P h → P (ops.readPage h i data).2.2
  writePage : ∀ h i data, P h → P (ops.writePage h i data).2.2

section Kept

variable {ops : PageCacheOps σ} {P : σ → Prop} {m : PageCache σ}

theorem cachedPageMarkDirty_host (m : PageCache σ) (index : Nat) :
    (cachedPageMarkDirty m index).host = m.host := by
  unfold cachedPageMarkDirty
  split
  · rfl
  · split
    · rfl
    · rfl

theorem Keeps.pageAlloc (hk : Keeps ops P) {h : σ} (hh : P h) : P (cachedPageAlloc ops h).2 := by
  unfold cachedPageAlloc
  have h1 := hk.alloc h hh
  split
  · next ha => rwa [ha] at h1
  next h1' ha =>
    rw [ha] at h1
    have h2 := hk.alloc h1' h1
    split
    · next hb => rwa [hb] at h2
    · next hb => rwa [hb] at h2

section

variable (hk : Keeps ops P) (hm : P m.host) (index : Nat)

include hk hm

theorem Keeps.findOrCreate : P (findOrCreatePage ops m index).2.host := by
  unfold findOrCreatePage
  split
  · exact hm
  have ha := hk.pageAlloc hm
  split
  · next hc => rwa [hc] at ha
  · next hc => rwa [hc] at ha

theorem Keeps.readMapping : P (readMappingPage ops m index).2.host := by
  have hf := hk.findOrCreate hm index
  unfold readMappingPage
  split
  · next hc => rwa [hc] at hf
  next cp m1 hc =>
    rw [hc] at hf
    split
    · exact hf
    have hr := hk.readPage m1.host index cp.data hf
    split
    · next hp => rwa [hp] at hr
    · next hp => rwa [hp] at hr

theorem Keeps.writeback : P (writebackOne ops m index).2.host := by
  unfold writebackOne
  split
  · exact hm
  next cp _ =>
    split
    · have hw := hk.writePage (m.setPage index { cp with dirty := false }).host index cp.data hm
      simp only
      split
      · next hp => rwa [hp] at hw
      · next hp =>
          rw [hp] at hw
          simp only [cachedPageMarkDirty_host]
          exact hw
    · exact hm

omit hm in
theorem Keeps.batch (batch : List Nat) (e : Except Errno Unit) (hm : P m.host) :
    P (flushBatch ops batch m e).2.host := by
  induction batch generalizing m e with
  | nil => exact hm
  | cons index batch ih =>
    have hw := hk.writeback hm index
    cases e with
    | error e => exact ih (.error e) hw
    | ok u => exact ih _ hw

theorem Keeps.flush : P (pageCacheFlush ops m).2.host := hk.batch _ _ hm

theorem Keeps.truncate (newSize : Int) : P (truncateInodePages ops m newSize).2.host := by
  unfold truncateInodePages
  simp only
  split
  · exact hm
  have hr := hk.readMapping (m := m.detachFrom ((newSize.toNat + pageSize - 1) / pageSize)) hm
    (newSize.toNat / pageSize)
  split
  · next hc => rwa [hc] at hr
  · next hc =>
      rw [hc] at hr
      simp only [cachedPageMarkDirty_host]
      exact hr

theorem Keeps.writePageOf (buf : List UInt8) (pos : Nat) :
    P (fileWritePage ops m buf pos).2.host := by
  unfold fileWritePage
  simp only
  split
  · have hf := hk.findOrCreate hm (pos / pageSize)
    split
    · next hc => rwa [hc] at hf
    · next hc => rwa [hc] at hf
  · have hr := hk.readMapping hm (pos / pageSize)
    split
    · next hc => rwa [hc] at hr
    · next hc => rwa [hc] at hr

end

end Kept

section Write

variable {ops : InodeOps σ} {P : σ → Prop} {m : PageCache σ}

theorem Keeps.writeLoop (hk : Keeps ops.toPageCacheOps P) {lim : Nat}
    (hsize : ∀ h n, P h → n ≤ lim → P (ops.setIsize h n)) (fuel : Nat) (buf : List UInt8)
    (pos total : Nat) (hlim : pos + buf.length ≤ lim) (hm : P m.host) :
    P (fileWriteLoop ops fuel m buf pos total).2.2.host := by
  induction fuel generalizing m buf pos total with
  | zero => exact hm
  | succ fuel ih =>
    unfold fileWriteLoop
    split
    · exact hm
    have hw := hk.writePageOf hm buf pos
    split
    · next hc => rwa [hc] at hw
    next m1 hc =>
      rw [hc] at hw
      refine ih _ _ _ ?_ ?_
      · rw [List.length_drop]
        omega
      have hd : P (cachedPageMarkDirty m1 (pos / pageSize)).host := by
        rw [cachedPageMarkDirty_host]
        exact hw
      split
      · exact hsize _ _ hd (by omega)
      · exact hd

/-- What `generic_file_write` keeps of the host. -/
theorem Keeps.write (hk : Keeps ops.toPageCacheOps P) (lim : Nat) {now : Int}
    (hsize : ∀ h n, P h → n ≤ lim → P (ops.setIsize h n))
    (htouch : ∀ h, P h → P (ops.touchMtime h now)) (buf : List UInt8) (pos : Nat)
    (hlim : pos + buf.length ≤ lim) (hm : P m.host) :
    P (genericFileWrite ops now m buf pos).2.host := by
  have hloop := hk.writeLoop hsize buf.length buf pos 0 hlim hm
  unfold genericFileWrite
  split
  next err total m1 hc =>
    rw [hc] at hloop
    have hdone : P (if total > 0 then { m1 with host := ops.touchMtime m1.host now }
        else m1).host := by
      split
      · exact htouch _ hloop
      · exact hloop
    cases err with
    | none => exact hdone
    | some e => exact hdone

end Write

end BrkKernel.Mm
