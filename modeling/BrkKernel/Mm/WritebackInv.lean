import BrkKernel.Mm.Writeback

/-!
# No update is lost

The invariant has four parts. `RefInv`: a reference count is the number of references, so a page
that the shrinker takes out of the hash is in nobody's hands. `LinkInv`: a dirty page is on the
list of the mapping or in the batch of one flusher, and never both. `DataInv`: an up-to-date page
agrees with the store unless it is dirty or some thread is about to make it so or to write it.
`VerInv`: what was marked has been given to `write_page`, or the page is dirty or a flusher is
about to write it.

Each part has a lemma for the steps that do not concern it (`move`); a step that concerns no part
but the references only has to show where the thread goes on (`Follows`, `CacheInv.goCp`).
-/

set_option autoImplicit false

namespace BrkKernel.Writeback

open Lib Function CachedPage Phase CacheSys List

variable {fill : Bool} {s s' : CacheSys} {n cp i q t index : Nat} {ph now : Phase}
  {cps : Nat → CachedPage} {P : Phase → Prop} {data : PageData}

/-! ## What a thread has -/

/-- The pages that a thread works on. -/
def Phase.pages : Phase → List Nat
  | .got cp | .holding cp | .modified cp _ => [cp]
  | .flush _ batch => batch
  | .cleared _ cp batch | .wrote _ cp batch _ | .failed _ cp batch _ | .finished _ cp batch =>
    cp :: batch
  | _ => []

/-- The references that a thread will only give back. -/
def Phase.loose : Phase → List Nat
  | .dropping cp | .pinned cp => [cp]
  | .detached cp => [cp, cp]
  | _ => []

/-- The number of references that a thread has. -/
def Phase.refs (ph : Phase) (cp : Nat) : Nat := ph.pages.count cp + ph.loose.count cp

/-- The pages that a thread knows to be up to date. -/
def Phase.filled : Phase → List Nat
  | .got _ => []
  | ph => ph.pages

/-- The pages that a flusher has yet to clear. -/
def Phase.batch : Phase → List Nat
  | .flush _ batch | .cleared _ _ batch | .wrote _ _ batch _ | .failed _ _ batch _
  | .finished _ _ batch => batch
  | _ => []

/-- The page that a flusher has cleared and not yet written. -/
def Phase.Clearing : Phase → Nat → Prop
  | .cleared _ cp _, x => cp = x
  | _, _ => False

/-- The thread will mark the page dirty or write it. -/
def Phase.Pending : Phase → Nat → Prop
  | .modified cp _, x => cp = x
  | .cleared _ cp _, x => cp = x
  | .wrote _ cp _ (some _), x => cp = x
  | .failed _ cp _ _, x => cp = x
  | _, _ => False

/-- The pages that a flusher has yet to write. -/
def Phase.toWrite : Phase → List Nat
  | .cleared _ cp batch => cp :: batch
  | ph => ph.batch

theorem Phase.pages_of_pending (h : ph.Pending cp) : cp ∈ ph.pages := by
  cases ph with
  | modified c v => exact mem_singleton.2 (Eq.symm h)
  | cleared c p b | failed c p b e => exact mem_cons.2 (.inl (Eq.symm h))
  | wrote c p b e =>
    cases e with
    | none => exact absurd h id
    | some e => exact mem_cons.2 (.inl (Eq.symm h))
  | _ => exact absurd h id

theorem Phase.pending_of_clearing (h : ph.Clearing cp) : ph.Pending cp := by
  cases ph with
  | cleared c p b => exact h
  | _ => exact absurd h id

theorem Phase.filled_subset (h : cp ∈ ph.filled) : cp ∈ ph.pages := by
  cases ph with
  | got c => exact absurd h not_mem_nil
  | _ => exact h

theorem Phase.toWrite_subset (h : cp ∈ ph.toWrite) : cp ∈ ph.pages := by
  cases ph with
  | flush c b | cleared c p b => exact h
  | wrote c p b e | failed c p b e | finished c p b => exact mem_cons_of_mem p h
  | _ => exact absurd h not_mem_nil

theorem Phase.batch_of_call_none (h : ph.call = none) : ph.batch = [] := by
  cases ph with
  | flush c b | cleared c p b | wrote c p b e | failed c p b e | finished c p b => cases h
  | _ => rfl

theorem Phase.batch_of_toWrite (h : ph.toWrite = []) : ph.batch = [] := by
  cases ph with
  | cleared c p b => cases h
  | _ => exact h

theorem Phase.not_clearing_of_call_none (h : ph.call = none) (cp : Nat) : ¬ ph.Clearing cp := by
  cases ph with
  | cleared c p b => cases h
  | _ => exact id

theorem Phase.refs_eq_zero : ph.refs cp = 0 ↔ cp ∉ ph.pages ∧ cp ∉ ph.loose := by
  rw [refs, Nat.add_eq_zero_iff, count_eq_zero, count_eq_zero]

/-- A field that the new value of a page has unchanged. -/
theorem apply_update_eq {γ : Type} (f : CachedPage → γ) {c : CachedPage}
    (h : f c = f (cps cp)) (q : Nat) : f (update cps cp c q) = f (cps q) := by
  by_cases hq : q = cp
  · rw [hq, update_self, h]
  · rw [update_of_ne hq]

theorem apply_update_of {P : CachedPage → Prop} {c : CachedPage} (hc : P c)
    (hq : P (cps q)) : P (update cps cp c q) := by
  by_cases h : q = cp
  · rwa [h, update_self]
  · rwa [update_of_ne h]

/-! ## A step of one thread -/

/-- The thread `t` goes on from `now` to `ph`. -/
structure Moves (s s' : CacheSys) (t : Nat) (now ph : Phase) : Prop where
  before : s.phase t = now
  after : s'.phase = update s.phase t ph

section

variable (hm : Moves s s' t now ph)

include hm

@[elab_as_elim]
theorem Moves.all (hph : P ph) (h : ∀ u, P (s.phase u)) (u : Nat) : P (s'.phase u) := by
  rw [hm.after]
  by_cases hu : u = t
  · rwa [hu, update_self]
  · rw [update_of_ne hu]
    exact h u

theorem Moves.ex (hph : P now → P ph) (h : ∃ u, P (s.phase u)) : ∃ u, P (s'.phase u) := by
  obtain ⟨u, hu⟩ := h
  rw [hm.after]
  by_cases hut : u = t
  · refine ⟨t, ?_⟩
    rw [hut, hm.before] at hu
    rw [update_self]
    exact hph hu
  · refine ⟨u, ?_⟩
    rwa [update_of_ne hut]

theorem Moves.at_self : s'.phase t = ph := by
  rw [hm.after, update_self]

theorem Moves.total (ht : t < n) (f : Phase → Nat) :
    total n f s'.phase + f now = total n f s.phase + f ph := by
  rw [hm.after, ← hm.before]
  exact total_update f s.phase ph ht

theorem Moves.rest (ht : t < n) (h : ∀ u, n ≤ u → s.phase u = .idle)
    (u : Nat) (hu : n ≤ u) : s'.phase u = .idle := by
  rw [hm.after, update_of_ne (by omega)]
  exact h u hu

end

/-- It leaves the hash and the indices alone. -/
structure Stays (s s' : CacheSys) (t : Nat) (now ph : Phase) : Prop
    extends Moves s s' t now ph where
  hash : s'.hash = s.hash
  index : ∀ cp, (s'.cps cp).index = (s.cps cp).index

theorem Stays.hashed (hm : Stays s s' t now ph) : s'.Hashed cp ↔ s.Hashed cp := by
  unfold CacheSys.Hashed
  rw [hm.hash, hm.index]

/-! ## References -/

/-- The reference of the cache. -/
def CacheSys.hashRef (s : CacheSys) (cp : Nat) : Nat := if s.Hashed cp then 1 else 0

structure RefInv (n : Nat) (s : CacheSys) : Prop where
  index : ∀ i cp, s.hash i = some cp → (s.cps cp).index = i ∧ cp < s.next
  fresh : ∀ cp, s.next ≤ cp → (s.cps cp).refcnt = 0
  refs : ∀ cp, (s.cps cp).refcnt = s.hashRef cp + total n (fun ph => ph.refs cp) s.phase
  held : ∀ t, ∀ cp ∈ (s.phase t).pages, s.Hashed cp
  rest : ∀ t, n ≤ t → s.phase t = .idle

/-- A page in the hash is the only one there with its index. -/
theorem CacheSys.Hashed.cp_eq (h : s.Hashed cp) (hi : s.hash i = some q)
    (hidx : i = (s.cps cp).index) : q = cp := by
  rw [hidx] at hi
  exact Option.some.inj (hi.symm.trans h)

section

variable (h : RefInv n s)

include h

theorem RefInv.hashed_of_hash (hh : s.hash i = some cp) : s.Hashed cp := by
  unfold CacheSys.Hashed
  rw [(h.index i cp hh).1, hh]

theorem RefInv.lt_of_hashed (hh : s.Hashed cp) : cp < s.next := (h.index _ cp hh).2

/-- A thread with a reference keeps the count positive. -/
theorem RefInv.refs_le (cp t : Nat) : (s.phase t).refs cp ≤ (s.cps cp).refcnt := by
  rcases Nat.lt_or_ge t n with ht | ht
  · have hle := apply_le_total (fun ph : Phase => ph.refs cp) s.phase ht
    have heq := h.refs cp
    omega
  · rw [h.rest t ht]
    exact Nat.zero_le _

theorem RefInv.refcnt_ne_zero
    (hmem : cp ∈ (s.phase t).pages ∨ cp ∈ (s.phase t).loose) : (s.cps cp).refcnt ≠ 0 := by
  intro h0
  have hle := h.refs_le cp t
  obtain ⟨hpages, hloose⟩ := refs_eq_zero.1 (by omega : (s.phase t).refs cp = 0)
  exact hmem.elim hpages hloose

/-- The references after a step of the thread `t` that leaves the hash alone. -/
theorem RefInv.move (hm : Stays s s' t now ph) (ht : t < n) (hnext : s'.next = s.next)
    (hrefs : ∀ cp, (s'.cps cp).refcnt + now.refs cp = (s.cps cp).refcnt + ph.refs cp)
    (hpages : ∀ cp ∈ ph.pages, s.Hashed cp)
    (hloose : ∀ cp ∈ ph.loose, (s.cps cp).refcnt ≠ 0) : RefInv n s' := by
  refine ⟨fun i cp hi => ?_, fun cp hcp => ?_, fun cp => ?_, ?_, hm.rest ht h.rest⟩
  · rw [hm.hash] at hi
    rw [hm.index, hnext]
    exact h.index i cp hi
  · rw [hnext] at hcp
    have hzero := h.fresh cp hcp
    have hnone : ph.refs cp = 0 := refs_eq_zero.2
      ⟨fun hmem => absurd (h.lt_of_hashed (hpages cp hmem)) (not_lt.2 hcp),
        fun hmem => hloose cp hmem hzero⟩
    have heq := hrefs cp
    omega
  · have heq := h.refs cp
    have hup := hm.total ht fun ph => ph.refs cp
    have hr := hrefs cp
    have hsame : s'.hashRef cp = s.hashRef cp := by
      unfold hashRef
      simp only [hm.hashed]
    omega
  · exact fun u => hm.all (fun cp hcp => hm.hashed.2 (hpages cp hcp))
      (fun u cp hcp => hm.hashed.2 (h.held u cp hcp)) u

/-- The references after a step in which the thread keeps the pages it has. -/
theorem RefInv.same (hm : Stays s s' t now ph) (ht : t < n)
    (hnext : s'.next = s.next) (hrefcnt : ∀ cp, (s'.cps cp).refcnt = (s.cps cp).refcnt)
    (hpages : ph.pages = now.pages) (hloose : ph.loose = now.loose) : RefInv n s' := by
  apply h.move hm ht hnext
  · intro cp
    rw [hrefcnt, Phase.refs, Phase.refs, hpages, hloose]
  · intro cp hcp
    rw [hpages, ← hm.before] at hcp
    exact h.held t cp hcp
  · intro cp hcp
    rw [hloose, ← hm.before] at hcp
    exact h.refcnt_ne_zero (.inr hcp)

end

/-! ## The list of dirty pages -/

structure LinkInv (n : Nat) (s : CacheSys) : Prop where
  link : ∀ cp, s.dirtyPages.count cp + total n (fun ph => ph.batch.count cp) s.phase =
    if (s.cps cp).dirty then 1 else 0
  dirty : ∀ cp, (s.cps cp).dirty = true → (s.cps cp).uptodate = true ∧ s.Hashed cp
  filled : ∀ t, ∀ cp ∈ (s.phase t).filled, (s.cps cp).uptodate = true

theorem LinkInv.move (h : LinkInv n s) (hm : Stays s s' t now ph) (ht : t < n)
    (hlist : s'.dirtyPages = s.dirtyPages) (hdirty : ∀ cp, (s'.cps cp).dirty = (s.cps cp).dirty)
    (hup : ∀ cp, (s.cps cp).uptodate = true → (s'.cps cp).uptodate = true)
    (hbatch : ph.batch = now.batch)
    (hfilled : ∀ cp ∈ ph.filled, (s'.cps cp).uptodate = true) : LinkInv n s' := by
  refine ⟨fun cp => ?_, fun cp hcp => ?_, ?_⟩
  · have hlink := h.link cp
    have htot := hm.total ht fun ph => ph.batch.count cp
    rw [hbatch] at htot
    rw [hlist, hdirty]
    omega
  · rw [hdirty] at hcp
    obtain ⟨hu, hh⟩ := h.dirty cp hcp
    exact ⟨hup cp hu, hm.hashed.2 hh⟩
  · exact fun u => hm.all hfilled (fun u cp hcp => hup cp (h.filled u cp hcp)) u

theorem stays_markDirty (hp : s.phase t = now) :
    Stays s ((s.markDirty cp).setPhase t ph) t now ph :=
  ⟨⟨hp, rfl⟩, rfl, apply_update_eq index rfl⟩

/-- A page that is marked dirty goes to the end of the list. -/
theorem LinkInv.markDirty (h : LinkInv n s) (hp : s.phase t = now) (ht : t < n)
    (hu : (s.cps cp).uptodate = true) (hh : s.Hashed cp) (hbatch : ph.batch = now.batch)
    (hfilled : ∀ cp ∈ ph.filled, (s.cps cp).uptodate = true) :
    LinkInv n ((s.markDirty cp).setPhase t ph) := by
  have hm : Stays s ((s.markDirty cp).setPhase t ph) t now ph := stays_markDirty hp
  have hup : ∀ q, (((s.markDirty cp).setPhase t ph).cps q).uptodate = (s.cps q).uptodate :=
    apply_update_eq uptodate rfl
  by_cases hd : (s.cps cp).dirty = true
  · refine h.move hm ht (if_pos hd) (fun q => ?_) (fun q hq => (hup q).trans hq) hbatch fun q hq =>
      (hup q).trans (hfilled q hq)
    exact apply_update_eq CachedPage.dirty (c := { s.cps cp with dirty := true }) hd.symm q
  refine ⟨fun q => ?_, fun q hq => ?_, fun u q hq => ?_⟩
  · have hlink := h.link q
    have htot := hm.total ht fun ph => ph.batch.count q
    rw [hbatch] at htot
    show (if (s.cps cp).dirty then s.dirtyPages else s.dirtyPages ++ [cp]).count q + _ =
      if (update s.cps cp { s.cps cp with dirty := true } q).dirty then 1 else 0
    rw [if_neg hd, count_append]
    by_cases hq : q = cp
    · subst hq
      rw [if_neg hd] at hlink
      rw [update_self, count_singleton_self, if_pos rfl]
      omega
    · rw [update_of_ne hq, count_singleton, if_neg (by simpa using Ne.symm hq)]
      omega
  · have hold : (s.cps q).uptodate = true ∧ s.Hashed q := by
      by_cases hqc : q = cp
      · rw [hqc]
        exact ⟨hu, hh⟩
      · apply h.dirty q
        simpa [CacheSys.setPhase, CacheSys.markDirty, CacheSys.setCp, hqc] using hq
    rw [hup]
    exact ⟨hold.1, hm.hashed.2 hold.2⟩
  · rw [hup]
    exact hm.all hfilled h.filled u q hq

/-! ## The bytes -/

structure DataInv (s : CacheSys) : Prop where
  latest : ∀ i cp, s.hash i = some cp → (s.cps cp).uptodate = true →
    (s.cps cp).data = s.latest i
  settled : ∀ i cp, s.hash i = some cp → (s.cps cp).uptodate = true →
    ((s.cps cp).data = s.stored i ∧ s.disk i = s.stored i) ∨ (s.cps cp).dirty = true ∨
      ∃ t, (s.phase t).Pending cp
  clean : ∀ i, (∀ cp, s.hash i = some cp → (s.cps cp).uptodate = false) →
    s.disk i = s.stored i ∧ s.latest i = s.stored i

/-- The excuses of a page are still there when `t` goes on. -/
theorem DataInv.other (h : DataInv s) (hm : Moves s s' t now ph) (hi : s.hash i = some q)
    (hq : (s.cps q).uptodate = true) (hpend : now.Pending q → ph.Pending q) :
    ((s.cps q).data = s.stored i ∧ s.disk i = s.stored i) ∨ (s.cps q).dirty = true ∨
      ∃ u, (s'.phase u).Pending q :=
  (h.settled i q hi hq).imp id (Or.imp id (hm.ex (P := fun ph => ph.Pending q) hpend))

theorem DataInv.move (h : DataInv s) (hm : Stays s s' t now ph)
    (hup : ∀ cp, (s'.cps cp).uptodate = (s.cps cp).uptodate)
    (hdirty : ∀ cp, (s'.cps cp).dirty = (s.cps cp).dirty)
    (hdata : ∀ cp, (s.cps cp).uptodate = true → (s'.cps cp).data = (s.cps cp).data)
    (hdisk : s'.disk = s.disk) (hstored : s'.stored = s.stored) (hlatest : s'.latest = s.latest)
    (hpend : ∀ cp, now.Pending cp → ph.Pending cp) : DataInv s' := by
  refine ⟨fun i cp hi hcp => ?_, fun i cp hi hcp => ?_, fun i hi => ?_⟩
  · rw [hm.hash] at hi
    rw [hup] at hcp
    rw [hdata cp hcp, hlatest]
    exact h.latest i cp hi hcp
  · rw [hm.hash] at hi
    rw [hup] at hcp
    rw [hdata cp hcp, hdirty, hdisk, hstored]
    exact h.other hm.toMoves hi hcp (hpend cp)
  · rw [hdisk, hstored, hlatest]
    apply h.clean i
    intro cp hcp
    rw [← hup]
    apply hi
    rwa [hm.hash]

/-- The bytes after a step of `t` that is about the page `cp` alone, which is up to date then. -/
theorem DataInv.one (h : DataInv s) (href : RefInv n s) (hm : Stays s s' t now ph)
    (hh : s.Hashed cp) (hcps : ∀ q, q ≠ cp → s'.cps q = s.cps q) (hout : ∀ i, i ≠ (s.cps cp).index →
      s'.disk i = s.disk i ∧ s'.stored i = s.stored i ∧ s'.latest i = s.latest i)
    (hpend : ∀ q, q ≠ cp → now.Pending q → ph.Pending q) (hup : (s'.cps cp).uptodate = true)
    (hlatest : (s'.cps cp).data = s'.latest (s.cps cp).index)
    (hset : ((s'.cps cp).data = s'.stored (s.cps cp).index ∧
        s'.disk (s.cps cp).index = s'.stored (s.cps cp).index) ∨ (s'.cps cp).dirty = true ∨
      ∃ u, (s'.phase u).Pending cp) : DataInv s' := by
  refine ⟨fun i q hi hq => ?_, fun i q hi hq => ?_, fun i hi => ?_⟩
  · rw [hm.hash] at hi
    by_cases hqc : q = cp
    · subst hqc
      rw [← (href.index i q hi).1]
      exact hlatest
    · rw [hcps q hqc] at hq ⊢
      rw [(hout i fun hii => hqc (hh.cp_eq hi hii)).2.2]
      exact h.latest i q hi hq
  · rw [hm.hash] at hi
    by_cases hqc : q = cp
    · subst hqc
      rw [← (href.index i q hi).1]
      exact hset
    · obtain ⟨hdisk, hstored, -⟩ := hout i fun hii => hqc (hh.cp_eq hi hii)
      rw [hcps q hqc] at hq ⊢
      rw [hdisk, hstored]
      exact h.other hm.toMoves hi hq (hpend q hqc)
  · rw [hm.hash] at hi
    have hii : i ≠ (s.cps cp).index := by
      rintro rfl
      exact absurd (hup.symm.trans (hi cp hh)) nofun
    obtain ⟨hdisk, hstored, hlatest⟩ := hout i hii
    rw [hdisk, hstored, hlatest]
    apply h.clean i
    intro q hq
    have hnot := hi q hq
    rwa [hcps q fun hqc => hii (hqc ▸ (href.index i q hq).1.symm)] at hnot

/-! ## The versions -/

structure VerInv (s : CacheSys) : Prop where
  bound : ∀ i, s.marked i ≤ s.version i ∧ s.given i ≤ s.version i
  modified : ∀ t cp v, s.phase t = .modified cp v → v ≤ s.version (s.cps cp).index
  given : ∀ i, s.marked i ≤ s.given i ∨ ∃ cp, s.hash i = some cp ∧
    ((s.cps cp).dirty = true ∨ ∃ t, (s.phase t).Clearing cp)
  start : ∀ t c, (s.phase t).call = some c → ∀ i, c.start i ≤ s.marked i
  call : ∀ t c, (s.phase t).call = some c → c.alone = true → ∀ i, c.first ≤ i → i ≤ c.last →
    c.start i ≤ s.given i ∨ ∃ cp, s.hash i = some cp ∧ cp ∈ (s.phase t).toWrite

/-- The versions after a step of the thread `t`: what holds for the other threads is kept, as the
numbers only grow. -/
theorem VerInv.advance (h : VerInv s) (hm : Stays s s' t now ph)
    (hversion : s.version ≤ s'.version) (hmarked : s.marked ≤ s'.marked)
    (hgiven : s.given ≤ s'.given)
    (hbound : ∀ i, s'.marked i ≤ s'.version i ∧ s'.given i ≤ s'.version i)
    (hmod : ∀ cp v, ph = .modified cp v → v ≤ s'.version (s.cps cp).index)
    (hnow : ∀ i, s'.marked i ≤ s'.given i ∨ ∃ cp, s.hash i = some cp ∧
      ((s'.cps cp).dirty = true ∨ ∃ u, (s'.phase u).Clearing cp))
    (hstart : ∀ c, ph.call = some c → ∀ i, c.start i ≤ s'.marked i)
    (hcall : ∀ c, ph.call = some c → c.alone = true → ∀ i, c.first ≤ i → i ≤ c.last →
      c.start i ≤ s'.given i ∨ ∃ cp, s.hash i = some cp ∧ cp ∈ ph.toWrite) : VerInv s' := by
  refine ⟨hbound, fun u => ?_, fun i => ?_, fun u => ?_, fun u => ?_⟩
  · simp only [hm.index]
    exact hm.all hmod (fun u cp v hu => le_trans (h.modified u cp v hu) (hversion _)) u
  · rw [hm.hash]
    exact hnow i
  · exact hm.all hstart (fun u c hu i => le_trans (h.start u c hu i) (hmarked i)) u
  rw [hm.hash]
  exact hm.all hcall (fun u c hu hal i h1 h2 => (h.call u c hu hal i h1 h2).imp
    (fun hle => le_trans hle (hgiven i)) id) u

/-- What was marked is still given or waits in a dirty page or with a flusher. -/
theorem VerInv.given_move (h : VerInv s) (hm : Moves s s' t now ph)
    (hdirty : ∀ cp, (s.cps cp).dirty = true → (s'.cps cp).dirty = true)
    (hclear : ∀ cp, now.Clearing cp → ph.Clearing cp) (i : Nat) :
    s.marked i ≤ s.given i ∨ ∃ cp, s.hash i = some cp ∧
      ((s'.cps cp).dirty = true ∨ ∃ u, (s'.phase u).Clearing cp) := by
  refine (h.given i).imp id ?_
  rintro ⟨cp, hi, hd | hex⟩
  · exact ⟨cp, hi, .inl (hdirty cp hd)⟩
  · exact ⟨cp, hi, .inr (hm.ex (P := fun ph => ph.Clearing cp) (hclear cp) hex)⟩

/-- The flusher goes on with the call it is in. -/
def Phase.SameCall (ph ph' : Phase) : Prop :=
  ∀ c', ph'.call = some c' → ∃ c, ph.call = some c ∧ c'.start = c.start ∧ c'.alone = c.alone ∧
    c'.first = c.first ∧ c'.last = c.last

theorem VerInv.move (h : VerInv s) (hm : Stays s s' t now ph)
    (hdirty : ∀ cp, (s.cps cp).dirty = true → (s'.cps cp).dirty = true)
    (hversion : s'.version = s.version) (hmarked : s'.marked = s.marked)
    (hgiven : s'.given = s.given) (hclear : ∀ cp, now.Clearing cp → ph.Clearing cp)
    (hmod : ∀ cp v, ph ≠ .modified cp v) (hcall : now.SameCall ph)
    (hwrite : ∀ cp ∈ now.toWrite, cp ∈ ph.toWrite) : VerInv s' := by
  refine h.advance hm hversion.ge hmarked.ge hgiven.ge (fun i => ?_)
    (fun cp v hph => absurd hph (hmod cp v)) (fun i => ?_) (fun c hc i => ?_)
    (fun c hc hal i h1 h2 => ?_)
  · rw [hmarked, hversion, hgiven]
    exact h.bound i
  · rw [hmarked, hgiven]
    exact h.given_move hm.toMoves hdirty hclear i
  · obtain ⟨c0, hc0, hstart, -⟩ := hcall c hc
    rw [hmarked, hstart]
    exact h.start t c0 (by rw [hm.before]; exact hc0) i
  obtain ⟨c0, hc0, hstart, halone, hfirst, hlast⟩ := hcall c hc
  rw [hgiven, hstart]
  rw [hfirst] at h1
  rw [hlast] at h2
  rw [halone] at hal
  refine (h.call t c0 (by rw [hm.before]; exact hc0) hal i h1 h2).imp id ?_
  rintro ⟨cp, hi, hcp⟩
  rw [hm.before] at hcp
  exact ⟨cp, hi, hwrite cp hcp⟩

/-! ## Steps that change references only -/

structure CacheInv (n : Nat) (s : CacheSys) : Prop where
  ref : RefInv n s
  link : LinkInv n s
  data : DataInv s
  ver : VerInv s

/-- A page that a thread knows to be up to date. -/
theorem CacheInv.page (h : CacheInv n s) (hp : s.phase t = now) (hq : q ∈ now.filled) :
    s.Hashed q ∧ (s.cps q).uptodate = true := by
  subst hp
  exact ⟨h.ref.held t q (filled_subset hq), h.link.filled t q hq⟩

/-- The thread `t` may go on to `ph` without a change to the pages. -/
structure Follows (s : CacheSys) (t : Nat) (ph : Phase) : Prop where
  pages : ∀ cp ∈ ph.pages, s.Hashed cp
  loose : ∀ cp ∈ ph.loose, (s.cps cp).refcnt ≠ 0
  filled : ∀ cp ∈ ph.filled, (s.cps cp).uptodate = true
  batch : ph.batch = (s.phase t).batch
  pending : ∀ cp, (s.phase t).Pending cp → ph.Pending cp
  clearing : ∀ cp, (s.phase t).Clearing cp → ph.Clearing cp
  modified : ∀ cp v, ph ≠ .modified cp v
  call : (s.phase t).SameCall ph
  toWrite : ∀ cp ∈ (s.phase t).toWrite, cp ∈ ph.toWrite

/-- A step of a thread that is not in `writeback_one` and has nothing left to write. -/
theorem Follows.plain (hp : s.phase t = now) (hold : now.toWrite = [])
    (hpend : ∀ cp, ¬ now.Pending cp) (hbatch : ph.batch = []) (hcall : ph.call = none)
    (hmod : ∀ cp v, ph ≠ .modified cp v) (hpages : ∀ cp ∈ ph.pages, s.Hashed cp)
    (hloose : ∀ cp ∈ ph.loose, (s.cps cp).refcnt ≠ 0)
    (hfilled : ∀ cp ∈ ph.filled, (s.cps cp).uptodate = true) : Follows s t ph := by
  subst hp
  have hold' := batch_of_toWrite hold
  refine ⟨hpages, hloose, hfilled, hbatch.trans hold'.symm, fun cp h => absurd h (hpend cp),
    fun cp h => absurd (pending_of_clearing h) (hpend cp), hmod, fun c hc => ?_,
    fun cp hcp => ?_⟩
  · rw [hcall] at hc
    cases hc
  · rw [hold] at hcp
    cases hcp

theorem CacheInv.goCp (h : CacheInv n s) (cp : Nat) (c : CachedPage) (ht : t < n)
    (hf : Follows s t ph)
    (hidx : c.index = (s.cps cp).index) (hup : c.uptodate = (s.cps cp).uptodate)
    (hdirty : c.dirty = (s.cps cp).dirty)
    (hdata : (s.cps cp).uptodate = true → c.data = (s.cps cp).data)
    (hrefs : ∀ q, (update s.cps cp c q).refcnt + (s.phase t).refs q =
      (s.cps q).refcnt + ph.refs q) : CacheInv n ((s.setCp cp c).setPhase t ph) := by
  have hm : Stays s ((s.setCp cp c).setPhase t ph) t (s.phase t) ph :=
    ⟨⟨rfl, rfl⟩, rfl, apply_update_eq index hidx⟩
  have hup' := apply_update_eq uptodate hup
  have hdirty' := apply_update_eq dirty hdirty
  refine ⟨h.ref.move hm ht rfl hrefs hf.pages hf.loose,
    h.link.move hm ht rfl hdirty' (fun q hq => (hup' q).trans hq) hf.batch
      fun q hq => (hup' q).trans (hf.filled q hq),
    h.data.move hm hup' hdirty' (fun q hq => ?_) rfl rfl rfl hf.pending,
    h.ver.move hm (fun q hq => (hdirty' q).trans hq) rfl rfl rfl hf.clearing hf.modified hf.call
      hf.toWrite⟩
  show (update s.cps cp c q).data = (s.cps q).data
  by_cases hqc : q = cp
  · rw [hqc] at hq ⊢
    rw [update_self]
    exact hdata hq
  · rw [update_of_ne hqc]

/-- A step that takes and gives back no reference. -/
theorem CacheInv.goSame (h : CacheInv n s) (cp : Nat) (c : CachedPage) (ht : t < n)
    (hp : s.phase t = now) (hf : Follows s t ph) (hrefs : ∀ q, ph.refs q = now.refs q)
    (hrefcnt : c.refcnt = (s.cps cp).refcnt) (hidx : c.index = (s.cps cp).index)
    (hup : c.uptodate = (s.cps cp).uptodate) (hdirty : c.dirty = (s.cps cp).dirty)
    (hdata : (s.cps cp).uptodate = true → c.data = (s.cps cp).data) :
    CacheInv n ((s.setCp cp c).setPhase t ph) := by
  refine h.goCp cp c ht hf hidx hup hdirty hdata fun q => ?_
  rw [apply_update_eq refcnt hrefcnt, hrefs q, hp]

section

variable (h : CacheInv n s) (ht : t < n) (hp : s.phase t = now) (hf : Follows s t ph)

include h ht hp hf

/-- A step that changes nothing but the phase of the thread. -/
theorem CacheInv.go (hrefs : ∀ q, ph.refs q = now.refs q) : CacheInv n (s.setPhase t ph) := by
  have hgo := h.goSame 0 (s.cps 0) ht hp hf hrefs rfl rfl rfl rfl fun _ => rfl
  have hset : s.setCp 0 (s.cps 0) = s := by
    unfold setCp
    rw [update_eq_self]
  rwa [hset] at hgo

/-- A reference is taken. -/
theorem CacheInv.goGet (hrefs : ∀ q, ph.refs q = now.refs q + if q = cp then 1 else 0) :
    CacheInv n ((s.get cp).setPhase t ph) := by
  refine h.goCp cp { s.cps cp with refcnt := (s.cps cp).refcnt + 1 } ht hf rfl rfl rfl
    (fun _ => rfl) fun q => ?_
  rw [hrefs q, hp]
  by_cases hq : q = cp
  · subst hq
    rw [update_self, if_pos rfl]
    dsimp only
    omega
  · rw [update_of_ne hq, if_neg hq]
    omega

/-- A reference is given back. -/
theorem CacheInv.goPut (hrefs : ∀ q, ph.refs q + (if q = cp then 1 else 0) = now.refs q) :
    CacheInv n ((s.put cp).setPhase t ph) := by
  refine h.goCp cp { s.cps cp with refcnt := (s.cps cp).refcnt - 1 } ht hf rfl rfl rfl
    (fun _ => rfl) fun q => ?_
  have hr := hrefs q
  rw [← hp] at hr
  have hle := h.ref.refs_le q t
  by_cases hq : q = cp
  · subst hq
    rw [if_pos rfl] at hr
    rw [update_self]
    dsimp only
    omega
  · rw [if_neg hq] at hr
    rw [update_of_ne hq]
    omega

end

/-! ## A new page -/

/-- The state after `t` has inserted a page. -/
def CacheSys.inserted (s : CacheSys) (t index : Nat) : CacheSys :=
  (s.insert index).setPhase t (.got s.next)

theorem inserted_cps_of_ne (hq : q ≠ s.next) : (s.inserted t index).cps q = s.cps q :=
  update_of_ne hq _ _

theorem inserted_cps_self : (s.inserted t index).cps s.next =
    ⟨index, 2, fun _ => 0, false, false, false, false⟩ := update_self _ _ _

theorem inserted_hash_of_ne (hi : i ≠ index) :
    (s.inserted t index).hash i = s.hash i := update_of_ne hi _ _

theorem inserted_hash_self : (s.inserted t index).hash index = some s.next := update_self _ _ _

theorem moves_inserted (hp : s.phase t = now) :
    Moves s (s.inserted t index) t now (.got s.next) := ⟨hp, rfl⟩

section

variable (h : RefInv n s)

include h

/-- The pages that were in the hash are there still, under another index. -/
theorem RefInv.inserted_old (hh : s.hash index = none) (hi : s.hash i = some q) :
    (s.inserted t index).hash i = some q ∧ (s.inserted t index).cps q = s.cps q := by
  have hii : i ≠ index := by
    rintro rfl
    rw [hh] at hi
    cases hi
  rw [inserted_hash_of_ne hii, inserted_cps_of_ne (ne_of_lt (h.index i q hi).2)]
  exact ⟨hi, rfl⟩

theorem RefInv.inserted_hashed (hh : s.hash index = none) (hq : s.Hashed q) :
    (s.inserted t index).Hashed q := by
  obtain ⟨hhash, hcps⟩ := h.inserted_old (t := t) hh hq
  unfold CacheSys.Hashed
  rw [hcps]
  exact hhash

theorem RefInv.inserted_cases (hi : (s.inserted t index).hash i = some q) :
    (i = index ∧ q = s.next) ∨ (q ≠ s.next ∧ s.hash i = some q) := by
  by_cases hii : i = index
  · rw [hii, inserted_hash_self] at hi
    exact .inl ⟨hii, (Option.some.inj hi).symm⟩
  · rw [inserted_hash_of_ne hii] at hi
    exact .inr ⟨ne_of_lt (h.index i q hi).2, hi⟩

theorem RefInv.inserted_hashRef (hh : s.hash index = none) (hq : q ≠ s.next) :
    (s.inserted t index).hashRef q = s.hashRef q := by
  unfold hashRef
  by_cases hhq : s.Hashed q
  · rw [if_pos hhq, if_pos (h.inserted_hashed hh hhq)]
  rw [if_neg hhq, if_neg]
  intro hq'
  unfold CacheSys.Hashed at hq'
  rw [inserted_cps_of_ne hq] at hq'
  rcases h.inserted_cases hq' with ⟨-, hqn⟩ | ⟨-, hi⟩
  · exact hq hqn
  · exact hhq hi

end

section

variable (hp : s.phase t = .missing index) (hh : s.hash index = none)

include hp hh

theorem RefInv.insertNew (h : RefInv n s) (ht : t < n) : RefInv n (s.inserted t index) := by
  have hm : Moves s (s.inserted t index) t _ _ := moves_inserted hp
  have hnew : (s.inserted t index).Hashed s.next := by
    unfold CacheSys.Hashed
    rw [inserted_cps_self]
    exact inserted_hash_self
  refine ⟨fun i q hi => ?_, fun q hq => ?_, fun q => ?_, ?_, hm.rest ht h.rest⟩
  · rcases h.inserted_cases hi with ⟨rfl, rfl⟩ | ⟨hq, hi⟩
    · rw [inserted_cps_self]
      exact ⟨rfl, Nat.lt_succ_self _⟩
    · rw [inserted_cps_of_ne hq]
      exact ⟨(h.index i q hi).1, Nat.lt_succ_of_lt (h.index i q hi).2⟩
  · have hq' : s.next + 1 ≤ q := hq
    rw [inserted_cps_of_ne (by omega)]
    exact h.fresh q (by omega)
  · have heq := h.refs q
    have hup := hm.total ht fun ph => ph.refs q
    rw [show (Phase.missing index).refs q = 0 from rfl] at hup
    by_cases hq : q = s.next
    · subst hq
      have hgot : (Phase.got s.next).refs s.next = 1 := by
        simp [Phase.refs, Phase.pages, Phase.loose]
      have hzero := h.fresh s.next le_rfl
      rw [inserted_cps_self, hashRef, if_pos hnew]
      dsimp only
      omega
    · have hgot : (Phase.got s.next).refs q = 0 := by
        simp [Phase.refs, Phase.pages, Phase.loose, Ne.symm hq]
      rw [inserted_cps_of_ne hq, h.inserted_hashRef hh hq]
      omega
  · refine fun u => hm.all (fun q hq => ?_) (fun u q hq => h.inserted_hashed hh (h.held u q hq)) u
    rw [mem_singleton.1 hq]
    exact hnew

theorem LinkInv.insertNew (h : LinkInv n s) (href : RefInv n s) (ht : t < n) :
    LinkInv n (s.inserted t index) := by
  have hm : Moves s (s.inserted t index) t _ _ := moves_inserted hp
  have hclean : (s.cps s.next).dirty = false := by
    by_contra hd
    have hlt := href.lt_of_hashed (h.dirty s.next (by simpa using hd)).2
    omega
  refine ⟨fun q => ?_, fun q hq => ?_, ?_⟩
  · have hlink := h.link q
    have hup := hm.total ht fun ph => ph.batch.count q
    rw [show (missing index).batch.count q = (got s.next).batch.count q from rfl] at hup
    have hdirty : ((s.inserted t index).cps q).dirty = (s.cps q).dirty := by
      by_cases hq : q = s.next
      · rw [hq, inserted_cps_self, hclean]
      · rw [inserted_cps_of_ne hq]
    rw [hdirty]
    show s.dirtyPages.count q + _ = _
    omega
  · by_cases hqn : q = s.next
    · rw [hqn, inserted_cps_self] at hq
      cases hq
    · rw [inserted_cps_of_ne hqn] at hq ⊢
      exact ⟨(h.dirty q hq).1, href.inserted_hashed hh (h.dirty q hq).2⟩
  · refine fun u => hm.all nofun (fun u q hq => ?_) u
    rw [(href.inserted_old hh (href.held u q (filled_subset hq))).2]
    exact h.filled u q hq

theorem DataInv.insertNew (h : DataInv s) (href : RefInv n s) : DataInv (s.inserted t index) := by
  refine ⟨fun i q hi hup => ?_, fun i q hi hup => ?_, fun i hi => h.clean i fun q hq => ?_⟩
  · rcases href.inserted_cases hi with ⟨rfl, rfl⟩ | ⟨hq, hi⟩
    · rw [inserted_cps_self] at hup
      cases hup
    · rw [inserted_cps_of_ne hq] at hup ⊢
      exact h.latest i q hi hup
  · rcases href.inserted_cases hi with ⟨rfl, rfl⟩ | ⟨hq, hi⟩
    · rw [inserted_cps_self] at hup
      cases hup
    · rw [inserted_cps_of_ne hq] at hup ⊢
      exact h.other (moves_inserted hp) hi hup id
  · obtain ⟨hhash, hcps⟩ := href.inserted_old (t := t) hh hq
    rw [← hcps]
    exact hi q hhash

theorem VerInv.insertNew (h : VerInv s) (href : RefInv n s) : VerInv (s.inserted t index) := by
  have hm : Moves s (s.inserted t index) t _ _ := moves_inserted hp
  refine ⟨h.bound, fun u => ?_, fun i => ?_, fun u => hm.all nofun h.start u, fun u => ?_⟩
  · refine hm.all nofun (fun u q v hu => ?_) u
    have hpg : q ∈ (s.phase u).pages := by
      rw [hu]
      exact mem_singleton.2 rfl
    rw [(href.inserted_old hh (href.held u q hpg)).2]
    exact h.modified u q v hu
  · refine (h.given i).imp id ?_
    rintro ⟨q, hi, hcase⟩
    obtain ⟨hhash, hcps⟩ := href.inserted_old (t := t) hh hi
    refine ⟨q, hhash, ?_⟩
    rw [hcps]
    exact hcase.imp id (hm.ex (P := fun ph => ph.Clearing q) id)
  · refine hm.all nofun (fun u c hu hal i h1 h2 => (h.call u c hu hal i h1 h2).imp id ?_) u
    rintro ⟨q, hi, hq⟩
    exact ⟨q, (href.inserted_old hh hi).1, hq⟩

end

/-! ## Reading, modifying and marking -/

theorem DataInv.read (h : DataInv s) (href : RefInv n s) (hp : s.phase t = .got cp)
    (hh : s.Hashed cp) (hu : (s.cps cp).uptodate = false) :
    DataInv ((s.readPage cp).setPhase t (.holding cp)) := by
  -- the store agrees with the latest bytes, as the page was not up to date
  have hclean : s.disk (s.cps cp).index = s.stored (s.cps cp).index ∧
      s.latest (s.cps cp).index = s.stored (s.cps cp).index := by
    apply h.clean
    intro q hq
    rw [hh.cp_eq hq rfl]
    exact hu
  have hself : ((s.readPage cp).setPhase t (.holding cp)).cps cp =
      { s.cps cp with data := s.disk (s.cps cp).index, uptodate := true, error := false } :=
    update_self _ _ _
  refine h.one href ⟨⟨hp, rfl⟩, rfl, apply_update_eq index rfl⟩ hh
    (fun q hq => update_of_ne hq _ _) (fun _ _ => ⟨rfl, rfl, rfl⟩) (fun q _ hq => absurd hq id)
    (by rw [hself]) ?_ (.inl ?_)
  · rw [hself]
    exact hclean.1.trans hclean.2.symm
  · rw [hself]
    exact ⟨hclean.1, hclean.1⟩

/-- The state after `t` has modified a page. -/
def CacheSys.modifiedBy (s : CacheSys) (t cp : Nat) (data : PageData) (fill : Bool) : CacheSys :=
  (s.modify cp data fill).setPhase t (.modified cp (s.version (s.cps cp).index + 1))

theorem modifiedBy_version_le : s.version ≤ (s.modifiedBy t cp data fill).version :=
  le_update_self_iff.2 (Nat.le_succ _)

theorem modifiedBy_cps_of_ne (hq : q ≠ cp) :
    (s.modifiedBy t cp data fill).cps q = s.cps q := update_of_ne hq _ _

theorem DataInv.modify (h : DataInv s) (href : RefInv n s) (hp : s.phase t = now)
    (hpend : ∀ q, ¬ now.Pending q) (hh : s.Hashed cp)
    (hu : (fill || (s.cps cp).uptodate) = true) (data : PageData) :
    DataInv (s.modifiedBy t cp data fill) := by
  have hm : Stays s (s.modifiedBy t cp data fill) t now _ :=
    ⟨⟨hp, rfl⟩, rfl, apply_update_eq index rfl⟩
  refine h.one href hm hh (fun q hq => modifiedBy_cps_of_ne hq)
    (fun i hi => ⟨rfl, rfl, update_of_ne hi _ _⟩) (fun q _ hq => absurd hq (hpend q))
    ((congrArg uptodate (update_self cp _ s.cps)).trans hu) ?_ (.inr (.inr ⟨t, ?_⟩))
  · exact (congrArg CachedPage.data (update_self cp _ s.cps)).trans (update_self _ _ s.latest).symm
  · rw [hm.at_self]
    rfl

/-- The bytes after `t` has marked a page: it was the only one that waited for this mark. -/
theorem DataInv.markDirty (h : DataInv s) (href : RefInv n s) (hp : s.phase t = now)
    (hh : s.Hashed cp) (hu : (s.cps cp).uptodate = true) (hpend : ∀ q, now.Pending q → q = cp) :
    DataInv ((s.markDirty cp).setPhase t ph) := by
  have hself : ((s.markDirty cp).setPhase t ph).cps cp = { s.cps cp with dirty := true } :=
    update_self _ _ _
  refine h.one href (stays_markDirty hp) hh (fun q hq => update_of_ne hq _ _)
    (fun _ _ => ⟨rfl, rfl, rfl⟩) (fun q hne hq => absurd (hpend q hq) hne) (by rw [hself, hu]) ?_
    (.inr (.inl (by rw [hself])))
  rw [hself]
  exact h.latest _ cp hh hu

/-- The state after the writer `t` has marked its modification. -/
def CacheSys.markedBy (s : CacheSys) (t cp version : Nat) : CacheSys :=
  ((s.markDirty cp).noteMarked cp version).setPhase t (.holding cp)

section

variable (h : CacheInv n s) (ht : t < n)

include h ht

theorem CacheInv.read (hp : s.phase t = .got cp) (hu : (s.cps cp).uptodate = false) :
    CacheInv n ((s.readPage cp).setPhase t (.holding cp)) := by
  have hm : Stays s ((s.readPage cp).setPhase t (.holding cp)) t (.got cp) (.holding cp) :=
    ⟨⟨hp, rfl⟩, rfl, apply_update_eq index rfl⟩
  have hdirty : ∀ q, (((s.readPage cp).setPhase t (.holding cp)).cps q).dirty = (s.cps q).dirty :=
    apply_update_eq dirty rfl
  have hself : (((s.readPage cp).setPhase t (.holding cp)).cps cp).uptodate = true :=
    congrArg uptodate (update_self cp _ s.cps)
  refine ⟨h.ref.same hm ht rfl (apply_update_eq refcnt rfl) rfl rfl,
    h.link.move hm ht rfl hdirty (fun q hq => ?_) rfl (fun q hq => ?_),
    h.data.read h.ref hp (h.ref.held t cp (by rw [hp]; exact mem_singleton.2 rfl)) hu,
    h.ver.move hm (fun q hq => (hdirty q).trans hq) rfl rfl rfl (fun q hq => absurd hq id) nofun
      nofun fun q hq => absurd hq not_mem_nil⟩
  · exact apply_update_of (P := fun c => c.uptodate = true) rfl hq
  · rw [mem_singleton.1 hq]
    exact hself

/-- The thread has only the page `cp`, which is up to date when it is not overwritten as a whole. -/
theorem CacheInv.modifyPage (hp : s.phase t = now) (hpages : now.pages = [cp])
    (hloose : now.loose = []) (hbatch : now.batch = [])
    (hpend : ∀ q, ¬ now.Pending q) (hu : (fill || (s.cps cp).uptodate) = true) (data : PageData) :
    CacheInv n (s.modifiedBy t cp data fill) := by
  have hcp : cp ∈ (s.phase t).pages := by
    rw [hp, hpages]
    exact mem_singleton.2 rfl
  have hm : Stays s (s.modifiedBy t cp data fill) t now _ :=
    ⟨⟨hp, rfl⟩, rfl, apply_update_eq index rfl⟩
  have hdirty : ∀ q, ((s.modifiedBy t cp data fill).cps q).dirty = (s.cps q).dirty :=
    apply_update_eq dirty rfl
  have hself : ((s.modifiedBy t cp data fill).cps cp).uptodate = true :=
    (congrArg uptodate (update_self cp _ s.cps)).trans hu
  refine ⟨h.ref.same hm ht rfl (apply_update_eq refcnt rfl) hpages.symm hloose.symm,
    h.link.move hm ht rfl hdirty (fun q hq => ?_) hbatch.symm ?_,
    h.data.modify h.ref hp hpend (h.ref.held t cp hcp) hu data,
    h.ver.advance hm modifiedBy_version_le le_rfl le_rfl (fun i => ?_) ?_
      (h.ver.given_move hm.toMoves (fun q hq => (hdirty q).trans hq) fun q hq =>
        absurd (pending_of_clearing hq) (hpend q)) nofun nofun⟩
  · exact apply_update_of (P := fun c => c.uptodate = true) hu hq
  · intro q hq
    rw [mem_singleton.1 hq]
    exact hself
  · have hb := h.ver.bound i
    exact ⟨le_trans hb.1 (modifiedBy_version_le i), le_trans hb.2 (modifiedBy_version_le i)⟩
  · rintro q v ⟨⟩
    exact le_of_eq (update_self _ _ s.version).symm

theorem CacheInv.modify (hp : s.phase t = .holding cp) (data : PageData) :
    CacheInv n (s.modifiedBy t cp data false) := by
  obtain ⟨-, hu⟩ := h.page hp (mem_singleton.2 rfl)
  refine h.modifyPage ht hp rfl rfl rfl (fun _ => id) ?_ data
  exact hu

/-- A page that is overwritten as a whole need not be up to date. -/
theorem CacheInv.overwrite (hp : s.phase t = .got cp) (data : PageData) :
    CacheInv n (s.modifiedBy t cp data true) :=
  h.modifyPage ht hp rfl rfl rfl (fun _ => id) rfl data

theorem CacheInv.mark {version : Nat} (hp : s.phase t = .modified cp version) :
    CacheInv n (s.markedBy t cp version) := by
  obtain ⟨hh, hu⟩ := h.page hp (mem_singleton.2 rfl)
  have hm : Stays s (s.markedBy t cp version) t _ _ :=
    ⟨⟨hp, rfl⟩, rfl, apply_update_eq index rfl⟩
  have hdirty : ∀ q, (s.cps q).dirty = true → ((s.markedBy t cp version).cps q).dirty = true :=
    fun q hq => apply_update_of (P := fun c => c.dirty = true) rfl hq
  have hindex : ((s.markDirty cp).cps cp).index = (s.cps cp).index :=
    apply_update_eq index (c := { s.cps cp with dirty := true }) rfl cp
  have hmarked : (s.markedBy t cp version).marked =
      update s.marked (s.cps cp).index (max (s.marked (s.cps cp).index) version) := by
    show update s.marked ((s.markDirty cp).cps cp).index
      (max (s.marked ((s.markDirty cp).cps cp).index) version) = _
    rw [hindex]
  have hbound : (s.markedBy t cp version).marked ≤ s.version := by
    rw [hmarked]
    exact update_le_iff.2 ⟨max_le (h.ver.bound _).1 (h.ver.modified t cp version hp),
      fun i _ => (h.ver.bound i).1⟩
  have hlink : LinkInv n ((s.markDirty cp).setPhase t (.holding cp)) :=
    h.link.markDirty hp ht hu hh rfl fun q hq => by
      rw [mem_singleton.1 hq]
      exact hu
  have hdata : DataInv ((s.markDirty cp).setPhase t (.holding cp)) :=
    h.data.markDirty h.ref hp hh hu fun q hq => Eq.symm hq
  refine ⟨h.ref.same hm ht rfl (apply_update_eq refcnt rfl) rfl rfl,
    ⟨hlink.link, hlink.dirty, hlink.filled⟩, ⟨hdata.latest, hdata.settled, hdata.clean⟩,
    h.ver.advance hm le_rfl ?_ le_rfl (fun i => ⟨hbound i, (h.ver.bound i).2⟩) nofun
      (fun i => ?_) nofun nofun⟩
  · rw [hmarked]
    exact le_update_self_iff.2 (le_max_left _ _)
  · by_cases hi : i = (s.cps cp).index
    · refine .inr ⟨cp, by rw [hi]; exact hh, .inl ?_⟩
      exact congrArg dirty (update_self cp _ s.cps)
    · rw [hmarked, update_of_ne hi]
      exact h.ver.given_move hm.toMoves hdirty (fun q hq => absurd hq id) i

end

/-! ## Flushing -/

variable {c : FlushCall} {batch : List Nat}

theorem mem_dirtyBatch {first last : Nat} : q ∈ s.dirtyBatch first last ↔
    q ∈ s.dirtyPages ∧ first ≤ (s.cps q).index ∧ (s.cps q).index ≤ last := by
  unfold dirtyBatch
  rw [mem_filter, decide_eq_true_iff]

/-- The list is split into the batch and the rest. -/
theorem count_dirtyBatch (first last q : Nat) : (s.dirtyBatch first last).count q +
    (s.collectDirtyBatch first last).dirtyPages.count q = s.dirtyPages.count q := by
  unfold dirtyBatch collectDirtyBatch
  dsimp only
  generalize s.dirtyPages = l
  induction l with
  | nil => rfl
  | cons a l ih =>
    by_cases ha : first ≤ (s.cps a).index ∧ (s.cps a).index ≤ last
    · rw [filter_cons_of_pos (by rw [decide_eq_true_iff]; exact ha),
        filter_cons_of_neg (by simp [ha]), count_cons, count_cons]
      omega
    · rw [filter_cons_of_neg (by rw [decide_eq_true_iff]; exact ha),
        filter_cons_of_pos (by rw [decide_eq_false ha]; rfl), count_cons, count_cons]
      omega

/-- The pages on the list of the mapping are dirty. -/
theorem LinkInv.dirty_of_mem (h : LinkInv n s) (hq : q ∈ s.dirtyPages) :
    (s.cps q).dirty = true := by
  have hlink := h.link q
  have hpos := count_pos_iff.2 hq
  by_contra hd
  rw [if_neg hd] at hlink
  omega

theorem LinkInv.dirty_of_batch (h : LinkInv n s) (href : RefInv n s) (hq : q ∈ (s.phase t).batch) :
    (s.cps q).dirty = true := by
  have ht : t < n := by
    by_contra hlt
    rw [href.rest t (Nat.le_of_not_lt hlt)] at hq
    cases hq
  have hlink := h.link q
  have hpos := count_pos_iff.2 hq
  have hle := apply_le_total (fun ph : Phase => ph.batch.count q) s.phase ht
  by_contra hd
  rw [if_neg hd] at hlink
  omega

/-- The state after `t` has collected its batch. -/
def CacheSys.collectedBy (s : CacheSys) (n t : Nat) (start stop : Int) : CacheSys :=
  (s.collectDirtyBatch (flushFirst start) (flushLast stop)).setPhase t
    (.flush (s.newCall n start stop) (s.dirtyBatch (flushFirst start) (flushLast stop)))

/-- When no other flusher is there, every dirty page is on the list of the mapping. -/
theorem CacheInv.dirty_listed (h : CacheInv n s) (hal : ∀ u < n, (s.phase u).call = none)
    (hq : (s.cps q).dirty = true) : q ∈ s.dirtyPages := by
  have hlink := h.link.link q
  have hzero : total n (fun ph : Phase => ph.batch.count q) s.phase = 0 :=
    total_eq_zero fun u hu => by rw [batch_of_call_none (hal u hu)]; rfl
  rw [if_pos hq] at hlink
  exact count_pos_iff.1 (by omega)

theorem CacheInv.collect (h : CacheInv n s) (ht : t < n) (hp : s.phase t = .idle)
    (start stop : Int) : CacheInv n (s.collectedBy n t start stop) := by
  have hbatch : ∀ q ∈ s.dirtyBatch (flushFirst start) (flushLast stop),
      (s.cps q).uptodate = true ∧ s.Hashed q := fun q hq =>
    h.link.dirty q (h.link.dirty_of_mem (mem_dirtyBatch.1 hq).1)
  have hm : Stays s (s.collectedBy n t start stop) t .idle _ := ⟨⟨hp, rfl⟩, rfl, fun _ => rfl⟩
  refine ⟨h.ref.move hm ht rfl (fun q => rfl) (fun q hq => (hbatch q hq).2) nofun,
    ⟨fun q => ?_, h.link.dirty, ?_⟩,
    h.data.move hm (fun _ => rfl) (fun _ => rfl) (fun _ _ => rfl) rfl rfl rfl
      fun q hq => absurd hq id,
    h.ver.advance hm le_rfl le_rfl le_rfl h.ver.bound nofun
      (h.ver.given_move hm.toMoves (fun _ hq => hq) fun q hq => absurd hq id) ?_ ?_⟩
  · have hlink := h.link.link q
    have hup := hm.total ht fun ph => ph.batch.count q
    have hsplit := count_dirtyBatch (s := s) (flushFirst start) (flushLast stop) q
    change _ + 0 = _ + (s.dirtyBatch (flushFirst start) (flushLast stop)).count q at hup
    show (s.collectDirtyBatch (flushFirst start) (flushLast stop)).dirtyPages.count q + _ =
      if (s.cps q).dirty then 1 else 0
    omega
  · exact fun u => hm.all (fun q hq => (hbatch q hq).1) h.link.filled u
  · rintro c ⟨⟩ i
    exact le_rfl
  · rintro c ⟨⟩ halone i h1 h2
    have hal : ∀ u < n, (s.phase u).call = none := by
      intro u hu
      have hall := all_eq_true.1 halone u (mem_range.2 hu)
      exact Option.isNone_iff_eq_none.1 hall
    refine (h.ver.given i).imp id ?_
    rintro ⟨q, hi, hd | ⟨u, hu⟩⟩
    · refine ⟨q, hi, mem_dirtyBatch.2 ⟨h.dirty_listed hal hd, ?_⟩⟩
      rw [(h.ref.index i q hi).1]
      exact ⟨h1, h2⟩
    -- a flusher that has cleared the page would be running
    rcases lt_or_ge u n with hun | hun
    · exact absurd hu (not_clearing_of_call_none (hal u hun) q)
    · rw [h.ref.rest u hun] at hu
      exact absurd hu id

/-- The state after `t` has cleared the first page of its batch. -/
def CacheSys.clearedBy (s : CacheSys) (t cp : Nat) (c : FlushCall) (batch : List Nat) : CacheSys :=
  (s.clearDirty cp).setPhase t (.cleared c cp batch)

section

variable (h : CacheInv n s)

include h

theorem CacheInv.clear (ht : t < n) (hp : s.phase t = .flush c (cp :: batch)) :
    CacheInv n (s.clearedBy t cp c batch) := by
  have hcp : cp ∈ (s.phase t).batch := by
    rw [hp]
    exact mem_cons_self
  have hd := h.link.dirty_of_batch h.ref hcp
  obtain ⟨hu, hh⟩ := h.link.dirty cp hd
  have hm : Stays s (s.clearedBy t cp c batch) t _ _ :=
    ⟨⟨hp, rfl⟩, rfl, apply_update_eq CachedPage.index rfl⟩
  have hup : ∀ q, ((s.clearedBy t cp c batch).cps q).uptodate = (s.cps q).uptodate :=
    apply_update_eq CachedPage.uptodate rfl
  have hself : ((s.clearedBy t cp c batch).cps cp).dirty = false :=
    congrArg CachedPage.dirty (update_self cp _ s.cps)
  have hne : ∀ q, q ≠ cp → (s.clearedBy t cp c batch).cps q = s.cps q := fun q hq =>
    update_of_ne hq _ _
  refine ⟨h.ref.same hm ht rfl (apply_update_eq CachedPage.refcnt rfl) rfl rfl,
    ⟨fun q => ?_, fun q hq => ?_, fun u q hu => ?_⟩,
    h.data.one h.ref hm hh hne (fun _ _ => ⟨rfl, rfl, rfl⟩) (fun q _ hq => absurd hq id)
      ((hup cp).trans hu) ?_ (.inr (.inr ⟨t, ?_⟩)),
    h.ver.advance hm le_rfl le_rfl le_rfl h.ver.bound nofun (fun i => ?_) ?_ ?_⟩
  · have hlink := h.link.link q
    have htot := hm.total ht fun ph => ph.batch.count q
    change _ + (cp :: batch).count q = _ + batch.count q at htot
    rw [count_cons] at htot
    show s.dirtyPages.count q + _ = _
    by_cases hqc : q = cp
    · rw [hqc] at hlink htot ⊢
      rw [hself]
      rw [if_pos hd] at hlink
      rw [if_pos (by simp)] at htot
      simp only [Bool.false_eq_true, if_false]
      omega
    · rw [hne q hqc]
      rw [if_neg (by simpa using Ne.symm hqc)] at htot
      omega
  · by_cases hqc : q = cp
    · rw [hqc, hself] at hq
      cases hq
    · rw [hne q hqc] at hq ⊢
      exact ⟨(h.link.dirty q hq).1, hm.hashed.2 (h.link.dirty q hq).2⟩
  · rw [hup]
    exact hm.all (fun q hq => h.link.filled t q (by rw [hp]; exact hq)) h.link.filled u q hu
  · exact (congrArg CachedPage.data (update_self cp _ s.cps)).trans (h.data.latest _ cp hh hu)
  · rw [hm.at_self]
    rfl
  · refine (h.ver.given i).imp id ?_
    rintro ⟨q, hi, hdq | hex⟩
    · by_cases hqc : q = cp
      · refine ⟨q, hi, .inr ⟨t, ?_⟩⟩
        rw [hm.at_self]
        exact hqc.symm
      · exact ⟨q, hi, .inl (by rw [hne q hqc]; exact hdq)⟩
    · exact ⟨q, hi, .inr (hm.ex (P := fun ph => ph.Clearing q) (fun hcl => absurd hcl id) hex)⟩
  · rintro c' ⟨⟩ i
    exact h.ver.start t c (by rw [hp]; rfl) i
  · rintro c' ⟨⟩ hal i h1 h2
    have hcall := h.ver.call t c (by rw [hp]; rfl) hal i h1 h2
    rw [hp] at hcall
    exact hcall

/-- `write_page` was called for the page that `t` has cleared. -/
theorem CacheInv.wrote (ht : t < n) {err : Option Errno}
    (hm : Stays s s' t (.cleared c cp batch) (.wrote c cp batch err)) (hcps : s'.cps = s.cps)
    (hnext : s'.next = s.next) (hlist : s'.dirtyPages = s.dirtyPages)
    (hversion : s'.version = s.version) (hmarked : s'.marked = s.marked)
    (hgiven : s'.given = update s.given (s.cps cp).index (s.version (s.cps cp).index))
    (hdata : DataInv s') : CacheInv n s' := by
  have hp := hm.before
  have hself : s'.given (s.cps cp).index = s.version (s.cps cp).index := by
    rw [hgiven, update_self]
  have hne : ∀ i, i ≠ (s.cps cp).index → s'.given i = s.given i := fun i hi => by
    rw [hgiven, update_of_ne hi]
  have hbound : s'.given ≤ s.version := by
    rw [hgiven]
    exact update_le_iff.2 ⟨le_rfl, fun i _ => (h.ver.bound i).2⟩
  -- a page with another index is another page
  have hother : ∀ i q, i ≠ (s.cps cp).index → s.hash i = some q → q ≠ cp := by
    rintro i q hi hq rfl
    exact hi (h.ref.index i q hq).1.symm
  refine ⟨h.ref.same hm ht hnext (fun q => by rw [hcps]) rfl rfl,
    h.link.move hm ht hlist (fun q => by rw [hcps]) (fun q hq => by rwa [hcps]) rfl fun q hq => by
      rw [hcps]; exact (h.page hp hq).2, hdata,
    h.ver.advance hm hversion.ge hmarked.ge ?_ (fun i => ?_) nofun (fun i => ?_) ?_ ?_⟩
  · rw [hgiven]
    exact le_update_self_iff.2 (h.ver.bound _).2
  · rw [hmarked, hversion]
    exact ⟨(h.ver.bound i).1, hbound i⟩
  · rw [hmarked, hcps]
    by_cases hi : i = (s.cps cp).index
    · left
      rw [hi, hself]
      exact (h.ver.bound _).1
    rw [hne i hi]
    refine (h.ver.given i).imp id ?_
    rintro ⟨q, hq, hd | hex⟩
    · exact ⟨q, hq, .inl hd⟩
    · refine ⟨q, hq, .inr (hm.ex (P := fun ph => ph.Clearing q) (fun hcl => ?_) hex)⟩
      exact absurd (Eq.symm hcl) (hother i q hi hq)
  · rintro c' ⟨⟩ i
    rw [hmarked]
    exact h.ver.start t c (by rw [hp]; rfl) i
  · rintro c' ⟨⟩ hal i h1 h2
    by_cases hi : i = (s.cps cp).index
    · left
      rw [hi, hself]
      exact le_trans (h.ver.start t c (by rw [hp]; rfl) _) (h.ver.bound _).1
    rw [hne i hi]
    refine (h.ver.call t c (by rw [hp]; rfl) hal i h1 h2).imp id ?_
    rintro ⟨q, hq, hmem⟩
    rw [hp] at hmem
    exact ⟨q, hq, (mem_cons.1 hmem).resolve_left (hother i q hi hq)⟩

theorem CacheInv.write (ht : t < n) (hp : s.phase t = .cleared c cp batch) :
    CacheInv n ((s.writePage cp).setPhase t (.wrote c cp batch none)) := by
  have hm : Stays s ((s.writePage cp).setPhase t (.wrote c cp batch none)) t _ _ :=
    ⟨⟨hp, rfl⟩, rfl, fun _ => rfl⟩
  obtain ⟨hh, hu⟩ := h.page hp mem_cons_self
  refine h.wrote ht hm rfl rfl rfl rfl rfl rfl (h.data.one h.ref hm hh (fun _ _ => rfl)
    (fun i hi => ⟨update_of_ne hi _ _, update_of_ne hi _ _, rfl⟩)
    (fun q hne hq => absurd (Eq.symm hq) hne) hu (h.data.latest _ cp hh hu)
    (.inl ⟨(update_self _ _ s.stored).symm, ?_⟩))
  exact (update_self _ _ s.disk).trans (update_self _ _ s.stored).symm

theorem CacheInv.writeError (ht : t < n)
    (hp : s.phase t = .cleared c cp batch) (data : PageData) (err : Errno) :
    CacheInv n ((s.writeFailed cp data).setPhase t (.wrote c cp batch (some err))) := by
  have hm : Stays s ((s.writeFailed cp data).setPhase t (.wrote c cp batch (some err))) t _ _ :=
    ⟨⟨hp, rfl⟩, rfl, fun _ => rfl⟩
  obtain ⟨hh, hu⟩ := h.page hp mem_cons_self
  refine h.wrote ht hm rfl rfl rfl rfl rfl rfl (h.data.one h.ref hm hh (fun _ _ => rfl)
    (fun i hi => ⟨update_of_ne hi _ _, rfl, rfl⟩) (fun _ _ hq => hq) hu
    (h.data.latest _ cp hh hu) (.inr (.inr ⟨t, ?_⟩)))
  rw [hm.at_self]
  rfl

theorem CacheInv.redirty (ht : t < n) {err : Errno} (hp : s.phase t = .failed c cp batch err) :
    CacheInv n ((s.markDirty cp).setPhase t (.finished (c.note err) cp batch)) := by
  obtain ⟨hh, hu⟩ := h.page hp mem_cons_self
  refine ⟨h.ref.same (stays_markDirty hp) ht rfl (apply_update_eq refcnt rfl) rfl rfl,
    h.link.markDirty hp ht hu hh rfl fun q hq => (h.page hp hq).2,
    h.data.markDirty h.ref hp hh hu fun q hq => Eq.symm hq,
    h.ver.move (stays_markDirty hp) (fun q hq => ?_) rfl rfl rfl (fun q hq => absurd hq id) nofun ?_
      fun q hq => hq⟩
  · exact apply_update_of (P := fun c => c.dirty = true) rfl hq
  · rintro c' ⟨⟩
    exact ⟨c, rfl, rfl, rfl, rfl, rfl⟩

end

/-! ## Reclaiming -/

/-- Nobody else has a page that the shrinker finds with two references. -/
theorem RefInv.sole_of_reclaimable (h : RefInv n s) (ht : t < n) (hp : s.phase t = .pinned cp)
    (hr : s.Reclaimable cp) {u : Nat} (hu : cp ∈ (s.phase u).pages) : False := by
  have hut : u ≠ t := by
    rintro rfl
    rw [hp] at hu
    cases hu
  have hun : u < n := by
    by_contra hlt
    rw [h.rest u (Nat.le_of_not_lt hlt)] at hu
    cases hu
  have heq := h.refs cp
  have hle := add_le_total (fun ph : Phase => ph.refs cp) s.phase ht hun hut
  have hmine : (s.phase t).refs cp = 1 := by
    rw [hp]
    simp [Phase.refs, Phase.pages, Phase.loose]
  have hpos : (s.phase u).refs cp ≠ 0 := fun h0 => (refs_eq_zero.1 h0).1 hu
  rw [hr.1, hashRef, if_pos hr.2.2.2] at heq
  omega

/-- The state after the shrinker `t` has taken a page out of the hash. -/
def CacheSys.detachedBy (s : CacheSys) (t cp : Nat) : CacheSys :=
  (s.detachLocked cp).setPhase t (.detached cp)

theorem detachedBy_hash_of_ne (hi : i ≠ (s.cps cp).index) :
    (s.detachedBy t cp).hash i = s.hash i := update_of_ne hi _ _

theorem detachedBy_hash_self : (s.detachedBy t cp).hash (s.cps cp).index = none := update_self _ _ _

theorem detachedBy_index (q : Nat) : ((s.detachedBy t cp).cps q).index = (s.cps q).index :=
  apply_update_eq index (c := { s.cps cp with dirty := false }) rfl q

theorem detachedBy_hashed (hh : s.Hashed cp) :
    (s.detachedBy t cp).Hashed q ↔ s.Hashed q ∧ q ≠ cp := by
  unfold CacheSys.Hashed
  rw [detachedBy_index]
  by_cases hi : (s.cps q).index = (s.cps cp).index
  · rw [hi, detachedBy_hash_self]
    constructor
    · intro hq
      cases hq
    · rintro ⟨hq, hne⟩
      exact absurd (Option.some.inj (hq.symm.trans hh)) hne
  · rw [detachedBy_hash_of_ne hi]
    refine ⟨fun hq => ⟨hq, ?_⟩, And.left⟩
    rintro rfl
    exact hi rfl

/-- What is still in the hash was there before, under another index. -/
theorem hash_of_detachedBy (hi : (s.detachedBy t cp).hash i = some q) :
    i ≠ (s.cps cp).index ∧ s.hash i = some q := by
  have hne : i ≠ (s.cps cp).index := by
    rintro rfl
    rw [detachedBy_hash_self] at hi
    cases hi
  rw [detachedBy_hash_of_ne hne] at hi
  exact ⟨hne, hi⟩

theorem RefInv.detach (h : RefInv n s) (ht : t < n) (hp : s.phase t = .pinned cp)
    (hr : s.Reclaimable cp) : RefInv n (s.detachedBy t cp) := by
  have hrefcnt : ∀ q, ((s.detachedBy t cp).cps q).refcnt = (s.cps q).refcnt :=
    apply_update_eq refcnt rfl
  have hm : Moves s (s.detachedBy t cp) t _ _ := ⟨hp, rfl⟩
  refine ⟨fun i q hi => ?_, fun q hq => ?_, fun q => ?_, ?_, hm.rest ht h.rest⟩
  · rw [detachedBy_index]
    exact h.index i q (hash_of_detachedBy hi).2
  · rw [hrefcnt]
    exact h.fresh q hq
  · have heq := h.refs q
    have hup := hm.total ht fun ph => ph.refs q
    rw [hrefcnt]
    unfold hashRef at heq ⊢
    simp only [detachedBy_hashed hr.2.2.2]
    by_cases hq : q = cp
    · rw [hq] at heq hup ⊢
      have h1 : (Phase.pinned cp).refs cp = 1 := by simp [Phase.refs, Phase.pages, Phase.loose]
      have h2 : (Phase.detached cp).refs cp = 2 := by simp [Phase.refs, Phase.pages, Phase.loose]
      rw [if_pos hr.2.2.2] at heq
      rw [if_neg (fun hc => hc.2 rfl)]
      omega
    have h1 : (Phase.pinned cp).refs q = 0 := by
      simp [Phase.refs, Phase.pages, Phase.loose, Ne.symm hq]
    have h2 : (Phase.detached cp).refs q = 0 := by
      simp [Phase.refs, Phase.pages, Phase.loose, Ne.symm hq]
    have hiff : (s.Hashed q ∧ q ≠ cp) ↔ s.Hashed q := and_iff_left hq
    simp only [hiff]
    omega
  · refine fun u => hm.all nofun
      (fun u q hu => (detachedBy_hashed hr.2.2.2).2 ⟨h.held u q hu, ?_⟩) u
    rintro rfl
    exact h.sole_of_reclaimable ht hp hr hu

theorem CacheInv.detach (h : CacheInv n s) (ht : t < n) (hp : s.phase t = .pinned cp)
    (hr : s.Reclaimable cp) : CacheInv n (s.detachedBy t cp) := by
  have hclean := hr.2.1
  have hself : { s.cps cp with dirty := false } = s.cps cp := by rw [← hclean]
  have hcps : (s.detachedBy t cp).cps = s.cps := by
    show update s.cps cp { s.cps cp with dirty := false } = s.cps
    rw [hself, update_eq_self]
  have hlist : (s.detachedBy t cp).dirtyPages = s.dirtyPages := by
    show (if (s.cps cp).dirty then s.dirtyPages.erase cp else s.dirtyPages) = s.dirtyPages
    rw [hclean]
    rfl
  have hm : Moves s (s.detachedBy t cp) t _ _ := ⟨hp, rfl⟩
  have hsole : ∀ u, ¬ (s.phase u).Pending cp := fun u hu =>
    h.ref.sole_of_reclaimable ht hp hr (pages_of_pending hu)
  refine ⟨h.ref.detach ht hp hr, ⟨fun q => ?_, fun q hq => ?_, ?_⟩,
    ⟨fun i q hi hq => ?_, fun i q hi hq => ?_, fun i hi => ?_⟩,
    ⟨h.ver.bound, fun u => ?_, fun i => ?_, fun u => hm.all nofun h.ver.start u, fun u => ?_⟩⟩
  · have hlink := h.link.link q
    have hup := hm.total ht fun ph => ph.batch.count q
    rw [hcps, hlist]
    change _ + 0 = _ + 0 at hup
    omega
  · rw [hcps] at hq ⊢
    refine ⟨(h.link.dirty q hq).1, (detachedBy_hashed hr.2.2.2).2 ⟨(h.link.dirty q hq).2, ?_⟩⟩
    rintro rfl
    rw [hclean] at hq
    cases hq
  · rw [hcps]
    exact fun u => hm.all nofun h.link.filled u
  · rw [hcps] at hq ⊢
    exact h.data.latest i q (hash_of_detachedBy hi).2 hq
  · rw [hcps] at hq ⊢
    exact h.data.other hm (hash_of_detachedBy hi).2 hq fun hpend => absurd hpend id
  · by_cases hii : i = (s.cps cp).index
    · -- the page is clean and nobody is about to change that
      cases hu : (s.cps cp).uptodate with
      | true =>
        have hcp : s.hash i = some cp := by
          rw [hii]
          exact hr.2.2.2
        rcases h.data.settled i cp hcp hu with ⟨hdata, hd⟩ | hd | ⟨u, hpend⟩
        · exact ⟨hd, (h.data.latest i cp hcp hu).symm.trans hdata⟩
        · rw [hclean] at hd
          cases hd
        · exact absurd hpend (hsole u)
      | false =>
        apply h.data.clean i
        intro q hq
        rw [hr.2.2.2.cp_eq hq hii]
        exact hu
    · apply h.data.clean i
      intro q hq
      have hnot := hi q (by rw [detachedBy_hash_of_ne hii]; exact hq)
      rwa [hcps] at hnot
  · rw [hcps]
    exact hm.all nofun h.ver.modified u
  · rcases h.ver.given i with hle | ⟨q, hq, hcase⟩
    · exact .inl hle
    have hqc : q ≠ cp := by
      rintro rfl
      rcases hcase with hd | ⟨u, hcl⟩
      · rw [hclean] at hd
        cases hd
      · exact hsole u (pending_of_clearing hcl)
    have hii : i ≠ (s.cps cp).index := fun hii => hqc (hr.2.2.2.cp_eq hq hii)
    refine .inr ⟨q, by rw [detachedBy_hash_of_ne hii]; exact hq, ?_⟩
    rw [hcps]
    exact hcase.imp id (hm.ex (P := fun ph => ph.Clearing q) fun hcl => absurd hcl id)
  · refine hm.all nofun (fun u c hu hal i h1 h2 => (h.ver.call u c hu hal i h1 h2).imp id ?_) u
    rintro ⟨q, hq, hmem⟩
    have hii : i ≠ (s.cps cp).index := fun hii =>
      h.ref.sole_of_reclaimable ht hp hr (hr.2.2.2.cp_eq hq hii ▸ toWrite_subset hmem)
    exact ⟨q, by rw [detachedBy_hash_of_ne hii]; exact hq, hmem⟩

end BrkKernel.Writeback
