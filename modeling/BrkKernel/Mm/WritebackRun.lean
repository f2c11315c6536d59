import BrkKernel.Mm.WritebackInv

/-!
# Runs of the page cache

Every step of every thread keeps `CacheInv` (`CacheInv.step`), so it holds in every interleaving
that starts with an empty cache. `no_lost_update` reads off it the guarantee of a flush and the
one of the shrinker.
-/

set_option autoImplicit false

namespace BrkKernel.Writeback

open Lib CacheStep List

/-! ## The steps that move references only -/

section Steps

variable {n t : Nat} {s : CacheSys} {ph now : Phase} {index cp : Nat} {c : FlushCall}
  {batch : List Nat}

theorem count_one (q cp : Nat) : [cp].count q = if q = cp then 1 else 0 := by
  rw [count_singleton]
  by_cases h : q = cp
  · rw [if_pos h, if_pos (beq_iff_eq.2 h.symm)]
  · rw [if_neg h, if_neg fun hb => h (beq_iff_eq.1 hb).symm]

section

variable (h : CacheInv n s)

include h

theorem CacheInv.find (ht : t < n) (hp : s.phase t = .idle ∨ s.phase t = .missing index)
    (hh : s.hash index = some cp) : CacheInv n ((s.get cp).setPhase t (.got cp)) := by
  have hgot : ∀ q ∈ (Phase.got cp).pages, s.Hashed q := by
    intro q hq
    rw [mem_singleton.1 hq]
    exact h.ref.hashed_of_hash hh
  have hrefs : ∀ q, (Phase.got cp).refs q = 0 + if q = cp then 1 else 0 := by
    intro q
    rw [zero_add]
    exact count_one q cp
  rcases hp with hp | hp <;>
  exact h.goGet ht hp (.plain hp rfl (fun _ => id) rfl rfl nofun hgot nofun nofun) hrefs

theorem CacheInv.hitUptodate (ht : t < n) (hp : s.phase t = .got cp)
    (hu : (s.cps cp).uptodate = true) : CacheInv n (s.setPhase t (.holding cp)) := by
  refine h.go ht hp (.plain hp rfl (fun _ => id) rfl rfl nofun (fun q hq => ?_) nofun
    fun q hq => ?_) fun _ => rfl
  · exact h.ref.held t q (by rw [hp]; exact hq)
  · rw [mem_singleton.1 hq]
    exact hu

/-- A thread that has one reference will only give it back. -/
theorem CacheInv.loose_ne_zero (hp : s.phase t = now) (hcp : cp ∈ now.pages ∨ cp ∈ now.loose) :
    ∀ q ∈ (Phase.dropping cp).loose, (s.cps q).refcnt ≠ 0 := by
  subst hp
  intro q hq
  rw [mem_singleton.1 hq]
  exact h.ref.refcnt_ne_zero hcp

theorem CacheInv.readError (ht : t < n) (hp : s.phase t = .got cp)
    (hu : (s.cps cp).uptodate = false) (data : PageData) :
    CacheInv n ((s.readFailed cp data).setPhase t (.dropping cp)) :=
  h.goSame cp { s.cps cp with data := data, error := true } ht hp
    (.plain hp rfl (fun _ => id) rfl rfl nofun nofun
      (h.loose_ne_zero hp (.inl (mem_singleton.2 rfl))) nofun)
    (fun _ => add_comm _ _) rfl rfl rfl rfl fun hup => absurd (hu.symm.trans hup) nofun

theorem CacheInv.release (ht : t < n) (hp : s.phase t = .holding cp) :
    CacheInv n (s.setPhase t (.dropping cp)) :=
  h.go ht hp (.plain hp rfl (fun _ => id) rfl rfl nofun nofun
    (h.loose_ne_zero hp (.inl (mem_singleton.2 rfl))) nofun) fun _ => add_comm _ _

theorem CacheInv.drop (ht : t < n) (hp : s.phase t = .dropping cp) :
    CacheInv n ((s.put cp).setPhase t .idle) := by
  refine h.goPut ht hp (.plain hp rfl (fun _ => id) rfl rfl nofun nofun nofun nofun) fun q => ?_
  rw [← count_one]
  rfl

/-- A step of a flusher between two writes. -/
theorem CacheInv.follows (hp : s.phase t = now) (hpages : ∀ q ∈ ph.pages, q ∈ now.pages)
    (hfilled : ∀ q ∈ ph.filled, q ∈ now.filled) (hloose : ph.loose = [])
    (hbatch : ph.batch = now.batch) (hpend : ∀ q, now.Pending q → ph.Pending q)
    (hclear : ∀ q, ¬ now.Clearing q) (hmod : ∀ q v, ph ≠ .modified q v) (hcall : ph.call = now.call)
    (hwrite : ph.toWrite = now.toWrite) : Follows s t ph := by
  subst hp
  refine ⟨fun q hq => h.ref.held t q (hpages q hq), ?_,
    fun q hq => h.link.filled t q (hfilled q hq), hbatch, hpend,
    fun q hq => absurd hq (hclear q), hmod, fun c hc => ?_, ?_⟩
  · rw [hloose]
    exact nofun
  · exact ⟨c, hcall.symm.trans hc, rfl, rfl, rfl, rfl⟩
  · rw [hwrite]
    exact fun _ => id

end

section

variable (h : CacheInv n s) (ht : t < n)

include h ht

theorem CacheInv.writeDone (hp : s.phase t = .wrote c cp batch none) :
    CacheInv n ((s.endWriteback cp none).setPhase t (.finished c cp batch)) := by
  exact h.goSame cp
    { s.cps cp with writeback := false, error := none.isSome || (s.cps cp).error } ht hp
    (h.follows hp (fun _ => id) (fun _ => id) rfl rfl (fun _ hq => absurd hq id) (fun _ => id) nofun
      rfl rfl) (fun _ => rfl) rfl rfl rfl rfl fun _ => rfl

theorem CacheInv.writeUndone {err : Errno} (hp : s.phase t = .wrote c cp batch (some err)) :
    CacheInv n ((s.endWriteback cp (some err)).setPhase t (.failed c cp batch err)) := by
  exact h.goSame cp
    { s.cps cp with writeback := false, error := (some err).isSome || (s.cps cp).error } ht hp
    (h.follows hp (fun _ => id) (fun _ => id) rfl rfl (fun _ => id) (fun _ => id) nofun rfl rfl)
    (fun _ => rfl) rfl rfl rfl rfl fun _ => rfl

theorem CacheInv.flushPut (hp : s.phase t = .finished c cp batch) :
    CacheInv n ((s.put cp).setPhase t (.flush c batch)) := by
  refine h.goPut ht hp (h.follows hp (fun _ => mem_cons_of_mem cp)
    (fun _ => mem_cons_of_mem cp) rfl rfl (fun _ hq => absurd hq id) (fun _ => id) nofun rfl
    rfl) fun q => ?_
  rw [← count_one q cp]
  show batch.count q + 0 + [cp].count q = ([cp] ++ batch).count q + 0
  rw [count_append]
  omega

theorem CacheInv.pin (hp : s.phase t = .idle) (hr : (s.cps cp).refcnt ≠ 0) :
    CacheInv n ((s.get cp).setPhase t (.pinned cp)) := by
  refine h.goGet ht hp (.plain hp rfl (fun _ => id) rfl rfl nofun nofun (fun q hq => ?_) nofun)
    fun q => ?_
  · rw [mem_singleton.1 hq]
    exact hr
  · rw [← count_one]
    rfl

theorem CacheInv.skip (hp : s.phase t = .pinned cp) : CacheInv n (s.setPhase t (.dropping cp)) :=
  h.go ht hp (.plain hp rfl (fun _ => id) rfl rfl nofun nofun
    (h.loose_ne_zero hp (.inr (mem_singleton.2 rfl))) nofun) fun _ => rfl

theorem CacheInv.putCache (hp : s.phase t = .detached cp) :
    CacheInv n ((s.put cp).setPhase t (.dropping cp)) := by
  refine h.goPut ht hp (.plain hp rfl (fun _ => id) rfl rfl nofun nofun
    (h.loose_ne_zero hp (.inr mem_cons_self)) nofun) fun q => ?_
  rw [← count_one]
  show 0 + [cp].count q + [cp].count q = 0 + ([cp] ++ [cp]).count q
  rw [count_append]
  omega

/-- A thread without a page becomes idle. -/
theorem CacheInv.goIdle (hp : s.phase t = now) (hold : now.toWrite = [])
    (hpend : ∀ q, ¬ now.Pending q) (hrefs : ∀ q, now.refs q = 0) :
    CacheInv n (s.setPhase t .idle) := by
  exact h.go ht hp (.plain hp hold hpend rfl rfl nofun nofun nofun nofun) fun q => (hrefs q).symm

end

end Steps

/-! ## Every step -/

theorem CacheInv.step {n : Nat} {s s' : CacheSys} (hs : CacheStep n s s') (h : CacheInv n s) :
    CacheInv n s' := by
  cases hs with
  | findHit ht hp hh => exact h.find ht (.inl hp) hh
  | findMiss ht hp hh =>
    exact h.go ht hp (.plain hp rfl (fun _ => id) rfl rfl nofun nofun nofun nofun) fun _ => rfl
  | allocFailed ht hp => exact h.goIdle ht hp rfl (fun _ => id) fun _ => rfl
  | insertHit ht hp hh => exact h.find ht (.inr hp) hh
  | insertNew ht hp hh =>
    exact ⟨h.ref.insertNew hp hh ht, h.link.insertNew hp hh h.ref ht, h.data.insertNew hp hh h.ref,
      h.ver.insertNew hp hh h.ref⟩
  | hitUptodate ht hp hu => exact h.hitUptodate ht hp hu
  | read ht hp hu => exact h.read ht hp hu
  | readError ht hp hu data => exact h.readError ht hp hu data
  | modify ht hp data => exact h.modify ht hp data
  | overwrite ht hp data => exact h.overwrite ht hp data
  | mark ht hp => exact h.mark ht hp
  | release ht hp => exact h.release ht hp
  | drop ht hp => exact h.drop ht hp
  | flushStart ht hp start stop => exact h.collect ht hp start stop
  | clear ht hp hu => exact h.clear ht hp
  | @clearEmpty t cp c batch ht hp hu =>
    -- a page in a batch is dirty, and a dirty page is up to date
    have hup := h.link.filled t cp (by rw [hp]; exact mem_cons_self)
    exact absurd (hu.symm.trans hup) nofun
  | write ht hp => exact h.write ht hp
  | writeError ht hp data err => exact h.writeError ht hp data err
  | writeDone ht hp => exact h.writeDone ht hp
  | writeUndone ht hp => exact h.writeUndone ht hp
  | redirty ht hp => exact h.redirty ht hp
  | flushPut ht hp => exact h.flushPut ht hp
  | flushReturn ht hp => exact h.goIdle ht hp rfl (fun _ => id) fun _ => rfl
  | pin ht hp hr => exact h.pin ht hp hr
  | skip ht hp hr => exact h.skip ht hp
  | detach ht hp hr => exact h.detach ht hp hr
  | putCache ht hp => exact h.putCache ht hp

theorem total_idle (n : Nat) (f : Phase → Nat) (h : f .idle = 0) :
    total n f (fun _ => Phase.idle) = 0 :=
  total_eq_zero fun _ _ => h

theorem emptyCache_inv (n : Nat) (disk : Nat → PageData) : CacheInv n (emptyCache disk) := by
  refine ⟨⟨nofun, fun _ _ => rfl, fun cp => ?_, nofun, fun _ _ => rfl⟩,
    ⟨fun cp => ?_, nofun, nofun⟩, ⟨nofun, nofun, fun _ _ => ⟨rfl, rfl⟩⟩,
    ⟨fun _ => ⟨le_rfl, le_rfl⟩, nofun, fun _ => .inl le_rfl, nofun, nofun⟩⟩
  · show 0 = 0 + total n _ (fun _ => Phase.idle)
    rw [total_idle n _ rfl]
  · show 0 + total n _ (fun _ => Phase.idle) = 0
    rw [total_idle n _ rfl]

theorem CacheInv.run {n : Nat} {s s' : CacheSys} (hrun : Run (CacheStep n) s s')
    (h : CacheInv n s) : CacheInv n s' :=
  Run.invariant (fun _ _ hs h => h.step hs) hrun h

/-! ## The guarantees -/

/-- The thread is in `writeback_one` for the page. -/
def Phase.InWriteback : Phase → Nat → Prop
  | .cleared _ cp _, x => cp = x
  | .wrote _ cp _ _, x => cp = x
  | .failed _ cp _ _, x => cp = x
  | _, _ => False

/-- What is promised in every state. -/
structure NoLostUpdate (s : CacheSys) : Prop where
  /-- A flush that began alone and is about to return has called `write_page`, for every page of its
  range, after every modification that was marked before it began. -/
  flushed : ∀ t c, s.phase t = .flush c [] → c.alone = true → ∀ i, c.first ≤ i → i ≤ c.last →
    c.start i ≤ s.given i
  /-- A page whose latest bytes are not what was last written is in the hash and dirty, unless a
  writer is about to mark it or a flusher is in `writeback_one` for it. -/
  kept : ∀ i, s.latest i ≠ s.stored i →
    (∀ t cp v, s.phase t = .modified cp v → (s.cps cp).index ≠ i) →
    (∀ t cp, (s.phase t).InWriteback cp → (s.cps cp).index ≠ i) →
    ∃ cp, s.hash i = some cp ∧ (s.cps cp).data = s.latest i ∧ (s.cps cp).dirty = true

theorem Phase.pending_cases {ph : Phase} {cp : Nat} (h : ph.Pending cp) :
    (∃ v, ph = .modified cp v) ∨ ph.InWriteback cp := by
  cases ph with
  | modified q v =>
    obtain rfl : q = cp := h
    exact .inl ⟨v, rfl⟩
  | cleared c q b => exact .inr h
  | wrote c q b e =>
    cases e with
    | none => exact absurd h id
    | some e => exact .inr h
  | failed c q b e => exact .inr h
  | _ => exact absurd h id

theorem CacheInv.noLostUpdate {n : Nat} {s : CacheSys} (h : CacheInv n s) : NoLostUpdate s := by
  refine ⟨fun t c hp hal i h1 h2 => ?_, fun i hne hmod hwb => ?_⟩
  · rcases h.ver.call t c (by rw [hp]; rfl) hal i h1 h2 with hle | ⟨cp, -, hcp⟩
    · exact hle
    · rw [hp] at hcp
      exact absurd hcp not_mem_nil
  · by_cases hex : ∃ cp, s.hash i = some cp ∧ (s.cps cp).uptodate = true
    · obtain ⟨cp, hi, hu⟩ := hex
      have hlatest := h.data.latest i cp hi hu
      have hidx := (h.ref.index i cp hi).1
      rcases h.data.settled i cp hi hu with ⟨hdata, -⟩ | hd | ⟨t, hpend⟩
      · exact absurd (hlatest.symm.trans hdata) hne
      · exact ⟨cp, hi, hlatest, hd⟩
      · rcases Phase.pending_cases hpend with ⟨v, hp⟩ | hin
        · exact absurd hidx (hmod t cp v hp)
        · exact absurd hidx (hwb t cp hin)
    · refine absurd (h.data.clean i fun cp hi => ?_).2 hne
      exact Bool.eq_false_iff.2 fun hu => hex ⟨cp, hi, hu⟩

/-- In every interleaving of the threads. -/
theorem no_lost_update {n : Nat} {disk : Nat → PageData} {s : CacheSys}
    (hrun : Run (CacheStep n) (emptyCache disk) s) : NoLostUpdate s :=
  ((emptyCache_inv n disk).run hrun).noLostUpdate

/-- The thread 0 has read the page 0 of an empty store, filled it with ones and marked it. -/
def markedCache : CacheSys :=
  let s₁ := ((emptyCache fun _ _ => 0).setPhase 0 (.missing 0)).inserted 0 0
  let s₂ := (s₁.readPage 0).setPhase 0 (.holding 0)
  (s₂.modifiedBy 0 0 (fun _ => 1) false).markedBy 0 0 1

/-- The thread 1 has then flushed all pages and is about to return. -/
def flushedCache : CacheSys :=
  let c := markedCache.newCall 2 0 (-1)
  let s₁ := (markedCache.collectedBy 2 1 0 (-1)).clearedBy 1 0 c []
  let s₂ := (s₁.writePage 0).setPhase 1 (.wrote c 0 [] none)
  let s₃ := (s₂.endWriteback 0 none).setPhase 1 (.finished c 0 [])
  (s₃.put 0).setPhase 1 (.flush c [])

theorem markedCache_run : Run (CacheStep 2) (emptyCache fun _ _ => 0) markedCache :=
  (((((Relation.ReflTransGen.refl.tail
    (@findMiss 2 _ 0 0 (by decide) rfl rfl)).tail
    (@insertNew 2 _ 0 0 (by decide) rfl rfl)).tail
    (@read 2 _ 0 0 (by decide) rfl rfl)).tail
    (@modify 2 _ 0 0 (by decide) rfl fun _ => 1)).tail
    (@mark 2 _ 0 0 1 (by decide) rfl))

theorem flushedCache_run : Run (CacheStep 2) (emptyCache fun _ _ => 0) flushedCache :=
  ((((markedCache_run.tail
    (@flushStart 2 _ 1 (by decide) rfl 0 (-1))).tail
    (@clear 2 _ 1 0 (markedCache.newCall 2 0 (-1)) [] (by decide) rfl rfl)).tail
    (@write 2 _ 1 0 _ [] (by decide) rfl)).tail
    (@writeDone 2 _ 1 0 _ [] (by decide) rfl)).tail
    (@flushPut 2 _ 1 0 _ [] (by decide) rfl)

/-- The marked page is dirty, and after the flush `write_page` has had it. -/
theorem no_lost_update_one_page :
    (∃ cp, markedCache.hash 0 = some cp ∧ (markedCache.cps cp).dirty = true) ∧
      markedCache.marked 0 = 1 ∧ 1 ≤ flushedCache.given 0 := by
  refine ⟨?_, rfl, ?_⟩
  · have hkept := (no_lost_update markedCache_run).kept 0
      (fun h => absurd (congrFun h ⟨0, by decide⟩) (by decide)) ?_ ?_
    · obtain ⟨cp, hi, -, hd⟩ := hkept
      exact ⟨cp, hi, hd⟩
    · intro t cp v hp
      exact absurd hp (by cases t <;> exact nofun)
    · intro t cp hin
      exact absurd hin (by cases t <;> exact id)
  · exact (no_lost_update flushedCache_run).flushed 1 (markedCache.newCall 2 0 (-1)) rfl rfl 0
      (by decide) (by decide)

/-- In every interleaving the count of a page is that of the references of the cache and of the
threads, two threads that work on the same index work on the same page, and a dirty page is linked
once, in the list of the mapping or in the batch of one flusher, and a clean one nowhere. -/
theorem page_references {n : Nat} {disk : Nat → PageData} {s : CacheSys}
    (hrun : Run (CacheStep n) (emptyCache disk) s) :
    (∀ cp, (s.cps cp).refcnt = s.hashRef cp + total n (fun ph => ph.refs cp) s.phase) ∧
      (∀ t u cp q, cp ∈ (s.phase t).pages → q ∈ (s.phase u).pages →
        (s.cps q).index = (s.cps cp).index → q = cp) ∧
      ∀ cp, s.dirtyPages.count cp + total n (fun ph => ph.batch.count cp) s.phase =
        if (s.cps cp).dirty then 1 else 0 := by
  have h := (emptyCache_inv n disk).run hrun
  refine ⟨h.ref.refs, fun t u cp q hcp hq hidx => ?_, h.link.link⟩
  exact (h.ref.held t cp hcp).cp_eq (h.ref.held u q hq) hidx

/-- The marked page has the reference of the cache and that of its writer. -/
theorem page_references_marked : (markedCache.cps 0).refcnt = 2 ∧ markedCache.dirtyPages = [0] ∧
    (markedCache.cps 0).refcnt =
      markedCache.hashRef 0 + total 2 (fun ph => ph.refs 0) markedCache.phase :=
  ⟨rfl, rfl, (page_references markedCache_run).1 0⟩

end BrkKernel.Writeback
