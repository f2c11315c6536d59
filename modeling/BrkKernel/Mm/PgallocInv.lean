import BrkKernel.Mm.Pgalloc

/-!
# The page allocator keeps an exact partition

`BuddyInv` is what the lists and the flags of `struct page` agree on. The blocks in the hands of the
callers, on the free lists and in the per-CPU caches are counted by their spans (`cover`), so that
each operation is checked by adding up; a page whose flags show a free block is on the list of its
order. Inside an operation a block may be in flight between the lists, and the head of a block that
is being split may still show as free.

`pageFreeToBuddy_inv`, `pageFree_inv`, `allocAttempt_inv` and `pageAlloc_inv` say for each function
that it meets no failing `assert` and what it does to the partition.
-/

set_option autoImplicit false

namespace BrkKernel.Pgalloc

open Lib Function PageAlloc

variable {cpu fuel n o order p x curr : Nat} {b : Nat × Nat} {live kept live' : List (Nat × Nat)}
  {K K' : Nat → Nat} {hole hole' : Option Nat} {f : PageFlags} {m : Machine} {s s' : PageAlloc}
  {flags : Nat → PageFlags} {shrunk : List Nat}

/-! ## The invariant -/

/-- What the blocks in the hands of the callers cover. -/
def liveSpan (live : List (Nat × Nat)) : Nat → Nat := (live.map fun b => span b.1 b.2).sum

/-- What the blocks on the free lists cover. -/
def areaSpan (area : Nat → List Nat) : Nat → Nat :=
  ((List.range (pageOrderMax + 1)).map fun o => spans o (area o)).sum

/-- What the pages in the per-CPU caches cover. -/
def pcpSpan (ncpu : Nat) (pcp : Nat → List Nat) : Nat → Nat :=
  ((List.range ncpu).map fun c => spans 0 (pcp c)).sum

/-- The flags of the head of an allocated block. The owner may set the other bits. -/
def PageFlags.Held (f : PageFlags) : Prop :=
  f.buddy = true ∧ f.head = true ∧ f.free = false ∧ f.pcp = false

/-- The flags by which `page_is_buddy` takes a page for the head of a free block. -/
def PageFlags.ShowsFree (f : PageFlags) : Prop :=
  f.buddy = true ∧ f.head = true ∧ f.free = true ∧ f.pcp = false

/-- The pages that the allocator manages, and the `struct page` of the pages that it does not. -/
structure Domain where
  pages : Nat → Nat
  flags : Nat → PageFlags
  order : Nat → Nat

/-- No list below the largest order has two buddies. -/
def Coalesced (area : Nat → List Nat) : Prop :=
  ∀ o < pageOrderMax, ∀ p ∈ area o, findBuddyPfn p o ∉ area o

/-- The blocks `live` and the lists of the allocator, with `K` in flight, cover the pages of `M`
once; the flags say where a page is; other pages are left alone. `hole` is the head of a block that
is being split. -/
structure BuddyInv (m : Machine) (s : PageAlloc) (live : List (Nat × Nat)) (K : Nat → Nat)
    (hole : Option Nat) (M : Domain) : Prop where
  cover : ∀ x, K x + liveSpan live x + areaSpan s.area x + pcpSpan m.ncpu s.pcp x = M.pages x
  once : ∀ x, M.pages x ≤ 1
  live : ∀ b ∈ live, b.2 ≤ pageOrderMax ∧ b.1 % 2 ^ b.2 = 0 ∧ (s.flags b.1).Held
  area : ∀ o, ∀ p ∈ s.area o, o ≤ pageOrderMax ∧ p % 2 ^ o = 0 ∧ s.flags p = .newFreePage ∧
    s.order p = o
  pcp : ∀ c, ∀ p ∈ s.pcp c, c < m.ncpu ∧
    s.flags p = { PageFlags.newFreePage with pcp := true }
  free : ∀ p, (s.flags p).ShowsFree → p ∈ s.area (s.order p) ∨ hole = some p
  count : ∀ c, s.count c = (s.pcp c).length
  out : ∀ x, M.pages x = 0 → s.flags x = M.flags x ∧ s.order x = M.order x
  coalesced : Coalesced s.area

variable {M : Domain}

section Spans

variable {area : Nat → List Nat} {pcp : Nat → List Nat} {c : Nat}

@[simp]
theorem liveSpan_cons (b : Nat × Nat) (live : List (Nat × Nat)) :
    liveSpan (b :: live) = span b.1 b.2 + liveSpan live := by simp [liveSpan]

theorem liveSpan_erase (h : b ∈ live) : liveSpan live = span b.1 b.2 + liveSpan (live.erase b) := by
  exact ((List.perm_cons_erase h).map _).sum_eq

/-- Changing the list of one order. -/
theorem areaSpan_update (area : Nat → List Nat) (ho : o ≤ pageOrderMax) (l : List Nat) (x : Nat) :
    areaSpan (update area o l) x + spans o (area o) x = areaSpan area x + spans o l x :=
  congrFun (sum_map_apply_update spans area l List.nodup_range
    (List.mem_range.2 (Nat.lt_succ_of_le ho))) x

/-- Changing the cache of one CPU. -/
theorem pcpSpan_update (pcp : Nat → List Nat) (hc : c < n) (l : List Nat) (x : Nat) :
    pcpSpan n (update pcp c l) x + spans 0 (pcp c) x = pcpSpan n pcp x + spans 0 l x :=
  congrFun (sum_map_apply_update (fun _ => spans 0) pcp l List.nodup_range (List.mem_range.2 hc)) x

theorem areaSpan_pos (ho : o ≤ pageOrderMax) (hp : p ∈ area o) (hx : p ≤ x)
    (hlt : x < p + 2 ^ o) : 0 < areaSpan area x := by
  have hup := areaSpan_update area ho [] x
  have hpos := spans_pos hp hx hlt
  rw [spans_nil, Pi.zero_apply] at hup
  omega

theorem pcpSpan_pos (hc : c < n) (hp : p ∈ pcp c) : 0 < pcpSpan n pcp p := by
  have hup := pcpSpan_update pcp hc [] p
  have hpos := spans_pos (o := 0) hp le_rfl (Nat.lt_succ_self p)
  rw [spans_nil, Pi.zero_apply] at hup
  omega

theorem liveSpan_pos (hb : b ∈ live) (hx : b.1 ≤ x) (hlt : x < b.1 + 2 ^ b.2) :
    0 < liveSpan live x := by
  rw [liveSpan_erase hb, Pi.add_apply, span_of_mem hx hlt]
  omega

theorem liveSpan_head (hb : (p, o) ∈ live) : 0 < liveSpan live p :=
  liveSpan_pos hb le_rfl (Nat.lt_add_of_pos_right (Nat.two_pow_pos _))

end Spans

section

variable (h : BuddyInv m s live K hole M)

include h

theorem BuddyInv.area_pos (hp : p ∈ s.area o) : 0 < areaSpan s.area p :=
  areaSpan_pos (h.area o p hp).1 hp le_rfl (Nat.lt_add_of_pos_right (Nat.two_pow_pos o))

/-- No page is in two places. -/
theorem BuddyInv.le_one (x : Nat) :
    K x + liveSpan live x + areaSpan s.area x + pcpSpan m.ncpu s.pcp x ≤ 1 :=
  (h.cover x).trans_le (h.once x)

/-- Two allocated blocks have no page in common. -/
theorem BuddyInv.live_apart :
    live.Pairwise fun a b => a.1 + 2 ^ a.2 ≤ b.1 ∨ b.1 + 2 ^ b.2 ≤ a.1 := by
  have hone : ∀ x, liveSpan live x ≤ 1 := by
    intro x
    have honce := h.le_one x
    omega
  clear h
  induction live with
  | nil => exact .nil
  | cons b live ih =>
    simp only [liveSpan_cons, Pi.add_apply] at hone
    refine List.pairwise_cons.2 ⟨fun c hc => ?_, ih fun x => (Nat.le_add_left _ _).trans (hone x)⟩
    by_contra hmeet
    -- the later of the two heads would be covered twice
    have hpos := Nat.two_pow_pos b.2
    have hpos' := Nat.two_pow_pos c.2
    have hlive := liveSpan_pos hc (x := max b.1 c.1) (by omega) (by omega)
    have hboth := hone (max b.1 c.1)
    rw [span_of_mem (by omega) (by omega)] at hboth
    omega

theorem BuddyInv.not_mem_area (hK : 0 < K p) : p ∉ s.area o := by
  intro hmem
  have hpos := h.area_pos hmem
  have honce := h.le_one p
  omega

/-- The flags and the orders of pages in flight or handed out change, and with them the free
lists. -/
theorem BuddyInv.setTags {order : Nat → Nat} {area : Nat → List Nat}
    (hcover : ∀ x, K' x + areaSpan area x = K x + areaSpan s.area x)
    (hsame : ∀ x, K x + liveSpan live x = 0 → flags x = s.flags x ∧ order x = s.order x)
    (hlive : ∀ b ∈ live, (flags b.1).Held) (harea : ∀ o, ∀ p ∈ area o, p ∈ s.area o ∨
      o ≤ pageOrderMax ∧ p % 2 ^ o = 0 ∧ flags p = .newFreePage ∧ order p = o)
    (hfree : ∀ p, (flags p).ShowsFree → p ∈ area (order p) ∨ hole' = some p)
    (hco : Coalesced area) :
    BuddyInv m { s with flags := flags, order := order, area := area } live K' hole' M := by
  refine ⟨fun x => ?_, h.once, fun b hb => ?_, fun o p hp => ?_, fun c p hp => ?_, hfree, h.count,
    fun x hx => ?_, hco⟩
  · have hx := h.cover x
    have hmove := hcover x
    dsimp only
    omega
  · obtain ⟨ho, hal, -⟩ := h.live b hb
    exact ⟨ho, hal, hlive b hb⟩
  · rcases harea o p hp with hp | hp
    · have hpos := h.area_pos hp
      have honce := h.le_one p
      obtain ⟨hf, hn⟩ := hsame p (by omega)
      dsimp only
      rw [hf, hn]
      exact h.area o p hp
    · exact hp
  · dsimp only at hp ⊢
    have hpos := pcpSpan_pos (h.pcp c p hp).1 hp
    have honce := h.le_one p
    obtain ⟨hf, -⟩ := hsame p (by omega)
    rw [hf]
    exact h.pcp c p hp
  · have hcover := h.cover x
    obtain ⟨hf, hn⟩ := hsame x (by omega)
    dsimp only
    rw [hf, hn]
    exact h.out x hx

end

section Flight

variable (h : BuddyInv m s live K hole M) (hK : 0 < K p)
include h hK

/-- A page in flight heads no allocated block and is on no list. -/
theorem BuddyInv.in_flight (f : PageFlags) (n : Nat) :
    (∀ x, K x + liveSpan live x = 0 →
      update s.flags p f x = s.flags x ∧ update s.order p n x = s.order x) ∧
    ∀ b ∈ live, (update s.flags p f b.1).Held := by
  refine ⟨fun x hx => ?_, fun b hb => ?_⟩
  · have hne : x ≠ p := by
      rintro rfl
      omega
    exact ⟨update_of_ne hne _ _, update_of_ne hne _ _⟩
  · have hne : b.1 ≠ p := by
      rintro rfl
      have hpos := liveSpan_head hb
      have honce := h.le_one b.1
      omega
    rw [update_of_ne hne]
    exact (h.live b hb).2.2

/-- The flags and the order of a page in flight may be changed, as long as it does not show as
free. -/
theorem BuddyInv.retag (hf : f.ShowsFree → hole' = some p)
    (hhole : ∀ q, q ≠ p → hole = some q → hole' = some q) :
    BuddyInv m { s with flags := update s.flags p f, order := update s.order p n }
      live K hole' M := by
  obtain ⟨hsame, hlive⟩ := h.in_flight hK f n
  refine h.setTags (fun _ => rfl) hsame hlive (fun _ _ hq => .inl hq) (fun q hq => ?_) h.coalesced
  by_cases hqp : q = p
  · subst hqp
    rw [update_self] at hq
    exact .inr (hf hq)
  · rw [update_of_ne hqp] at hq ⊢
    exact (h.free q hq).imp id (hhole q hqp)

/-- The special case of changing the flags only. -/
theorem BuddyInv.setFlags (hf : f.ShowsFree → hole' = some p)
    (hhole : ∀ q, q ≠ p → hole = some q → hole' = some q) :
    BuddyInv m (s.setFlags p f) live K hole' M := by
  have hre := h.retag (n := s.order p) hK hf hhole
  rwa [update_eq_self] at hre

end Flight

/-- An allocated block is taken back. -/
theorem BuddyInv.take_live (h : BuddyInv m s ((p, o) :: live) K hole M) :
    BuddyInv m s live (K + span p o) hole M := by
  refine ⟨fun x => ?_, h.once, fun b hb => h.live b (List.mem_cons_of_mem _ hb), h.area, h.pcp,
    h.free, h.count, h.out, h.coalesced⟩
  have hcover := h.cover x
  rw [liveSpan_cons, Pi.add_apply] at hcover
  rw [Pi.add_apply]
  dsimp only at hcover
  omega

/-- A block in flight is handed out. -/
theorem BuddyInv.give_live (h : BuddyInv m s live (K + span p o) hole M)
    (ho : o ≤ pageOrderMax) (hal : p % 2 ^ o = 0) (hheld : (s.flags p).Held) :
    BuddyInv m s ((p, o) :: live) K hole M := by
  refine ⟨fun x => ?_, h.once, List.forall_mem_cons.2 ⟨⟨ho, hal, hheld⟩, h.live⟩, h.area, h.pcp,
    h.free, h.count, h.out, h.coalesced⟩
  have hcover := h.cover x
  rw [Pi.add_apply] at hcover
  rw [liveSpan_cons, Pi.add_apply]
  dsimp only
  omega

/-- A block is taken off its free list. Its head still shows as free. -/
theorem BuddyInv.listDel (h : BuddyInv m s live K none M) (hp : p ∈ s.area o) :
    BuddyInv m (s.listDel p) live (K + span p o) (some p) M := by
  obtain ⟨ho, -, -, hord⟩ := h.area o p hp
  -- `p` is on no other list, and on this one only once
  have hother : ∀ i, i ≠ o → p ∉ s.area i := fun i hi hpi =>
    hi ((h.area i p hpi).2.2.2.symm.trans hord)
  have harea : (s.listDel p).area = update s.area o ((s.area o).erase p) :=
    eq_update_iff.2 ⟨rfl, fun i hi => List.erase_of_not_mem (hother i hi)⟩
  have hsub : ∀ i q, q ∈ (s.listDel p).area i → q ∈ s.area i := fun i q hq =>
    List.mem_of_mem_erase hq
  refine ⟨fun x => ?_, h.once, h.live, fun i q hq => h.area i q (hsub i q hq), h.pcp, ?_, h.count,
    h.out, fun i hi q hq hb => h.coalesced i hi q (hsub i q hq) (hsub i _ hb)⟩
  · have hcover := h.cover x
    have hup := areaSpan_update s.area ho ((s.area o).erase p) x
    rw [spans_erase hp, Pi.add_apply] at hup
    rw [harea, Pi.add_apply]
    show K x + span p o x + liveSpan live x + _ + pcpSpan m.ncpu s.pcp x = M.pages x
    omega
  · intro q hq
    rcases h.free q hq with hmem | hnone
    · by_cases hqp : q = p
      · exact .inr (by rw [hqp])
      · exact .inl ((List.mem_erase_of_ne hqp).2 hmem)
    · cases hnone

/-- A block in flight is put on its free list. -/
theorem BuddyInv.link (h : BuddyInv m s live (K + span p o) hole M) (ho : o ≤ pageOrderMax)
    (hal : p % 2 ^ o = 0) (hbuddy : o < pageOrderMax → findBuddyPfn p o ∉ s.area o)
    (hhole : ∀ q, q ≠ p → hole = some q → hole' = some q) :
    BuddyInv m (s.link p o) live K hole' M := by
  have hK : 0 < (K + span p o) p := by
    rw [Pi.add_apply, span_self]
    omega
  obtain ⟨hsame, hlive⟩ := h.in_flight hK .newFreePage o
  refine h.setTags (fun x => ?_) hsame hlive (fun i q hq => ?_) (fun q hq => ?_) fun i hi q hq => ?_
  · have hup := areaSpan_update s.area ho (p :: s.area o) x
    rw [spans_cons, Pi.add_apply] at hup
    rw [Pi.add_apply]
    omega
  · by_cases hi : i = o
    · subst hi
      rw [update_self] at hq
      rcases List.mem_cons.1 hq with rfl | hq
      · exact .inr ⟨ho, hal, update_self .., update_self ..⟩
      · exact .inl hq
    · rw [update_of_ne hi] at hq
      exact .inl hq
  · by_cases hqp : q = p
    · subst hqp
      rw [update_self, update_self]
      exact .inl List.mem_cons_self
    rw [update_of_ne hqp] at hq ⊢
    refine (h.free q hq).imp (fun hmem => ?_) (hhole q hqp)
    by_cases hi : s.order q = o
    · rw [hi] at hmem ⊢
      rw [update_self]
      exact List.mem_cons_of_mem p hmem
    · rw [update_of_ne hi]
      exact hmem
  · by_cases hio : i = o
    · subst hio
      rw [update_self] at hq ⊢
      intro hb
      rcases List.mem_cons.1 hq with rfl | hq
      · exact hbuddy hi ((List.mem_cons.1 hb).resolve_left (buddy_ne hal))
      · rcases List.mem_cons.1 hb with heq | hb
        · exact hbuddy hi (by rwa [← heq, findBuddyPfn, findBuddyPfn, buddy_buddy])
        · exact h.coalesced i hi q hq hb
    · rw [update_of_ne hio] at hq ⊢
      exact h.coalesced i hi q hq

/-! ## Freeing -/

theorem pageIsBuddy_iff :
    pageIsBuddy s p order = true ↔ (s.flags p).ShowsFree ∧ s.order p = order := by
  unfold pageIsBuddy PageFlags.ShowsFree
  simp only [Bool.and_eq_true, Bool.not_eq_true', beq_iff_eq]
  tauto

/-- `page_is_buddy` knows the heads of the free blocks. -/
theorem BuddyInv.isBuddy_of_mem (h : BuddyInv m s live K hole M) (hp : p ∈ s.area o) :
    pageIsBuddy s p o = true := by
  obtain ⟨-, -, hf, ho⟩ := h.area o p hp
  rw [pageIsBuddy_iff, hf]
  exact ⟨⟨rfl, rfl, rfl, rfl⟩, ho⟩

theorem not_showsFree_zero : ¬ PageFlags.zero.ShowsFree := fun h => nomatch h.1

/-- Joining a block in flight with its buddy. -/
theorem BuddyInv.merge (h : BuddyInv m s live (span p o) none M) (hal : p % 2 ^ o = 0)
    (hb : pageIsBuddy s (findBuddyPfn p o) o = true) :
    BuddyInv m ((s.listDel (findBuddyPfn p o)).setFlags (findBuddyPfn p o) .zero) live
      (span (min p (findBuddyPfn p o)) (o + 1)) none M := by
  obtain ⟨hfree, hord⟩ := pageIsBuddy_iff.1 hb
  have hmem : findBuddyPfn p o ∈ s.area o := by
    rcases h.free _ hfree with hmem | hnone
    · rwa [hord] at hmem
    · cases hnone
  unfold findBuddyPfn at *
  rw [span_min_buddy hal]
  apply (h.listDel hmem).setFlags
  · rw [Pi.add_apply, span_self]
    omega
  · exact fun hf => absurd hf not_showsFree_zero
  · intro q hq heq
    exact absurd (Option.some.inj heq).symm hq

/-- The loop of `__page_free_to_buddy`. -/
theorem mergeLoop_inv (hfuel : o + fuel = pageOrderMax) (h : BuddyInv m s live (span p o) none M)
    (hal : p % 2 ^ o = 0) :
    BuddyInv m (mergeLoop fuel s p o).1 live
        (span (mergeLoop fuel s p o).2.1 (mergeLoop fuel s p o).2.2) none M ∧
      (mergeLoop fuel s p o).2.1 % 2 ^ (mergeLoop fuel s p o).2.2 = 0 ∧
      (mergeLoop fuel s p o).2.2 ≤ pageOrderMax ∧ ((mergeLoop fuel s p o).2.2 < pageOrderMax →
        findBuddyPfn (mergeLoop fuel s p o).2.1 (mergeLoop fuel s p o).2.2 ∉
          (mergeLoop fuel s p o).1.area (mergeLoop fuel s p o).2.2) := by
  fun_induction mergeLoop fuel s p o with
  | case1 => exact ⟨h, hal, le_of_eq hfuel, fun hlt => absurd hfuel (ne_of_lt hlt)⟩
  | case2 _ _ _ _ hb ih => exact ih (by omega) (h.merge hal hb) (min_buddy_aligned hal)
  | case3 _ _ _ o hb =>
    exact ⟨h, hal, show o ≤ pageOrderMax by omega, fun _ hmem => hb (h.isBuddy_of_mem hmem)⟩

/-- The pages in the cache of a CPU change along with what is in flight. -/
theorem BuddyInv.setPcp {l : List Nat} (h : BuddyInv m s live K hole M)
    (hcpu : cpu < m.ncpu) (hl : ∀ q ∈ l, s.flags q = { PageFlags.newFreePage with pcp := true })
    (hspan : ∀ x, K' x + spans 0 l x = K x + spans 0 (s.pcp cpu) x) (hn : n = l.length) :
    BuddyInv m
      { s with
        pcp := update s.pcp cpu l
        count := update s.count cpu n } live K' hole M := by
  refine ⟨fun x => ?_, h.once, h.live, h.area, ?_, h.free, ?_, h.out, h.coalesced⟩
  · have hcover := h.cover x
    have hup := pcpSpan_update s.pcp hcpu l x
    have hmove := hspan x
    dsimp only
    omega
  · intro c q hq
    dsimp only at hq
    by_cases hc : c = cpu
    · subst hc
      rw [update_self] at hq
      exact ⟨hcpu, hl q hq⟩
    · rw [update_of_ne hc] at hq
      exact h.pcp c q hq
  · intro c
    dsimp only
    by_cases hc : c = cpu
    · subst hc
      rw [update_self, update_self, hn]
    · rw [update_of_ne hc, update_of_ne hc]
      exact h.count c

/-- A page in flight goes into the cache of a CPU. -/
theorem BuddyInv.cachePage (hcpu : cpu < m.ncpu) (h : BuddyInv m s live (K + span p 0) none M) :
    BuddyInv m
      { s with
        flags := update s.flags p { PageFlags.newFreePage with pcp := true }
        order := update s.order p 0
        pcp := update s.pcp cpu (p :: s.pcp cpu)
        count := update s.count cpu (s.count cpu + 1) } live K none M := by
  have hK : 0 < (K + span p 0) p := by
    rw [Pi.add_apply, span_self]
    omega
  have hre := h.retag (n := 0) (f := { PageFlags.newFreePage with pcp := true }) hK
    (fun hf => nomatch hf.2.2.2) fun _ _ hn => hn
  refine hre.setPcp hcpu (List.forall_mem_cons.2 ⟨?_, fun q hq => ?_⟩) (fun x => ?_) ?_
  · exact update_self p _ s.flags
  · exact (hre.pcp cpu q hq).2
  · rw [spans_cons, Pi.add_apply, Pi.add_apply, add_assoc]
  · rw [h.count, List.length_cons]

section

variable (hm : m.physOffset % 2 ^ 24 = 0)

include hm

theorem phys_aligned_iff (ho : o ≤ pageOrderMax) :
    pageToPhys m p % 2 ^ (pageShift + o) = 0 ↔ p % 2 ^ o = 0 := by
  -- the offset is a multiple of every block size
  have hoff : 2 ^ (pageShift + o) ∣ m.physOffset := by
    refine dvd_trans (Nat.pow_dvd_pow 2 ?_) (Nat.dvd_of_mod_eq_zero hm)
    unfold pageShift
    unfold pageOrderMax at ho
    omega
  rw [← Nat.dvd_iff_mod_eq_zero, ← Nat.dvd_iff_mod_eq_zero, pageToPhys,
    ← Nat.dvd_add_iff_left hoff, mul_comm, pageShift, pow_add]
  exact Nat.mul_dvd_mul_iff_left (by decide)

/-- `__page_free_to_buddy` puts an allocated block back on the free lists. -/
theorem pageFreeToBuddy_inv (h : BuddyInv m s ((p, o) :: live) 0 none M) :
    ∃ s', pageFreeToBuddy m s p o = some s' ∧ BuddyInv m s' live 0 none M := by
  obtain ⟨ho, hal, hbuddy, hhead, hfree, hpcp⟩ := h.live (p, o) List.mem_cons_self
  have hstart : BuddyInv m (s.setFlags p .zero) live (span p o) none M := by
    have htake := h.take_live
    rw [zero_add] at htake
    apply htake.setFlags
    · rw [span_self]
      omega
    · exact fun hf => absurd hf not_showsFree_zero
    · exact fun _ _ hn => hn
  obtain ⟨hloop, hal', ho', hbuddy'⟩ := mergeLoop_inv (Nat.add_sub_of_le ho) hstart hal
  refine ⟨(mergeLoop (pageOrderMax - o) (s.setFlags p .zero) p o).1.link
    (mergeLoop (pageOrderMax - o) (s.setFlags p .zero) p o).2.1
    (mergeLoop (pageOrderMax - o) (s.setFlags p .zero) p o).2.2, ?_, ?_⟩
  · unfold pageFreeToBuddy
    rw [if_pos ⟨hbuddy, by simp [hfree], by simp [hpcp], hhead, (phys_aligned_iff hm ho).2 hal⟩]
  · rw [← zero_add (span _ _)] at hloop
    exact hloop.link ho' hal' hbuddy' fun _ _ hn => hn

/-- `page_free` takes an allocated block back. -/
theorem pageFree_inv (hcpu : cpu < m.ncpu) (h : BuddyInv m s ((p, o) :: live) 0 none M) :
    ∃ s', pageFree m s cpu p o = some s' ∧ BuddyInv m s' live 0 none M := by
  obtain ⟨ho, hal, hbuddy, hhead, hfree, hpcp⟩ := h.live (p, o) List.mem_cons_self
  unfold pageFree
  rw [if_pos ⟨hbuddy, by simp [hfree], hhead, (phys_aligned_iff hm ho).2 hal⟩]
  split
  · next hz =>
    subst hz
    unfold pcpFree
    by_cases hcount : s.count cpu < pcpMaxOrder0
    · rw [if_pos hcount]
      exact ⟨_, rfl, h.take_live.cachePage hcpu⟩
    · rw [if_neg hcount]
      exact pageFreeToBuddy_inv hm h
  · exact pageFreeToBuddy_inv hm h

end

/-! ## Allocating -/

theorem BuddyInv.perm
    (h : BuddyInv m s live K hole M) (hp : live.Perm live') : BuddyInv m s live' K hole M := by
  refine ⟨fun x => ?_, h.once, fun b hb => h.live b (hp.mem_iff.2 hb), h.area, h.pcp, h.free,
    h.count, h.out, h.coalesced⟩
  have hsum : liveSpan live = liveSpan live' := (hp.map _).sum_eq
  rw [← hsum]
  exact h.cover x

theorem BuddyInv.setRefcnt (h : BuddyInv m s live K hole M) (r : Nat → Nat) :
    BuddyInv m { s with refcnt := r } live K hole M :=
  ⟨h.cover, h.once, h.live, h.area, h.pcp, h.free, h.count, h.out, h.coalesced⟩

theorem findArea_spec {r : Nat × Nat} (h : findArea s fuel order = some r) :
    order ≤ r.1 ∧ r.2 ∈ s.area r.1 := by
  fun_induction findArea s fuel order with
  | case1 => cases h
  | case2 _ _ _ hlast =>
    cases h
    exact ⟨le_rfl, List.mem_of_getLast? hlast⟩
  | case3 _ _ _ ih =>
    obtain ⟨hle, hmem⟩ := ih h
    exact ⟨by omega, hmem⟩

theorem link_of_ne (hx : x ≠ p) :
    (s.link p o).flags x = s.flags x ∧ (s.link p o).order x = s.order x :=
  ⟨update_of_ne hx _ _, update_of_ne hx _ _⟩

/-- Splitting a block that is in flight. -/
theorem splitLoop_inv (h : BuddyInv m s live (span curr (order + fuel)) (some curr) M)
    (hord : s.order curr = order + fuel) (ho : order + fuel ≤ pageOrderMax)
    (hal : curr % 2 ^ (order + fuel) = 0) :
    BuddyInv m (splitLoop order fuel s curr) live (span curr order) (some curr) M ∧
      (splitLoop order fuel s curr).flags curr = s.flags curr := by
  induction fuel generalizing s with
  | zero => exact ⟨h, rfl⟩
  | succ n ih =>
    have hpow : 2 ^ (order + (n + 1)) / 2 = 2 ^ (order + n) := by
      rw [← Nat.add_assoc, Nat.pow_succ, Nat.mul_div_cancel _ (by decide)]
    have hpos := Nat.two_pow_pos (order + n)
    have hne : curr ≠ curr + 2 ^ (order + n) := by omega
    rw [splitLoop, if_pos (by rw [hord]; omega), hord, hpow,
      show order + (n + 1) - 1 = order + n by omega]
    rw [← Nat.add_assoc, span_succ] at h
    have hdvd : 2 ^ (order + n + 1) ∣ curr := Nat.dvd_of_mod_eq_zero hal
    have hdvd' : 2 ^ (order + n) ∣ curr :=
      Nat.dvd_trans (Nat.pow_dvd_pow 2 (Nat.le_succ _)) hdvd
    -- the buddy of the upper half is the lower one, which is in flight
    have hlow : findBuddyPfn (curr + 2 ^ (order + n)) (order + n) ∉ s.area (order + n) := by
      rw [findBuddyPfn, buddy_upper (o := order + n) hal]
      exact h.not_mem_area (by rw [Pi.add_apply, span_self]; omega)
    -- the lower half keeps its head, whose order changes first
    have hre := h.retag (p := curr) (f := s.flags curr) (n := order + n)
      (by rw [Pi.add_apply, span_self]; omega) (fun _ => rfl) fun q _ hq => hq
    rw [update_eq_self] at hre
    have hlink := hre.link (show order + n ≤ pageOrderMax by omega)
      (Nat.mod_eq_zero_of_dvd (Nat.dvd_add hdvd' (Nat.dvd_refl _))) (fun _ => hlow)
      fun q _ (hq : some curr = some q) => hq
    obtain ⟨hflags, hord'⟩ := link_of_ne
      (s := { s with order := update s.order curr (order + n) }) (o := order + n) hne
    obtain ⟨hfin, hfl⟩ := ih hlink (hord'.trans (update_self ..)) (by omega)
      (Nat.mod_eq_zero_of_dvd hdvd')
    exact ⟨hfin, hfl.trans hflags⟩

/-- The blocks in the hands of the callers after an allocation. -/
def addBlock (r : Option Nat) (order : Nat) (live : List (Nat × Nat)) : List (Nat × Nat) :=
  (r.map fun p => (p, order)).toList ++ live

section

variable (h : BuddyInv m s live 0 none M)

include h

/-- A page of the cache of a CPU is handed out. -/
theorem BuddyInv.uncache {rest : List Nat} (hlist : s.pcp cpu = p :: rest) (hf : f.Held) :
    BuddyInv m
      { s with
        flags := update s.flags p f
        order := update s.order p 0
        pcp := update s.pcp cpu rest
        count := update s.count cpu (s.count cpu - 1) } ((p, 0) :: live) 0 none M := by
  have hcached := h.pcp cpu
  rw [hlist] at hcached
  have hbase : BuddyInv m
      { s with
        pcp := update s.pcp cpu rest
        count := update s.count cpu (s.count cpu - 1) } live (0 + span p 0) none M := by
    refine h.setPcp (hcached p List.mem_cons_self).1
      (fun q hq => (hcached q (List.mem_cons_of_mem p hq)).2) (fun x => ?_) ?_
    · rw [hlist, spans_cons, zero_add, Pi.zero_apply, Pi.add_apply, zero_add]
    · rw [h.count, hlist, List.length_cons, Nat.add_sub_cancel]
  refine BuddyInv.give_live (hbase.retag ?_ (fun hs => ?_) fun _ _ hn => hn) (Nat.zero_le _)
    (Nat.mod_one p) ?_
  · rw [Pi.add_apply, span_self]
    omega
  · exact absurd hs.2.2.1 (Bool.eq_false_iff.1 hf.2.2.1)
  · dsimp only
    rwa [update_self]

/-- `pcp_alloc` hands out a page of the cache, or finds the cache empty. -/
theorem pcpAlloc_inv (cpu : Nat) :
    (s.pcp cpu = [] ∧ pcpAlloc s cpu = some (none, s)) ∨
      ∃ pg s', pcpAlloc s cpu = some (some pg, s') ∧ BuddyInv m s' ((pg, 0) :: live) 0 none M ∧
        s'.flags pg = .newPage := by
  unfold pcpAlloc
  cases hlist : s.pcp cpu with
  | nil => exact .inl ⟨rfl, rfl⟩
  | cons pg rest =>
    have hflags := (h.pcp cpu pg (by rw [hlist]; exact List.mem_cons_self)).2
    right
    dsimp only
    rw [if_pos (by rw [hflags])]
    have hnew : update s.flags pg { s.flags pg with free := false, pcp := false } pg =
        .newPage := by
      rw [update_self, hflags]
      rfl
    refine ⟨pg, _, rfl, h.uncache hlist ?_, hnew⟩
    rw [hflags]
    exact ⟨rfl, rfl, rfl, rfl⟩

/-- A block of a free list is handed out. -/
theorem takeBlock_inv (hmem : curr ∈ s.area o) (hle : order ≤ o) :
    BuddyInv m (takeBlock s o curr order) ((curr, order) :: live) 0 none M ∧
      (takeBlock s o curr order).flags curr = .newPage := by
  obtain ⟨ho, hal, hflags, hord⟩ := h.area o curr hmem
  obtain ⟨d, rfl⟩ := Nat.exists_eq_add_of_le hle
  have hout := h.listDel hmem
  rw [zero_add] at hout
  obtain ⟨hsplit, hfl⟩ := splitLoop_inv hout hord ho hal
  have hfl' : (splitLoop order d (s.listDel curr) curr).flags curr = .newFreePage :=
    hfl.trans hflags
  have hset : BuddyInv m ((splitLoop order d (s.listDel curr) curr).setFlags curr
      { (splitLoop order d (s.listDel curr) curr).flags curr with free := false })
      live (span curr order) none M :=
    hsplit.setFlags (by rw [span_self]; omega) (fun hs => nomatch hs.2.2.1)
      fun q hq heq => absurd (Option.some.inj heq).symm hq
  rw [← zero_add (span curr order)] at hset
  have hnew : (takeBlock s (order + d) curr order).flags curr = .newPage := by
    simp only [takeBlock, Nat.add_sub_cancel_left, update_self, hfl']
    rfl
  refine ⟨?_, hnew⟩
  unfold takeBlock at hnew ⊢
  rw [Nat.add_sub_cancel_left] at hnew ⊢
  apply (hset.setRefcnt _).give_live (by omega)
  · apply Nat.mod_eq_zero_of_dvd
    exact dvd_trans (Nat.pow_dvd_pow 2 hle) (Nat.dvd_of_mod_eq_zero hal)
  · exact Eq.mpr (congrArg PageFlags.Held hnew) ⟨rfl, rfl, rfl, rfl⟩

theorem buddyAlloc_inv :
    BuddyInv m (buddyAlloc s order).2 (addBlock (buddyAlloc s order).1 order live) 0 none M ∧
      ∀ p, (buddyAlloc s order).1 = some p → (buddyAlloc s order).2.flags p = .newPage := by
  unfold buddyAlloc
  cases hf : findArea s (pageOrderMax + 1 - order) order with
  | none => exact ⟨h, nofun⟩
  | some r =>
    obtain ⟨hle, hmem⟩ := findArea_spec hf
    obtain ⟨h', hnew⟩ := takeBlock_inv h hmem hle
    refine ⟨h', ?_⟩
    rintro p ⟨⟩
    exact hnew

/-- One attempt of `page_alloc`. -/
theorem allocAttempt_inv (cpu order : Nat) :
    ∃ r s', allocAttempt s cpu order = some (r, s') ∧
      BuddyInv m s' (addBlock r order live) 0 none M ∧ ∀ p, r = some p → s'.flags p = .newPage := by
  unfold allocAttempt
  split
  · next hz =>
    subst hz
    rcases pcpAlloc_inv h cpu with ⟨-, hnone⟩ | ⟨pg, s', hsome, h', hnew⟩
    · rw [hnone]
      exact ⟨_, _, rfl, buddyAlloc_inv h⟩
    rw [hsome]
    refine ⟨some pg, _, rfl, h'.setRefcnt _, ?_⟩
    rintro p ⟨⟩
    exact hnew
  · exact ⟨_, _, rfl, buddyAlloc_inv h⟩

end

/-- The allocated blocks without the single pages of a list. -/
def dropPages (live : List (Nat × Nat)) (pages : List Nat) : List (Nat × Nat) :=
  pages.foldl (fun l p => l.erase (p, 0)) live

/-- The blocks that a call of `page_alloc` leaves in the hands of the other callers. -/
def keptBlocks (shrank : Bool) (live : List (Nat × Nat)) (shrunk : List Nat) :
    List (Nat × Nat) := if shrank then dropPages live shrunk else live

section

variable (hm : m.physOffset % 2 ^ 24 = 0) (h : BuddyInv m s live 0 none M)

include hm h

/-- The cache of one CPU goes back to the free lists. -/
theorem drainCpu_inv (cpu fuel : Nat) :
    ∃ s', drainCpu m cpu fuel s = some s' ∧ BuddyInv m s' live 0 none M := by
  induction fuel generalizing s with
  | zero => exact ⟨s, rfl, h⟩
  | succ fuel ih =>
    rw [drainCpu]
    cases hlist : s.pcp cpu with
    | nil => exact ⟨s, rfl, h⟩
    | cons pg rest =>
      have hflags := (h.pcp cpu pg (by rw [hlist]; exact List.mem_cons_self)).2
      dsimp only
      rw [if_pos (by rw [hflags])]
      obtain ⟨s1, hs1, h1⟩ := pageFreeToBuddy_inv hm
        (h.uncache (f := .newPage) hlist ⟨rfl, rfl, rfl, rfl⟩)
      rw [hs1]
      exact ih h1

/-- `pcp_drain_all`. -/
theorem pcpDrainAll_inv :
    ∃ s', pcpDrainAll m s = some s' ∧ BuddyInv m s' live 0 none M := by
  unfold pcpDrainAll
  generalize List.range m.ncpu = cpus
  induction cpus generalizing s with
  | nil => exact ⟨s, rfl, h⟩
  | cons cpu cpus ih =>
    obtain ⟨s1, hs1, h1⟩ := drainCpu_inv hm h cpu (s.pcp cpu).length
    obtain ⟨s2, hs2, h2⟩ := ih h1
    refine ⟨s2, ?_, h2⟩
    rw [List.foldlM_cons, hs1]
    exact hs2

/-- `page_cache_shrink` gives back single pages that are allocated. -/
theorem freePages_inv (hcpu : cpu < m.ncpu) {pages : List Nat} (hnd : pages.Nodup)
    (hlive : ∀ p ∈ pages, (p, 0) ∈ live) :
    ∃ s', freePages m s cpu pages = some s' ∧ BuddyInv m s' (dropPages live pages) 0 none M := by
  induction pages generalizing s live with
  | nil => exact ⟨s, rfl, h⟩
  | cons p pages ih =>
    obtain ⟨hp, hnd⟩ := List.nodup_cons.1 hnd
    have hmem : (p, 0) ∈ live := hlive p List.mem_cons_self
    obtain ⟨s1, hs1, h1⟩ := pageFree_inv hm hcpu (h.perm (List.perm_cons_erase hmem))
    obtain ⟨s2, hs2, h2⟩ := ih h1 hnd fun q hq => by
      refine (List.mem_erase_of_ne ?_).2 (hlive q (List.mem_cons_of_mem p hq))
      rintro heq
      exact hp ((Prod.mk.inj heq).1 ▸ hq)
    refine ⟨s2, ?_, h2⟩
    unfold freePages at hs2 ⊢
    rw [List.foldlM_cons, hs1]
    exact hs2

/-- `page_alloc`. -/
theorem pageAlloc_inv (order : Nat) (hcpu : cpu < m.ncpu) (hnd : shrunk.Nodup)
    (hlive : ∀ p ∈ shrunk, (p, 0) ∈ live) :
    ∃ r shrank s', pageAlloc m s cpu order shrunk = some (r, shrank, s') ∧
      BuddyInv m s' (addBlock r order (keptBlocks shrank live shrunk)) 0 none M ∧
      ∀ p, r = some p → s'.flags p = .newPage := by
  obtain ⟨r, s1, hs1, h1, hnew⟩ := allocAttempt_inv h cpu order
  unfold pageAlloc
  rw [hs1]
  cases r with
  | some pg => exact ⟨some pg, false, s1, rfl, h1, hnew⟩
  | none =>
    obtain ⟨s2, hs2, h2⟩ := pcpDrainAll_inv hm h1
    obtain ⟨s3, hs3, h3⟩ := freePages_inv hm h2 hcpu hnd hlive
    obtain ⟨r, s4, hs4, h4⟩ := allocAttempt_inv h3 cpu order
    refine ⟨r, true, s4, ?_, h4⟩
    simp only [hs2, Option.bind_some, hs3, hs4, Option.map_some]

end

/-! ## What the owners keep on their pages

The operations leave the `struct page` of allocated blocks alone. A group of blocks is lent out by
taking it out of the domain, where `BuddyInv` says that nothing is touched. -/

@[simp]
theorem liveSpan_append (live kept : List (Nat × Nat)) :
    liveSpan (live ++ kept) = liveSpan live + liveSpan kept := by simp [liveSpan]

/-- The domain without some blocks, whose pages are as in `s`. -/
def Domain.without (M : Domain) (s : PageAlloc) (kept : List (Nat × Nat)) : Domain :=
  ⟨fun x => M.pages x - liveSpan kept x, s.flags, s.order⟩

section

variable (h : BuddyInv m s (live ++ kept) K hole M)

include h

theorem BuddyInv.lend : BuddyInv m s live K hole (M.without s kept) := by
  refine ⟨fun x => ?_, fun x => ?_, fun b hb => h.live b (List.mem_append_left kept hb), h.area,
    h.pcp, h.free, h.count, fun _ _ => ⟨rfl, rfl⟩, h.coalesced⟩
  · have hcover := h.cover x
    rw [liveSpan_append, Pi.add_apply] at hcover
    dsimp only [Domain.without]
    omega
  · exact le_trans (Nat.sub_le _ _) (h.once x)

/-- The blocks that were lent out, unchanged. -/
theorem BuddyInv.out_of_lent (hx : 0 < liveSpan kept x) : (M.without s kept).pages x = 0 := by
  have honce := h.once x
  dsimp only [Domain.without]
  omega

theorem BuddyInv.rejoin (h' : BuddyInv m s' live' K' hole' (M.without s kept)) :
    BuddyInv m s' (live' ++ kept) K' hole' M := by
  refine ⟨fun x => ?_, h.once, ?_, h'.area, h'.pcp, h'.free, h'.count, fun x hx => ?_, h'.coalesced⟩
  · have hcover := h.cover x
    have hcover' := h'.cover x
    dsimp only [Domain.without] at hcover'
    rw [liveSpan_append, Pi.add_apply] at hcover ⊢
    omega
  · intro b hb
    rcases List.mem_append.1 hb with hb | hb
    · exact h'.live b hb
    · obtain ⟨ho, hal, hheld⟩ := h.live b (List.mem_append_right live hb)
      refine ⟨ho, hal, ?_⟩
      rwa [(h'.out b.1 (h.out_of_lent (liveSpan_head hb))).1]
  · obtain ⟨hf, hn⟩ := h'.out x (by dsimp only [Domain.without]; omega)
    obtain ⟨hf', hn'⟩ := h.out x hx
    exact ⟨hf.trans hf', hn.trans hn'⟩

end

/-- The pages of the blocks `kept` have the same flags and orders. -/
def SamePages (kept : List (Nat × Nat)) (s s' : PageAlloc) : Prop :=
  ∀ x, 0 < liveSpan kept x → s'.flags x = s.flags x ∧ s'.order x = s.order x

/-- `page_alloc` leaves the pages of the other blocks alone. -/
theorem pageAlloc_keep (hm : m.physOffset % 2 ^ 24 = 0) (order : Nat) (hcpu : cpu < m.ncpu)
    (hnd : shrunk.Nodup) (hlive : ∀ p ∈ shrunk, (p, 0) ∈ live)
    (h : BuddyInv m s (live ++ kept) 0 none M) :
    ∃ r shrank s', pageAlloc m s cpu order shrunk = some (r, shrank, s') ∧
      BuddyInv m s' (addBlock r order (keptBlocks shrank live shrunk) ++ kept) 0 none M ∧
      (∀ p, r = some p → s'.flags p = .newPage) ∧ SamePages kept s s' := by
  obtain ⟨r, shrank, s', hs', h', hnew⟩ := pageAlloc_inv hm h.lend order hcpu hnd hlive
  exact ⟨r, shrank, s', hs', h.rejoin h', hnew, fun x hx => h'.out x (h.out_of_lent hx)⟩

/-- `page_free` leaves the pages of the other blocks alone. -/
theorem pageFree_keep (hm : m.physOffset % 2 ^ 24 = 0) (hcpu : cpu < m.ncpu)
    (h : BuddyInv m s (((p, o) :: live) ++ kept) 0 none M) :
    ∃ s', pageFree m s cpu p o = some s' ∧ BuddyInv m s' (live ++ kept) 0 none M ∧
      SamePages kept s s' := by
  obtain ⟨s', hs', h'⟩ := pageFree_inv hm hcpu h.lend
  exact ⟨s', hs', h.rejoin h', fun x hx => h'.out x (h.out_of_lent hx)⟩

/-- The flags that the allocator itself looks at. -/
def PageFlags.SameState (f f' : PageFlags) : Prop :=
  f'.buddy = f.buddy ∧ f'.head = f.head ∧ f'.free = f.free ∧ f'.pcp = f.pcp

/-- A page of an allocated block does not show as free. -/
theorem BuddyInv.not_showsFree (h : BuddyInv m s live 0 none M) (hx : 0 < liveSpan live x) :
    ¬ (s.flags x).ShowsFree := by
  intro hs
  rcases h.free x hs with hmem | hnone
  · have hpos := h.area_pos hmem
    have honce := h.le_one x
    omega
  · cases hnone

/-- The owner of a block may change the other flags and the orders of its pages. -/
theorem BuddyInv.mark (h : BuddyInv m s live 0 none M) (hb : b ∈ live)
    {order : Nat → Nat} (hstate : ∀ x, (s.flags x).SameState (flags x))
    (hout : ∀ x, ¬ (b.1 ≤ x ∧ x < b.1 + 2 ^ b.2) → flags x = s.flags x ∧ order x = s.order x) :
    BuddyInv m { s with flags := flags, order := order } live 0 none M := by
  -- a page that is not handed out is not in the block
  have hsame : ∀ x, 0 + liveSpan live x = 0 → flags x = s.flags x ∧ order x = s.order x := by
    intro x hx
    apply hout x
    rintro ⟨h1, h2⟩
    have hpos := liveSpan_pos hb h1 h2
    omega
  refine h.setTags (fun _ => rfl) hsame (fun c hc => ?_) (fun _ _ hq => .inl hq) (fun q hq => ?_)
    h.coalesced
  · obtain ⟨-, -, hbuddy, hhead, hfree, hpcp⟩ := h.live c hc
    obtain ⟨e1, e2, e3, e4⟩ := hstate c.1
    exact ⟨e1.trans hbuddy, e2.trans hhead, e3.trans hfree, e4.trans hpcp⟩
  · have hshow : (s.flags q).ShowsFree := by
      obtain ⟨e1, e2, e3, e4⟩ := hstate q
      exact ⟨e1 ▸ hq.1, e2 ▸ hq.2.1, e3 ▸ hq.2.2.1, e4 ▸ hq.2.2.2⟩
    have hzero : liveSpan live q = 0 := by
      by_contra hne
      exact h.not_showsFree (pos_of_ne_zero hne) hshow
    rw [(hsame q (by omega)).2]
    exact h.free q hshow

end BrkKernel.Pgalloc
