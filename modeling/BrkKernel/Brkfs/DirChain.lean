import BrkKernel.Lib.RecordChain
import BrkKernel.Brkfs.Dir

/-!
# Entry chains of directory blocks

A directory block is well formed when its entries follow each other from offset `0` to less than a
minimal entry before the CRC (`DirTail`). On such a block the lookup walk searches the names that
are in use (`dirLookupInBlock_eq`), the remove walk deletes one of them (`dirRemoveInBlock_spec`),
and the add walk inserts one (`dirAddInBlock_spec`) as long as it does not cut an unused entry
short: an unused entry that is longer than the new one by less than a minimal entry loses its
remainder, and what follows is then no longer found.
-/

set_option autoImplicit false

namespace BrkKernel.Brkfs

open Lib Lib.ByteMem List

/-! ## Reading and writing entries -/

theorem brkfsDirentReclen_le (k : Nat) : 8 + k ≤ brkfsDirentReclen k :=
  (roundUp_bounds _ (by decide)).1

theorem brkfsDirentReclen_lt (k : Nat) : brkfsDirentReclen k < 12 + k := by
  have h := roundUp_bounds (8 + k) (by decide : 0 < 4)
  unfold brkfsDirentReclen
  omega

theorem minLen_le_reclen {k : Nat} (h : 0 < k) : dirEntryMinLen ≤ brkfsDirentReclen k := by
  have h1 := brkfsDirentReclen_le k
  obtain ⟨c, hc⟩ : 4 ∣ brkfsDirentReclen k := dvd_roundUp _ _
  unfold dirEntryMinLen
  omega

/-- Entries of a directory block. An entry has room for its own name, and one in use has a name. -/
def dirFormat : RecordFormat UInt8 DirEntry where
  read := dirEntry
  len e := e.entryLen
  Ok e := dirEntryMinLen ≤ e.entryLen ∧ brkfsDirentReclen e.nameLen ≤ e.entryLen ∧
    (e.inode ≠ 0 → 0 < e.nameLen)
  read_congr {m m' o} hok hag := by
    have hlen : dirEntryMinLen ≤ load 2 m (o + 4) := hok.1
    have hname : brkfsDirentReclen (load 1 m (o + 6)) ≤ load 2 m (o + 4) := hok.2.1
    have hrec := brkfsDirentReclen_le (load 1 m (o + 6))
    have hbyte : ∀ i, i < load 2 m (o + 4) → m' (o + i) = m (o + i) := fun i hi =>
      hag (o + i) (Nat.le_add_right _ _) (Nat.add_lt_add_left hi o)
    unfold dirEntryMinLen at hlen
    have hload : ∀ w k, k + w ≤ 8 → load w m' (o + k) = load w m (o + k) := by
      intro w k hk
      refine load_congr fun i hi => ?_
      rw [Nat.add_assoc]
      exact hbyte (k + i) (by omega)
    have h0 := hload 4 0 (by decide)
    rw [Nat.add_zero] at h0
    unfold dirEntry
    rw [h0, hload 2 4 (by decide), hload 1 6 (by decide), hload 1 7 (by decide)]
    congr 1
    refine slice_congr fun i hi => ?_
    rw [Nat.add_assoc]
    exact hbyte (8 + i) (by omega)

theorem setDirEntry_of_disjoint {buf : ByteMem} {o ino len k ft i : Nat} (h : i < o ∨ o + 8 ≤ i) :
    setDirEntry buf o ino len k ft i = buf i := by
  unfold setDirEntry store
  rw [blit_of_disjoint (by omega), blit_of_disjoint (by omega), blit_of_disjoint (by omega),
    blit_of_disjoint (by omega)]

theorem setDirName_of_disjoint {buf : ByteMem} {o i : Nat} {name : List UInt8}
    (h : i < o + 8 ∨ o + 8 + name.length ≤ i) : setDirName buf o name i = buf i :=
  blit_of_disjoint h

/-- The fixed fields read back. -/
theorem load_setDirEntry (buf : ByteMem) (o : Nat) {ino len k ft : Nat} (hino : ino < 2 ^ 32)
    (hlen : len < 2 ^ 16) (hk : k < 2 ^ 8) (hft : ft < 2 ^ 8) :
    load 4 (setDirEntry buf o ino len k ft) o = ino ∧
    load 2 (setDirEntry buf o ino len k ft) (o + 4) = len ∧
    load 1 (setDirEntry buf o ino len k ft) (o + 6) = k ∧
    load 1 (setDirEntry buf o ino len k ft) (o + 7) = ft := by
  unfold setDirEntry
  refine ⟨?_, ?_, ?_, ?_⟩
  · rw [load_store_of_disjoint (by omega), load_store_of_disjoint (by omega),
      load_store_of_disjoint (by omega), load_store_of_lt hino]
  · rw [load_store_of_disjoint (by omega), load_store_of_disjoint (by omega), load_store_of_lt hlen]
  · rw [load_store_of_disjoint (by omega), load_store_of_lt hk]
  · rw [load_store_of_lt hft]

theorem dirEntry_set (buf : ByteMem) (o len : Nat) {ino ft : Nat} {name : List UInt8}
    (hino : ino < 2 ^ 32) (hlen : len < 2 ^ 16) (hk : name.length < 2 ^ 8) (hft : ft < 2 ^ 8) :
    dirEntry (setDirName (setDirEntry buf o ino len name.length ft) o name) o =
      ⟨ino, len, name.length, ft, name⟩ := by
  obtain ⟨h1, h2, h3, h4⟩ := load_setDirEntry buf o hino hlen hk hft
  have hload : ∀ w k, k + w ≤ 8 →
      load w (setDirName (setDirEntry buf o ino len name.length ft) o name) (o + k) =
        load w (setDirEntry buf o ino len name.length ft) (o + k) := fun w k hk =>
    load_blit_of_disjoint (.inl (by omega))
  have h0 := hload 4 0 (by decide)
  rw [Nat.add_zero] at h0
  unfold dirEntry
  rw [h0, hload 2 4 (by decide), hload 1 6 (by decide), hload 1 7 (by decide), h1, h2, h3, h4]
  congr 1
  rw [setDirName, slice_blit_of_inside (Nat.le_refl _) (Nat.le_refl _), Nat.sub_self, slice_ofList]

theorem dirEntry_hole (buf : ByteMem) (o : Nat) {len : Nat} (hlen : len < 2 ^ 16) :
    dirEntry (setDirEntry buf o 0 len 0 0) o = ⟨0, len, 0, 0, []⟩ := by
  obtain ⟨h1, h2, h3, h4⟩ := load_setDirEntry buf o
    (by decide : 0 < 2 ^ 32) hlen (by decide : 0 < 2 ^ 8) (by decide : 0 < 2 ^ 8)
  unfold dirEntry
  rw [h1, h2, h3, h4]
  rfl

theorem dirEntry_setLen (buf : ByteMem) (o : Nat) {len : Nat} (hlen : len < 2 ^ 16) :
    dirEntry (store 2 buf (o + 4) len) o = { dirEntry buf o with entryLen := len } := by
  unfold dirEntry
  rw [load_store_of_disjoint (.inl (by omega)), load_store_of_lt hlen,
    load_store_of_disjoint (.inr (by omega)), load_store_of_disjoint (.inr (by omega)), store,
    slice_blit_of_disjoint (.inr (by omega))]

theorem dirEntry_clear (buf : ByteMem) (o : Nat) :
    dirEntry (store 4 buf o 0) o = { dirEntry buf o with inode := 0 } := by
  unfold dirEntry
  rw [load_store_of_lt (by decide), load_store_of_disjoint (.inr (by omega)),
    load_store_of_disjoint (.inr (by omega)), load_store_of_disjoint (.inr (by omega)), store,
    slice_blit_of_disjoint (.inr (by omega))]

/-! ## Chains up to the CRC -/

/-- The names in use among some entries, with inode number and file type. -/
def dirLive (es : List DirEntry) : List (List UInt8 × Nat × Nat) :=
  es.filterMap fun e => if e.inode = 0 then none else some (e.name, e.inode, e.fileType)

/-- From offset `o` on the block consists of the entries `es` and less than a minimal entry more,
up to the end `u` of the usable part. -/
def DirTail (u : Nat) (buf : ByteMem) (o : Nat) (es : List DirEntry) : Prop :=
  ∃ fin, dirFormat.Chain buf o es fin ∧ fin ≤ u ∧ u < fin + dirEntryMinLen

section Tail

variable {u o fuel : Nat} {buf buf' : ByteMem} {e : DirEntry} {es : List DirEntry}
  {name : List UInt8} {res : Option (Except Errno ByteMem)}

theorem dirLive_cons_unused (h : e.inode = 0) : dirLive (e :: es) = dirLive es := by
  simp [dirLive, h]

theorem dirLive_cons_used (h : e.inode ≠ 0) :
    dirLive (e :: es) = (e.name, e.inode, e.fileType) :: dirLive es := by
  simp [dirLive, h]

theorem dirLive_cons_perm {es' : List DirEntry} {x : List UInt8 × Nat × Nat} (e : DirEntry)
    (h : (dirLive es).Perm (x :: dirLive es')) :
    (dirLive (e :: es)).Perm (x :: dirLive (e :: es')) := by
  by_cases hz : e.inode = 0
  · rwa [dirLive_cons_unused hz, dirLive_cons_unused hz]
  · rw [dirLive_cons_used hz, dirLive_cons_used hz]
    exact (h.cons _).trans (List.Perm.swap _ _ _)

theorem dirLive_cons_setLen (e : DirEntry) (es : List DirEntry) (k : Nat) :
    dirLive ({ e with entryLen := k } :: es) = dirLive (e :: es) := rfl

theorem dirTail_nil : DirTail u buf o [] ↔ o ≤ u ∧ u < o + dirEntryMinLen := by
  constructor
  · rintro ⟨fin, rfl, h1, h2⟩
    exact ⟨h1, h2⟩
  · rintro ⟨h1, h2⟩
    exact ⟨o, rfl, h1, h2⟩

theorem dirTail_cons : DirTail u buf o (e :: es) ↔
    dirEntry buf o = e ∧ dirFormat.Ok e ∧ DirTail u buf (o + e.entryLen) es := by
  constructor
  · rintro ⟨fin, ⟨h1, h2, h3⟩, h4⟩
    exact ⟨h1, h2, fin, h3, h4⟩
  · rintro ⟨h1, h2, fin, h3, h4⟩
    exact ⟨fin, ⟨h1, h2, h3⟩, h4⟩

theorem DirTail.le (h : DirTail u buf o es) : o ≤ u := by
  obtain ⟨fin, hc, h1, -⟩ := h
  exact hc.le.trans h1

/-- The first entry, which ends before the end of the block. -/
theorem DirTail.head (h : DirTail u buf o (e :: es)) :
    dirEntry buf o = e ∧ dirFormat.Ok e ∧ DirTail u buf (o + e.entryLen) es ∧
      o + e.entryLen ≤ u ∧ dirEntryMinLen = 12 ∧ dirEntryMinLen ≤ e.entryLen := by
  obtain ⟨hread, hok, hrest⟩ := dirTail_cons.1 h
  exact ⟨hread, hok, hrest, hrest.le, rfl, hok.1⟩

/-- An unused entry up to the end of the block. -/
theorem dirTail_hole {len : Nat} (buf : ByteMem) (hlen : dirEntryMinLen ≤ len) (hend : o + len = u)
    (hu : u < 2 ^ 16) : DirTail u (setDirEntry buf o 0 len 0 0) o [⟨0, len, 0, 0, []⟩] := by
  have hrec : brkfsDirentReclen 0 ≤ dirEntryMinLen := by decide
  have hmin : 0 < dirEntryMinLen := by decide
  refine dirTail_cons.2 ⟨dirEntry_hole _ _ (by omega), ⟨hlen, hrec.trans hlen,
    fun hc => absurd rfl hc⟩, dirTail_nil.2 ⟨hend.le, ?_⟩⟩
  show u < o + len + dirEntryMinLen
  omega

theorem DirTail.congr (h : DirTail u buf o es)
    (hag : ∀ i, o ≤ i → i < u → buf' i = buf i) : DirTail u buf' o es := by
  obtain ⟨fin, hc, h1, h2⟩ := h
  exact ⟨fin, hc.congr fun i hi hi' => hag i hi (by omega), h1, h2⟩

/-- An entry in front of an edited chain. -/
theorem DirTail.cons_congr (hread : dirEntry buf o = e) (hok : dirFormat.Ok e)
    (hag : ∀ i, i < o + e.entryLen → buf' i = buf i) (h : DirTail u buf' (o + e.entryLen) es) :
    DirTail u buf' o (e :: es) := by
  obtain ⟨fin, hc, h1, h2⟩ := h
  exact ⟨fin, RecordFormat.Chain.cons_congr (F := dirFormat) hread hok hag hc, h1, h2⟩

section

variable (h : dirEntry buf o = e)

include h

theorem dirEntry_nameLen : e.name.length = e.nameLen := by
  rw [← h]
  exact slice_length _ _ _

/-- The comparison of the lookup walk is equality of names. -/
theorem dirEntry_matches :
    (e.nameLen = name.length ∧ slice buf (o + 8) name.length = name) ↔ e.name = name := by
  have hlen := dirEntry_nameLen h
  have hname : e.name = slice buf (o + 8) e.nameLen := by rw [← h]; rfl
  constructor
  · rintro ⟨h1, h2⟩
    rw [hname, h1, h2]
  · intro hn
    have h1 : e.nameLen = name.length := by rw [← hlen, hn]
    exact ⟨h1, by rw [← h1, ← hname, hn]⟩

/-- The comparison of the remove walk, over the shorter of both lengths, is equality of names. -/
theorem dirEntry_matches_min : (e.nameLen = name.length ∧
      slice buf (o + 8) (min name.length e.nameLen) = name.take (min name.length e.nameLen)) ↔
      e.name = name := by
  rw [← dirEntry_matches h]
  refine and_congr_right fun h1 => ?_
  rw [h1, min_self, take_length]

end

/-! ### Lookup -/

/-- The lookup walk searches the names in use. -/
theorem dirLookupInBlock_eq (name : List UInt8) (h : DirTail u buf o es) (hfuel : u - o ≤ fuel) :
    dirLookupInBlock buf name fuel (u - o) o =
      .ok (((dirLive es).find? fun p => p.1 = name).map Prod.snd) := by
  induction es generalizing o fuel with
  | nil =>
    obtain ⟨h1, h2⟩ := dirTail_nil.1 h
    cases fuel with
    | zero => rfl
    | succ fuel =>
      rw [dirLookupInBlock, if_pos (by omega)]
      rfl
  | cons e es ih =>
    obtain ⟨hread, hok, hrest, hle, hpos, hmin⟩ := h.head
    obtain ⟨fuel, rfl⟩ : ∃ f, fuel = f + 1 := ⟨fuel - 1, by omega⟩
    replace ih := ih hrest (by omega : u - (o + e.entryLen) ≤ fuel)
    rw [dirLookupInBlock]
    simp only [hread]
    rw [if_neg (by omega), if_neg (by omega)]
    by_cases hz : e.inode = 0
    · rw [if_neg fun hc => hc.1 hz, Nat.sub_sub, ih, dirLive_cons_unused hz]
    rw [dirLive_cons_used hz]
    by_cases hn : e.name = name
    · rw [if_pos ⟨hz, (dirEntry_matches hread).2 hn⟩,
        find?_cons_of_pos (by simpa using hn)]
      rfl
    · rw [if_neg fun hc => hn ((dirEntry_matches hread).1 hc.2),
        find?_cons_of_neg (by simpa using hn), Nat.sub_sub, ih]

/-! ### Removal -/

/-- What a removal of `name` does to the entries `es` from offset `o` on. -/
def DirRemoved (u : Nat) (buf : ByteMem) (o : Nat) (es : List DirEntry) (name : List UInt8) :
    Option (Except Errno ByteMem) → Prop
  | none => False
  | some (.error err) => err = .enoent ∧ name ∉ (dirLive es).map Prod.fst
  | some (.ok buf') => ∃ es' x, DirTail u buf' o es' ∧
      (dirLive es).Perm ((name, x) :: dirLive es') ∧ ∀ i, i < o ∨ u ≤ i → buf' i = buf i

theorem DirRemoved.cons (hread : dirEntry buf o = e)
    (hok : dirFormat.Ok e) (hne : ¬ (e.inode ≠ 0 ∧ e.name = name))
    (h : DirRemoved u buf (o + e.entryLen) es name res) :
    DirRemoved u buf o (e :: es) name res := by
  match res, h with
  | some (.error err), ⟨herr, hnot⟩ =>
    refine ⟨herr, ?_⟩
    by_cases hz : e.inode = 0
    · rwa [dirLive_cons_unused hz]
    rw [dirLive_cons_used hz, map_cons, mem_cons]
    rintro (hn | hn)
    · exact hne ⟨hz, hn.symm⟩
    · exact hnot hn
  | some (.ok buf'), ⟨es', x, htail, hperm, hag⟩ =>
    refine ⟨e :: es', x, DirTail.cons_congr hread hok (fun i hi => hag i (.inl hi)) htail,
      dirLive_cons_perm e hperm, fun i hi => hag i (by omega)⟩

/-- The remove walk behind an entry `r` at offset `p` that does not have the name. -/
theorem dirRemoveInBlock_prev {r : DirEntry} {p : Nat} (hu : u < 2 ^ 16) (name : List UInt8)
    (h : DirTail u buf p (r :: es)) (hr : ¬ (r.inode ≠ 0 ∧ r.name = name))
    (hfuel : u - (p + r.entryLen) < fuel) :
    DirRemoved u buf p (r :: es) name
      (dirRemoveInBlock buf name fuel (u - (p + r.entryLen)) (p + r.entryLen) (some p)) := by
  induction fuel generalizing es r p with
  | zero => exact absurd hfuel (Nat.not_lt_zero _)
  | succ fuel ih =>
  obtain ⟨hread, hok, hrest⟩ := dirTail_cons.1 h
  cases es with
  | nil =>
    obtain ⟨h1, h2⟩ := dirTail_nil.1 hrest
    rw [dirRemoveInBlock, if_pos (by omega)]
    exact DirRemoved.cons hread hok hr ⟨rfl, not_mem_nil⟩
  | cons e es =>
    obtain ⟨hread', hok', hrest', hle, hpos, hmin⟩ := hrest.head
    have hrlen : load 2 buf (p + 4) = r.entryLen := by rw [← hread]; rfl
    rw [dirRemoveInBlock]
    simp only [hread']
    rw [if_neg (by omega)]
    by_cases hm : e.inode ≠ 0 ∧ e.name = name
    · -- the entry before takes over the removed one
      rw [if_pos ⟨hm.1, (dirEntry_matches_min hread').2 hm.2⟩, hrlen, u16_of_lt (by omega)]
      have hag : ∀ i, i < p + 4 ∨ p + 6 ≤ i →
          store 2 buf (p + 4) (r.entryLen + e.entryLen) i = buf i := fun i hi =>
        blit_of_disjoint (by omega)
      refine ⟨{ r with entryLen := r.entryLen + e.entryLen } :: es, (e.inode, e.fileType),
        dirTail_cons.2 ⟨?_, ?_, ?_⟩, ?_, fun i hi => hag i (by omega)⟩
      · rw [dirEntry_setLen buf p (by omega), hread]
      · exact ⟨by show _ ≤ r.entryLen + e.entryLen; omega,
          hok.2.1.trans (Nat.le_add_right _ _), hok.2.2⟩
      · rw [← Nat.add_assoc]
        exact hrest'.congr fun i hi _ => hag i (by omega)
      apply dirLive_cons_perm
      rw [dirLive_cons_used hm.1, hm.2]
    · rw [if_neg fun hc => hm ⟨hc.1, (dirEntry_matches_min hread').1 hc.2⟩,
        if_neg (by omega), Nat.sub_sub]
      exact DirRemoved.cons hread hok hr (ih hrest hm (by omega))

/-- `__brkfs_dir_remove_in_block` deletes the name from a well-formed block. -/
theorem brkfsDirRemoveInBlock_spec (hu : u < 2 ^ 16) (name : List UInt8) (h : DirTail u buf 0 es) :
    DirRemoved u buf 0 es name (brkfsDirRemoveInBlock buf u name) := by
  rw [brkfsDirRemoveInBlock, u16_of_lt (by omega), dirRemoveInBlock]
  cases es with
  | nil =>
    obtain ⟨h1, h2⟩ := dirTail_nil.1 h
    rw [if_pos (by omega)]
    exact ⟨rfl, not_mem_nil⟩
  | cons e es =>
    obtain ⟨hread, hok, hrest, hle, hpos, hmin⟩ := h.head
    simp only [hread]
    rw [if_neg (by omega)]
    by_cases hm : e.inode ≠ 0 ∧ e.name = name
    · -- the first entry stays, marked as unused
      rw [if_pos ⟨hm.1, (dirEntry_matches_min hread).2 hm.2⟩]
      refine ⟨{ e with inode := 0 } :: es, (e.inode, e.fileType),
        dirTail_cons.2 ⟨?_, ⟨hok.1, hok.2.1, fun hc => absurd rfl hc⟩,
          hrest.congr fun i hi _ => blit_of_disjoint ?_⟩, ?_,
        fun i hi => blit_of_disjoint (by omega)⟩
      · rw [dirEntry_clear, hread]
      · omega
      · rw [dirLive_cons_used hm.1, dirLive_cons_unused rfl, hm.2]
    · rw [if_neg fun hc => hm ⟨hc.1, (dirEntry_matches_min hread).1 hc.2⟩, if_neg (by omega)]
      have hrun := dirRemoveInBlock_prev hu name h hm (by omega : u - (0 + e.entryLen) < u)
      rwa [← Nat.sub_sub, Nat.sub_zero] at hrun

/-! ### Addition -/

/-- The entry has room for a record of length `need`. -/
def dirFits (need : Nat) (e : DirEntry) : Bool :=
  if e.inode = 0 then need ≤ e.entryLen else need + brkfsDirentReclen e.nameLen ≤ e.entryLen

/-- A record of length `need` put at offset `p` leaves what follows in reach: the entry there is in
use, or it is unused and the remainder is nothing, an entry of its own, or the end of the block. -/
def DirKept (u need p : Nat) (e : DirEntry) : Prop :=
  e.inode = 0 → e.entryLen = need ∨ need + dirEntryMinLen ≤ e.entryLen ∨
    u < p + need + dirEntryMinLen

/-- So it does at the first of the entries `L` that has room for `name`. -/
def FirstKept (u : Nat) (name : List UInt8) (L : List (Nat × DirEntry)) : Prop :=
  ∀ p e, L.find? (fun q => dirFits (brkfsDirentReclen name.length) q.2) = some (p, e) →
    DirKept u (brkfsDirentReclen name.length) p e

/-- What an addition does to the entries `es` from offset `o` on. -/
def DirAdded (u : Nat) (buf : ByteMem) (o : Nat) (es : List DirEntry) (name : List UInt8)
    (ino ftype : Nat) : Option (Except Errno ByteMem) → Prop
  | none => False
  | some (.error err) => err = .enospc ∧
      ∀ e ∈ es, dirFits (brkfsDirentReclen name.length) e = false
  | some (.ok buf') => ∃ es', DirTail u buf' o es' ∧
      (dirLive es').Perm ((name, ino, ftype) :: dirLive es) ∧ ∀ i, i < o ∨ u ≤ i → buf' i = buf i

variable {ino ftype : Nat}

theorem DirAdded.cons (hread : dirEntry buf o = e)
    (hok : dirFormat.Ok e) (hfit : dirFits (brkfsDirentReclen name.length) e = false)
    (h : DirAdded u buf (o + e.entryLen) es name ino ftype res) :
    DirAdded u buf o (e :: es) name ino ftype res := by
  match res, h with
  | some (.error err), ⟨herr, hnot⟩ =>
    refine ⟨herr, fun e' he' => ?_⟩
    rcases mem_cons.1 he' with rfl | he'
    · exact hfit
    · exact hnot e' he'
  | some (.ok buf'), ⟨es', htail, hperm, hag⟩ =>
    refine ⟨e :: es', DirTail.cons_congr hread hok (fun i hi => hag i (.inl hi)) htail,
      dirLive_cons_perm e hperm, fun i hi => hag i (by omega)⟩

/-- A name and inode number that `brkfs_dir_add` is called with. -/
structure DirArgs (name : List UInt8) (ino : Nat) : Prop where
  pos : 0 < name.length
  le : name.length ≤ 255
  inode : ino ≠ 0
  word : ino < 2 ^ 32

section

variable (hargs : DirArgs name ino) (hft : ftype < 2 ^ 8) (hu : u < 2 ^ 16)

include hargs hft hu

/-- Taking over an unused entry. -/
theorem dirAdd_unused (h : DirTail u buf o (e :: es)) (hz : e.inode = 0)
    (hfit : brkfsDirentReclen name.length ≤ e.entryLen)
    (hkept : DirKept u (brkfsDirentReclen name.length) o e) :
    DirAdded u buf o (e :: es) name ino ftype (some (.ok
      (if dirEntryMinLen ≤ e.entryLen - brkfsDirentReclen name.length then
        setDirEntry (setDirName (setDirEntry buf o ino (brkfsDirentReclen name.length) name.length
          ftype) o name) (o + brkfsDirentReclen name.length) 0
          (e.entryLen - brkfsDirentReclen name.length) 0 0
      else setDirName (setDirEntry buf o ino (brkfsDirentReclen name.length) name.length ftype) o
        name))) := by
  obtain ⟨hread, hok, hrest, hle, -⟩ := h.head
  have hlen := hargs.le
  have hneed := minLen_le_reclen hargs.pos
  have hroom := brkfsDirentReclen_le name.length
  have hmin : dirEntryMinLen = 12 := rfl
  have hrec : brkfsDirentReclen 0 = 8 := rfl
  have hlive : dirLive (e :: es) = dirLive es := dirLive_cons_unused hz
  have hused : ∀ len rest, dirLive (⟨ino, len, name.length, ftype, name⟩ :: rest) =
      (name, ino, ftype) :: dirLive rest := fun _ _ => dirLive_cons_used hargs.inode
  generalize hdef : brkfsDirentReclen name.length = need at *
  have hnew := dirEntry_set buf o need hargs.word (by omega) (by omega : name.length < 2 ^ 8) hft
  have hag1 : ∀ i, i < o ∨ o + need ≤ i →
      setDirName (setDirEntry buf o ino need name.length ftype) o name i = buf i := fun i hi => by
    rw [setDirName_of_disjoint (by omega), setDirEntry_of_disjoint (by omega)]
  have hnewok : dirFormat.Ok ⟨ino, need, name.length, ftype, name⟩ :=
    ⟨hneed, hdef.le, fun _ => hargs.pos⟩
  by_cases hrest12 : dirEntryMinLen ≤ e.entryLen - need
  · -- the remainder becomes an unused entry
    rw [if_pos hrest12]
    refine ⟨⟨ino, need, name.length, ftype, name⟩ :: ⟨0, e.entryLen - need, 0, 0, []⟩ :: es,
      DirTail.cons_congr hnew hnewok (fun i hi => setDirEntry_of_disjoint (.inl hi))
        (dirTail_cons.2 ⟨dirEntry_hole _ _ (by omega), ⟨hrest12, ?_, fun hc => absurd rfl hc⟩, ?_⟩),
        ?_, fun i hi => ?_⟩
    · show brkfsDirentReclen 0 ≤ e.entryLen - need
      omega
    · rw [show o + need + (e.entryLen - need) = o + e.entryLen by omega]
      refine hrest.congr fun i hi _ => ?_
      rw [setDirEntry_of_disjoint (by omega), hag1 i (by omega)]
    · rw [hused, dirLive_cons_unused rfl, hlive]
    · rw [setDirEntry_of_disjoint (by omega), hag1 i (by omega)]
  rw [if_neg hrest12]
  -- the remainder is nothing, or joins the unused bytes before the CRC
  refine ⟨⟨ino, need, name.length, ftype, name⟩ :: es, dirTail_cons.2 ⟨hnew, hnewok, ?_⟩, ?_,
    fun i hi => hag1 i (by omega)⟩
  · rcases hkept hz with heq | hlong | hend
    · rw [heq] at hrest
      exact hrest.congr fun i hi _ => hag1 i (by omega)
    · omega
    · cases es with
      | nil => exact dirTail_nil.2 ⟨by show o + need ≤ u; omega, hend⟩
      | cons e' es' =>
        obtain ⟨-, -, -, hle', -, hmin'⟩ := hrest.head
        omega
  · rw [hused, hlive]

/-- Splitting the slack off an entry in use. -/
theorem dirAdd_slack (h : DirTail u buf o (e :: es)) (hz : e.inode ≠ 0)
    (hfit : brkfsDirentReclen name.length + brkfsDirentReclen e.nameLen ≤ e.entryLen) :
    DirAdded u buf o (e :: es) name ino ftype (some (.ok (setDirName
      (setDirEntry (store 2 buf (o + 4) (brkfsDirentReclen e.nameLen))
        (o + brkfsDirentReclen e.nameLen) ino (e.entryLen - brkfsDirentReclen e.nameLen)
        name.length ftype) (o + brkfsDirentReclen e.nameLen) name))) := by
  obtain ⟨hread, hok, hrest, hle, -⟩ := h.head
  have hlen := hargs.le
  have hneed := minLen_le_reclen hargs.pos
  have hroom := brkfsDirentReclen_le name.length
  have hmin' := minLen_le_reclen (hok.2.2 hz)
  have hold := dirEntry_setLen buf o (by omega : brkfsDirentReclen e.nameLen < 2 ^ 16)
  rw [hread] at hold
  have hkeep : dirFormat.Ok { e with entryLen := brkfsDirentReclen e.nameLen } :=
    ⟨hmin', le_rfl, hok.2.2⟩
  generalize brkfsDirentReclen e.nameLen = entMin at *
  have hnew := dirEntry_set (store 2 buf (o + 4) entMin) (o + entMin)
    (e.entryLen - entMin) hargs.word (by omega) (by omega : name.length < 2 ^ 8) hft
  have hag : ∀ i, i < o + entMin ∨ o + e.entryLen ≤ i →
      setDirName (setDirEntry (store 2 buf (o + 4) entMin) (o + entMin) ino (e.entryLen - entMin)
        name.length ftype) (o + entMin) name i = store 2 buf (o + 4) entMin i := fun i hi => by
    rw [setDirName_of_disjoint (by omega), setDirEntry_of_disjoint (by omega)]
  have hag' : ∀ i, i < o + 4 ∨ o + 6 ≤ i → store 2 buf (o + 4) entMin i = buf i := fun i hi =>
    blit_of_disjoint (by omega)
  refine ⟨{ e with entryLen := entMin } :: ⟨ino, e.entryLen - entMin, name.length, ftype, name⟩ ::
    es, DirTail.cons_congr hold hkeep (fun i hi => hag i (.inl hi))
      (dirTail_cons.2 ⟨hnew, ⟨?_, ?_, fun _ => hargs.pos⟩, ?_⟩), ?_, fun i hi => ?_⟩
  · show dirEntryMinLen ≤ e.entryLen - entMin
    omega
  · show brkfsDirentReclen name.length ≤ e.entryLen - entMin
    omega
  · rw [show o + entMin + (e.entryLen - entMin) = o + e.entryLen by omega]
    refine hrest.congr fun i hi _ => ?_
    rw [hag i (.inr hi), hag' i (by omega)]
  · rw [dirLive_cons_setLen e, dirLive_cons_used hz, dirLive_cons_used hargs.inode,
      dirLive_cons_used hz]
    exact List.Perm.swap _ _ _
  · rw [hag i (by omega), hag' i (by omega)]

/-- The add walk puts the name into the first entry with room. -/
theorem dirAddInBlock_spec (h : DirTail u buf o es) (hfuel : u - o < fuel)
    (hkept : FirstKept u name (dirFormat.located o es)) :
    DirAdded u buf o es name ino ftype (dirAddInBlock buf ino name ftype fuel (u - o) o) := by
  induction fuel generalizing es o with
  | zero => exact absurd hfuel (Nat.not_lt_zero _)
  | succ fuel ih =>
  cases es with
  | nil =>
    obtain ⟨h1, h2⟩ := dirTail_nil.1 h
    rw [dirAddInBlock, if_pos (by omega)]
    exact ⟨rfl, fun e he => absurd he not_mem_nil⟩
  | cons e es =>
    obtain ⟨hread, hok, hrest, hle, hpos, hmin⟩ := h.head
    have hlen := hargs.le
    have hrec := brkfsDirentReclen_lt name.length
    have hrec' : brkfsDirentReclen e.nameLen ≤ e.entryLen := hok.2.1
    have hneed : u16 (brkfsDirentReclen name.length) = brkfsDirentReclen name.length :=
      u16_of_lt (by omega)
    have hentMin : u16 (brkfsDirentReclen e.nameLen) = brkfsDirentReclen e.nameLen :=
      u16_of_lt (by omega)
    rw [dirAddInBlock]
    simp only [hread, hneed, hentMin]
    rw [if_neg (by omega)]
    by_cases hfit : dirFits (brkfsDirentReclen name.length) e = true
    · have hk : DirKept u (brkfsDirentReclen name.length) o e :=
        hkept o e (find?_cons_of_pos hfit)
      by_cases hz : e.inode = 0
      · rw [dirFits, if_pos hz, decide_eq_true_iff] at hfit
        rw [if_pos ⟨hz, hfit⟩]
        exact dirAdd_unused hargs hft hu h hz hfit hk
      · rw [dirFits, if_neg hz, decide_eq_true_iff] at hfit
        rw [if_neg fun hc => hz hc.1, if_pos ⟨hz, hfit⟩]
        exact dirAdd_slack hargs hft hu h hz hfit
    rw [Bool.not_eq_true] at hfit
    have hfit' := hfit
    unfold dirFits at hfit'
    rw [if_neg fun hc => by
        rw [if_pos hc.1, decide_eq_false_iff_not] at hfit'
        exact hfit' hc.2,
      if_neg fun hc => by rw [if_neg hc.1, decide_eq_false_iff_not] at hfit'; exact hfit' hc.2,
      if_neg (by omega), Nat.sub_sub]
    refine DirAdded.cons hread hok hfit (ih hrest (by omega) fun p e' hp => hkept p e' ?_)
    show find? _ ((o, e) :: dirFormat.located (o + e.entryLen) es) = _
    rw [find?_cons_of_neg (by rw [hfit]; exact Bool.false_ne_true)]
    exact hp

end

end Tail

end BrkKernel.Brkfs
