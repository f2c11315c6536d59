import BrkKernel.Brkfs.Super

/-!
# The superblock as bytes

`SuperBlock.bytes` writes the fields of a superblock one after the other, and `SuperBlock.ofBytes`
reads them at their offsets. For fields that fit their types the two are inverse
(`ofBytes_bytes`), and what is read from any bytes fits (`ofBytes_fits`).
-/

set_option autoImplicit false

namespace BrkKernel.Brkfs

open Lib Lib.ByteMem SuperBlock

/-! ## Words and lists in a row -/

section Rows

variable {l r : List UInt8} {ws : List Nat} {w a n : Nat}

theorem ofList_append_right (l r : List UInt8) (i : Nat) :
    ofList (l ++ r) (l.length + i) = ofList r i := by
  unfold ofList
  rw [List.getD_eq_getElem?_getD, List.getD_eq_getElem?_getD, List.getElem?_append_right
    (Nat.le_add_right _ _), Nat.add_sub_cancel_left]

theorem ofList_append_left {i : Nat} (h : i < l.length) : ofList (l ++ r) i = ofList l i := by
  unfold ofList
  rw [List.getD_eq_getElem?_getD, List.getD_eq_getElem?_getD, List.getElem?_append_left h]

/-- What stands behind a list is read as if the list were not there. -/
theorem load_append_right (hl : l.length = n) :
    load w (ofList (l ++ r)) (n + a) = load w (ofList r) a := by
  subst hl
  refine load_congr fun i _ => ?_
  rw [add_assoc]
  exact ofList_append_right l r (a + i)

theorem slice_append_right (hl : l.length = n) (k : Nat) :
    slice (ofList (l ++ r)) (n + a) k = slice (ofList r) a k := by
  subst hl
  refine slice_congr fun i _ => ?_
  rw [add_assoc]
  exact ofList_append_right l r (a + i)

/-- A list is read back from where it stands. -/
theorem slice_append_left (hl : l.length = n) : slice (ofList (l ++ r)) 0 n = l := by
  subst hl
  refine Eq.trans (slice_congr fun i hi => ?_) (slice_ofList l)
  rw [zero_add]
  exact ofList_append_left hi

theorem length_wordBytes (ws : List Nat) : (wordBytes ws).length = 4 * ws.length := by
  induction ws with
  | nil => rfl
  | cons w ws ih =>
    rw [wordBytes, List.flatMap_cons, List.length_append, slice_length, List.length_cons]
    rw [wordBytes] at ih
    omega

theorem wordBytes_cons (w : Nat) (ws : List Nat) :
    wordBytes (w :: ws) = slice (leByte w) 0 4 ++ wordBytes ws := rfl

/-- The `k`-th of several words in a row. -/
theorem load_wordBytes (ws : List Nat) (r : List UInt8) {k : Nat} (hk : ws[k]? = some w) :
    load 4 (ofList (wordBytes ws ++ r)) (4 * k) = u32 w := by
  induction ws generalizing k with
  | nil => cases hk
  | cons w0 ws ih =>
    rw [wordBytes_cons, List.append_assoc]
    cases k with
    | zero =>
      cases hk
      have hbytes : ∀ i < 4, ofList (slice (leByte w) 0 4 ++ (wordBytes ws ++ r)) (0 + i) =
          leByte w (0 + i) := by
        intro i hi
        rw [zero_add, ofList_append_left (by rwa [slice_length]), ofList,
          List.getD_eq_getElem?_getD, getElem?_slice _ _ _ _ hi, Option.getD_some, zero_add]
      rw [mul_zero, load_congr hbytes, load_leByte]
      rfl
    | succ k =>
      exact ih hk

end Rows

/-! ## The superblock -/

/-- The words of a superblock before the volume identity. -/
def SuperBlock.head (sb : SuperBlock) : List Nat :=
  [sb.sBlocksize, sb.sInodeBitmap, sb.sInodesCount, sb.sDataBlockBitmap, sb.sDataBlocksCount,
    sb.sInodeTable, sb.sFirstDataBlock, sb.sMagic, sb.sInodeSize, sb.sBlocksCount, sb.sVersion,
    sb.sFeatures, sb.sState]

/-- The words of a superblock behind the volume identity. -/
def SuperBlock.tail (sb : SuperBlock) : List Nat :=
  [sb.sFreeBlocks, sb.sFreeInodes, sb.sMtime, sb.sLastcheck, sb.sMntCount, sb.sMaxMntCount,
    sb.sBackupSuper, sb.sOrphan, sb.sChecksum]

/-- The fields fit the types that `struct brkfs_super_block` gives them. -/
structure SuperBlock.Fits (sb : SuperBlock) : Prop where
  head : ∀ w ∈ sb.head, w < 4294967296
  tail : ∀ w ∈ sb.tail, w < 4294967296
  uuid : sb.sUuid.length = 16
  label : sb.sLabel.length = 64
  padding : sb.sPadding.length = 856

theorem ofBytes_fits (raw : ByteMem) : (ofBytes raw).Fits := by
  have hload : ∀ a, load 4 raw a < 4294967296 := fun a => load_lt raw 4 a
  refine ⟨?_, ?_, slice_length _ _ _, slice_length _ _ _, slice_length _ _ _⟩
  · intro w hw
    simp only [head, ofBytes, List.mem_cons, List.not_mem_nil, or_false] at hw
    rcases hw with rfl | rfl | rfl | rfl | rfl | rfl | rfl | rfl | rfl | rfl | rfl | rfl | rfl <;>
      exact hload _
  · intro w hw
    simp only [tail, ofBytes, List.mem_cons, List.not_mem_nil, or_false] at hw
    rcases hw with rfl | rfl | rfl | rfl | rfl | rfl | rfl | rfl | rfl <;> exact hload _

section Image

variable {sb : SuperBlock} {k w : Nat}

theorem bytes_eq (sb : SuperBlock) : sb.bytes =
    ofList (wordBytes sb.head ++
      (sb.sUuid ++ (sb.sLabel ++ (wordBytes sb.tail ++ sb.sPadding)))) := by
  unfold bytes head tail
  simp only [List.append_assoc]

theorem length_head (sb : SuperBlock) : (wordBytes sb.head).length = 52 := length_wordBytes _

section

variable (h : sb.Fits)

include h

theorem load_head (hk : sb.head[k]? = some w) : load 4 sb.bytes (4 * k) = w := by
  rw [bytes_eq, load_wordBytes _ _ hk]
  exact u32_of_lt (h.head w (List.mem_of_getElem? hk))

theorem load_tail (hk : sb.tail[k]? = some w) : load 4 sb.bytes (132 + 4 * k) = w := by
  have e : 132 + 4 * k = 52 + (16 + (64 + 4 * k)) := by omega
  rw [bytes_eq, e, load_append_right (length_head sb), load_append_right h.uuid,
    load_append_right h.label, load_wordBytes _ _ hk]
  exact u32_of_lt (h.tail w (List.mem_of_getElem? hk))

theorem slice_uuid : slice sb.bytes 52 16 = sb.sUuid := by
  rw [bytes_eq, show 52 = 52 + 0 from rfl, slice_append_right (length_head sb),
    slice_append_left h.uuid]

theorem slice_label : slice sb.bytes 68 64 = sb.sLabel := by
  rw [bytes_eq, show 68 = 52 + (16 + 0) from rfl, slice_append_right (length_head sb),
    slice_append_right h.uuid, slice_append_left h.label]

theorem slice_padding : slice sb.bytes 168 856 = sb.sPadding := by
  have hlen : (wordBytes sb.tail).length = 36 := length_wordBytes _
  rw [bytes_eq, show 168 = 52 + (16 + (64 + (36 + 0))) from rfl,
    slice_append_right (length_head sb), slice_append_right h.uuid, slice_append_right h.label,
    slice_append_right hlen, ← h.padding, slice_ofList]

/-- A superblock is read back from its bytes. -/
theorem ofBytes_bytes : ofBytes sb.bytes = sb := by
  have hh : ∀ {k w : Nat}, sb.head[k]? = some w → load 4 sb.bytes (4 * k) = w := load_head h
  have ht : ∀ {k w : Nat}, sb.tail[k]? = some w → load 4 sb.bytes (132 + 4 * k) = w := load_tail h
  unfold ofBytes
  rw [slice_uuid h, slice_label h, slice_padding h,
    hh (k := 0) rfl, hh (k := 1) rfl, hh (k := 2) rfl, hh (k := 3) rfl, hh (k := 4) rfl,
    hh (k := 5) rfl, hh (k := 6) rfl, hh (k := 7) rfl, hh (k := 8) rfl, hh (k := 9) rfl,
    hh (k := 10) rfl, hh (k := 11) rfl, hh (k := 12) rfl,
    ht (k := 0) rfl, ht (k := 1) rfl, ht (k := 2) rfl, ht (k := 3) rfl, ht (k := 4) rfl,
    ht (k := 5) rfl, ht (k := 6) rfl, ht (k := 7) rfl, ht (k := 8) rfl]

end

/-- The superblock depends on its 1024 bytes only. -/
theorem ofBytes_congr {m m' : ByteMem} (h : ∀ i < superSize, m i = m' i) :
    ofBytes m = ofBytes m' := by
  have hw : ∀ a, a + 4 ≤ superSize → load 4 m a = load 4 m' a := fun a ha =>
    load_congr fun i hi => h _ (by omega)
  have hs : ∀ a n, a + n ≤ superSize → slice m a n = slice m' a n := fun a n ha =>
    slice_congr fun i hi => h _ (by omega)
  unfold ofBytes
  rw [hs 52 16 (by decide), hs 68 64 (by decide), hs 168 856 (by decide),
    hw 0 (by decide), hw 4 (by decide), hw 8 (by decide), hw 12 (by decide), hw 16 (by decide),
    hw 20 (by decide), hw 24 (by decide), hw 28 (by decide), hw 32 (by decide), hw 36 (by decide),
    hw 40 (by decide), hw 44 (by decide), hw 48 (by decide), hw 132 (by decide),
    hw 136 (by decide), hw 140 (by decide), hw 144 (by decide), hw 148 (by decide),
    hw 152 (by decide), hw 156 (by decide), hw 160 (by decide), hw 164 (by decide)]

theorem brkfsSuperChecksum_lt (sb : SuperBlock) : brkfsSuperChecksum sb < 4294967296 :=
  UInt32.toNat_lt _

/-- The checksum does not count the field that holds it. -/
theorem brkfsSuperChecksum_set (sb : SuperBlock) :
    brkfsSuperChecksum (brkfsSuperSetChecksum sb) = (brkfsSuperSetChecksum sb).sChecksum := rfl

theorem geom_setChecksum (sb : SuperBlock) : (brkfsSuperSetChecksum sb).geom = sb.geom := rfl

theorem Fits.setChecksum (h : sb.Fits) : (brkfsSuperSetChecksum sb).Fits := by
  refine ⟨h.head, ?_, h.uuid, h.label, h.padding⟩
  intro w hw
  have htail : (brkfsSuperSetChecksum sb).tail = sb.tail.dropLast ++ [brkfsSuperChecksum sb] := rfl
  rw [htail, List.mem_append, List.mem_singleton] at hw
  rcases hw with hw | rfl
  · exact h.tail w (List.mem_of_mem_dropLast hw)
  · exact brkfsSuperChecksum_lt sb

end Image

end BrkKernel.Brkfs
