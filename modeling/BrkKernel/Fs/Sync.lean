import BrkKernel.Kern.Base
import Mathlib.Data.List.Nodup

/-!
# Errors during a sync

`sync_filesystem` and `writeback_single_inode` of `fs/super.c`, with `fs_inode_mark_dirty` of
`fs/inode.c` for the tasks that mark an inode while it is written. What the operations of the file
system return is open.

An inode loses its mark before it is written, and a write that fails does not give it back
(`sync_loses_inode`). `sync_keeps_iff` says when no inode is lost: exactly when every inode that was
taken from the list is written or marked by another task, and an inode that was not written comes
with an error.
-/

set_option autoImplicit false

namespace BrkKernel.Sync

open Function

/-! ## The model -/

/-- The parts of `struct fs_inode` that a sync works with. -/
structure Inode where
  /-- `I_DIRTY`. -/
  dirty : Bool
  /-- `I_FREEING`, `I_WILL_FREE` or `I_BAD`. -/
  dying : Bool
  count : Nat
  /-- It has a page cache. -/
  mapped : Bool

/-- A superblock. `written` says for which inodes `write_inode` has returned 0 in this sync. -/
structure SuperBlock where
  inode : Nat → Inode
  dirtyInodes : List Nat
  written : Nat → Bool

/-- What `page_cache_flush`, `write_inode` and `sync_fs` return, if the file system has them, and
the inodes that another task marks while they are written. -/
structure SyncEnv where
  flush : Nat → Option Errno
  writeInode : Option (Nat → Option Errno)
  syncFs : Option (Option Errno)
  redirty : Nat → Bool

/-- The snapshot leaves the inode where it is. -/
def Inode.skipped (i : Inode) : Bool := i.dying || i.count == 0

section Model

variable (env : SyncEnv) (sb : SuperBlock) (k : Nat)

def SuperBlock.setInode (i : Inode) : SuperBlock := { sb with inode := update sb.inode k i }

/-- `fs_inode_mark_dirty`. -/
def SuperBlock.markDirty : SuperBlock :=
  if (sb.inode k).dirty then sb
  else { sb.setInode k { sb.inode k with dirty := true } with dirtyInodes := k :: sb.dirtyInodes }

/-- The inodes that the snapshot moves to the work list. -/
def SuperBlock.work : List Nat := sb.dirtyInodes.filter fun k => !(sb.inode k).skipped

/-- The superblock after the snapshot. -/
def SuperBlock.snapshot : SuperBlock where
  inode k := { sb.inode k with count := (sb.inode k).count + sb.work.count k }
  dirtyInodes := sb.dirtyInodes.filter fun k => (sb.inode k).skipped
  written _ := false

/-- `writeback_single_inode`. The first error counts, but the inode is written after any. -/
def writebackSingleInode (mapped : Bool) : Option Errno :=
  (if mapped then env.flush k else none).or (env.writeInode.bind fun write => write k)

/-- `write_inode` is there and returns 0. -/
def SyncEnv.writes : Bool := env.writeInode.any fun write => (write k).isNone

/-- A turn of the loop of `sync_filesystem`: the mark is cleared, the inode is written and put. -/
def SuperBlock.turn : SuperBlock :=
  let cleared := sb.setInode k { sb.inode k with dirty := false }
  let wrote := { cleared with written := update cleared.written k (env.writes k) }
  let marked := if env.redirty k then wrote.markDirty k else wrote
  marked.setInode k { marked.inode k with count := (marked.inode k).count - 1 }

/-- The loop over the work list. -/
def syncLoop : List Nat → SuperBlock → Option Errno → Option Errno × SuperBlock
  | [], sb, ret => (ret, sb)
  | k :: work, sb, ret =>
    syncLoop work (sb.turn env k) (ret.or (writebackSingleInode env k (sb.inode k).mapped))

/-- `sync_filesystem`. -/
def syncFilesystem : Option Errno × SuperBlock :=
  let r := syncLoop env sb.work sb.snapshot none
  (r.1.or env.syncFs.join, r.2)

end Model

/-! ## What a sync does to an inode -/

open SuperBlock

section Loop

variable {env : SyncEnv} {sb : SuperBlock} {work : List Nat} {ret : Option Errno} {k : Nat}

/-- Whether an inode was written, is marked and is on the list. -/
def SuperBlock.marks (sb : SuperBlock) (k : Nat) : Bool × Bool × Bool :=
  (sb.written k, (sb.inode k).dirty, decide (k ∈ sb.dirtyInodes))

/-- The same for an inode that the sync has taken. -/
def SyncEnv.marks (env : SyncEnv) (k : Nat) : Bool × Bool × Bool :=
  (env.writes k, env.redirty k, env.redirty k)

theorem marks_turn (env : SyncEnv) (hoff : k ∉ sb.dirtyInodes) :
    (sb.turn env k).marks = update sb.marks k (env.marks k) := by
  refine eq_update_iff.2 ⟨?_, fun j hj => ?_⟩
  · cases hr : env.redirty k with
    | false => simp [turn, marks, SyncEnv.marks, setInode, hr, hoff]
    | true => simp [turn, marks, SyncEnv.marks, setInode, markDirty, hr]
  · cases hr : env.redirty k with
    | false => simp [turn, marks, setInode, hr, hj]
    | true => simp [turn, marks, setInode, markDirty, hr, hj]

theorem mapped_turn (j : Nat) : ((sb.turn env k).inode j).mapped = (sb.inode j).mapped := by
  by_cases hj : j = k
  · subst hj
    cases hr : env.redirty j with
    | false => simp [turn, setInode, hr]
    | true => simp [turn, setInode, markDirty, hr]
  · cases hr : env.redirty k with
    | false => simp [turn, setInode, hr, hj]
    | true => simp [turn, setInode, markDirty, hr, hj]

/-- Each inode of the work list has its turn, and the others stay as they are. -/
theorem marks_syncLoop (hnd : work.Nodup) (hoff : ∀ k ∈ work, k ∉ sb.dirtyInodes) (k : Nat) :
    (syncLoop env work sb ret).2.marks k = if k ∈ work then env.marks k else sb.marks k := by
  induction work generalizing sb ret with
  | nil => rfl
  | cons j work ih =>
    obtain ⟨hj, hnd⟩ := List.nodup_cons.1 hnd
    obtain ⟨hoffj, hoff⟩ := List.forall_mem_cons.1 hoff
    have hturn := marks_turn env hoffj
    have hrest : ∀ i ∈ work, i ∉ (sb.turn env j).dirtyInodes := by
      intro i hi hmem
      have hij : i ≠ j := fun he => hj (he ▸ hi)
      have hmarks := congrFun hturn i
      rw [update_of_ne hij] at hmarks
      have hlist := congrArg (fun x => x.2.2) hmarks
      simp only [marks, decide_eq_decide] at hlist
      exact hoff i hi (hlist.1 hmem)
    rw [syncLoop, ih hnd hrest, hturn]
    by_cases hk : k = j
    · subst hk
      rw [if_neg hj, update_self, if_pos List.mem_cons_self]
    · simp [hk]

/-- The loop returns no error exactly when nothing fails. -/
theorem syncLoop_eq_none : (syncLoop env work sb ret).1 = none ↔ ret = none ∧
    ∀ k ∈ work, writebackSingleInode env k (sb.inode k).mapped = none := by
  induction work generalizing sb ret with
  | nil => simp [syncLoop]
  | cons j work ih =>
    rw [syncLoop, ih, Option.or_eq_none_iff, List.forall_mem_cons, and_assoc]
    simp only [mapped_turn]

end Loop

/-! ## Lost inodes -/

/-- An inode is on the list once, if it is marked. -/
structure SuperBlock.Linked (sb : SuperBlock) : Prop where
  nodup : sb.dirtyInodes.Nodup
  marked : ∀ k, (sb.inode k).dirty = true ↔ k ∈ sb.dirtyInodes

/-- Every inode that was marked and was not written is marked and on the list, and there is an
error. -/
def Kept (sb : SuperBlock) (r : Option Errno × SuperBlock) : Prop :=
  ∀ k, (sb.inode k).dirty = true → r.2.written k = false →
    (r.2.inode k).dirty = true ∧ k ∈ r.2.dirtyInodes ∧ r.1 ≠ none

/-- Something fails in a sync. -/
def SyncEnv.Fails (env : SyncEnv) (sb : SuperBlock) : Prop :=
  env.syncFs.join ≠ none ∨ ∃ k ∈ sb.work, writebackSingleInode env k (sb.inode k).mapped ≠ none

section Sync

variable {env : SyncEnv} {sb : SuperBlock} {k : Nat}

/-- A marked inode that the snapshot does not take stays as it is. -/
theorem marks_syncFilesystem (env : SyncEnv) (h : sb.Linked) (hk : (sb.inode k).dirty = true) :
    (syncFilesystem env sb).2.marks k =
      if k ∈ sb.work then env.marks k else (false, true, true) := by
  have hoff : ∀ k ∈ sb.work, k ∉ sb.snapshot.dirtyInodes := by
    intro k hk hs
    have hw := (List.mem_filter.1 hk).2
    rw [(List.mem_filter.1 hs).2] at hw
    cases hw
  have hnd : sb.work.Nodup := h.nodup.filter _
  refine (marks_syncLoop hnd hoff k).trans ?_
  by_cases hw : k ∈ sb.work
  · rw [if_pos hw, if_pos hw]
  have hmem := (h.marked k).1 hk
  have hskip : (sb.inode k).skipped = true := by
    by_contra hs
    exact hw (List.mem_filter.2 ⟨hmem, by simpa using hs⟩)
  simp [marks, snapshot, hk, hmem, hskip]

theorem syncFilesystem_eq_none : (syncFilesystem env sb).1 = none ↔ ¬ env.Fails sb := by
  rw [syncFilesystem, Option.or_eq_none_iff, syncLoop_eq_none]
  simp [SyncEnv.Fails, snapshot, and_comm]

/-- What is kept of one inode that was marked. -/
theorem kept_inode_iff (h : sb.Linked) (hk : k ∈ sb.dirtyInodes) :
    ((syncFilesystem env sb).2.written k = false →
      ((syncFilesystem env sb).2.inode k).dirty = true ∧
        k ∈ (syncFilesystem env sb).2.dirtyInodes ∧ (syncFilesystem env sb).1 ≠ none) ↔
      (k ∉ sb.work ∨ env.writes k = false →
        (k ∈ sb.work → env.redirty k = true) ∧ env.Fails sb) := by
  have hmarks := marks_syncFilesystem env h ((h.marked k).2 hk)
  simp only [marks] at hmarks
  rw [ne_eq, syncFilesystem_eq_none, not_not]
  by_cases hw : k ∈ sb.work
  · rw [if_pos hw, SyncEnv.marks, Prod.mk.injEq, Prod.mk.injEq] at hmarks
    obtain ⟨hwritten, hdirty, hlist⟩ := hmarks
    rw [hwritten, hdirty, ← hlist, decide_eq_true_iff]
    simp [hw]
  · rw [if_neg hw, Prod.mk.injEq, Prod.mk.injEq, decide_eq_true_iff] at hmarks
    simp [hw, hmarks]

/-- No inode is lost exactly when those that were taken are written or marked again, and one that
was not written comes with an error. -/
theorem sync_keeps_iff (h : sb.Linked) : Kept sb (syncFilesystem env sb) ↔
    (∀ k ∈ sb.work, env.writes k = true ∨ env.redirty k = true) ∧
      ((∃ k ∈ sb.dirtyInodes, k ∉ sb.work ∨ env.writes k = false) → env.Fails sb) := by
  constructor
  · intro hkept
    have hall : ∀ k ∈ sb.dirtyInodes, k ∉ sb.work ∨ env.writes k = false →
        (k ∈ sb.work → env.redirty k = true) ∧ env.Fails sb :=
      fun k hk => (kept_inode_iff h hk).1 (hkept k ((h.marked k).2 hk))
    refine ⟨fun k hk => ?_, fun ⟨k, hk, hno⟩ => (hall k hk hno).2⟩
    cases hwrites : env.writes k with
    | true => exact .inl rfl
    | false => exact .inr ((hall k (List.mem_filter.1 hk).1 (.inr hwrites)).1 hk)
  · rintro ⟨htaken, hfails⟩ k hdirty
    have hk := (h.marked k).1 hdirty
    refine (kept_inode_iff h hk).2 fun hno => ⟨fun hw => ?_, hfails ⟨k, hk, hno⟩⟩
    rcases hno with hnot | hwrites
    · exact absurd hw hnot
    · exact (htaken k hw).resolve_left (by rw [hwrites]; exact Bool.false_ne_true)

end Sync

/-! ## A failing write -/

/-- A superblock with one inode, which is marked. -/
def oneDirty : SuperBlock := ⟨fun k => ⟨k == 0, false, 1, false⟩, [0], fun _ => false⟩

theorem oneDirty_linked : oneDirty.Linked := by
  refine ⟨List.nodup_singleton 0, fun k => ?_⟩
  simp [oneDirty]

/-- A file system whose `write_inode` returns that for every inode, and may mark it again. -/
def writing (err : Option Errno) (again : Bool := false) : SyncEnv :=
  ⟨fun _ => none, some fun _ => err, none, fun _ => again⟩

/-- Without errors the inode is written; one that `write_inode` could not write and has marked
again is kept, and the error returned. -/
theorem sync_keeps_written : Kept oneDirty (syncFilesystem (writing none) oneDirty) ∧
    Kept oneDirty (syncFilesystem (writing (some .eio) true) oneDirty) ∧
    (syncFilesystem (writing (some .eio) true) oneDirty).1 = some .eio := by
  refine ⟨(sync_keeps_iff oneDirty_linked).2 ⟨fun k _ => .inl rfl, ?_⟩,
    (sync_keeps_iff oneDirty_linked).2 ⟨fun k _ => .inr rfl, fun _ => ?_⟩, rfl⟩
  · simp [oneDirty, work, Inode.skipped, writing, SyncEnv.writes]
  · simp [oneDirty, work, Inode.skipped, writing, SyncEnv.Fails, writebackSingleInode]

/-- When `write_inode` fails the error is returned, but the inode is neither written nor marked nor
on the list. -/
theorem sync_loses_inode : (oneDirty.inode 0).dirty = true ∧
      (syncFilesystem (writing (some .eio)) oneDirty).1 = some .eio ∧
      (syncFilesystem (writing (some .eio)) oneDirty).2.marks 0 = (false, false, false) := by
  decide

end BrkKernel.Sync
