import BrkKernel.Brkfs.DirMap
import BrkKernel.Brkfs.NamesRename

/-!
# The names of a directory and its blocks

`Names` keeps a directory as a map, `Dir` as blocks on the disk. On well-formed blocks the lookup,
the removal and the addition of a name do the same on both sides, the addition as long as it cuts
no unused entry short. That it does not is what `cut site = none` stands for in a rename.
-/

set_option autoImplicit false

namespace BrkKernel.Names

open Brkfs Lib Function Sys

/-- A name that `Names` leaves out. -/
def Dots (name : Name) : Prop := name = [0x2e] ∨ name = [0x2e, 0x2e]

/-- The blocks of the inode `nd` hold what `s` has for the directory `d`. -/
structure Shows (g : Geometry) (v : Vol) (nd : FsInode) (s : Sys) (d : Node) : Prop where
  isDir : s.isDir d
  empty : (s.core d).all (fun i => i.blocks.isEmpty) ↔ nd.size = 0
  names : ∃ blocks m, DirOk g v nd blocks ∧ Represents (dirPairs blocks) m ∧
    ∀ name, ¬ Dots name → (m name).map Prod.fst = s.entry d name

variable {g : Geometry} {v v' : Vol} {nd nd' : FsInode} {s : Sys} {d : Node} {name : Name}
  {ino mode : Nat} {kind : Kind}

theorem Shows.lookup (h : Shows g v nd s d) (hname : ¬ Dots name) :
    (Brkfs.brkfsDirLookup v nd name).map Prod.fst = s.brkfsDirLookup d name none := by
  obtain ⟨blocks, m, hok, hrep, hnames⟩ := h.names
  rw [brkfsDirLookup_eq hok name, hrep.find name, Sys.brkfsDirLookup, h.isDir, ← hnames name hname]
  cases m name with
  | none => rfl
  | some r => rfl

theorem Shows.remove (h : Shows g v nd s d) (hname : ¬ Dots name) :
    ∃ v', Brkfs.brkfsDirRemove v nd name = some ((s.brkfsDirRemove d name none).1, nd, v') ∧
      Shows g v' nd (s.brkfsDirRemove d name none).2 d := by
  obtain ⟨blocks, m, hok, hrep, hnames⟩ := h.names
  have hentry := hnames name hname
  -- Both sides keep what they had, without the name.
  have hrest : ∀ other, ¬ Dots other →
      (update m name none other).map Prod.fst = (s.eraseEntry d name).entry d other := by
    intro other hother
    rw [entry_eraseEntry, ← hnames other hother]
    by_cases hn : other = name
    · simp [hn]
    · simp [hn]
  by_cases hm : m name = none
  · have habs : name ∉ (dirPairs blocks).map Prod.fst := fun hmem => hrep.key_mem_iff.1 hmem hm
    rw [hm] at hentry
    rw [← hm, update_eq_self] at hrest
    rw [brkfsDirRemove_absent hok habs, Sys.brkfsDirRemove]
    simp only [← hentry, h.empty, hok.size_eq_zero, Option.map_none, Option.isNone_none, true_and]
    by_cases hb : blocks = []
    · simp only [if_pos hb]
      exact ⟨v, rfl, h⟩
    · simp only [if_neg hb]
      exact ⟨v, rfl, h.isDir, h.empty, blocks, m, hok, hrep, hrest⟩
  · obtain ⟨v', blocks', x, hrun, hok', -, hperm⟩ :=
      brkfsDirRemove_spec hok (hrep.key_mem_iff.2 hm)
    have hsome : (s.entry d name).isSome := by
      rw [← hentry, Option.isSome_map]
      exact Option.isSome_iff_ne_none.2 hm
    rw [brkfsDirRemove_eq s d name none hsome]
    exact ⟨v', hrun, h.isDir, h.empty, blocks', _, hok', (hrep.perm hperm.symm).erase, hrest⟩

/-- The addition may cut no unused entry short (`dirMap_hole_reuse`). -/
theorem Shows.add (h : Shows g v nd s d) (hargs : DirArgs name ino) (hnew : s.entry d name = none)
    (hname : ¬ Dots name) (hsize : nd.size ≠ 0) (hkept : DirState.AddKept g ⟨v, nd⟩ name)
    (hadd : Brkfs.brkfsDirAdd v nd ino name mode = some (.ok (), nd', v'))
    (hkind : kind ≠ .unknown) (grow : List Nat) :
    Shows g v' nd' (s.brkfsDirAdd d ino name kind grow none).2 d := by
  obtain ⟨blocks, m, hok, hrep, hnames⟩ := h.names
  have hpos : 0 < blocks.length :=
    List.length_pos_iff.2 fun hb => hsize (hok.size_eq_zero.2 hb)
  have hm : m name = none := by
    have := hnames name hname
    rwa [hnew, Option.map_eq_none_iff] at this
  obtain ⟨blocks', hok', hpos', hrep'⟩ := DirInv.add ⟨blocks, hok, hpos, hrep⟩ hargs hm hkept hadd
  rw [brkfsDirAdd_eq s d ino name grow none hkind]
  show Shows g v' nd' ((s.addBlocks d grow).insertEntry d name ino) d
  have hdir : ((s.addBlocks d grow).insertEntry d name ino).isDir d := by
    show decide ((s.addBlocks d grow).kindOf d = .dir) = true
    rw [kindOf_addBlocks]
    exact h.isDir
  refine ⟨hdir, ?_, blocks', _, hok', hrep', ?_⟩
  · -- Neither side is without blocks: there was one already.
    have hold := mt h.empty.1 hsize
    refine iff_of_false ?_ (mt hok'.size_eq_zero.1 (List.length_pos_iff.1 hpos'))
    cases hc : s.core d with
    | none => exact absurd (by rw [hc]; rfl) hold
    | some i =>
      have hi : ¬ i.blocks = [] := by simpa [hc] using hold
      simp [insertEntry, addBlocks, Sys.modify, setCore, hc, hi]
  · intro other hother
    rw [entry_insertEntry, entry_addBlocks, ← hnames other hother]
    by_cases hn : other = name
    · simp [hn]
    · simp [hn]

end BrkKernel.Names
