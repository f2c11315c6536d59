import Mathlib.Data.List.Perm.Basic

/-!
# Chains of variable-length records

A record format reads a record at an address; the record says how long it is, and the next one
starts where it ends. `Chain` lists the records from one address to another. A chain depends only
on the cells it covers (`Chain.congr`), so an edit of one record is an edit of one list element.

`Represents` relates a list of key-value pairs to the finite map it stands for, which is how a
chain of records is read as a map.
-/

set_option autoImplicit false

namespace BrkKernel.Lib

open Function List

/-- Records of type `ρ` in a memory of cells `β`. A well-formed record is determined by the cells
it covers. -/
structure RecordFormat (β ρ : Type) where
  read : (Nat → β) → Nat → ρ
  len : ρ → Nat
  Ok : ρ → Prop
  read_congr : ∀ {m m' : Nat → β} {o : Nat}, Ok (read m o) →
    (∀ i, o ≤ i → i < o + len (read m o) → m' i = m i) → read m' o = read m o

namespace RecordFormat

section Chain

variable {β ρ : Type} (F : RecordFormat β ρ)

/-- The records `rs` follow each other from address `o` up to `fin`. -/
def Chain (m : Nat → β) : Nat → List ρ → Nat → Prop
  | o, [], fin => o = fin
  | o, r :: rs, fin => F.read m o = r ∧ F.Ok r ∧ Chain m (o + F.len r) rs fin

/-- The records of a chain from `o` on, with their addresses. -/
def located : Nat → List ρ → List (Nat × ρ)
  | _, [] => []
  | o, r :: rs => (o, r) :: located (o + F.len r) rs

variable {F} {m m' : Nat → β}

theorem mem_of_mem_located : ∀ {rs : List ρ} {o : Nat} {q : Nat × ρ}, q ∈ F.located o rs → q.2 ∈ rs
  | [], _, _, h => absurd h not_mem_nil
  | r :: rs, o, q, h => by
    rcases mem_cons.1 h with rfl | h
    · exact mem_cons_self
    · exact mem_cons_of_mem r (mem_of_mem_located h)

theorem Chain.le : ∀ {rs : List ρ} {o fin : Nat}, F.Chain m o rs fin → o ≤ fin
  | [], _, _, h => Nat.le_of_eq h
  | _ :: _, _, _, h => Nat.le_trans (Nat.le_add_right _ _) h.2.2.le

/-- A chain depends only on the cells it covers. -/
theorem Chain.congr : ∀ {rs : List ρ} {o fin : Nat}, F.Chain m o rs fin →
    (∀ i, o ≤ i → i < fin → m' i = m i) → F.Chain m' o rs fin
  | [], _, _, h, _ => h
  | r :: rs, o, fin, h, hag => by
    obtain ⟨hread, hok, hrest⟩ := h
    have hle := hrest.le
    refine ⟨?_, hok, hrest.congr fun i hi hi' => hag i (by omega) hi'⟩
    rw [← hread] at hok hle
    rw [F.read_congr hok fun i hi hi' => hag i hi (by omega), hread]

/-- The first record of a chain after an edit of the cells behind it. -/
theorem Chain.cons_congr {r : ρ} {rs : List ρ} {o fin : Nat} (hread : F.read m o = r)
    (hok : F.Ok r) (hag : ∀ i, i < o + F.len r → m' i = m i)
    (hrest : F.Chain m' (o + F.len r) rs fin) : F.Chain m' o (r :: rs) fin := by
  refine ⟨?_, hok, hrest⟩
  subst hread
  exact F.read_congr hok fun i _ hi => hag i hi

end Chain

end RecordFormat

/-! ## Lists that stand for maps -/

section Represents

variable {α β : Type}

/-- The pairs of `L` are the graph of the map `m`, without repeated keys. -/
structure Represents (L : List (α × β)) (m : α → Option β) : Prop where
  nodup : (L.map Prod.fst).Nodup
  mem_iff : ∀ a b, (a, b) ∈ L ↔ m a = some b

variable {L L' : List (α × β)} {m : α → Option β} {a : α} {b : β}

theorem Represents.nil : Represents ([] : List (α × β)) fun _ => none :=
  ⟨nodup_nil, fun _ _ => by simp⟩

theorem Represents.perm (h : Represents L m) (hp : L'.Perm L) : Represents L' m where
  nodup := (hp.map Prod.fst).nodup_iff.2 h.nodup
  mem_iff a b := hp.mem_iff.trans (h.mem_iff a b)

theorem Represents.key_mem_iff (h : Represents L m) : a ∈ L.map Prod.fst ↔ m a ≠ none := by
  constructor
  · intro hmem
    obtain ⟨p, hp, rfl⟩ := mem_map.1 hmem
    rw [(h.mem_iff p.1 p.2).1 hp]
    exact Option.some_ne_none _
  · intro hne
    obtain ⟨b, hb⟩ := Option.ne_none_iff_exists'.1 hne
    exact mem_map.2 ⟨(a, b), (h.mem_iff a b).2 hb, rfl⟩

variable [DecidableEq α]

theorem Represents.insert (h : Represents L m) (ha : m a = none) :
    Represents ((a, b) :: L) (update m a (some b)) where
  nodup := by
    rw [map_cons, nodup_cons]
    exact ⟨fun hmem => h.key_mem_iff.1 hmem ha, h.nodup⟩
  mem_iff a' b' := by
    rw [mem_cons, h.mem_iff]
    by_cases haa : a' = a
    · subst haa
      rw [update_self, ha]
      simp [eq_comm]
    · simp [haa]

theorem Represents.erase (h : Represents ((a, b) :: L) m) : Represents L (update m a none) where
  nodup := (nodup_cons.1 h.nodup).2
  mem_iff a' b' := by
    have hnot := (nodup_cons.1 h.nodup).1
    by_cases haa : a' = a
    · subst haa
      rw [update_self]
      simp only [reduceCtorEq, iff_false]
      exact fun hmem => hnot (mem_map.2 ⟨_, hmem, rfl⟩)
    · rw [update_of_ne haa, ← h.mem_iff]
      simp [haa]

/-- Searching the list reads the map. -/
theorem Represents.find (h : Represents L m) (a : α) :
    (L.find? fun p => p.1 = a).map Prod.snd = m a := by
  cases hf : L.find? (fun p => p.1 = a) with
  | none =>
    rw [find?_eq_none] at hf
    by_contra hne
    obtain ⟨p, hp, hpa⟩ := mem_map.1 (h.key_mem_iff.2 (Ne.symm hne))
    exact hf p hp (by simpa using hpa)
  | some p =>
    have hp := mem_of_find?_eq_some hf
    have hpa : p.1 = a := by simpa using find?_some hf
    rw [Option.map_some, ← hpa]
    exact ((h.mem_iff p.1 p.2).1 hp).symm

end Represents

end BrkKernel.Lib
