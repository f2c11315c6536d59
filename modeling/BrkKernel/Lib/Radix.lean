import BrkKernel.Lib.Actors

/-!
# Radix tables with leaves at several levels

An entry of a radix table is empty, a leaf, or a pointer to a table of `fan` entries one level
below. A key is looked up digit by digit: the entry of a table of level `lvl` is chosen by digit
`lvl` of the key, and a leaf found at level `lvl` stands for all the keys that agree with its own in
the digits from `lvl` on.

`place` puts a leaf at a chosen level and makes the tables on the way, with frames from an
allocator that may refuse, and `remove` takes out the leaf that a key leads to. For both of them the
effect on every key is stated: the keys of one slot (`SameSlot`) see the change and all other keys
see what they saw before. `tables` counts for every frame the tables of the entry that it holds,
and what an allocator keeps true of these counts, `place` keeps true (`place_tables`).
-/

set_option autoImplicit false

namespace BrkKernel.Lib

open Function

/-- An entry of a radix table. A table is named by the frame that holds it. -/
inductive Radix (L : Type) where
  | empty
  | leaf (l : L)
  | table (frame : Nat) (sub : Nat → Radix L)

namespace Radix

/-- How the placing of a leaf ends: done, out of frames for a new table, or stopped at an entry
that is in the way. -/
inductive Status where
  | ok | noMem | bad
deriving DecidableEq, Repr

variable {L σ : Type} (fan : Nat) {sub : Nat → Radix L}

/-- The entry that the key `k` selects in a table of level `lvl`. -/
def digit (k lvl : Nat) : Nat := k / fan ^ lvl % fan

/-- The leaf that `k` leads to from an entry of level `lvl`, with the level of the leaf. -/
def walk (k : Nat) : Nat → Radix L → Option (Nat × L)
  | _, .empty => none
  | lvl, .leaf l => some (lvl, l)
  | 0, .table _ _ => none
  | lvl + 1, .table _ sub => walk k lvl (sub (digit fan k lvl))

/-- The slot of level `t` on the path of `k` can take a leaf. -/
def Vacant (k t : Nat) : Nat → Radix L → Prop
  | _, .empty => True
  | _, .leaf _ => False
  | 0, .table _ _ => False
  | lvl + 1, .table _ sub => t ≤ lvl ∧ Vacant k t lvl (sub (digit fan k lvl))

/-- The keys `k` and `k'` choose the same entries from level `lvl` down to the slot of level
`t`. -/
def SameSlot (t lvl k k' : Nat) : Prop :=
  ∀ j, t ≤ j → j < lvl → digit fan k j = digit fan k' j

/-- The entry with the leaf `l` in it, when there is room. -/
def fill (l : L) (s : σ) : Radix L → Status × Radix L × σ
  | .empty => (.ok, .leaf l, s)
  | e => (.bad, e, s)

/-- Put the leaf `l` into the slot of level `t` on the path of `k`. A missing table is made empty,
and stays when a table below it cannot be made. -/
def place (alloc : σ → Option Nat × σ) (t k : Nat) (l : L) :
    Nat → Radix L → σ → Status × Radix L × σ
  | 0, e, s => fill l s e
  | lvl + 1, e, s =>
    if lvl + 1 = t then fill l s e
    else
      match e with
      | .empty =>
        match alloc s with
        | (none, s') => (.noMem, .empty, s')
        | (some f, s') =>
          ((place alloc t k l lvl .empty s').1,
            .table f (update (fun _ => .empty) (digit fan k lvl)
              (place alloc t k l lvl .empty s').2.1),
            (place alloc t k l lvl .empty s').2.2)
      | .leaf l' => (.bad, .leaf l', s)
      | .table f sub =>
        ((place alloc t k l lvl (sub (digit fan k lvl)) s).1,
          .table f (update sub (digit fan k lvl)
            (place alloc t k l lvl (sub (digit fan k lvl)) s).2.1),
          (place alloc t k l lvl (sub (digit fan k lvl)) s).2.2)

/-- Take out the leaf that `k` leads to, and say at which level it was. -/
def remove (k : Nat) : Nat → Radix L → Option (Nat × Radix L)
  | _, .empty => none
  | lvl, .leaf _ => some (lvl, .empty)
  | 0, .table _ _ => none
  | lvl + 1, .table f sub =>
    (remove k lvl (sub (digit fan k lvl))).map fun r =>
      (r.1, .table f (update sub (digit fan k lvl) r.2))

/-- How many tables of the entry the frame `g` holds. -/
def tables : Radix L → Nat → Nat
  | .empty => 0
  | .leaf _ => 0
  | .table f sub => Pi.single f 1 + ((List.range fan).map fun i => tables (sub i)).sum

variable {fan} {alloc : σ → Option Nat × σ} {t lvl k k' i f : Nat} {l : L} {e : Radix L} {s s1 : σ}

section Slots

@[simp]
theorem sameSlot_of_le (h : lvl ≤ t) : SameSlot fan t lvl k k' := by
  intro j htj hjl
  omega

theorem SameSlot.symm (h : SameSlot fan t lvl k k') : SameSlot fan t lvl k' k :=
  fun j htj hjl => (h j htj hjl).symm

/-- A slot is chosen by the digit at the top and by the digits below it. -/
theorem sameSlot_succ (h : t ≤ lvl) : SameSlot fan t (lvl + 1) k k' ↔
      digit fan k lvl = digit fan k' lvl ∧ SameSlot fan t lvl k k' := by
  constructor
  · intro hs
    exact ⟨hs lvl h (Nat.lt_succ_self lvl), fun j htj hjl => hs j htj (Nat.lt_succ_of_lt hjl)⟩
  rintro ⟨htop, hs⟩ j htj hjl
  rcases Nat.lt_succ_iff_lt_or_eq.1 hjl with hlt | rfl
  · exact hs j htj hlt
  · exact htop

theorem digit_lt (k lvl : Nat) (h : 0 < fan) : digit fan k lvl < fan := Nat.mod_lt _ h

end Slots

section Walk

@[simp]
theorem walk_empty : walk fan k lvl (.empty : Radix L) = none := by
  cases lvl with
  | zero => rfl
  | succ lvl => rfl

@[simp]
theorem walk_leaf : walk fan k lvl (.leaf l) = some (lvl, l) := by
  cases lvl with
  | zero => rfl
  | succ lvl => rfl

@[simp]
theorem walk_table (f : Nat) (sub : Nat → Radix L) :
    walk fan k (lvl + 1) (.table f sub) = walk fan k lvl (sub (digit fan k lvl)) := rfl

/-- A leaf is found at the level of the entry or below it. -/
theorem walk_level {j : Nat} (h : walk fan k lvl e = some (j, l)) : j ≤ lvl := by
  induction lvl generalizing e with
  | zero =>
    cases e with
    | empty => simp at h
    | leaf l' => simp at h; omega
    | table f sub => cases h
  | succ lvl ih =>
    cases e with
    | empty => simp at h
    | leaf l' => simp at h; omega
    | table f sub => exact Nat.le_succ_of_le (ih h)

/-- All the keys of the slot of a leaf lead to it. -/
theorem walk_of_sameSlot {j : Nat} (h : walk fan k lvl e = some (j, l))
    (hs : SameSlot fan j lvl k k') : walk fan k' lvl e = some (j, l) := by
  induction lvl generalizing e with
  | zero =>
    cases e with
    | empty => simp at h
    | leaf l' => simpa using h
    | table f sub => cases h
  | succ lvl ih =>
    cases e with
    | empty => simp at h
    | leaf l' => simpa using h
    | table f sub =>
      rw [walk_table] at h ⊢
      obtain ⟨htop, hs⟩ := (sameSlot_succ (walk_level h)).1 hs
      rw [← htop]
      exact ih h hs

@[simp]
theorem vacant_empty : Vacant fan k t lvl (.empty : Radix L) := by
  cases lvl with
  | zero => trivial
  | succ lvl => trivial

@[simp]
theorem not_vacant_leaf : ¬ Vacant fan k t lvl (.leaf l) := by
  cases lvl with
  | zero => exact id
  | succ lvl => exact id

theorem vacant_table (f : Nat) (sub : Nat → Radix L) : Vacant fan k t (lvl + 1) (.table f sub) ↔
      t ≤ lvl ∧ Vacant fan k t lvl (sub (digit fan k lvl)) := Iff.rfl

/-- The keys of a vacant slot lead nowhere. -/
theorem Vacant.walk_eq_none (h : Vacant fan k t lvl e) (hs : SameSlot fan t lvl k k') :
    walk fan k' lvl e = none := by
  induction lvl generalizing e with
  | zero =>
    cases e with
    | empty => rfl
    | leaf l => exact absurd h not_vacant_leaf
    | table f sub => rfl
  | succ lvl ih =>
    cases e with
    | empty => rfl
    | leaf l => exact absurd h not_vacant_leaf
    | table f sub =>
      obtain ⟨ht, h⟩ := (vacant_table f sub).1 h
      obtain ⟨htop, hs⟩ := (sameSlot_succ ht).1 hs
      rw [walk_table, ← htop]
      exact ih h hs

end Walk

section Place

/-- The table in which `place` goes on at an entry: the one that is there, or a new one. -/
def Opened (alloc : σ → Option Nat × σ) (e : Radix L) (s : σ) (f : Nat) (sub : Nat → Radix L)
    (s₁ : σ) : Prop :=
  e = .table f sub ∧ s₁ = s ∨ e = .empty ∧ sub = (fun _ => .empty) ∧ alloc s = (some f, s₁)

/-- Induction along `place`: it fills the slot, is stopped where the slot is not vacant, finds no
frame for a table, or goes on in a table. -/
theorem place_induct {P : Nat → Radix L → σ → Status × Radix L × σ → Prop}
    (hput : ∀ lvl s, lvl = t ∨ lvl = 0 → P lvl .empty s (.ok, .leaf l, s))
    (hstop : ∀ lvl e s, (t ≤ lvl → ¬ Vacant fan k t lvl e) → P lvl e s (.bad, e, s))
    (hnone : ∀ n s s1, n + 1 ≠ t → alloc s = (none, s1) → P (n + 1) .empty s (.noMem, .empty, s1))
    (hdown : ∀ n e s f sub s1 r, n + 1 ≠ t → Opened alloc e s f sub s1 →
      place fan alloc t k l n (sub (digit fan k n)) s1 = r → P n (sub (digit fan k n)) s1 r →
      P (n + 1) e s (r.1, .table f (update sub (digit fan k n) r.2.1), r.2.2)) :
    P lvl e s (place fan alloc t k l lvl e s) := by
  have hfill : ∀ lvl e s, lvl = t ∨ lvl = 0 → P lvl e s (fill l s e) := by
    intro lvl e s hlvl
    cases e with
    | empty => exact hput lvl s hlvl
    | leaf l' => exact hstop lvl _ s fun _ => not_vacant_leaf
    | table f sub =>
      refine hstop lvl _ s fun ht => ?_
      cases lvl with
      | zero => exact id
      | succ n => exact fun hv => by have := hv.1; omega
  induction lvl generalizing e s with
  | zero => exact hfill 0 e s (.inr rfl)
  | succ n ih =>
    by_cases ht : n + 1 = t
    · rw [place.eq_def]
      simp only [if_pos ht]
      exact hfill (n + 1) e s (.inl ht)
    cases e with
    | empty =>
      cases ha : alloc s with
      | mk o s1 =>
        cases o with
        | none =>
          simp only [place, if_neg ht, ha]
          exact hnone n s s1 ht ha
        | some f =>
          simp only [place, if_neg ht, ha]
          exact hdown n _ s f (fun _ => .empty) s1 _ ht (.inr ⟨rfl, rfl, ha⟩) rfl ih
    | leaf l' =>
      simp only [place, if_neg ht]
      exact hstop _ _ s fun _ => not_vacant_leaf
    | table f sub =>
      simp only [place, if_neg ht]
      exact hdown n _ s f sub s _ ht (.inl ⟨rfl, rfl⟩) rfl ih

theorem place_table (h : t ≤ lvl) (f : Nat) (sub : Nat → Radix L) :
    place fan alloc t k l (lvl + 1) (.table f sub) s =
      ((place fan alloc t k l lvl (sub (digit fan k lvl)) s).1,
        .table f (update sub (digit fan k lvl)
          (place fan alloc t k l lvl (sub (digit fan k lvl)) s).2.1),
        (place fan alloc t k l lvl (sub (digit fan k lvl)) s).2.2) := by
  have hne : lvl + 1 ≠ t := by omega
  simp only [place, if_neg hne]

/-- A new table is as empty as the entry it hangs in. -/
theorem Opened.walk_eq (h : Opened alloc e s f sub s1)
    (k' : Nat) : walk fan k' lvl (sub (digit fan k' lvl)) = walk fan k' (lvl + 1) e := by
  rcases h with ⟨rfl, -⟩ | ⟨rfl, rfl, -⟩
  · rfl
  · simp

theorem Opened.vacant (h : Opened alloc e s f sub s1)
    (hv : Vacant fan k t (lvl + 1) e) : Vacant fan k t lvl (sub (digit fan k lvl)) := by
  rcases h with ⟨rfl, -⟩ | ⟨rfl, rfl, -⟩
  · exact hv.2
  · exact vacant_empty

/-- The keys of the slot lead to the new leaf. -/
theorem walk_place_same (ht : t ≤ lvl) (hok : (place fan alloc t k l lvl e s).1 = .ok)
    (hs : SameSlot fan t lvl k k') :
    walk fan k' lvl (place fan alloc t k l lvl e s).2.1 = some (t, l) := by
  revert ht hok hs
  refine place_induct (P := fun lvl _ _ r => t ≤ lvl → r.1 = .ok → SameSlot fan t lvl k k' →
    walk fan k' lvl r.2.1 = some (t, l)) ?_ nofun nofun ?_
  · intro lvl s hlvl ht _ _
    obtain rfl : lvl = t := by omega
    exact walk_leaf
  intro n e s f sub s1 r hne _ _ ih ht hok hs
  have ht : t ≤ n := by omega
  obtain ⟨htop, hs⟩ := (sameSlot_succ ht).1 hs
  simp only [walk_table, ← htop, update_self]
  exact ih ht hok hs

/-- The keys of other slots see nothing of it, and no key sees anything of a failure. -/
theorem walk_place_other
    (h : (place fan alloc t k l lvl e s).1 ≠ .ok ∨ t ≤ lvl ∧ ¬ SameSlot fan t lvl k k') :
    walk fan k' lvl (place fan alloc t k l lvl e s).2.1 = walk fan k' lvl e := by
  revert h
  refine place_induct (P := fun lvl e _ r => r.1 ≠ .ok ∨ t ≤ lvl ∧ ¬ SameSlot fan t lvl k k' →
    walk fan k' lvl r.2.1 = walk fan k' lvl e) ?_ ?_ ?_ ?_
  · rintro lvl s hlvl (hbad | ⟨ht, hs⟩)
    · exact absurd rfl hbad
    · exact absurd (sameSlot_of_le (by omega)) hs
  · intros
    rfl
  · intros
    rfl
  intro n e s f sub s1 r hne hopen _ ih h
  rw [walk_table, ← hopen.walk_eq]
  by_cases htop : digit fan k n = digit fan k' n
  · rw [← htop, update_self]
    refine ih (h.imp_right fun ⟨ht, hs⟩ => ?_)
    have ht : t ≤ n := by omega
    exact ⟨ht, fun hn => hs ((sameSlot_succ ht).2 ⟨htop, hn⟩)⟩
  · rw [update_of_ne (Ne.symm htop)]

/-- A leaf is placed only in a vacant slot. -/
theorem vacant_of_place_ok (ht : t ≤ lvl) (hok : (place fan alloc t k l lvl e s).1 = .ok) :
    Vacant fan k t lvl e := by
  revert ht hok
  refine place_induct (P := fun lvl e _ r => t ≤ lvl → r.1 = .ok → Vacant fan k t lvl e)
    ?_ nofun nofun ?_
  · intros
    exact vacant_empty
  intro n e s f sub s1 r hne hopen _ ih ht hok
  rcases hopen with ⟨rfl, rfl⟩ | ⟨rfl, -, -⟩
  · exact ⟨by omega, ih (by omega) hok⟩
  · exact vacant_empty

/-- Nothing is in the way in a vacant slot. -/
theorem place_ne_bad (h : Vacant fan k t lvl e) (ht : t ≤ lvl) :
    (place fan alloc t k l lvl e s).1 ≠ .bad := by
  revert h ht
  refine place_induct (P := fun lvl e _ r => Vacant fan k t lvl e → t ≤ lvl → r.1 ≠ .bad)
    nofun ?_ nofun ?_
  · intro lvl e s hstop h ht
    exact absurd h (hstop ht)
  · intro n e s f sub s1 r hne hopen _ ih h ht
    exact ih (hopen.vacant h) (by omega)

/-- A slot that does not overlap the one that was filled stays vacant. -/
theorem vacant_place {t' : Nat} (h : Vacant fan k' t' lvl e) (ht : t ≤ lvl) (ht' : t' ≤ lvl)
    (hs : ¬ SameSlot fan (max t t') lvl k k') :
    Vacant fan k' t' lvl (place fan alloc t k l lvl e s).2.1 := by
  revert h ht ht' hs
  refine place_induct (P := fun lvl e _ r => Vacant fan k' t' lvl e → t ≤ lvl → t' ≤ lvl →
    ¬ SameSlot fan (max t t') lvl k k' → Vacant fan k' t' lvl r.2.1) ?_ ?_ ?_ ?_
  · intro lvl s hlvl _ ht ht' hs
    exact absurd (sameSlot_of_le (by omega)) hs
  · intro lvl e s _ h _ _ _
    exact h
  · intros
    exact vacant_empty
  intro n e s f sub s1 r _ hopen _ ih h ht ht' hs
  have hmax : max t t' ≤ n := by
    by_contra hlt
    exact hs (sameSlot_of_le (by omega))
  have hsub := hopen.vacant h
  refine ⟨by omega, ?_⟩
  by_cases htop : digit fan k n = digit fan k' n
  · rw [← htop] at hsub
    rw [← htop, update_self]
    exact ih hsub (by omega) (by omega) fun hn => hs ((sameSlot_succ hmax).2 ⟨htop, hn⟩)
  · rw [update_of_ne (Ne.symm htop)]
    exact hsub

/-- With frames for the tables that may be missing, the leaf of a vacant slot is placed. `room n`
says that the allocator can give `n` frames. -/
theorem place_ok {room : Nat → σ → Prop} (h : Vacant fan k t lvl e) (ht : t ≤ lvl)
    (halloc : ∀ n s, room (n + 1) s → ∃ f s', alloc s = (some f, s') ∧ room n s')
    (hmono : ∀ n s, room (n + 1) s → room n s) {n : Nat} (hroom : room (n + (lvl - t)) s) :
    (place fan alloc t k l lvl e s).1 = .ok ∧ room n (place fan alloc t k l lvl e s).2.2 := by
  revert h ht hroom
  refine place_induct (P := fun lvl e s r => Vacant fan k t lvl e → t ≤ lvl →
    room (n + (lvl - t)) s → r.1 = .ok ∧ room n r.2.2) ?_ ?_ ?_ ?_
  · intro lvl s hlvl _ ht hroom
    rw [show lvl - t = 0 by omega] at hroom
    exact ⟨rfl, hroom⟩
  · intro lvl e s hstop h ht _
    exact absurd h (hstop ht)
  · intro m s s1 hne ha _ ht hroom
    rw [show n + (m + 1 - t) = n + (m - t) + 1 by omega] at hroom
    obtain ⟨f, s', ha', -⟩ := halloc _ s hroom
    rw [ha] at ha'
    cases ha'
  · intro m e s f sub s1 r hne hopen _ ih h ht hroom
    rw [show n + (m + 1 - t) = n + (m - t) + 1 by omega] at hroom
    apply ih (hopen.vacant h) (by omega)
    rcases hopen with ⟨-, rfl⟩ | ⟨-, -, ha⟩
    · exact hmono _ _ hroom
    obtain ⟨f', s', ha', hr⟩ := halloc _ _ hroom
    rw [ha] at ha'
    cases ha'
    exact hr

end Place

section Remove

variable {j : Nat} {e' : Radix L}

@[simp]
theorem remove_empty : remove fan k lvl (.empty : Radix L) = none := by
  cases lvl with
  | zero => rfl
  | succ lvl => rfl

@[simp]
theorem remove_leaf : remove fan k lvl (.leaf l) = some (lvl, .empty) := by
  cases lvl with
  | zero => rfl
  | succ lvl => rfl

/-- What `k` leads to can be taken out. -/
theorem exists_remove (h : walk fan k lvl e = some (j, l)) :
    ∃ e', remove fan k lvl e = some (j, e') := by
  induction lvl generalizing e with
  | zero =>
    cases e with
    | empty => simp at h
    | leaf l' => simp_all
    | table f sub => cases h
  | succ n ih =>
    cases e with
    | empty => simp at h
    | leaf l' => simp_all
    | table f sub =>
      obtain ⟨e', he'⟩ := ih h
      exact ⟨_, by rw [remove, he']; rfl⟩

/-- Induction along `remove`: the leaf is here, or in the entry of a table. -/
theorem remove_induct {P : Nat → Radix L → Nat → Radix L → Prop}
    (hleaf : ∀ lvl l, P lvl (.leaf l) lvl .empty)
    (htable : ∀ n f sub j e', j ≤ n → P n (sub (digit fan k n)) j e' →
      P (n + 1) (.table f sub) j (.table f (update sub (digit fan k n) e')))
    (h : remove fan k lvl e = some (j, e')) : P lvl e j e' := by
  suffices hp : j ≤ lvl ∧ P lvl e j e' from hp.2
  induction lvl generalizing e e' with
  | zero =>
    cases e with
    | empty => simp at h
    | leaf l =>
      cases h
      exact ⟨Nat.le_refl 0, hleaf 0 l⟩
    | table f sub => cases h
  | succ n ih =>
    cases e with
    | empty => simp at h
    | leaf l =>
      cases h
      exact ⟨Nat.le_refl _, hleaf (n + 1) l⟩
    | table f sub =>
      rw [remove, Option.map_eq_some_iff] at h
      obtain ⟨⟨i, e1⟩, hr, heq⟩ := h
      cases heq
      obtain ⟨hj, hp⟩ := ih hr
      exact ⟨Nat.le_succ_of_le hj, htable n f sub _ e1 hj hp⟩

/-- The keys of the slot of the leaf that was taken out lead nowhere. -/
theorem walk_remove_same (h : remove fan k lvl e = some (j, e')) (hs : SameSlot fan j lvl k k') :
    walk fan k' lvl e' = none := by
  revert hs
  refine remove_induct (P := fun lvl _ j e' => SameSlot fan j lvl k k' →
    walk fan k' lvl e' = none) ?_ ?_ h
  · intros
    exact walk_empty
  intro n f sub j e' hj ih hs
  obtain ⟨htop, hs⟩ := (sameSlot_succ hj).1 hs
  rw [walk_table, ← htop, update_self]
  exact ih hs

/-- All other keys lead where they led. -/
theorem walk_remove_other (h : remove fan k lvl e = some (j, e'))
    (hs : ¬ SameSlot fan j lvl k k') : walk fan k' lvl e' = walk fan k' lvl e := by
  revert hs
  refine remove_induct (P := fun lvl e j e' => ¬ SameSlot fan j lvl k k' →
    walk fan k' lvl e' = walk fan k' lvl e) ?_ ?_ h
  · intro lvl l hs
    exact absurd (sameSlot_of_le (Nat.le_refl lvl)) hs
  intro n f sub j e' hj ih hs
  rw [walk_table, walk_table]
  by_cases htop : digit fan k n = digit fan k' n
  · rw [← htop, update_self]
    exact ih fun hn => hs ((sameSlot_succ hj).2 ⟨htop, hn⟩)
  · rw [update_of_ne (Ne.symm htop)]

end Remove

section Tables

@[simp]
theorem tables_empty : tables fan (.empty : Radix L) = 0 := rfl

theorem tables_table (f : Nat) (sub : Nat → Radix L) : tables fan (.table f sub) =
      Pi.single f 1 + ((List.range fan).map fun i => tables fan (sub i)).sum := rfl

/-- An empty table is one frame. -/
theorem tables_table_empty (f : Nat) :
    tables fan (.table f fun _ => (.empty : Radix L)) = Pi.single f 1 := by
  simp [tables_table]

/-- Changing one entry of a table trades its tables for those of the new entry. -/
theorem tables_update (f : Nat) (sub : Nat → Radix L) (hi : i < fan) (x : Radix L) :
    tables fan (.table f (update sub i x)) + tables fan (sub i) =
      tables fan (.table f sub) + tables fan x := by
  have hsum := sum_map_apply_update (fun _ => tables fan) sub x List.nodup_range
    (List.mem_range.2 hi)
  rw [tables_table, tables_table, add_assoc, hsum, add_assoc]

/-- The entry at `i` apart from the rest of the table. -/
theorem tables_split (f : Nat) (sub : Nat → Radix L) (hi : i < fan) (x : Radix L) :
    tables fan (.table f (update sub i x)) =
      tables fan (.table f (update sub i .empty)) + tables fan x := by
  have hx := tables_update f (update sub i .empty) hi x
  rwa [update_idem, update_self, tables_empty, add_zero] at hx

theorem tables_split_self (f : Nat) (sub : Nat → Radix L) (hi : i < fan) :
    tables fan (.table f sub) =
      tables fan (.table f (update sub i .empty)) + tables fan (sub i) := by
  rw [← tables_split f sub hi, update_eq_self]

theorem tables_remove {j : Nat} {e' : Radix L} (hfan : 0 < fan)
    (h : remove fan k lvl e = some (j, e')) : tables fan e' = tables fan e := by
  refine remove_induct (P := fun _ e _ e' => tables fan e' = tables fan e) ?_ ?_ h
  · intros
    rfl
  intro n f sub j e' _ ih
  have hup := tables_update f sub (digit_lt k n hfan) e'
  rw [ih] at hup
  exact add_right_cancel hup

/-- What the allocator keeps true of the frames in use when it gives one away, `place` keeps true
of the frames in use with those of the entry's tables. -/
theorem place_tables {I : σ → (Nat → Nat) → Prop} (hfan : 0 < fan)
    (hsome : ∀ s f s' h, alloc s = (some f, s') → I s h → I s' (h + Pi.single f 1))
    (hnone : ∀ s s' h, alloc s = (none, s') → I s h → I s' h) {h : Nat → Nat}
    (hI : I s (h + tables fan e)) :
    I (place fan alloc t k l lvl e s).2.2 (h + tables fan (place fan alloc t k l lvl e s).2.1) := by
  revert h hI
  refine place_induct (P := fun _ e s r => ∀ {h : Nat → Nat}, I s (h + tables fan e) →
    I r.2.2 (h + tables fan r.2.1)) ?_ ?_ ?_ ?_
  · intro lvl s _ h hI
    exact hI
  · intro lvl e s _ h hI
    exact hI
  · intro n s s1 _ ha h hI
    exact hnone s _ _ ha hI
  intro n e s f sub s1 r _ hopen _ ih h hI
  -- the frames of the opened table, its chosen entry counted apart
  have hopened : I s1 (h + tables fan (.table f sub)) := by
    rcases hopen with ⟨rfl, rfl⟩ | ⟨rfl, rfl, ha⟩
    · exact hI
    · rw [tables_table_empty]
      exact hsome s f s1 h ha (by simpa using hI)
  have hd := digit_lt k n hfan
  rw [tables_split_self f sub hd, ← add_assoc] at hopened
  rw [tables_split f sub hd, ← add_assoc]
  exact ih hopened

end Tables

end Radix

end BrkKernel.Lib
