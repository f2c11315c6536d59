import Mathlib.Data.List.Basic

/-!
# Ring buffers

An array of `cap` cells holds a queue of `count` elements that starts at `head` and wraps around at
the end of the array. `contents` is the queue. Programs copy to and from such an array in at most
two parts, one up to the end of the array and one from its start: reading the first `n` elements in
this way gives a prefix of the queue (`takeOut_eq`), moving the head drops it (`contents_advance`),
and writing behind the last element appends to the queue (`contents_putIn`).
-/

set_option autoImplicit false

namespace BrkKernel.Lib.Ring

open List

variable {α : Type} (buf : Nat → α) (xs : List α)

variable {a cap count head i n : Nat}

/-- The `n` cells from index `a` on. -/
def cells (buf : Nat → α) (a n : Nat) : List α := (List.range n).map fun i => buf (a + i)

/-- The array with the list `xs` copied to index `a`. -/
def paste (buf : Nat → α) (a : Nat) (xs : List α) : Nat → α :=
  fun i => if a ≤ i then xs[i - a]?.getD (buf i) else buf i

/-- The queue of `count` elements that starts at `head`. -/
def contents (cap : Nat) (buf : Nat → α) (head count : Nat) : List α :=
  (List.range count).map fun i => buf ((head + i) % cap)

/-- The first `n` elements of the queue, copied out in at most two parts. -/
def takeOut (cap : Nat) (buf : Nat → α) (head n : Nat) : List α :=
  if cap - head < n then cells buf head (cap - head) ++ cells buf 0 (n - (cap - head))
  else cells buf head n

/-- The array after the list `xs` was copied in from index `pos` on, in at most two parts. -/
def putIn (cap : Nat) (buf : Nat → α) (pos : Nat) (xs : List α) : Nat → α :=
  if cap - pos < xs.length then
    paste (paste buf pos (xs.take (cap - pos))) 0 (xs.drop (cap - pos))
  else paste buf pos xs

@[simp]
theorem length_cells (a n : Nat) : (cells buf a n).length = n := by simp [cells]

@[simp]
theorem length_contents (cap : Nat) (buf : Nat → α) (head count : Nat) :
    (contents cap buf head count).length = count := by simp [contents]

theorem getElem?_cells (h : i < n) : (cells buf a n)[i]? = some (buf (a + i)) := by simp [cells, h]

theorem getElem?_contents (cap : Nat) (buf : Nat → α) (h : i < count) :
    (contents cap buf head count)[i]? = some (buf ((head + i) % cap)) := by simp [contents, h]

theorem paste_of_lt (h : i < a) : paste buf a xs i = buf i := by
  have hn : ¬a ≤ i := by omega
  simp [paste, hn]

theorem paste_of_ge (h : a + xs.length ≤ i) : paste buf a xs i = buf i := by
  have hle : a ≤ i := by omega
  have hnone : xs[i - a]? = none := getElem?_eq_none (by omega)
  simp [paste, hle, hnone]

/-- Index arithmetic of a ring: a position wraps at most once. -/
theorem mod_wrap (hh : head < cap) (hi : i ≤ cap) :
    (head + i) % cap = if head + i < cap then head + i else head + i - cap := by
  split
  · next h => exact Nat.mod_eq_of_lt h
  · rw [Nat.mod_eq_sub_mod (by omega), Nat.mod_eq_of_lt (by omega)]

/-- What is copied out is the front of the queue. -/
theorem takeOut_eq (hh : head < cap) (hc : count ≤ cap) (hn : n ≤ count) :
    takeOut cap buf head n = (contents cap buf head count).take n := by
  apply ext_getElem?
  intro i
  by_cases hi : i < n
  · have hmod := mod_wrap hh (show i ≤ cap by omega)
    rw [getElem?_take_of_lt hi, getElem?_contents cap buf (by omega), hmod]
    unfold takeOut
    split
    · by_cases hfst : i < cap - head
      · rw [getElem?_append_left (by simpa using hfst), getElem?_cells buf hfst, if_pos (by omega)]
      rw [getElem?_append_right (by simp; omega), length_cells,
        getElem?_cells buf (by omega), if_neg (by omega)]
      congr 2
      omega
    · rw [getElem?_cells buf hi, if_pos (by omega)]
  · have hlen : (takeOut cap buf head n).length = n := by
      unfold takeOut
      split
      · simp
        omega
      · simp
    rw [getElem?_eq_none (by omega), getElem?_eq_none (by simp; omega)]

/-- Moving the head past the first `n` elements drops them. -/
theorem contents_advance (cap : Nat) (buf : Nat → α) (head count n : Nat) :
    contents cap buf ((head + n) % cap) (count - n) = (contents cap buf head count).drop n := by
  apply ext_getElem?
  intro i
  rw [getElem?_drop]
  by_cases hi : i < count - n
  · rw [getElem?_contents cap buf hi, getElem?_contents cap buf (by omega), Nat.mod_add_mod,
      Nat.add_assoc]
  · rw [getElem?_eq_none (by simp; omega), getElem?_eq_none (by simp; omega)]

/-- A cell of the array after a list was copied in: the distance to it from the start of the copy,
around the end of the array, says which element it holds. -/
theorem putIn_cell {pos k : Nat} (hlen : xs.length ≤ cap) (hk : k < cap) :
    putIn cap buf pos xs k = xs[if pos ≤ k then k - pos else cap - pos + k]?.getD (buf k) := by
  unfold putIn
  by_cases hle : pos ≤ k
  · -- the first part reaches the cell, and the second one ends before it
    split
    · rw [paste_of_ge _ _ (by rw [length_drop]; omega), paste, if_pos hle,
        getElem?_take_of_lt (by omega)]
    · rw [paste, if_pos hle]
  · rw [if_neg hle]
    split
    · rw [paste, if_pos k.zero_le, getElem?_drop, paste_of_lt buf _ (by omega), Nat.sub_zero]
    · rw [paste, if_neg hle, getElem?_eq_none (by omega), Option.getD_none]

/-- A cell of the ring after a list was copied in behind the queue: old cells are unchanged, and
the new ones hold the list. -/
theorem putIn_apply (hh : head < cap) (hc : count + xs.length ≤ cap) (hi : i < count + xs.length) :
    some (putIn cap buf ((head + count) % cap) xs ((head + i) % cap)) =
      if i < count then some (buf ((head + i) % cap)) else xs[i - count]? := by
  have hwi := mod_wrap hh (show i ≤ cap by omega)
  have hwc := mod_wrap hh (show count ≤ cap by omega)
  rw [putIn_cell buf xs (by omega) (Nat.mod_lt _ (by omega))]
  generalize (head + count) % cap = pos at hwc ⊢
  generalize (head + i) % cap = k at hwi ⊢
  have hdist : (if pos ≤ k then k - pos else cap - pos + k) =
      if i < count then cap + i - count else i - count := by
    split_ifs at hwi hwc ⊢ <;> omega
  rw [hdist]
  split
  · rw [getElem?_eq_none (by omega), Option.getD_none]
  · rw [getElem?_eq_getElem (by omega), Option.getD_some]

/-- Copying a list in behind the last element appends it to the queue. -/
theorem contents_putIn (hh : head < cap) (hc : count + xs.length ≤ cap) :
    contents cap (putIn cap buf ((head + count) % cap) xs) head (count + xs.length) =
      contents cap buf head count ++ xs := by
  apply ext_getElem?
  intro i
  by_cases hi : i < count + xs.length
  · rw [getElem?_contents cap _ hi, putIn_apply buf xs hh hc hi]
    split
    · next hold =>
      rw [getElem?_append_left (by simpa using hold), getElem?_contents cap buf hold]
    · rw [getElem?_append_right (by simp; omega), length_contents]
  · rw [getElem?_eq_none (by simp; omega), getElem?_eq_none (by simp; omega)]

end BrkKernel.Lib.Ring
