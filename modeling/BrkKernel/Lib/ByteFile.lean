import BrkKernel.Lib.ByteMem

/-!
# Files as byte arrays

The abstract behaviour of a file: an array of bytes that writes overwrite and extend, that a resize
cuts or extends with zero bytes, and that reads copy out. A file is determined by its length and the
memory that holds its bytes followed by zeros (`ByteFile.ext`), and every operation is described by
its effect on the two.
-/

set_option autoImplicit false

namespace BrkKernel.Lib

/-- The contents of a file. -/
abbrev ByteFile := List UInt8

namespace ByteFile

open ByteMem List

/-- The file after `bs` was written at position `p`. A gap before `p` is filled with zero bytes;
writing nothing has no effect. -/
def write (f : ByteFile) (p : Nat) (bs : List UInt8) : ByteFile :=
  if bs = [] then f
  else (f ++ List.replicate (p - f.length) 0).take p ++ bs ++ f.drop (p + bs.length)

/-- The file cut to `n` bytes or extended to `n` bytes with zero bytes. -/
def resize (f : ByteFile) (n : Nat) : ByteFile := f.take n ++ List.replicate (n - f.length) 0

/-- The bytes a read of `n` bytes at position `p` returns. -/
def read (f : ByteFile) (p n : Nat) : List UInt8 := (f.drop p).take n

section Lemmas

variable {f f' : ByteFile} {p n a : Nat} {bs bs' : List UInt8}

theorem ofList_of_le (h : f.length ≤ a) : ofList f a = 0 := getD_eq_default _ _ h

/-- A file is its length and its bytes. -/
theorem ext (hlen : f.length = f'.length) (h : ofList f = ofList f') : f = f' := by
  rw [← slice_ofList f, ← slice_ofList f', hlen, h]

theorem length_resize (f : ByteFile) (n : Nat) : (f.resize n).length = n := by
  rw [resize, length_append, length_take, length_replicate]
  omega

theorem ofList_append (bs bs' : List UInt8) : ofList (bs ++ bs') =
      fun a => if a < bs.length then ofList bs a else ofList bs' (a - bs.length) := by
  funext a
  split
  · next h => exact getD_append _ _ _ _ h
  · exact getD_append_right _ _ _ _ (by omega)

theorem ofList_replicate_zero (n a : Nat) : ofList (replicate n 0) a = 0 := by
  rw [ofList, getD_eq_getElem?_getD, getElem?_replicate]
  split <;> rfl

theorem ofList_take (f : ByteFile) (n a : Nat) :
    ofList (f.take n) a = if a < n then ofList f a else 0 := by
  rw [ofList, getD_eq_getElem?_getD, getElem?_take]
  split
  · rw [ofList, getD_eq_getElem?_getD]
  · rfl

theorem ofList_drop (f : ByteFile) (n a : Nat) : ofList (f.drop n) a = ofList f (n + a) := by
  rw [ofList, getD_eq_getElem?_getD, getElem?_drop, ofList, getD_eq_getElem?_getD]

theorem ofList_resize (f : ByteFile) (n : Nat) :
    ofList (f.resize n) = fun a => if a < n then ofList f a else 0 := by
  funext a
  rw [resize, ofList_append]
  simp only [ofList_take, ofList_replicate_zero, length_take]
  by_cases hn : a < n
  · rw [if_pos hn]
    by_cases hf : a < f.length
    · rw [if_pos (by omega)]
    · rw [if_neg (by omega), ofList_of_le (by omega)]
  · rw [if_neg hn, if_neg (by omega)]

/-- Extending a file does not change its bytes. -/
theorem ofList_resize_of_le (h : f.length ≤ n) : ofList (f.resize n) = ofList f := by
  rw [ofList_resize]
  funext a
  split
  · rfl
  · rw [ofList_of_le (by omega)]

@[simp] theorem write_nil (f : ByteFile) (p : Nat) : f.write p [] = f := if_pos rfl

/-- A write extends the file to its part before the gap, the written bytes and the rest. -/
theorem write_eq (h : bs ≠ []) : f.write p bs = (f.resize p ++ bs) ++ f.drop (p + bs.length) := by
  rw [write, if_neg h, resize, take_append]
  congr 3
  rw [take_of_length_le (by rw [length_replicate])]

theorem length_write (h : bs ≠ []) : (f.write p bs).length = max f.length (p + bs.length) := by
  rw [write_eq h, length_append, length_append, length_resize, length_drop]
  omega

theorem ofList_write (f : ByteFile) (p : Nat) (bs : List UInt8) :
    ofList (f.write p bs) = blit (ofList f) p bs.length (ofList bs) := by
  funext a
  by_cases hbs : bs = []
  · subst hbs
    rw [write_nil, blit_of_disjoint (by rw [length_nil]; omega)]
  rw [write_eq hbs, ofList_append]
  simp only [ofList_append, length_append, length_resize, ofList_resize, ofList_drop]
  by_cases h1 : a < p
  · rw [if_pos (by omega), if_pos h1, if_pos h1, blit_of_lt h1]
  by_cases h2 : a < p + bs.length
  · rw [if_pos h2, if_neg h1, blit_of_mem (by omega) h2]
  · rw [if_neg h2, blit_of_ge (by omega)]
    congr 1
    omega

/-- Two adjacent writes are one write. -/
theorem write_append (f : ByteFile) (p : Nat) (bs bs' : List UInt8) :
    (f.write p bs).write (p + bs.length) bs' = f.write p (bs ++ bs') := by
  by_cases h1 : bs = []
  · subst h1
    simp
  by_cases h2 : bs' = []
  · subst h2
    simp
  refine ext ?_ ?_
  · rw [length_write h2, length_write h1, length_write (by simp [h1]), length_append]
    omega
  simp only [ofList_write, length_append, ofList_append]
  funext a
  simp only [blit]
  split_ifs <;> first | rfl | omega | (congr 1; omega)

/-- A read copies bytes up to the end of the file. -/
theorem read_eq (f : ByteFile) (p n : Nat) :
    f.read p n = slice (ofList f) p (min n (f.length - p)) := by
  refine ext_getElem? fun i => ?_
  rw [read, getElem?_take, getElem?_drop]
  by_cases hi : i < min n (f.length - p)
  · rw [if_pos (by omega), getElem?_slice _ _ _ _ hi, ofList, getD_eq_getElem?_getD,
      getElem?_eq_getElem (by omega), Option.getD_some]
  have hs : (slice (ofList f) p (min n (f.length - p)))[i]? = none :=
    getElem?_eq_none (by rw [slice_length]; omega)
  rw [hs]
  split
  · exact getElem?_eq_none (by omega)
  · rfl

end Lemmas

end ByteFile

end BrkKernel.Lib
