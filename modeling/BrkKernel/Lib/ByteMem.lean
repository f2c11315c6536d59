import Mathlib.Data.Nat.Bitwise
import Mathlib.Tactic.Ring

/-!
# Byte memories

A byte memory is a total function from addresses to bytes. Block copies, fills and little-endian
words of any width are all instances of `blit`, so the frame facts (`load_blit_of_disjoint`,
`slice_blit_of_disjoint`) are proved once. A word read back after it was stored is the stored value
modulo its width (`load_store`). `bitAt` numbers the bits of the whole memory; the bits of a loaded
word are the bits of the memory it covers (`testBit_load`).
-/

set_option autoImplicit false

namespace BrkKernel.Lib

open List

/-- A byte memory. -/
abbrev ByteMem := Nat → UInt8

namespace ByteMem

/-- The memory seen from address `a` on. -/
def window (m : ByteMem) (a : Nat) : ByteMem := fun i => m (a + i)

/-- `m` with the `n` bytes from address `a` on replaced by the first `n` bytes of `src`. -/
def blit (m : ByteMem) (a n : Nat) (src : ByteMem) : ByteMem :=
  fun i => if a ≤ i ∧ i < a + n then src (i - a) else m i

/-- `m` with the `n` bytes from address `a` on set to `b`. -/
def fill (m : ByteMem) (a n : Nat) (b : UInt8) : ByteMem := blit m a n fun _ => b

/-- The memory whose first bytes are those of the list; the rest is zero. -/
def ofList (bs : List UInt8) : ByteMem := fun i => bs.getD i 0

/-- The list of the `n` bytes from address `a` on. -/
def slice (m : ByteMem) : Nat → Nat → List UInt8
  | _, 0 => []
  | a, n + 1 => m a :: slice m (a + 1) n

/-- Byte `i` of the little-endian representation of `v`. -/
def leByte (v : Nat) : ByteMem := fun i => UInt8.ofNat (v / 256 ^ i)

/-- The little-endian word of `w` bytes at address `a`. -/
def load : Nat → ByteMem → Nat → Nat
  | 0, _, _ => 0
  | w + 1, m, a => (m a).toNat + 256 * load w m (a + 1)

/-- `m` with the little-endian word of `w` bytes at address `a` set to `v`. -/
def store (w : Nat) (m : ByteMem) (a v : Nat) : ByteMem := blit m a w (leByte v)

/-- `m` after a sequence of 32-bit stores, given as addresses and values. -/
def storeWords (m : ByteMem) (ws : List (Nat × Nat)) : ByteMem :=
  ws.foldl (fun m w => store 4 m w.1 w.2) m

/-- Bit `n` of the memory, counting from the least significant bit of byte `0`. -/
def bitAt (m : ByteMem) (n : Nat) : Bool := (m (n / 8)).toNat.testBit (n % 8)

section Blit

variable {m m' src : ByteMem} {a b n k w i : Nat} {v : UInt8}

theorem window_apply (m : ByteMem) (a i : Nat) : window m a i = m (a + i) := rfl

theorem window_window (m : ByteMem) (a b : Nat) : window (window m a) b = window m (a + b) := by
  funext i
  rw [window_apply, window_apply, window_apply, add_assoc]

theorem blit_of_mem (h1 : a ≤ i) (h2 : i < a + n) : blit m a n src i = src (i - a) :=
  if_pos ⟨h1, h2⟩

theorem blit_of_lt (h : i < a) : blit m a n src i = m i :=
  if_neg fun hc => absurd hc.1 (not_le.2 h)

theorem blit_of_ge (h : a + n ≤ i) : blit m a n src i = m i :=
  if_neg fun hc => absurd hc.2 (not_lt.2 h)

theorem blit_of_disjoint (h : i < a ∨ a + n ≤ i) : blit m a n src i = m i := by
  rcases h with h | h
  · exact blit_of_lt h
  · exact blit_of_ge h

theorem blit_zero (m : ByteMem) (a : Nat) (src : ByteMem) : blit m a 0 src = m := by
  funext i
  exact blit_of_disjoint (by omega)

theorem blit_apply_congr {src' : ByteMem} (h : ∀ k < n, src k = src' k)
    (hm : i < a ∨ a + n ≤ i → m i = m' i) : blit m a n src i = blit m' a n src' i := by
  by_cases hi : a ≤ i ∧ i < a + n
  · rw [blit_of_mem hi.1 hi.2, blit_of_mem hi.1 hi.2, h _ (by omega)]
  · rw [blit_of_disjoint (by omega), blit_of_disjoint (by omega), hm (by omega)]

theorem blit_congr {src' : ByteMem} (h : ∀ k < n, src k = src' k) :
    blit m a n src = blit m a n src' :=
  funext fun _ => blit_apply_congr h fun _ => rfl

/-- Two copies of adjacent parts are one copy. -/
theorem blit_adjacent (m : ByteMem) (a n k : Nat) (src : ByteMem) :
    blit (blit m a n src) (a + n) k (window src n) = blit m a (n + k) src := by
  funext i
  by_cases hsnd : a + n ≤ i ∧ i < a + n + k
  · rw [blit_of_mem hsnd.1 hsnd.2, blit_of_mem (by omega) (by omega), window_apply]
    congr 1
    omega
  rw [blit_of_disjoint (by omega)]
  by_cases hfst : a ≤ i ∧ i < a + n
  · rw [blit_of_mem hfst.1 hfst.2, blit_of_mem hfst.1 (by omega)]
  · rw [blit_of_disjoint (by omega), blit_of_disjoint (by omega)]

theorem fill_of_mem (h1 : a ≤ i) (h2 : i < a + n) : fill m a n v i = v :=
  blit_of_mem h1 h2

theorem fill_of_disjoint (h : i < a ∨ a + n ≤ i) : fill m a n v i = m i :=
  blit_of_disjoint h

@[simp] theorem slice_length (m : ByteMem) : ∀ a n : Nat, (slice m a n).length = n
  | _, 0 => rfl
  | a, n + 1 => by rw [slice, length_cons, slice_length m (a + 1) n]

theorem slice_congr : ∀ {n a b : Nat}, (∀ i < n, m (a + i) = m' (b + i)) →
    slice m a n = slice m' b n
  | 0, _, _, _ => rfl
  | n + 1, a, b, h => by
    have h0 : m a = m' b := h 0 (Nat.succ_pos n)
    have hrest : slice m (a + 1) n = slice m' (b + 1) n := by
      refine slice_congr fun i hi => ?_
      have hi' := h (i + 1) (Nat.succ_lt_succ hi)
      rwa [add_comm i 1, ← add_assoc, ← add_assoc] at hi'
    simp only [slice, h0, hrest]

theorem slice_blit_of_disjoint (h : b + k ≤ a ∨ a + n ≤ b) :
    slice (blit m a n src) b k = slice m b k := by
  refine slice_congr fun i hi => blit_of_disjoint ?_
  rcases h with h | h
  · exact .inl (by omega)
  · exact .inr (by omega)

theorem getElem?_slice (m : ByteMem) : ∀ (n a i : Nat), i < n → (slice m a n)[i]? = some (m (a + i))
  | 0, _, _, h => absurd h (Nat.not_lt_zero _)
  | n + 1, a, 0, _ => rfl
  | n + 1, a, i + 1, h => by
    rw [slice, getElem?_cons_succ, getElem?_slice m n (a + 1) i (Nat.lt_of_succ_lt_succ h)]
    congr 2
    omega

/-- The bytes of a list, read back from the memory that holds them. -/
theorem slice_ofList (bs : List UInt8) : slice (ofList bs) 0 bs.length = bs := by
  refine ext_getElem? fun i => ?_
  by_cases hi : i < bs.length
  · rw [getElem?_slice _ _ _ _ hi, zero_add, ofList, getD_eq_getElem?_getD,
      getElem?_eq_getElem hi, Option.getD_some]
  · rw [getElem?_eq_none (by rw [slice_length]; omega), getElem?_eq_none (by omega)]

theorem slice_blit_of_inside (h1 : a ≤ b) (h2 : b + k ≤ a + n) :
    slice (blit m a n src) b k = slice src (b - a) k := by
  refine slice_congr fun i hi => ?_
  rw [blit_of_mem (by omega) (by omega)]
  congr 1
  omega

theorem slice_append (m : ByteMem) : ∀ a n k : Nat,
    slice m a n ++ slice m (a + n) k = slice m a (n + k)
  | _, 0, k => by rw [zero_add]; rfl
  | a, n + 1, k => by
    have hstep := slice_append m (a + 1) n k
    rw [add_right_comm n 1 k, slice, slice, cons_append, ← hstep,
      add_right_comm a 1 n]
    rfl

theorem slice_window (m : ByteMem) (a b n : Nat) : slice (window m a) b n = slice m (a + b) n :=
  slice_congr fun i _ => by rw [window_apply, add_assoc]

/-- A word depends only on the bytes it covers. -/
theorem load_of_slice : ∀ {w a b : Nat}, slice m a w = slice m' b w → load w m a = load w m' b
  | 0, _, _, _ => rfl
  | w + 1, a, b, h => by
    obtain ⟨h0, hrest⟩ := cons.inj h
    rw [load, load, h0, load_of_slice hrest]

theorem load_congr (h : ∀ i < w, m (a + i) = m' (b + i)) : load w m a = load w m' b :=
  load_of_slice (slice_congr h)

theorem load_blit_of_disjoint (h : b + w ≤ a ∨ a + n ≤ b) :
    load w (blit m a n src) b = load w m b :=
  load_of_slice (slice_blit_of_disjoint h)

theorem load_blit_of_inside (h1 : a ≤ b) (h2 : b + w ≤ a + n) :
    load w (blit m a n src) b = load w src (b - a) :=
  load_of_slice (slice_blit_of_inside h1 h2)

theorem load_window (w : Nat) (m : ByteMem) (a b : Nat) :
    load w (window m a) b = load w m (a + b) :=
  load_of_slice (slice_window m a b w)

theorem load_lt (m : ByteMem) : ∀ (w a : Nat), load w m a < 256 ^ w
  | 0, _ => Nat.one_pos
  | w + 1, a => by
    have hb := (m a).toNat_lt
    have ih := load_lt m w (a + 1)
    rw [load, pow_succ]
    omega

private theorem load_leByte_shift (v : Nat) : ∀ w k : Nat,
    load w (leByte v) k = v / 256 ^ k % 256 ^ w
  | 0, k => by simp [load, Nat.mod_one]
  | w + 1, k => by
    have ih := load_leByte_shift v w (k + 1)
    have hbyte : (leByte v k).toNat = v / 256 ^ k % 256 := by
      simp [leByte]
    rw [load, ih, hbyte, pow_succ, ← Nat.div_div_eq_div_mul, pow_succ, mul_comm _ 256,
      Nat.mod_mul]

theorem load_leByte (w v : Nat) : load w (leByte v) 0 = v % 256 ^ w := by
  simpa using load_leByte_shift v w 0

/-- A stored word reads back modulo its width. -/
theorem load_store (w : Nat) (m : ByteMem) (a v : Nat) :
    load w (store w m a v) a = v % 256 ^ w := by
  rw [store, load_blit_of_inside (Nat.le_refl a) (Nat.le_refl _), Nat.sub_self, load_leByte]

theorem load_store_of_lt {v : Nat} (h : v < 256 ^ w) : load w (store w m a v) a = v := by
  rw [load_store, Nat.mod_eq_of_lt h]

theorem load_store_of_disjoint {w' v : Nat} (h : b + w ≤ a ∨ a + w' ≤ b) :
    load w (store w' m a v) b = load w m b :=
  load_blit_of_disjoint h

theorem load_fill_zero (h1 : a ≤ b) (h2 : b + w ≤ a + n) : load w (fill m a n 0) b = 0 := by
  rw [fill, load_blit_of_inside h1 h2]
  have hz : ∀ w k : Nat, load w (fun _ => (0 : UInt8)) k = 0 := by
    intro w
    induction w with
    | zero => intro k; rfl
    | succ w ih => intro k; simp [load, ih]
  exact hz w _

end Blit

section Words

variable {a v : Nat}

theorem load_storeWords_of_disjoint : ∀ {ws : List (Nat × Nat)} {m : ByteMem},
    (∀ w ∈ ws, w.1 + 4 ≤ a ∨ a + 4 ≤ w.1) → load 4 (storeWords m ws) a = load 4 m a
  | [], _, _ => rfl
  | w :: ws, m, h => by
    show load 4 (storeWords (store 4 m w.1 w.2) ws) a = load 4 m a
    rw [load_storeWords_of_disjoint fun w' hw' => h w' (mem_cons_of_mem w hw')]
    exact load_store_of_disjoint (h w mem_cons_self).symm

/-- A word of a sequence of stores to disjoint places. -/
theorem load_storeWords : ∀ {ws : List (Nat × Nat)} {m : ByteMem},
    (ws.map Prod.fst).Pairwise (fun x y => x + 4 ≤ y ∨ y + 4 ≤ x) → (a, v) ∈ ws →
      load 4 (storeWords m ws) a = v % 256 ^ 4
  | [], _, _, hmem => absurd hmem not_mem_nil
  | w :: ws, m, hdis, hmem => by
    rw [map_cons, pairwise_cons] at hdis
    show load 4 (storeWords (store 4 m w.1 w.2) ws) a = v % 256 ^ 4
    rcases mem_cons.1 hmem with rfl | hmem
    · rw [load_storeWords_of_disjoint fun w' hw' =>
        (hdis.1 w'.1 (mem_map_of_mem hw')).symm]
      exact load_store 4 m a v
    · exact load_storeWords hdis.2 hmem

end Words

section Bits

variable {m m' : ByteMem}

theorem testBit_leByte {v i t : Nat} (ht : t < 8) :
    (leByte v i).toNat.testBit t = v.testBit (8 * i + t) := by
  have hbyte : (leByte v i).toNat = v / 2 ^ (8 * i) % 2 ^ 8 := by
    simp [leByte, Nat.pow_mul]
  rw [hbyte, Nat.testBit_mod_two_pow, Nat.testBit_div_two_pow, decide_eq_true ht, Bool.true_and,
    add_comm]

/-- The bits of a word are the bits of the memory it covers. -/
theorem testBit_load (m : ByteMem) : ∀ (w a i : Nat), i < 8 * w →
    (load w m a).testBit i = bitAt m (8 * a + i)
  | 0, _, i, h => absurd h (by omega)
  | w + 1, a, i, h => by
    have hb : (m a).toNat < 2 ^ 8 := (m a).toNat_lt
    have hload : load (w + 1) m a = 2 ^ 8 * load w m (a + 1) + (m a).toNat := by
      rw [load]
      omega
    rw [hload, Nat.testBit_two_pow_mul_add _ hb]
    by_cases hi : i < 8
    · have e1 : (8 * a + i) / 8 = a := by omega
      have e2 : (8 * a + i) % 8 = i := by omega
      rw [if_pos hi, bitAt, e1, e2]
    · rw [if_neg hi, testBit_load m w (a + 1) (i - 8) (by omega)]
      congr 1
      omega

theorem bitAt_store (w : Nat) (m : ByteMem) (a v n : Nat) : bitAt (store w m a v) n =
      if 8 * a ≤ n ∧ n < 8 * (a + w) then v.testBit (n - 8 * a) else bitAt m n := by
  by_cases h : 8 * a ≤ n ∧ n < 8 * (a + w)
  · have hmem : store w m a v (n / 8) = leByte v (n / 8 - a) :=
      blit_of_mem (by omega) (by omega)
    have e : 8 * (n / 8 - a) + n % 8 = n - 8 * a := by omega
    rw [if_pos h, bitAt, hmem, testBit_leByte (Nat.mod_lt n (by decide)), e]
  · have hout : store w m a v (n / 8) = m (n / 8) := blit_of_disjoint (by omega)
    rw [if_neg h, bitAt, hout, bitAt]

/-- Two memories that agree on the bits of a byte agree on the byte. -/
theorem eq_of_bitAt_eq {a : Nat} (h : ∀ t < 8, bitAt m (8 * a + t) = bitAt m' (8 * a + t)) :
    m a = m' a := by
  refine UInt8.toNat_inj.1 (Nat.eq_of_testBit_eq fun t => ?_)
  by_cases ht : t < 8
  · have hb := h t ht
    have e1 : (8 * a + t) / 8 = a := by omega
    have e2 : (8 * a + t) % 8 = t := by omega
    rwa [bitAt, bitAt, e1, e2] at hb
  · have hpow : 2 ^ 8 ≤ 2 ^ t := Nat.pow_le_pow_right (by decide) (by omega)
    have h1 : (m a).toNat < 2 ^ t := lt_of_lt_of_le (m a).toNat_lt hpow
    have h2 : (m' a).toNat < 2 ^ t := lt_of_lt_of_le (m' a).toNat_lt hpow
    rw [Nat.testBit_lt_two_pow h1, Nat.testBit_lt_two_pow h2]

end Bits

end ByteMem

end BrkKernel.Lib
