import BrkKernel.Lib.ByteMem

/-!
# Error numbers, machine words and page arithmetic

The kernel's integer conventions. A C function that returns `0` or a negated error number and
writes its results through pointers is a Lean function that returns `Except Errno` of the results;
fixed-width arithmetic that can wrap is written with `u16`, `u32` or `u64`.
-/

set_option autoImplicit false

namespace BrkKernel

/-- The error numbers of `uapi/errno.h` that the modelled functions return. -/
inductive Errno where
  | enoent | eio | ebadf | enomem | eacces | efault | enodev | enotdir | eisdir | einval
  | efbig | enospc | eopnotsupp | eagain | eintr | epipe | echild | enotconn | econnreset
  | econnrefused | etimedout | eperm | eexist | ebusy | exdev | emfile | espipe | enosys
  | enotempty | eloop | enametoolong | enxio | esrch | erofs
deriving DecidableEq, Repr

/-- The value of `uapi/errno.h`. -/
def Errno.number : Errno → Nat
  | .eperm => 1 | .enoent => 2 | .eintr => 4 | .eio => 5 | .ebadf => 9 | .echild => 10
  | .eagain => 11 | .enomem => 12 | .eacces => 13 | .efault => 14 | .ebusy => 16 | .eexist => 17
  | .exdev => 18 | .enodev => 19 | .enotdir => 20 | .eisdir => 21 | .einval => 22 | .emfile => 24
  | .efbig => 27 | .enospc => 28 | .espipe => 29 | .epipe => 32 | .enosys => 38 | .enotempty => 39
  | .enametoolong => 36 | .eloop => 40 | .eopnotsupp => 95 | .econnreset => 104 | .enotconn => 107
  | .etimedout => 110 | .econnrefused => 111 | .enxio => 6 | .esrch => 3 | .erofs => 30

/-- Conversion to an unsigned 16-bit value. -/
def u16 (n : Nat) : Nat := n % 2 ^ 16

/-- Conversion to an unsigned 32-bit value. -/
def u32 (n : Nat) : Nat := n % 2 ^ 32

/-- Conversion to an unsigned 64-bit value. -/
def u64 (n : Nat) : Nat := n % 2 ^ 64

theorem u16_of_lt {n : Nat} (h : n < 65536) : u16 n = n := Nat.mod_eq_of_lt h

theorem u32_of_lt {n : Nat} (h : n < 4294967296) : u32 n = n := Nat.mod_eq_of_lt h

theorem u32_lt (n : Nat) : u32 n < 4294967296 := Nat.mod_lt n (by decide)

theorem u64_of_lt {n : Nat} (h : n < 18446744073709551616) : u64 n = n := Nat.mod_eq_of_lt h

/-- `PAGE_SIZE`. -/
def pageSize : Nat := 4096

theorem pageSize_pos : 0 < pageSize := by decide

/-- `PAGE_SHIFT`. -/
def pageShift : Nat := 12

/-- `round_up` to a power of two, below the wrap of its type. -/
def roundUp (x align : Nat) : Nat := (x + align - 1) / align * align

/-- `div_ceil`. -/
def divCeil (num div : Nat) : Nat := (num + div - 1) / div

/-- `div_ceil` of two values of the type `u32`. -/
def divCeil32 (num div : Nat) : Nat := u32 (num + div - 1) / div

theorem divCeil32_of_lt {num div : Nat} (h : num + div - 1 < 4294967296) :
    divCeil32 num div = divCeil num div := by
  rw [divCeil32, u32_of_lt h, divCeil]

theorem roundUp_bounds (x : Nat) {align : Nat} (h : 0 < align) :
    x ≤ roundUp x align ∧ roundUp x align < x + align := by
  have hd := Nat.div_add_mod (x + align - 1) align
  have hm := Nat.mod_lt (x + align - 1) h
  have hc : (x + align - 1) / align * align = align * ((x + align - 1) / align) := mul_comm _ _
  unfold roundUp
  omega

theorem dvd_roundUp (x align : Nat) : align ∣ roundUp x align := Nat.dvd_mul_left _ _

/-- A guard that returns an error on failure lets a successful result through only when it holds. -/
theorem ite_error_eq_ok {α : Type} {c : Prop} [Decidable c] {e : Errno} {x : Except Errno α}
    {a : α} : (if c then .error e else x) = .ok a ↔ ¬ c ∧ x = .ok a := by
  by_cases hc : c
  · simp [hc]
  · simp [hc]

end BrkKernel
