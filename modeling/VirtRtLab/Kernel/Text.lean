import Mathlib.Algebra.Order.Ring.Nat
import Mathlib.Data.List.Basic

namespace VirtRtLab.Kernel

abbrev Bytes := List UInt8

inductive Errno where
  | eio | ebadf | eagain | enomem | efault | ebusy | einval | epipe | erange | erestartsys
  deriving DecidableEq, Repr

/-- A sysfs buffer is terminated by a NUL; string functions stop at the first one. -/
def cstr (buf : Bytes) : Bytes := buf.takeWhile (· ≠ 0)

def digit (c : UInt8) : ℕ :=
  if 48 ≤ c ∧ c ≤ 57 then c.toNat - 48
  else if 97 ≤ c ||| 0x20 ∧ c ||| 0x20 ≤ 102 then (c ||| 0x20).toNat - 87
  else 16

def value (base : ℕ) (ds : Bytes) : ℕ := ds.foldl (fun v c => v * base + digit c) 0

/-- `_parse_integer_fixup_radix`: base 0 means 16 after `0x`, 8 after `0`, else 10. -/
def fixupRadix (s : Bytes) (base : ℕ) : ℕ × Bytes :=
  let hex : Bool := match s with
    | 48 :: x :: d :: _ => decide (x ||| 0x20 = 120 ∧ digit d < 16)
    | _ => false
  if base = 0 then
    if hex then (16, s.drop 2) else if s.head? = some 48 then (8, s) else (10, s)
  else if base = 16 ∧ s.head? = some 48 ∧ (s[1]?.map (· ||| 0x20)) = some 120 then (16, s.drop 2)
  else (base, s)

def kstrtoull (buf : Bytes) (base : ℕ) : Except Errno ℕ :=
  let s := cstr buf
  let s := if s.head? = some 43 then s.tail else s
  let (base, s) := fixupRadix s base
  let ds := s.takeWhile (fun c => digit c < base)
  let rest := s.dropWhile (fun c => digit c < base)
  if 2 ^ 64 ≤ value base ds then .error .erange
  else if ds = [] then .error .einval
  else if rest = [] ∨ rest = [10] then .ok (value base ds)
  else .error .einval

def kstrtou64 (buf : Bytes) (base : ℕ) : Except Errno UInt64 :=
  (kstrtoull buf base).map UInt64.ofNat

def kstrtou32 (buf : Bytes) (base : ℕ) : Except Errno UInt32 :=
  match kstrtoull buf base with
  | .error e => .error e
  | .ok v => if v < 2 ^ 32 then .ok (UInt32.ofNat v) else .error .erange

def kstrtobool (buf : Bytes) : Except Errno Bool :=
  let s := cstr buf
  match s.head?, s[1]? with
  | some c, d =>
    if c ∈ [121, 89, 116, 84, 49] then .ok true
    else if c ∈ [110, 78, 102, 70, 48] then .ok false
    else if c = 111 ∨ c = 79 then
      if d = some 110 ∨ d = some 78 then .ok true
      else if d = some 102 ∨ d = some 70 then .ok false
      else .error .einval
    else .error .einval
  | none, _ => .error .einval

def sysfsStreq (buf str : Bytes) : Bool :=
  let s := cstr buf
  s = str || s = str ++ [10] || s ++ [10] = str

example : kstrtou64 [48, 120, 49, 48, 10] 0 = .ok 16 := by decide

end VirtRtLab.Kernel
