import Mathlib.Data.List.Basic

namespace VirtRtLab

/-- A bounded first-in first-out queue. A queue without storage has size 0. -/
structure Fifo (α : Type) where
  size : ℕ
  data : List α
  fits : data.length ≤ size
  deriving DecidableEq, Repr

namespace Fifo

variable {α : Type}

def alloc (size : ℕ) : Fifo α := ⟨size, [], Nat.zero_le _⟩

/-- A queue whose storage is gone, assumed to take nothing; a Linux `kfifo` keeps room for one element. -/
def free : Fifo α := alloc 0

def reset (q : Fifo α) : Fifo α := alloc q.size

def len (q : Fifo α) : ℕ := q.data.length

def avail (q : Fifo α) : ℕ := q.size - q.len

def isEmpty (q : Fifo α) : Bool := q.data.isEmpty

def room (q : Fifo α) (xs : List α) : ℕ := min xs.length q.avail

def put (q : Fifo α) (xs : List α) : Fifo α where
  size := q.size
  data := q.data ++ xs.take (q.room xs)
  fits := by
    have := q.fits
    simp only [List.length_append, List.length_take, room, avail, len]
    omega

def front (q : Fifo α) (n : ℕ) : List α := q.data.take n

def get (q : Fifo α) (n : ℕ) : Fifo α where
  size := q.size
  data := q.data.drop n
  fits := by
    have := q.fits
    simp only [List.length_drop]
    omega

@[simp] theorem data_alloc (n : ℕ) : (alloc n : Fifo α).data = [] := rfl

@[simp] theorem data_free : (free : Fifo α).data = [] := rfl

@[simp] theorem data_reset (q : Fifo α) : q.reset.data = [] := rfl

@[simp] theorem data_put (q : Fifo α) (xs : List α) : (q.put xs).data = q.data ++ xs.take (q.room xs) := rfl

@[simp] theorem data_get (q : Fifo α) (n : ℕ) : (q.get n).data = q.data.drop n := rfl

@[simp] theorem len_alloc (n : ℕ) : (alloc n : Fifo α).len = 0 := rfl

@[simp] theorem len_free : (free : Fifo α).len = 0 := rfl

theorem reset_of_empty {q : Fifo α} (h : q.data = []) : q.reset = q := by
  obtain ⟨size, data, fits⟩ := q
  cases h
  rfl

theorem room_le (q : Fifo α) (xs : List α) : q.room xs ≤ xs.length := Nat.min_le_left _ _

@[simp] theorem isEmpty_iff (q : Fifo α) : q.isEmpty = true ↔ q.data = [] := List.isEmpty_iff

end Fifo

end VirtRtLab
