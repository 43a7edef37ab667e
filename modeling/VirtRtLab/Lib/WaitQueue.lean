import Mathlib.Data.List.Basic

/-!
A wait queue without lost wake-ups. A waiter puts itself on the queue, then tests its conditions one at a time, each
by a read without a lock, and sleeps when it found all of them false; whoever makes a condition true owes a wake-up
of the whole queue.
-/

namespace VirtRtLab.WaitQueue

variable {Cond : Type}

/-- `queued` holds from the moment the waiter is on the queue until it is woken, and `seen` lists what it has found
false since. -/
structure Waiter (Cond : Type) where
  queued : Bool
  seen : List Cond
  deriving DecidableEq

namespace Waiter

def fresh : Waiter Cond := ⟨false, []⟩

def prepare : Waiter Cond := ⟨true, []⟩

def test (w : Waiter Cond) (c : Cond) : Waiter Cond := { w with seen := w.seen ++ [c] }

def wake (w : Waiter Cond) : Waiter Cond := { w with queued := false }

def Asleep (conds : List Cond) (w : Waiter Cond) : Prop := w.queued = true ∧ w.seen = conds

instance [DecidableEq Cond] (conds : List Cond) (w : Waiter Cond) : Decidable (w.Asleep conds) :=
  inferInstanceAs (Decidable (_ ∧ _))

theorem not_asleep_wake (conds : List Cond) (w : Waiter Cond) : ¬ w.wake.Asleep conds := by
  rintro ⟨hq, -⟩
  cases hq

end Waiter

def Covered (holds : Cond → Prop) (owed : Prop) (w : Waiter Cond) : Prop :=
  w.queued = true → ∀ c ∈ w.seen, holds c → owed

variable {holds holds' : Cond → Prop} {owed owed' : Prop} {w : Waiter Cond}

theorem covered_of_not_queued (h : w.queued = false) : Covered holds owed w := by
  intro hq
  rw [h] at hq
  cases hq

theorem covered_fresh : Covered holds owed (Waiter.fresh : Waiter Cond) := covered_of_not_queued rfl

theorem covered_prepare : Covered holds owed (Waiter.prepare : Waiter Cond) := by
  rintro - c ⟨⟩

theorem covered_wake (w : Waiter Cond) : Covered holds owed w.wake := covered_of_not_queued rfl

theorem Covered.test (h : Covered holds owed w) {c : Cond} (hc : ¬ holds c) : Covered holds owed (w.test c) := by
  intro hq c' hc' hh
  rcases List.mem_append.mp hc' with hc' | hc'
  · exact h hq c' hc' hh
  · rw [List.mem_singleton.mp hc'] at hh
    exact absurd hh hc

/-- The rule for everybody else: who makes a condition true owes a wake-up from then on. -/
theorem Covered.step (h : Covered holds owed w) (hr : ∀ c, holds' c → holds c ∨ owed') (ho : owed → owed') :
    Covered holds' owed' w := by
  intro hq c hc hh
  rcases hr c hh with hh | hh
  · exact ho (h hq c hc hh)
  · exact hh

/-- A waiter never sleeps on a condition that holds, unless its wake-up is on the way. -/
theorem Covered.of_asleep {conds : List Cond} (h : Covered holds owed w) (ha : w.Asleep conds)
    (hc : ∃ c ∈ conds, holds c) : owed := by
  obtain ⟨c, hc, hh⟩ := hc
  obtain ⟨hq, hs⟩ := ha
  rw [← hs] at hc
  exact h hq c hc hh

end VirtRtLab.WaitQueue
