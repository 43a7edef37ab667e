import Mathlib.Data.Finset.Max
import Mathlib.Data.List.Basic
import Mathlib.Algebra.Ring.Nat
import VirtRtLab.Lib.Transition

/-!
Threads that take locks and wait for each other. Where every thread takes its locks in the order of their ranks and
gives them back, none of them waits for ever.
-/

namespace VirtRtLab.LockOrder

open Transition

inductive Mode where
  | shared | exclusive
  deriving DecidableEq

/-- What a thread does to the locks: `await` waits until nobody holds a lock, without taking it, and `sleep` may put the
thread to sleep for another reason. -/
inductive Op (R : Type) where
  | acquire (r : R) (m : Mode)
  | release (r : R)
  | await (r : R)
  | sleep
  deriving DecidableEq

structure Thread (R : Type) where
  held : List (R × Mode)
  todo : List (Op R)
  deriving DecidableEq

inductive Act (R : Type) where
  | start (ops : List (Op R))
  | step (k : ℕ)
  deriving DecidableEq

variable {R : Type} [DecidableEq R]

def Thread.holds (t : Thread R) (r : R) : Bool := t.held.any (fun h => h.1 = r)

/-- A reader waits for a writer that holds the lock, and lets one that waits for it go first. -/
def ready (ts : List (Thread R)) : Op R → Bool
  | .acquire r .exclusive | .await r => ts.all (fun t => !t.holds r)
  | .acquire r .shared =>
    ts.all (fun t => (r, .exclusive) ∉ t.held && t.todo.head? ≠ some (.acquire r .exclusive))
  | .release _ | .sleep => true

def perform (held : List (R × Mode)) : Op R → List (R × Mode)
  | .acquire r m => (r, m) :: held
  | .release r => held.eraseP (fun h => h.1 = r)
  | .await _ | .sleep => held

def machine : Machine (List (Thread R)) (Act R) Unit := fun ts a =>
  match a with
  | .start ops => some (ts ++ [⟨[], ops⟩], [])
  | .step k =>
    match ts[k]? with
    | some ⟨held, op :: rest⟩ => if ready ts op then some (ts.set k ⟨perform held op, rest⟩, []) else none
    | _ => none

/-- The order of the locks, and which of them are held with interrupts or preemption off. -/
structure Order (R : Type) where
  rank : R → ℕ
  spins : R → Bool

namespace Order

variable (ord : Order R)

def follows (held : List (R × Mode)) : Op R → Bool
  | .acquire r _ | .await r => held.all (fun h => ord.rank h.1 < ord.rank r && (ord.spins r || !ord.spins h.1))
  | .release r => held.any (fun h => h.1 = r)
  | .sleep => held.all (fun h => !ord.spins h.1)

def left (held : List (R × Mode)) : List (Op R) → Option (List (R × Mode))
  | [] => some held
  | op :: ops => if ord.follows held op then left (perform held op) ops else none

def Keeps (held : List (R × Mode)) (ops : List (Op R)) : Prop := ord.left held ops = some held

theorem left_append (held : List (R × Mode)) (xs ys : List (Op R)) :
    ord.left held (xs ++ ys) = (ord.left held xs).bind (fun h => ord.left h ys) := by
  induction xs generalizing held with
  | nil => rfl
  | cons op xs ih =>
    simp only [List.cons_append, left]
    split
    · exact ih _
    · rfl

end Order

def locked (r : R) (body : List (Op R)) : List (Op R) := .acquire r .exclusive :: (body ++ [.release r])

def lockedShared (r : R) (body : List (Op R)) : List (Op R) := .acquire r .shared :: (body ++ [.release r])

section Rules

variable {ord : Order R} {held : List (R × Mode)} {r : R} {xs ys : List (Op R)}

theorem keeps_nil : ord.Keeps held [] := rfl

theorem keeps_append (hx : ord.Keeps held xs) (hy : ord.Keeps held ys) : ord.Keeps held (xs ++ ys) := by
  rw [Order.Keeps, Order.left_append, hx]
  exact hy

theorem keeps_cons {op : Op R} (hop : ord.Keeps held [op]) (hx : ord.Keeps held xs) : ord.Keeps held (op :: xs) :=
  keeps_append hop hx

theorem keeps_ite {c : Prop} [Decidable c] (hx : ord.Keeps held xs) (hy : ord.Keeps held ys) :
    ord.Keeps held (if c then xs else ys) := by
  split
  · exact hx
  · exact hy

theorem keeps_flatMap {α : Type} {l : List α} {f : α → List (Op R)} (h : ∀ x ∈ l, ord.Keeps held (f x)) :
    ord.Keeps held (l.flatMap f) := by
  induction l with
  | nil => exact keeps_nil
  | cons x l ih =>
    rw [List.flatMap_cons]
    apply keeps_append
    · exact h x List.mem_cons_self
    · exact ih (fun y hy => h y (List.mem_cons_of_mem x hy))

theorem keeps_replicate {n : ℕ} (hx : ord.Keeps held xs) : ord.Keeps held (List.replicate n xs).flatten := by
  induction n with
  | zero => exact keeps_nil
  | succ n ih => exact keeps_append hx ih

theorem keeps_await (h : ord.follows held (.await r) = true) : ord.Keeps held [.await r] := by
  simp only [Order.Keeps, Order.left, h, if_true, perform]

theorem keeps_sleep (h : ord.follows held .sleep = true) : ord.Keeps held [.sleep] := by
  simp only [Order.Keeps, Order.left, h, if_true, perform]

theorem keeps_within {m : Mode} (h : ord.follows held (.acquire r m) = true) (hx : ord.Keeps ((r, m) :: held) xs) :
    ord.Keeps held (.acquire r m :: (xs ++ [.release r])) := by
  rw [Order.Keeps, Order.left, if_pos h, perform, Order.left_append, hx]
  simp [Order.left, Order.follows, perform]

theorem keeps_locked (h : ord.follows held (.await r) = true) (hx : ord.Keeps ((r, .exclusive) :: held) xs) :
    ord.Keeps held (locked r xs) := keeps_within h hx

theorem keeps_lockedShared (h : ord.follows held (.await r) = true) (hx : ord.Keeps ((r, .shared) :: held) xs) :
    ord.Keeps held (lockedShared r xs) := keeps_within h hx

end Rules

def Thread.Ok (ord : Order R) (t : Thread R) : Prop := ord.left t.held t.todo = some []

def Idle (ts : List (Thread R)) : Prop := ∀ t ∈ ts, t.todo = []

def remaining (ts : List (Thread R)) : ℕ := (ts.map (fun t => t.todo.length)).sum

def Act.isStep : Act R → Bool
  | .start _ => false
  | .step _ => true

section Progress

variable {ord : Order R} {ts ts' : List (Thread R)} {o : List Unit}

theorem Thread.Ok.follows {held : List (R × Mode)} {op : Op R} {rest : List (Op R)}
    (h : Thread.Ok ord ⟨held, op :: rest⟩) : ord.follows held op = true ∧ Thread.Ok ord ⟨perform held op, rest⟩ := by
  simp only [Thread.Ok, Order.left] at h
  split at h
  · exact ⟨‹_›, h⟩
  · cases h

theorem Thread.Ok.holds_nothing {t : Thread R} (h : t.Ok ord) (ht : t.todo = []) : t.held = [] := by
  simpa [Thread.Ok, ht, Order.left] using h

theorem step_eq_some {k : ℕ} (h : machine ts (.step k) = some (ts', o)) : ∃ held op rest,
    ts[k]? = some ⟨held, op :: rest⟩ ∧ ready ts op = true ∧ ts' = ts.set k ⟨perform held op, rest⟩ := by
  simp only [machine] at h
  split at h
  · rename_i held op rest hk
    split at h
    · rename_i hr
      cases h
      exact ⟨held, op, rest, hk, hr, rfl⟩
    · cases h
  · cases h

theorem machine_keeps {a : Act R} (h : machine ts a = some (ts', o)) (hts : ∀ t ∈ ts, t.Ok ord)
    (ha : ∀ ops, a = .start ops → ord.Keeps [] ops) : ∀ t ∈ ts', t.Ok ord := by
  cases a with
  | start ops =>
    cases h
    intro t ht
    rcases List.mem_append.mp ht with ht | ht
    · exact hts t ht
    · rw [List.mem_singleton.mp ht]
      exact ha ops rfl
  | step k =>
    obtain ⟨held, op, rest, hk, -, rfl⟩ := step_eq_some h
    intro t ht
    rcases List.mem_or_eq_of_mem_set ht with ht | rfl
    · exact hts t ht
    · exact (hts _ (List.mem_of_getElem? hk)).follows.2

theorem step_lowers {a : Act R} (ha : a.isStep = true) (h : machine ts a = some (ts', o)) :
    remaining ts' < remaining ts := by
  cases a with
  | start ops => cases ha
  | step k =>
    obtain ⟨held, op, rest, hk, -, rfl⟩ := step_eq_some h
    obtain ⟨hlt, hget⟩ := List.getElem?_eq_some_iff.mp hk
    have hsplit : ts = ts.take k ++ ⟨held, op :: rest⟩ :: ts.drop (k + 1) := by
      rw [← hget, List.getElem_cons_drop, List.take_append_drop]
    have hset : ts.set k ⟨perform held op, rest⟩ = ts.take k ++ ⟨perform held op, rest⟩ :: ts.drop (k + 1) :=
      List.set_eq_take_append_cons_drop.trans (if_pos hlt)
    rw [hset]
    conv_rhs => rw [hsplit]
    simp only [remaining, List.map_append, List.map_cons, List.sum_append, List.sum_cons, List.length_cons]
    omega

def Op.wants : Op R → Option R
  | .acquire r _ | .await r => some r
  | .release _ | .sleep => none

theorem ready_of_free {op : Op R} {r : R} (hw : op.wants = some r) (hfree : ∀ t ∈ ts, t.holds r = false)
    (hwriter : ∀ t ∈ ts, t.todo.head? ≠ some (.acquire r .exclusive)) : ready ts op = true := by
  cases op with
  | acquire r' m =>
    cases hw
    cases m with
    | exclusive => simpa [ready] using hfree
    | shared =>
      simp only [ready, List.all_eq_true, Bool.and_eq_true, decide_eq_true_eq]
      refine fun t ht => ⟨fun hmem => ?_, hwriter t ht⟩
      have hholds : t.holds r = true := by
        simp only [Thread.holds, List.any_eq_true, decide_eq_true_eq]
        exact ⟨_, hmem, rfl⟩
      rw [hfree t ht] at hholds
      cases hholds
  | await r' =>
    cases hw
    simpa [ready] using hfree
  | release r' => cases hw
  | sleep => cases hw

theorem steps_of_ready {t : Thread R} {op : Op R} {rest : List (Op R)} (ht : t ∈ ts) (hop : t.todo = op :: rest)
    (hr : ready ts op = true) : ∃ k, (machine ts (.step k)).isSome = true := by
  obtain ⟨k, hk⟩ := List.mem_iff_getElem?.mp ht
  obtain ⟨held, todo⟩ := t
  cases hop
  refine ⟨k, ?_⟩
  simp [machine, hk, hr]

def Order.waits (ord : Order R) (t : Thread R) : ℕ :=
  match t.todo.head?.bind Op.wants with
  | some r => ord.rank r
  | none => 0

omit [DecidableEq R] in
theorem waits_eq {t : Thread R} {op : Op R} {rest : List (Op R)} {r : R} (hop : t.todo = op :: rest)
    (hw : op.wants = some r) : ord.waits t = ord.rank r := by
  simp only [Order.waits, hop, List.head?_cons, Option.bind_some, hw]

theorem Thread.Ok.below {t : Thread R} (h : t.Ok ord) {op : Op R} {rest : List (Op R)} {r q : R}
    (hop : t.todo = op :: rest) (hw : op.wants = some r) (hq : t.holds q = true) : ord.rank q < ord.rank r := by
  obtain ⟨held, todo⟩ := t
  cases hop
  have hf := h.follows.1
  obtain ⟨x, hx, hxq⟩ := List.any_eq_true.mp hq
  have hxq' : x.1 = q := by simpa using hxq
  cases op with
  | acquire r' m | await r' =>
    cases hw
    simp only [Order.follows, List.all_eq_true, Bool.and_eq_true, decide_eq_true_eq] at hf
    rw [← hxq']
    exact (hf x hx).1
  | release | sleep => cases hw

/-- No deadlock: of the threads that wait for a lock, one that waits for the highest finds it free, or another thread
can go on. -/
theorem progress (h : ∀ t ∈ ts, t.Ok ord) : Idle ts ∨ ∃ k, (machine ts (.step k)).isSome = true := by
  by_cases hidle : Idle ts
  · exact .inl hidle
  · right
    by_cases hgo : ∃ t ∈ ts, ∃ op rest, t.todo = op :: rest ∧ op.wants = none
    · obtain ⟨t, ht, op, rest, hop, hw⟩ := hgo
      apply steps_of_ready ht hop
      cases op with
      | release | sleep => rfl
      | acquire | await => cases hw
    · have hwants : ∀ t ∈ ts, t.todo ≠ [] → ∃ op rest r, t.todo = op :: rest ∧ op.wants = some r := by
        intro t ht hne
        obtain ⟨op, rest, hop⟩ := List.exists_cons_of_ne_nil hne
        cases hw : op.wants with
        | none => exact absurd ⟨t, ht, op, rest, hop, hw⟩ hgo
        | some r => exact ⟨op, rest, r, hop, hw⟩
      obtain ⟨t₀, ht₀, hne₀⟩ : ∃ t ∈ ts, t.todo ≠ [] := by simpa [Idle] using hidle
      obtain ⟨t, ht, hmax⟩ := Finset.exists_max_image (ts.toFinset.filter (fun t => t.todo ≠ [])) ord.waits
        ⟨t₀, by simp [ht₀, hne₀]⟩
      simp only [Finset.mem_filter, List.mem_toFinset] at ht hmax
      obtain ⟨op, rest, r, hop, hw⟩ := hwants t ht.1 ht.2
      have hfree : ∀ u ∈ ts, u.holds r = false := by
        intro u hu
        by_contra hholds
        have hholds' : u.holds r = true := by simpa using hholds
        have hne : u.todo ≠ [] := by
          intro hnil
          simp [Thread.holds, (h u hu).holds_nothing hnil] at hholds'
        obtain ⟨op', rest', r', hop', hw'⟩ := hwants u hu hne
        have hlt := (h u hu).below hop' hw' hholds'
        have hle := hmax u ⟨hu, hne⟩
        rw [waits_eq hop hw, waits_eq hop' hw'] at hle
        omega
      by_cases hwriter : ∃ u ∈ ts, u.todo.head? = some (.acquire r .exclusive)
      · obtain ⟨u, hu, hhead⟩ := hwriter
        obtain ⟨rest', hop'⟩ := List.head?_eq_some_iff.mp hhead
        apply steps_of_ready hu hop'
        simpa [ready] using hfree
      · apply steps_of_ready ht.1 hop
        exact ready_of_free hw hfree (fun u hu hhead => hwriter ⟨u, hu, hhead⟩)

/-- Once no further thread is started, only so many steps are left, whoever goes first. -/
theorem steps_bounded {as : List (Act R)} {os : List Unit}
    (h : exec machine (fun _ a => a.isStep = true) ts as = some (ts', os)) : as.length + remaining ts' ≤ remaining ts :=
  (exec_bounded (fun _ => True) remaining trivial (fun _ _ _ _ _ ha hm => ⟨trivial, step_lowers ha hm⟩) h).2

theorem Thread.Ok.may_sleep {t : Thread R} (h : t.Ok ord) {op : Op R} {rest : List (Op R)} (hop : t.todo = op :: rest)
    (hs : op = .sleep ∨ ∃ r, op.wants = some r ∧ ord.spins r = false) : ∀ x ∈ t.held, ord.spins x.1 = false := by
  obtain ⟨held, todo⟩ := t
  cases hop
  have hf := h.follows.1
  rcases hs with rfl | ⟨r, hw, hr⟩
  · simpa [Order.follows] using hf
  · cases op with
    | acquire r' m | await r' =>
      cases hw
      intro x hx
      simp only [Order.follows, List.all_eq_true, hr, Bool.false_or, Bool.and_eq_true, Bool.not_eq_true'] at hf
      exact (hf x hx).2
    | release | sleep => cases hw

end Progress

end VirtRtLab.LockOrder
