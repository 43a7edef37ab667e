import Mathlib.Algebra.BigOperators.Group.Finset.Basic
import Mathlib.Algebra.Ring.Nat
import Mathlib.Data.Fintype.BigOperators
import VirtRtLab.Lib.Transition

/-!
How much work a machine can do. The state owes a number of units, each counted step pays one back, and only what the
environment asks for or what a step shows puts new units on the account.
-/

namespace VirtRtLab.Effort

open Transition

variable {State Act Obs : Type} {M : Machine State Act Obs} {P : State → Act → Prop} {s t : State} {os : List Obs}

structure Prices (Act Obs : Type) where
  counts : Act → Bool
  asks : Act → ℕ
  shows : Obs → ℕ

def Paid (c : Prices Act Obs) (owed : State → ℕ) (s : State) (a : Act) (t : State) (o : List Obs) : Prop :=
  owed t + (c.counts a).toNat ≤ owed s + c.asks a + (o.map c.shows).sum

theorem Paid.of_eq {c : Prices Act Obs} {owed : State → ℕ} {a : Act} {o : List Obs} (h : owed t = owed s)
    (hc : c.counts a = false) : Paid c owed s a t o := by
  unfold Paid
  rw [h, hc]
  simp only [Bool.toNat_false]
  omega

/-- The credit rule: where every step is paid, the counted steps of a run are paid by what was asked and shown. -/
theorem exec_paid [∀ s a, Decidable (P s a)] (c : Prices Act Obs) (owed : State → ℕ) {as : List Act}
    (hs : ∀ t a u o, P t a → M t a = some (u, o) → Paid c owed t a u o) (h : exec M P s as = some (t, os)) :
    as.countP c.counts + owed t ≤ owed s + (as.map c.asks).sum + (os.map c.shows).sum := by
  induction as generalizing s os with
  | nil =>
    simp only [exec, Option.some.injEq, Prod.mk.injEq] at h
    obtain ⟨rfl, rfl⟩ := h
    simp
  | cons a as ih =>
    obtain ⟨hp, u, o, os', hm, he, rfl⟩ := exec_cons.mp h
    have hstep : owed u + (c.counts a).toNat ≤ owed s + c.asks a + (o.map c.shows).sum := hs s a u o hp hm
    have hrest := ih he
    have hcount : (a :: as).countP c.counts = as.countP c.counts + (c.counts a).toNat := by
      rw [List.countP_cons]
      cases c.counts a <;> rfl
    rw [hcount, List.map_cons, List.sum_cons, List.map_append, List.sum_append]
    omega

section Sums

variable {α ι : Type} {f : α → ℕ} {l : List α} {k : ℕ} {x : α}

theorem sum_map_set (h : l[k]? = some x) (y : α) : ((l.set k y).map f).sum + f x = (l.map f).sum + f y := by
  induction l generalizing k with
  | nil => cases h
  | cons z l ih =>
    cases k with
    | zero =>
      cases h
      simp only [List.set_cons_zero, List.map_cons, List.sum_cons]
      omega
    | succ k =>
      have hrest := ih h
      simp only [List.set_cons_succ, List.map_cons, List.sum_cons]
      omega

theorem sum_map_eraseIdx (h : l[k]? = some x) : ((l.eraseIdx k).map f).sum + f x = (l.map f).sum := by
  induction l generalizing k with
  | nil => cases h
  | cons z l ih =>
    cases k with
    | zero =>
      cases h
      simp only [List.eraseIdx_cons_zero, List.map_cons, List.sum_cons]
      omega
    | succ k =>
      have hrest := ih h
      simp only [List.eraseIdx_cons_succ, List.map_cons, List.sum_cons]
      omega

theorem sum_update [Fintype ι] [DecidableEq ι] (g : ι → α) (i : ι) (y : α) :
    (∑ j, f (Function.update g i y j)) + f (g i) = (∑ j, f (g j)) + f y := by
  have hsplit (h : ι → α) : (∑ j, f (h j)) = f (h i) + ∑ j ∈ Finset.univ.erase i, f (h j) :=
    (Finset.add_sum_erase Finset.univ (fun j => f (h j)) (Finset.mem_univ i)).symm
  have hrest : (∑ j ∈ Finset.univ.erase i, f (Function.update g i y j)) = ∑ j ∈ Finset.univ.erase i, f (g j) := by
    apply Finset.sum_congr rfl
    intro j hj
    rw [Function.update_of_ne (Finset.ne_of_mem_erase hj)]
  rw [hsplit, hsplit g, hrest, Function.update_self]
  omega

end Sums

end VirtRtLab.Effort
