import Mathlib.Data.List.Basic

namespace VirtRtLab.Ledger

inductive Op (α : Type) where
  | acquire (a : α)
  | release (a : α)
  deriving DecidableEq

variable {α : Type} [DecidableEq α]

/-- What is held after the operations, the latest first; `none` when something is released that is not held. -/
def held (h : List α) : List (Op α) → Option (List α)
  | [] => some h
  | .acquire a :: ops => held (a :: h) ops
  | .release a :: ops => if a ∈ h then held (h.erase a) ops else none

def stack (h : List α) : List (Op α) → Option (List α)
  | [] => some h
  | .acquire a :: ops => stack (a :: h) ops
  | .release a :: ops => if h.head? = some a then stack h.tail ops else none

variable {h h' : List α} {ops ops' : List (Op α)}

theorem held_append : held h (ops ++ ops') = (held h ops).bind (fun h => held h ops') := by
  induction ops generalizing h with
  | nil => rfl
  | cons op ops ih =>
    cases op with
    | acquire a => exact ih
    | release a =>
      simp only [List.cons_append, held]
      by_cases ha : a ∈ h
      · rw [if_pos ha, if_pos ha]
        exact ih
      · rw [if_neg ha, if_neg ha]
        rfl

theorem stack_append : stack h (ops ++ ops') = (stack h ops).bind (fun h => stack h ops') := by
  induction ops generalizing h with
  | nil => rfl
  | cons op ops ih =>
    cases op with
    | acquire a => exact ih
    | release a =>
      simp only [List.cons_append, stack]
      by_cases ha : h.head? = some a
      · rw [if_pos ha, if_pos ha]
        exact ih
      · rw [if_neg ha, if_neg ha]
        rfl

theorem stack_trans {h'' : List α} (hs : stack h ops = some h') (hs' : stack h' ops' = some h'') :
    stack h (ops ++ ops') = some h'' := by
  rw [stack_append, hs, Option.bind_some, hs']

theorem held_trans {h'' : List α} (hs : held h ops = some h') (hs' : held h' ops' = some h'') :
    held h (ops ++ ops') = some h'' := by
  rw [held_append, hs, Option.bind_some, hs']

theorem held_of_stack (hs : stack h ops = some h') : held h ops = some h' := by
  induction ops generalizing h with
  | nil => exact hs
  | cons op ops ih =>
    cases op with
    | acquire a => exact ih hs
    | release a =>
      simp only [stack] at hs
      split at hs
      · rename_i ha
        cases h with
        | nil => cases ha
        | cons b h =>
          cases ha
          simp only [held, List.mem_cons_self, if_true, List.erase_cons_head]
          exact ih hs
      · cases hs

theorem stack_acquire (xs : List α) : stack h (xs.map .acquire) = some (xs.reverse ++ h) := by
  induction xs generalizing h with
  | nil => rfl
  | cons a xs ih =>
    rw [List.reverse_cons, List.append_assoc]
    exact ih

theorem stack_release (xs : List α) : stack (xs ++ h) (xs.map .release) = some h := by
  induction xs with
  | nil => rfl
  | cons a xs ih =>
    simp only [List.cons_append, List.map_cons, stack, List.head?_cons, if_true, List.tail_cons]
    exact ih

/-- Operations that are right for a part of what is held are right for the whole, and leave the rest alone. -/
theorem held_part {part part' rest k : List α} (hk : List.Perm k (part ++ rest)) (hs : held part ops = some part') :
    ∃ k', held k ops = some k' ∧ List.Perm k' (part' ++ rest) := by
  induction ops generalizing k part with
  | nil =>
    cases hs
    exact ⟨k, rfl, hk⟩
  | cons op ops ih =>
    cases op with
    | acquire a => exact ih (hk.cons a) hs
    | release a =>
      simp only [held] at hs ⊢
      split at hs
      · rename_i ha
        have hmem : a ∈ k := hk.mem_iff.mpr (List.mem_append_left rest ha)
        rw [if_pos hmem]
        apply ih _ hs
        rw [← List.erase_append_left rest ha]
        exact hk.erase a
      · cases hs

def Op.map {β : Type} (f : α → β) : Op α → Op β
  | .acquire a => .acquire (f a)
  | .release a => .release (f a)

theorem held_map {β : Type} [DecidableEq β] {f : α → β} (hf : Function.Injective f) (hs : held h ops = some h') :
    held (h.map f) (ops.map (Op.map f)) = some (h'.map f) := by
  induction ops generalizing h with
  | nil =>
    cases hs
    rfl
  | cons op ops ih =>
    cases op with
    | acquire a => exact ih (h := a :: h) hs
    | release a =>
      simp only [held] at hs
      split at hs
      · rename_i ha
        have hmem : f a ∈ h.map f := List.mem_map_of_mem ha
        rw [List.map_cons, Op.map, held, if_pos hmem, ← List.map_erase hf]
        exact ih hs
      · cases hs

theorem held_count (hs : held h ops = some h') (a : α) :
    h.count a + ops.count (.acquire a) = h'.count a + ops.count (.release a) := by
  induction ops generalizing h with
  | nil =>
    cases hs
    rfl
  | cons op ops ih =>
    cases op with
    | acquire b =>
      have := ih hs
      by_cases hb : b = a
      · subst hb
        simp only [List.count_cons_self, List.count_cons_of_ne (a := Op.release b) (b := .acquire b) (by simp)] at this ⊢
        omega
      · have hne : Op.acquire b ≠ .acquire a := fun he => hb (Op.acquire.inj he)
        simp only [List.count_cons_of_ne hb, List.count_cons_of_ne hne,
          List.count_cons_of_ne (a := Op.release a) (b := .acquire b) (by simp)] at this ⊢
        exact this
    | release b =>
      simp only [held] at hs
      split at hs
      · rename_i hmem
        have := ih hs
        by_cases hb : b = a
        · subst hb
          have hpos := List.count_pos_iff.mpr hmem
          simp only [List.count_erase_self, List.count_cons_self,
            List.count_cons_of_ne (a := Op.acquire b) (b := .release b) (by simp)] at this ⊢
          omega
        · have hne : Op.release b ≠ .release a := fun he => hb (Op.release.inj he)
          rw [List.count_erase_of_ne (Ne.symm hb)] at this
          simp only [List.count_cons_of_ne hne, List.count_cons_of_ne (a := Op.acquire a) (b := .release b) (by simp)]
          exact this
      · cases hs

end VirtRtLab.Ledger
