import Mathlib.Data.List.Basic
import Mathlib.Data.List.Infix

/-!
Visitors that come one after the other to a place where items arrive all the time, and are handed items from what
is pending there. `Fresh` says that no visitor but the first was handed an item that arrived before him.
-/

namespace VirtRtLab.Visits

open scoped List

variable {α : Type}

inductive Move (α : Type) where
  | arrived (xs : List α)
  | opened
  | sent (xs : List α)

structure Visit (α : Type) where
  arrived : List α := []
  sent : List α := []

def note : List (Visit α) → Move α → List (Visit α)
  | vs, .opened => {} :: vs
  | [], _ => []
  | v :: vs, .arrived xs => { v with arrived := v.arrived ++ xs } :: vs
  | v :: vs, .sent xs => { v with sent := v.sent ++ xs } :: vs

def visits (ms : List (Move α)) : List (Visit α) := ms.foldl note []

structure Fresh (vs : List (Visit α)) (pending : List α) : Prop where
  past : ∀ v ∈ vs.dropLast, v.sent <+ v.arrived
  last : ∀ v rest, vs = v :: rest → rest ≠ [] → (v.sent ++ pending) <+ v.arrived

theorem Fresh.nil (pending : List α) : Fresh [] pending := ⟨by simp, by simp⟩

theorem Fresh.mono {vs : List (Visit α)} {pending pending' : List α} (h : Fresh vs pending)
    (hp : pending' <+ pending) : Fresh vs pending' := by
  refine ⟨h.past, fun v rest hv hr => ?_⟩
  exact (List.Sublist.append_left hp v.sent).trans (h.last v rest hv hr)

theorem mem_dropLast_cons {v w : Visit α} {vs : List (Visit α)} (h : v ∈ (w :: vs).dropLast) :
    vs ≠ [] ∧ (v = w ∨ v ∈ vs.dropLast) := by
  cases vs with
  | nil => simp at h
  | cons u us =>
    rw [List.dropLast_cons_of_ne_nil (by simp), List.mem_cons] at h
    exact ⟨by simp, h⟩

theorem Fresh.replace {v w : Visit α} {vs : List (Visit α)} {pending pending' : List α} (h : Fresh (v :: vs) pending)
    (hw : vs ≠ [] → (w.sent ++ pending') <+ w.arrived) : Fresh (w :: vs) pending' := by
  constructor
  · intro u hu
    obtain ⟨hne, rfl | hu⟩ := mem_dropLast_cons hu
    · exact (List.sublist_append_left _ _).trans (hw hne)
    · apply h.past u
      rw [List.dropLast_cons_of_ne_nil hne]
      exact List.mem_cons_of_mem v hu
  · rintro u rest hv hr
    cases hv
    exact hw hr

theorem Fresh.arrived {vs : List (Visit α)} {pending : List α} (h : Fresh vs pending) (xs : List α) :
    Fresh (note vs (.arrived xs)) (pending ++ xs) := by
  cases vs with
  | nil => exact .nil _
  | cons v vs =>
    apply h.replace
    intro hne
    rw [← List.append_assoc]
    exact (h.last v vs rfl hne).append (List.Sublist.refl xs)

theorem Fresh.sent {vs : List (Visit α)} {pending xs : List α} (h : Fresh vs (xs ++ pending)) :
    Fresh (note vs (.sent xs)) pending := by
  cases vs with
  | nil => exact .nil _
  | cons v vs =>
    apply h.replace
    intro hne
    have hl := h.last v vs rfl hne
    rwa [← List.append_assoc] at hl

theorem Fresh.opened {vs : List (Visit α)} {pending pending' : List α} (h : Fresh vs pending)
    (hp : vs ≠ [] → pending' = []) : Fresh (note vs .opened) pending' := by
  constructor
  · intro u hu
    obtain ⟨hne, rfl | hu⟩ := mem_dropLast_cons (w := {}) hu
    · exact List.Sublist.refl []
    · exact h.past u hu
  · rintro u rest hv hr
    obtain ⟨rfl, rfl⟩ : ({} : Visit α) = u ∧ vs = rest := by simpa [note] using hv
    rw [hp hr]
    exact List.Sublist.refl []

end VirtRtLab.Visits
