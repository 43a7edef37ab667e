import Mathlib.Logic.Relation
import Mathlib.Data.List.Basic

namespace VirtRtLab.Transition

variable {State Act Obs : Type}

/-- An action that is not enabled gives `none`; an enabled one gives the next state and what it shows. -/
abbrev Machine (State Act Obs : Type) := State → Act → Option (State × List Obs)

inductive Run (M : Machine State Act Obs) (P : State → Act → Prop) (s : State) :
    List Obs → State → Prop
  | refl : Run M P s [] s
  | step {os t a u o} : Run M P s os t → P t a → M t a = some (u, o) → Run M P s (os ++ o) u

abbrev Always : State → Act → Prop := fun _ _ => True

instance (s : State) (a : Act) : Decidable (Always s a) := .isTrue trivial

variable {M : Machine State Act Obs} {P Q : State → Act → Prop} {s t u : State} {os os' : List Obs}

theorem Run.mono (h : Run M P s os t) (hPQ : ∀ t a, P t a → Q t a) : Run M Q s os t := by
  induction h with
  | refl => exact .refl
  | step _ hp hm ih => exact .step ih (hPQ _ _ hp) hm

theorem Run.trans (h : Run M P s os t) (h' : Run M P t os' u) : Run M P s (os ++ os') u := by
  induction h' with
  | refl => simpa using h
  | step _ hp hm ih => rw [← List.append_assoc]; exact .step ih hp hm

theorem Run.history (I : List Obs → State → Prop) (h : Run M P s os t) (h0 : I [] s)
    (hs : ∀ os t a u o, I os t → P t a → M t a = some (u, o) → I (os ++ o) u) : I os t := by
  induction h with
  | refl => exact h0
  | step _ hp hm ih => exact hs _ _ _ _ _ ih hp hm

theorem Run.invariant (I : State → Prop) (h : Run M P s os t) (h0 : I s)
    (hs : ∀ t a u o, I t → P t a → M t a = some (u, o) → I u) : I t :=
  h.history (fun _ t => I t) h0 (fun _ t a u o hi hp hm => hs t a u o hi hp hm)

theorem Run.shown (I : State → Prop) (Good : Obs → Prop) (h : Run M P s os t) (h0 : I s)
    (hs : ∀ t a u o, I t → P t a → M t a = some (u, o) → I u ∧ ∀ e ∈ o, Good e) : I t ∧ ∀ e ∈ os, Good e := by
  apply h.history (fun os t => I t ∧ ∀ e ∈ os, Good e)
  · exact ⟨h0, by simp⟩
  · intro os t a u o hi hp hm
    obtain ⟨hu, ho⟩ := hs t a u o hi.1 hp hm
    refine ⟨hu, fun e he => ?_⟩
    rcases List.mem_append.mp he with he | he
    · exact hi.2 e he
    · exact ho e he

/-- The projection rule: where every step either leaves the part alone or is one of its own steps, a run of the whole
is a run of the part. -/
theorem Run.project {State' Act' Obs' : Type} {M' : Machine State' Act' Obs'} (f : State → State')
    (h : Run M P s os t)
    (hs : ∀ t a u o, M t a = some (u, o) → f u = f t ∨ ∃ a' o', M' (f t) a' = some (f u, o')) :
    ∃ os', Run M' Always (f s) os' (f t) := by
  apply h.invariant (fun t => ∃ os', Run M' Always (f s) os' (f t))
  · exact ⟨[], .refl⟩
  · rintro t a u o ⟨os', ht⟩ _ hm
    rcases hs t a u o hm with hsame | ⟨a', o', hm'⟩
    · rw [hsame]
      exact ⟨os', ht⟩
    · exact ⟨_, .step ht trivial hm'⟩

/-- The refinement rule: where every step either shows nothing and leaves the part alone or is an allowed step of the
part that shows the same, so does a run. -/
theorem Run.refine {State' Act' : Type} {M' : Machine State' Act' Obs} {P' : State' → Act' → Prop} (f : State → State')
    (h : Run M P s os t) (hs : ∀ t a u o, P t a → M t a = some (u, o) →
      f u = f t ∧ o = [] ∨ ∃ a', P' (f t) a' ∧ M' (f t) a' = some (f u, o)) : Run M' P' (f s) os (f t) := by
  apply h.history (fun os t => Run M' P' (f s) os (f t))
  · exact .refl
  · intro os t a u o ht hp hm
    rcases hs t a u o hp hm with ⟨hsame, rfl⟩ | ⟨a', hp', hm'⟩
    · rw [hsame, List.append_nil]
      exact ht
    · exact .step ht hp' hm'

/-- The skeleton rule: where what a step shows comes first in what may be shown from there on, all of a run does. -/
theorem Run.follows (Rest : State → List Obs → Prop) (h : Run M P s os t) {r : List Obs} (hr : Rest t r)
    (hs : ∀ t a u o r, P t a → M t a = some (u, o) → Rest u r → Rest t (o ++ r)) : Rest s (os ++ r) := by
  induction h generalizing r with
  | refl => exact hr
  | step _ hp hm ih =>
    rw [List.append_assoc]
    exact ih (hs _ _ _ _ _ hp hm hr)

/-- The progress rule: where every state short of `Done` has an allowed step that lowers the measure, some run
ends in `Done`. -/
theorem Run.exists_done (I Done : State → Prop) (m : State → ℕ) (hi : I s)
    (hs : ∀ t, I t → ¬ Done t → ∃ a u o, P t a ∧ M t a = some (u, o) ∧ I u ∧ m u < m t) :
    ∃ os t, Run M P s os t ∧ Done t := by
  induction hn : m s using Nat.strongRecOn generalizing s with
  | ind n ih =>
    by_cases hd : Done s
    · exact ⟨[], s, .refl, hd⟩
    · obtain ⟨a, u, o, hp, hm, hu, hlt⟩ := hs s hi hd
      obtain ⟨os, t, hrun, ht⟩ := ih (m u) (hn ▸ hlt) hu rfl
      have hone : Run M P s ([] ++ o) u := .step .refl hp hm
      exact ⟨_, t, hone.trans hrun, ht⟩

/-- The machine with its history in the state, for conditions on what was shown before a step. -/
def recorded (M : Machine State Act Obs) : Machine (List Obs × State) Act Obs := fun h a =>
  (M h.2 a).map (fun r => ((h.1 ++ r.2, r.1), r.2))

theorem recorded_eq_some {M : Machine State Act Obs} {h h' : List Obs × State} {a : Act} {o : List Obs} :
    recorded M h a = some (h', o) ↔ ∃ t, M h.2 a = some (t, o) ∧ h' = (h.1 ++ o, t) := by
  simp only [recorded, Option.map_eq_some_iff, Prod.mk.injEq]
  constructor
  · rintro ⟨⟨t, o'⟩, hm, rfl, rfl⟩
    exact ⟨t, hm, rfl⟩
  · rintro ⟨t, hm, rfl⟩
    exact ⟨(t, o), hm, rfl, rfl⟩

section

variable {Note Event : Type}

/-- A note kept beside a machine, for properties of what happened before a step. It never keeps a step from
happening. -/
structure Observer (State Act Obs Note Event : Type) where
  next : Note → State → Act → State × List Obs → Note
  shows : Note → State → Act → State × List Obs → List Event

def observed (M : Machine State Act Obs) (w : Observer State Act Obs Note Event) :
    Machine (State × Note) Act Event := fun x a =>
  (M x.1 a).map (fun r => ((r.1, w.next x.2 x.1 a r), w.shows x.2 x.1 a r))

variable {w : Observer State Act Obs Note Event} {x y : State × Note} {e es : List Event} {a : Act}

theorem observed_eq_some (h : observed M w x a = some (y, e)) :
    ∃ o, M x.1 a = some (y.1, o) ∧ y.2 = w.next x.2 x.1 a (y.1, o) ∧ e = w.shows x.2 x.1 a (y.1, o) := by
  obtain ⟨⟨t, o⟩, hm, hr⟩ := Option.map_eq_some_iff.mp h
  cases hr
  exact ⟨o, hm, rfl, rfl⟩

end

def exec (M : Machine State Act Obs) (P : State → Act → Prop) [∀ s a, Decidable (P s a)] :
    State → List Act → Option (State × List Obs)
  | s, [] => some (s, [])
  | s, a :: as =>
    if P s a then
      match M s a with
      | none => none
      | some (t, o) =>
        match exec M P t as with
        | none => none
        | some (u, os) => some (u, o ++ os)
    else none

theorem exec_cons [∀ s a, Decidable (P s a)] {a : Act} {as : List Act} :
    exec M P s (a :: as) = some (t, os) ↔
      P s a ∧ ∃ u o os', M s a = some (u, o) ∧ exec M P u as = some (t, os') ∧ os = o ++ os' := by
  constructor
  · intro h
    simp only [exec] at h
    split at h
    · rename_i hp
      split at h
      · cases h
      · rename_i u o hm
        split at h
        · cases h
        · rename_i v os' he
          cases h
          exact ⟨hp, u, o, os', hm, he, rfl⟩
    · cases h
  · rintro ⟨hp, u, o, os', hm, he, rfl⟩
    simp only [exec, hp, if_true, hm, he]

theorem exec_bounded [∀ s a, Decidable (P s a)] (I : State → Prop) (m : State → ℕ) (hi : I s)
    (hs : ∀ t a u o, I t → P t a → M t a = some (u, o) → I u ∧ m u < m t) {as : List Act}
    (h : exec M P s as = some (t, os)) : I t ∧ as.length + m t ≤ m s := by
  induction as generalizing s os with
  | nil =>
    simp only [exec, Option.some.injEq, Prod.mk.injEq] at h
    obtain ⟨rfl, -⟩ := h
    exact ⟨hi, by simp⟩
  | cons a as ih =>
    obtain ⟨hp, u, o, os', hm, he, -⟩ := exec_cons.mp h
    obtain ⟨hu, hlt⟩ := hs s a u o hi hp hm
    obtain ⟨ht, hle⟩ := ih hu he
    refine ⟨ht, ?_⟩
    rw [List.length_cons]
    omega

theorem Run.of_exec [∀ s a, Decidable (P s a)] (as : List Act)
    (h : exec M P s as = some (t, os)) : Run M P s os t := by
  induction as generalizing s t os with
  | nil =>
    simp only [exec, Option.some.injEq, Prod.mk.injEq] at h
    obtain ⟨rfl, rfl⟩ := h
    exact .refl
  | cons a as ih =>
    obtain ⟨hp, v, o, os', hv, hw, rfl⟩ := exec_cons.mp h
    have hone : Run M P s ([] ++ o) v := .step .refl hp hv
    exact hone.trans (ih hw)

theorem Run.of_exec_any [∀ s a, Decidable (P s a)] {as : List Act} {p : State × List Obs → Bool}
    (h : (exec M P s as).any p = true) : ∃ os t, Run M P s os t ∧ p (t, os) = true := by
  obtain ⟨⟨t, os⟩, he, hp⟩ := (Option.any_eq_true _ _).mp h
  exact ⟨os, t, Run.of_exec as he, hp⟩

theorem Run.exists_of_exec [∀ s a, Decidable (P s a)] (as : List Act) (p : List Obs → State → Prop)
    [∀ os t, Decidable (p os t)] (h : (exec M P s as).any (fun r => p r.2 r.1) = true) :
    ∃ os t, Run M P s os t ∧ p os t := by
  obtain ⟨os, t, hrun, hp⟩ := Run.of_exec_any h
  exact ⟨os, t, hrun, of_decide_eq_true hp⟩

end VirtRtLab.Transition
