import VirtRtLab.Lib.Transition

namespace VirtRtLab.Transition

variable {State Act Sched Obs View : Type}

abbrev Alike (R : State → State → Prop) (view view' : Obs → View) :
    Option (State × List Obs) → Option (State × List Obs) → Prop :=
  Option.Rel (fun r r' => R r.1 r'.1 ∧ r.2.map view = r'.2.map view')

variable {M : Machine State Act Obs} {R : State → State → Prop} {name name' : Sched → Act} {view view' : Obs → View}

theorem Alike.map {State' Obs' View' : Type} {R' : State' → State' → Prop} {sight sight' : Obs' → View'}
    {f f' : State × List Obs → State' × List Obs'} {x x' : Option (State × List Obs)} (h : Alike R view view' x x')
    (hf : ∀ r r', R r.1 r'.1 → r.2.map view = r'.2.map view' →
      R' (f r).1 (f' r').1 ∧ (f r).2.map sight = (f' r').2.map sight') :
    Alike R' sight sight' (x.map f) (x'.map f') := by
  cases h with
  | none => exact .none
  | some h => exact .some (hf _ _ h.1 h.2)

/-- The replay rule: where states that are alike answer each step of a schedule alike, though each under a name of its
own, they answer the whole schedule alike. -/
theorem exec_alike (hs : ∀ s s' a, R s s' → Alike R view view' (M s (name a)) (M s' (name' a))) {s s' : State}
    (h : R s s') (as : List Sched) :
    Alike R view view' (exec M Always s (as.map name)) (exec M Always s' (as.map name')) := by
  induction as generalizing s s' with
  | nil => exact .some ⟨h, rfl⟩
  | cons a as ih =>
    have hone := hs s s' a h
    simp only [List.map_cons, exec, if_true]
    generalize M s (name a) = r at hone ⊢
    generalize M s' (name' a) = r' at hone ⊢
    cases hone with
    | none => exact .none
    | @some r r' hone =>
      obtain ⟨t, o⟩ := r
      obtain ⟨t', o'⟩ := r'
      have hrest := ih hone.1
      dsimp only
      generalize exec M Always t (as.map name) = q at hrest ⊢
      generalize exec M Always t' (as.map name') = q' at hrest ⊢
      cases hrest with
      | none => exact .none
      | some hrest =>
        refine .some ⟨hrest.1, ?_⟩
        rw [List.map_append, List.map_append, hone.2, hrest.2]

end VirtRtLab.Transition
