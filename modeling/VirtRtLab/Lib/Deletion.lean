import VirtRtLab.Lib.Transition

namespace VirtRtLab.Transition

variable {State Act Obs : Type}

/-- The schedule without its `gone` actions, and without those of the `own` ones that then wait for something the
`gone` ones would have done. -/
def without (M : Machine State Act Obs) (own gone : Act → Bool) : State → List Act → List Act
  | _, [] => []
  | s, a :: as =>
    if gone a then without M own gone s as
    else
      match M s a with
      | some (t, _) => a :: without M own gone t as
      | none => if own a then without M own gone s as else a :: without M own gone s as

/-- `R` relates a run to the one without the `gone` actions: the `own` actions leave no trace in it on either side,
and the others do the same on both. -/
structure Deletion (M : Machine State Act Obs) (P : State → Act → Prop) (own gone : Act → Bool)
    (R : State → State → Prop) (seen : Obs → Bool) : Prop where
  gone_own : ∀ a, gone a = true → own a = true
  full : ∀ s s' a t o, R s s' → P s a → own a = true → M s a = some (t, o) → R t s' ∧ o.filter seen = []
  left : ∀ s s' a t o, R s s' → own a = true → gone a = false → M s' a = some (t, o) → R s t ∧ o.filter seen = []
  both : ∀ s s' a t o, R s s' → own a = false → M s a = some (t, o) →
    ∃ t' o', M s' a = some (t', o') ∧ R t t' ∧ o'.filter seen = o.filter seen

variable {M : Machine State Act Obs} {P : State → Act → Prop} [∀ s a, Decidable (P s a)] {own gone : Act → Bool}
  {R : State → State → Prop} {seen : Obs → Bool} {s s' t : State} {as : List Act} {os : List Obs}

omit [∀ s a, Decidable (P s a)] in
theorem Deletion.without_filter (h : Deletion M P own gone R seen) (s : State) (as : List Act) :
    (without M own gone s as).filter (fun a => !own a) = as.filter (fun a => !own a) := by
  induction as generalizing s with
  | nil => rfl
  | cons a as ih =>
    unfold without
    split
    · rename_i hg
      simp [h.gone_own a hg, ih]
    · split
      · simp [List.filter_cons, ih]
      · split
        · rename_i ho
          simp [ho, ih]
        · simp [List.filter_cons, ih]

theorem without_gone {a : Act} (h : a ∈ without M own gone s as) : gone a = false := by
  induction as generalizing s with
  | nil => simp [without] at h
  | cons b as ih =>
    unfold without at h
    split at h
    · exact ih h
    · rename_i hg
      have hcons {l : List Act} (hl : a ∈ l → gone a = false) (hm : a ∈ b :: l) : gone a = false := by
        rcases List.mem_cons.mp hm with rfl | hm
        · simpa using hg
        · exact hl hm
      split at h
      · exact hcons ih h
      · split at h
        · exact ih h
        · exact hcons ih h

theorem Deletion.exec (h : Deletion M P own gone R seen) (hr : R s s') (he : exec M P s as = some (t, os)) :
    ∃ t' os', exec M Always s' (without M own gone s' as) = some (t', os') ∧ R t t' ∧
      os'.filter seen = os.filter seen := by
  induction as generalizing s s' os with
  | nil =>
    cases he
    exact ⟨s', [], rfl, hr, rfl⟩
  | cons a as ih =>
    obtain ⟨hp, u, o, os₁, hm, hrest, rfl⟩ := exec_cons.mp he
    unfold without
    cases ho : own a with
    | true =>
      obtain ⟨hu, hnone⟩ := h.full s s' a u o hr hp ho hm
      rw [List.filter_append, hnone, List.nil_append]
      split
      · exact ih hu hrest
      · rename_i hg
        split
        · rename_i u' o' hm'
          obtain ⟨hu', hnone'⟩ := h.left u s' a u' o' hu ho (by simpa using hg) hm'
          obtain ⟨t', os', he', ht, hos⟩ := ih hu' hrest
          refine ⟨t', o' ++ os', exec_cons.mpr ⟨trivial, u', o', os', hm', he', rfl⟩, ht, ?_⟩
          rw [List.filter_append, hnone', List.nil_append, hos]
        · exact ih hu hrest
    | false =>
      have hg : gone a = false := by
        by_contra hg
        rw [h.gone_own a (by simpa using hg)] at ho
        cases ho
      obtain ⟨u', o', hm', hu, hos₁⟩ := h.both s s' a u o hr ho hm
      obtain ⟨t', os', he', ht, hos⟩ := ih hu hrest
      rw [if_neg (by simp [hg]), hm']
      refine ⟨t', o' ++ os', exec_cons.mpr ⟨trivial, u', o', os', hm', he', rfl⟩, ht, ?_⟩
      rw [List.filter_append, List.filter_append, hos₁, hos]

end VirtRtLab.Transition
