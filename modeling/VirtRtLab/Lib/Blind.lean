import VirtRtLab.Lib.Transition

namespace VirtRtLab.Transition

variable {State Act Obs View Sight : Type}

/-- Seen through `view` and `sight`, a machine does not notice its hidden actions: they are always possible and
change nothing there, and every other action does the same from states that look the same. -/
structure Blind (M : Machine State Act Obs) (hidden : Act → Bool) (view : State → View) (sight : Obs → Sight) :
    Prop where
  unnoticed : ∀ s a, hidden a = true → ∃ t, M s a = some (t, []) ∧ view t = view s
  same : ∀ s s' a t o, view s = view s' → hidden a = false → M s a = some (t, o) →
    ∃ t' o', M s' a = some (t', o') ∧ view t' = view t ∧ o'.map sight = o.map sight

variable {M : Machine State Act Obs} {hidden : Act → Bool} {view : State → View} {sight : Obs → Sight}
  {s s' t : State} {as as' : List Act} {os : List Obs}

theorem Blind.leave_out (h : Blind M hidden view sight) (hs : view s = view s')
    (he : exec M Always s as = some (t, os)) :
    ∃ t' os', exec M Always s' (as.filter (fun a => !hidden a)) = some (t', os') ∧ view t' = view t ∧
      os'.map sight = os.map sight := by
  induction as generalizing s s' os with
  | nil =>
    cases he
    exact ⟨s', [], rfl, hs.symm, rfl⟩
  | cons a as ih =>
    obtain ⟨-, u, o, os₁, hm, hrest, rfl⟩ := exec_cons.mp he
    cases ha : hidden a with
    | true =>
      obtain ⟨u', hu', hv⟩ := h.unnoticed s a ha
      cases hm.symm.trans hu'
      obtain ⟨t', os', he', ht, ho⟩ := ih (hv.trans hs) hrest
      exact ⟨t', os', by simpa [List.filter_cons, ha] using he', ht, ho⟩
    | false =>
      obtain ⟨u', o', hm', hv, hsight⟩ := h.same s s' a u o hs ha hm
      obtain ⟨t', os', he', ht, ho⟩ := ih hv.symm hrest
      refine ⟨t', o' ++ os', ?_, ht, by simp [hsight, ho]⟩
      rw [List.filter_cons, ha]
      exact exec_cons.mpr ⟨trivial, u', o', os', hm', he', rfl⟩

theorem Blind.put_in (h : Blind M hidden view sight) (hs : view s = view s')
    (he : exec M Always s (as.filter (fun a => !hidden a)) = some (t, os)) :
    ∃ t' os', exec M Always s' as = some (t', os') ∧ view t' = view t ∧ os'.map sight = os.map sight := by
  induction as generalizing s s' os with
  | nil =>
    cases he
    exact ⟨s', [], rfl, hs.symm, rfl⟩
  | cons a as ih =>
    cases ha : hidden a with
    | true =>
      rw [List.filter_cons, ha] at he
      obtain ⟨u', hu', hv⟩ := h.unnoticed s' a ha
      obtain ⟨t', os', he', ht, ho⟩ := ih (hs.trans hv.symm) he
      exact ⟨t', [] ++ os', exec_cons.mpr ⟨trivial, u', [], os', hu', he', rfl⟩, ht, ho⟩
    | false =>
      rw [List.filter_cons, ha] at he
      obtain ⟨-, u, o, os₁, hm, hrest, rfl⟩ := exec_cons.mp he
      obtain ⟨u', o', hm', hv, hsight⟩ := h.same s s' a u o hs ha hm
      obtain ⟨t', os', he', ht, ho⟩ := ih hv.symm hrest
      exact ⟨t', o' ++ os', exec_cons.mpr ⟨trivial, u', o', os', hm', he', rfl⟩, ht, by simp [hsight, ho]⟩

theorem Blind.exec (h : Blind M hidden view sight) (hs : view s = view s')
    (hf : as.filter (fun a => !hidden a) = as'.filter (fun a => !hidden a))
    (he : exec M Always s as = some (t, os)) :
    ∃ t' os', exec M Always s' as' = some (t', os') ∧ view t' = view t ∧ os'.map sight = os.map sight := by
  obtain ⟨u, os₁, he₁, hu, ho⟩ := h.leave_out hs he
  rw [hf] at he₁
  obtain ⟨t', os', he', ht, ho'⟩ := h.put_in (rfl : view s' = view s') he₁
  exact ⟨t', os', he', ht.trans hu, ho'.trans ho⟩

end VirtRtLab.Transition
