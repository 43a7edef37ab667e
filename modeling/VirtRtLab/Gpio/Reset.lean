import VirtRtLab.Gpio.Commit

namespace VirtRtLab.Gpio

open Kernel VirtRtLab.Core Transition Generation

def ResetIsolated (os : List Obs) : Prop :=
  ∀ pre post, os = pre ++ .reset :: post → ∀ ℓ gen val, .snapshot ℓ gen val ∈ pre →
    ∀ flipped changed, .commit ℓ gen flipped changed ∈ post → flipped = false ∧ changed = false

/-- At a RESET's critical section no `virtrtlab_gpio_line_apply` between its two sections holds the current
generation of its line, and no snapshot wraps the counter round to a generation such an apply holds. -/
def leavesNone (d : Dev) : Obs → Bool
  | .reset => (List.finRange LINES).all (fun ℓ => noneHolds d ℓ (sameGen (d.lines ℓ).snapGen))
  | .snapshot ℓ gen _ => noneHolds d ℓ (sameGen gen)
  | _ => true

def Drained (s : Sys) (a : Act) : Prop := (machine s a).all (fun r => r.2.all (leavesNone s.dev)) = true

instance (s : Sys) (a : Act) : Decidable (Drained s a) := inferInstanceAs (Decidable (_ = true))

theorem event_marked {ℓ : Fin LINES} {x : Obs} (h : x.event ℓ = some .marked) : x = .reset := by
  cases x with
  | snapshot | read | commit =>
    simp only [Obs.event] at h
    split at h <;> cases h
  | reset => rfl
  | returned => cases h

theorem event_taken {ℓ : Fin LINES} {x : Obs} {gen : ℕ} (h : x.event ℓ = some (.taken gen)) :
    ∃ val, x = .snapshot ℓ gen val := by
  cases x with
  | snapshot ℓ' gen' val =>
    simp only [Obs.event] at h
    split at h <;> cases h
    rename_i hl
    exact ⟨val, by rw [hl]⟩
  | read | commit =>
    simp only [Obs.event] at h
    split at h <;> cases h
  | reset | returned => cases h

theorem noneHolds_sameGen {d : Dev} {ℓ : Fin LINES} {gen : ℕ} (h : noneHolds d ℓ (sameGen gen) = true) (w : Worker)
    (g : ℕ) (hw : (cell d ℓ).held w = some g) : view g ≠ view gen := by
  have := noneHolds_iff.mp h w g hw
  exact (sameGen_eq_false.mp this).symm

theorem Drained.clear {s t : Sys} {a : Act} {o : List Obs} (h : Drained s a) (hm : machine s a = some (t, o))
    (ℓ : Fin LINES) : Clear view (cell s.dev ℓ) (events ℓ o) := by
  rw [Drained, hm] at h
  constructor
  · intro he
    obtain ⟨x, hx, hev⟩ := mem_events he
    have hb := List.all_eq_true.mp h x hx
    rw [event_marked hev] at hb
    have hline := List.all_eq_true.mp hb ℓ (List.mem_finRange ℓ)
    exact noneHolds_sameGen hline
  · intro gen he
    obtain ⟨x, hx, hev⟩ := mem_events he
    have hb := List.all_eq_true.mp h x hx
    obtain ⟨val, rfl⟩ := event_taken hev
    exact noneHolds_sameGen hb

theorem kept_run {os : List Obs} {s : Sys} (h : Run machine Drained start os s) (ℓ : Fin LINES) :
    Kept view (events ℓ os) (cell s.dev ℓ) := by
  apply h.history (fun os s => Kept view (events ℓ os) (cell s.dev ℓ))
  · exact kept_initial
  · intro os t a u o hi ha hm
    rw [events_append]
    rcases machine_cell hm ℓ with ⟨hc, he⟩ | hstep
    · rw [hc, he, List.append_nil]
      exact hi
    · exact hi.step hstep (ha.clear hm ℓ)

theorem reset_isolation {os : List Obs} {s : Sys} (h : Run machine Drained start os s) : ResetIsolated os := by
  intro pre post he ℓ gen val hsnap flipped changed hcommit
  have hiso := (kept_run h ℓ).isolated (events ℓ pre) (events ℓ post) (by rw [he, events_append]; rfl) gen
  have htaken : .taken gen ∈ events ℓ pre := List.mem_filterMap.mpr ⟨_, hsnap, by simp [Obs.event]⟩
  have hcommitted : .committed gen ∈ events ℓ post := List.mem_filterMap.mpr ⟨_, hcommit, by simp [Obs.event]⟩
  exact absurd hcommitted (hiso htaken)

theorem reset_isolation_pending_inject : ∃ os s, Run machine Drained start os s ∧
    os.filterMap Obs.commitLine = [0] ∧ .snapshot 0 1 1 ∈ os ∧ .reset ∈ os ∧ .snapshot 0 2 1 ∈ os ∧ ResetIsolated os := by
  obtain ⟨os, s, hrun, hc, h1, hr, h2⟩ := Run.exists_of_exec (M := machine) (P := Drained) (s := start)
    ([.attrStore .latencyNs [53], .injectStore injectHigh, .inject 0 true, .inject 0 true, .inject 0 true,
      .notify .reset] ++ List.replicate 17 .notifier ++ [.injectStore injectHigh, .inject 1 true, .inject 1 true,
      .inject 1 true, .inject 1 true])
    (fun os _ => os.filterMap Obs.commitLine = [0] ∧ .snapshot 0 1 1 ∈ os ∧ .reset ∈ os ∧ .snapshot 0 2 1 ∈ os)
    (by decide +kernel)
  exact ⟨os, s, hrun, hc, h1, hr, h2, reset_isolation hrun⟩

theorem inject_survives_reset : ¬ ∀ os s, Run machine Always start os s → ResetIsolated os := by
  intro hall
  -- the RESET runs while an immediate apply is between its two critical sections
  obtain ⟨os, s, hrun, hos⟩ := Run.exists_of_exec (M := machine) (P := Always) (s := start)
    ([.injectStore injectHigh, .inject 0 true, .inject 0 true, .inject 0 true, .notify .reset] ++
      List.replicate 17 .notifier ++ [.inject 0 true])
    (fun os s => os = [.snapshot 0 1 1, .read 0 1, .reset, .commit 0 1 false true, .returned 0 (.ok 3)] ∧
      (s.dev.lines 0).value = 1 ∧ s.dev.statValueChanges = 1) (by decide +kernel)
  have hiso := hall os s hrun [.snapshot 0 1 1, .read 0 1] [.commit 0 1 false true, .returned 0 (.ok 3)] hos.1
    0 1 1 (by simp) false true (by simp)
  simp at hiso

end VirtRtLab.Gpio
