import VirtRtLab.Lib.Slot
import VirtRtLab.Gpio.Dispatch
import VirtRtLab.Gpio.Reset

namespace VirtRtLab.Gpio

open Kernel VirtRtLab.Core Transition Generation

/-- No bus RESET, and no snapshot wraps the 32-bit counter round to `apply_gen` or to a generation that a
`virtrtlab_gpio_line_apply` between its two critical sections holds. -/
def freshSnapshot (d : Dev) : Obs → Bool
  | .reset => false
  | .snapshot ℓ gen _ => !sameGen gen (d.lines ℓ).applyGen && noneHolds d ℓ (sameGen gen)
  | _ => true

def Fresh (s : Sys) (a : Act) : Prop := (machine s a).all (fun r => r.2.all (freshSnapshot s.dev)) = true

instance (s : Sys) (a : Act) : Decidable (Fresh s a) := inferInstanceAs (Decidable (_ = true))

theorem Fresh.apart {s t : Sys} {a : Act} {o : List Obs} (h : Fresh s a) (hm : machine s a = some (t, o))
    (ℓ : Fin LINES) : Apart view (cell s.dev ℓ) (events ℓ o) := by
  rw [Fresh, hm] at h
  constructor
  · intro he
    obtain ⟨x, hx, hev⟩ := mem_events he
    have hb := List.all_eq_true.mp h x hx
    rw [event_marked hev] at hb
    cases hb
  · intro gen he
    obtain ⟨x, hx, hev⟩ := mem_events he
    have hb := List.all_eq_true.mp h x hx
    obtain ⟨val, rfl⟩ := event_taken hev
    simp only [freshSnapshot, Bool.and_eq_true, Bool.not_eq_true'] at hb
    exact ⟨sameGen_eq_false.mp hb.1, noneHolds_sameGen hb.2⟩

theorem slotted_run {os : List Obs} {s : Sys} (h : Run machine Fresh start os s) (ℓ : Fin LINES) :
    Slotted view (events ℓ os) (cell s.dev ℓ) := by
  apply h.history (fun os s => Slotted view (events ℓ os) (cell s.dev ℓ))
  · apply slotted_initial
    · intro w
      cases w <;> rfl
    · rfl
  · intro os t a u o hi ha hm
    rw [events_append]
    rcases machine_cell hm ℓ with ⟨hc, he⟩ | hstep
    · rw [hc, he, List.append_nil]
      exact hi
    · exact hi.step hstep (ha.apart hm ℓ)

/-- Once everything has run, a line has committed the injects it accepted, less those that a later one on the line
superseded before they were committed. -/
theorem no_swallowed_transition {os : List Obs} {s : Sys} {ℓ : Fin LINES} (h : Run machine Fresh start os s)
    (hq : ¬Outstanding s.dev ℓ) : Delivered (events ℓ os) := by
  have hlive : Live s.dev ℓ := live_run h (.applied rfl)
  have hsame := hlive.sameGen_of_quiescent (quiescent_of_not_outstanding hq)
  exact (slotted_run h ℓ).delivered (sameGen_eq_true.mp hsame)

def injectLow : Bytes := [48, 58, 48]

def Sequential (s : Sys) : Act → Prop
  | .injectStore _ => ∀ inj ∈ s.dev.injects, inj = none
  | .notify .reset => False
  | _ => True

instance (s : Sys) (a : Act) : Decidable (Sequential s a) := by
  unfold Sequential
  split <;> infer_instance

def delayedInject (k : ℕ) (buf : Bytes) : List Act :=
  [.injectStore buf, .inject k true, .inject k true, .inject k true]

def runWork (ℓ : Fin LINES) : List Act := [.timerExpire ℓ, .workStart ℓ, .work ℓ, .work ℓ]

theorem no_swallowed_transition_two_of_three : ∃ os s, Run machine Fresh start os s ∧
    takes (events 0 os) = [1, 2, 3] ∧ superseded (events 0 os) = [2] ∧ commits (events 0 os) = [1, 3] ∧
    Delivered (events 0 os) := by
  -- the second inject is still waiting when the third one comes
  obtain ⟨os, s, hrun, ht, hs, hc, hq⟩ := Run.exists_of_exec (M := machine) (P := Fresh) (s := start)
    ([.attrStore .latencyNs [53]] ++ delayedInject 0 injectHigh ++ runWork 0 ++ delayedInject 1 injectLow ++
      delayedInject 2 injectHigh ++ runWork 0)
    (fun os s => takes (events 0 os) = [1, 2, 3] ∧ superseded (events 0 os) = [2] ∧ commits (events 0 os) = [1, 3] ∧
      ¬Outstanding s.dev 0) (by decide +kernel)
  exact ⟨os, s, hrun, ht, hs, hc, no_swallowed_transition hrun hq⟩

theorem pulse_swallowed : ¬ ∀ os s ℓ, Run machine Sequential start os s → ¬Outstanding s.dev ℓ →
    (commits (events ℓ os)).length = (takes (events ℓ os)).length := by
  intro hall
  obtain ⟨os, s, hrun, ht, hc, hq⟩ := Run.exists_of_exec (M := machine) (P := Sequential) (s := start)
    ([.attrStore .latencyNs [53]] ++ delayedInject 0 injectHigh ++ delayedInject 1 injectLow ++ runWork 0)
    (fun os s => takes (events 0 os) = [1, 2] ∧ commits (events 0 os) = [2] ∧ ¬Outstanding s.dev 0)
    (by decide +kernel)
  have hlen := hall os s 0 hrun hq
  rw [ht, hc] at hlen
  cases hlen

end VirtRtLab.Gpio
