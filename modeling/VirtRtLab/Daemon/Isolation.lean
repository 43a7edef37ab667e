import VirtRtLab.Daemon.Shape

namespace VirtRtLab.Daemon

open Kernel Transition

variable {n : ℕ} {p q : Proc n} {i j : Fin n}

def NoClientEventLeft (p : Proc n) (a : Act n) : Prop :=
  ∀ i, p.pc.reopening = some i → a.failedOpen = true → .ready i .client ∉ p.batch

instance (p : Proc n) (a : Act n) : Decidable (NoClientEventLeft p a) :=
  inferInstanceAs (Decidable (∀ _, _ → _ → _))

theorem NoClientEventLeft.allowed {a : Act n} (h : NoClientEventLeft p a) : Allowed True False p a :=
  ⟨fun _ _ _ _ => trivial, fun i hi ha hm => h i hi (by rw [ha]; rfl) hm⟩

def Event.inst : Event n → Option (Fin n)
  | .ready i _ => some i
  | .signal => none

def Act.isDispatch : Act n → Bool
  | .dispatch => true
  | _ => false

def Handles (i : Fin n) (p : Proc n) (a : Act n) : Prop :=
  p.pc.inst = some i ∨ p.pc = .idle ∧ p.batch.head?.bind Event.inst = some i ∧ a.isDispatch = true

instance (i : Fin n) (p : Proc n) (a : Act n) : Decidable (Handles i p a) :=
  inferInstanceAs (Decidable (_ ∨ _ ∧ _ ∧ _))

theorem untouched_dispatch (p : Proc n) (i : Fin n) (r : Role) (j : Fin n) :
    Untouched p (dispatch p (.ready i r)) j := by
  have hpc (pc : Pc n) : Untouched p { p with pc } j := ⟨rfl, fun _ _ => Iff.rfl, fun _ _ _ => Iff.rfl, rfl⟩
  cases r with
  | wire =>
    simp only [dispatch]
    split
    · exact hpc _
    · exact .refl p j
  | server =>
    simp only [dispatch]
    split
    · exact hpc _
    · exact .refl p j
  | client =>
    simp only [dispatch]
    split
    · exact hpc _
    · exact .refl p j

theorem handles_untouched {a : Act n} {o : List (Obs n)} (h : Ok True True p) (ha : Handles i p a)
    (hm : machine p a = some (q, o)) (hj : j ≠ i) : Untouched p q j := by
  obtain ⟨hs, hst⟩ := machine_cases hm
  rcases ha with hi | ⟨hpc, hb, ha⟩
  · have hne : p.pc ≠ .idle := by
      rintro hpc
      rw [hpc] at hi
      cases hi
    cases hst with
    | wait sources batch hpc hn he => exact absurd hpc hne
    | waitFail hpc hb => exact absurd hpc hne
    | dispatch e rest hpc hb => exact absurd hpc hne
    | handler a q o hh =>
      exact (handled_next (h.sound hs) hs hi allowed_true hh).other j hj
  · cases hst with
    | wait sources batch hpc hn he => cases ha
    | waitFail hpc hb => cases ha
    | dispatch e rest hpc hb' =>
      rw [hb'] at hb
      cases e with
      | ready k r =>
        apply Untouched.trans _ (untouched_dispatch _ k r j)
        exact ⟨rfl, fun _ _ => Iff.rfl, fun _ _ _ => Iff.rfl, rfl⟩
      | signal => cases hb
    | handler a q o hh =>
      rw [hpc] at hh
      cases hh

theorem handling_untouched {os : List (Obs n)} (h : Ok True True p) (hr : Run machine (Handles i) p os q)
    (hj : j ≠ i) : Untouched p q j := by
  have hI := hr.invariant (fun q => Ok True True q ∧ Untouched p q j) ⟨h, .refl p j⟩
    (fun _ _ _ _ hI ha hm => ⟨machine_ok hI.1 allowed_true hm, hI.2.trans (handles_untouched hI.1 ha hm hj)⟩)
  exact hI.2

theorem fault_isolation {p₀ : Proc n} {os : List (Obs n)} (h₀ : Started p₀)
    (h : Run machine NoClientEventLeft p₀ os p) :
    p.status ≠ .aborted ∧ ∀ i os' q, Run machine (Handles i) p os' q → ∀ j, j ≠ i → Untouched p q j := by
  refine ⟨(run_ok h₀ (h.mono (fun _ _ hd => hd.allowed))).alive not_false, ?_⟩
  intro i os' q hr j hj
  exact handling_untouched (run_ok h₀ (h.mono (fun _ _ _ => allowed_true))) hr hj

def relayThen (sources : List Source) : List (Act 2) :=
  [.wait [.fd 1], .dispatch, .accept (some 4), .wait sources]

def wireLost : List (Act 2) := [.dispatch, .read (.ok []), .closeWire, .open none]

theorem fault_isolation_wire_lost : ∃ os p os' q, Run machine NoClientEventLeft (start 2) os p ∧
    Run machine (Handles 0) p os' q ∧ q.fd 0 .server = none ∧ p.status ≠ .aborted ∧ Untouched p q 1 := by
  obtain ⟨os, p, hr, hp⟩ := Run.exists_of_exec (M := machine) (P := NoClientEventLeft) (s := start 2)
    (relayThen [.fd 0, .fd 3])
    (fun _ p => (exec machine (Handles 0) p wireLost).any (fun r => r.1.fd 0 .server = none) = true)
    (by decide +kernel)
  obtain ⟨os', q, hr', hq⟩ := Run.exists_of_exec (M := machine) (P := Handles 0) (s := p) wireLost
    (fun _ q => q.fd 0 .server = none) hp
  have h := fault_isolation (started_start 2) hr
  exact ⟨os, p, os', q, hr, hr', hq, h.1, h.2 0 os' q hr' 1 (by decide)⟩

theorem stale_client_event_aborts : ¬ ∀ (os : List (Obs 2)) (p : Proc 2), Run machine Always (start 2) os p →
    p.status ≠ .aborted := by
  intro h
  obtain ⟨os, p, hr, hs⟩ := Run.exists_of_exec (M := machine) (P := Always) (s := start 2)
    (relayThen [.fd 0, .fd 4] ++ wireLost ++ [.dispatch, .recv (.error .ebadf), .fcntl false])
    (fun _ p => p.status = .aborted) (by decide +kernel)
  exact h os p hr hs

end VirtRtLab.Daemon
