import VirtRtLab.Ctl.Lifecycle

namespace VirtRtLab.Ctl

section

variable {env env' : Env} {p : Profile} {lab lab' : Lab} {contract : List Entry}

theorem launchDaemon_ok {devices : List Device} (h : launchDaemon env devices lab = (.ok (), lab')) :
    lab'.loaded = lab.loaded ∧ lab'.daemon = (lab.daemon || daemonAccepts (uartCount devices)) := by
  unfold launchDaemon at h
  split at h
  · rename_i hd
    cases h
    simp [hd]
  · rename_i hd
    split at h
    · cases h
    · cases h
      simp [hd]

theorem bringUp_ok (h : bringUp env p lab = (.ok contract, lab')) :
    lab'.loaded = lab.loaded ∧ lab'.daemon = (lab.daemon || daemonAccepts (uartCount p.devices)) ∧
      resolveAutContract env.sysfs p.devices = .ok contract := by
  unfold bringUp at h
  split at h
  · cases h
  · rename_i hl
    obtain ⟨hloaded, hdaemon⟩ := launchDaemon_ok hl
    split at h
    · cases h
    · obtain ⟨hc, rfl⟩ := Prod.mk.inj h
      exact ⟨hloaded, hdaemon, hc⟩

theorem cmdUp_leaves (h : cmdUp env p lab = (.ok contract, lab')) :
    (∀ m ∈ modulesLoadOrder p.devices, lab'.loaded.has m = true) ∧
      lab'.daemon = (lab.daemon || daemonAccepts (uartCount p.devices)) ∧
      resolveAutContract env.sysfs p.devices = .ok contract := by
  unfold cmdUp at h
  split at h
  · rename_i hup
    obtain ⟨hc, rfl⟩ := Prod.mk.inj h
    rw [alreadyUp, Bool.and_eq_true] at hup
    refine ⟨List.all_eq_true.mp hup.1, ?_, hc⟩
    rw [hup.2, Bool.true_or]
  · split at h
    · cases h
    · rename_i lab₂ hp
      obtain ⟨lab₁, hprep⟩ := prepare_ok hp
      obtain ⟨hloaded, hdaemon, hc⟩ := bringUp_ok h
      have hkept := (loadModules_ok (ready_modulesToLoad _ _) hprep.load).daemon
      refine ⟨fun m hm => ?_, ?_, hc⟩
      · rw [hloaded, hprep.loaded]
        exact (hprep.has m).mpr (.inr hm)
      · rw [hdaemon, hprep.daemon, hkept, Lab.ran_daemon]

/-- The second of two calls finds the lab up, and does nothing, if and only if the daemon was there before the first or
takes the number of UARTs it was given. -/
theorem up_idempotent (h : cmdUp env p lab = (.ok contract, lab')) (hs : env'.sysfs = env.sysfs) :
    (alreadyUp p lab' = true ∧ cmdUp env' p lab' = (.ok contract, lab')) ↔
      lab.daemon = true ∨ daemonAccepts (uartCount p.devices) = true := by
  obtain ⟨hloaded, hdaemon, hc⟩ := cmdUp_leaves h
  have hup : alreadyUp p lab' = lab'.daemon := by
    rw [alreadyUp, List.all_eq_true.mpr hloaded, Bool.true_and]
  rw [← Bool.or_eq_true, ← hdaemon, hup]
  refine ⟨And.left, fun hd => ⟨hd, ?_⟩⟩
  rw [cmdUp, hup, hd, if_pos rfl, hs, hc]

end

def twoUarts : Profile := ⟨[⟨.uart, 2⟩, ⟨.gpio, 1⟩], none, none⟩

theorem up_idempotent_two_uarts : ∃ contract lab', cmdUp .working twoUarts .empty = (.ok contract, lab') ∧
    cmdUp .working twoUarts lab' = (.ok contract, lab') := by
  obtain ⟨contract, lab', h⟩ : ∃ contract lab', cmdUp .working twoUarts .empty = (.ok contract, lab') := ⟨_, _, rfl⟩
  exact ⟨contract, lab', h, ((up_idempotent h rfl).mpr (.inr (by decide))).2⟩

def gpioOnly : Profile := ⟨[⟨.gpio, 1⟩], none, none⟩

theorem gpio_only_starts_again : ¬∀ (files : String → Option TomlFile) (args : Args) (env env' : Env) (p : Profile)
    (lab lab' : Lab) (contract : List Entry), resolveProfile files args = .ok p →
      cmdUp env p lab = (.ok contract, lab') → env'.sysfs = env.sysfs →
        alreadyUp p lab' = true ∧ cmdUp env' p lab' = (.ok contract, lab') := by
  intro h
  obtain ⟨contract, lab', hcall, hdown⟩ : ∃ contract lab', cmdUp .working gpioOnly .empty = (.ok contract, lab') ∧
      alreadyUp gpioOnly lab' = false := ⟨_, _, rfl, by decide⟩
  obtain ⟨hup, -⟩ := h (fun _ => none) ⟨none, none, some 1⟩ .working .working gpioOnly .empty lab' contract rfl hcall rfl
  rw [hdown] at hup
  cases hup

end VirtRtLab.Ctl
