import Mathlib.Data.List.Induction
import VirtRtLab.Lib.Transition
import VirtRtLab.Ctl.Load

/-!
Histories of successful `up` calls, with a daemon that may go and come back in between, and the `down` after them.
-/

namespace VirtRtLab.Ctl

open Transition

inductive Act where
  | up (env : Env) (files : String → Option TomlFile) (args : Args)
  | daemon (alive : Bool)

structure Call where
  devices : List Device
  full : Bool
  deriving DecidableEq

def lifecycle : Machine Lab Act Call := fun lab a =>
  match a with
  | .up env files args =>
    match resolveProfile files args with
    | .error _ => none
    | .ok p =>
      match cmdUp env p lab with
      | (.error _, _) => none
      | (.ok _, lab') => some (lab', [⟨p.devices, !alreadyUp p lab⟩])
  | .daemon alive => some ({ lab with daemon := alive }, [])

def lastFull (calls : List Call) : Option Call := calls.reverse.find? Call.full

def Covered (calls : List Call) : Prop :=
  ∀ c ∈ calls, ∀ d ∈ c.devices, ∃ c' ∈ lastFull calls, ∃ d' ∈ c'.devices, d'.type = d.type

instance (calls : List Call) : Decidable (Covered calls) :=
  inferInstanceAs (Decidable (∀ c ∈ calls, ∀ d ∈ c.devices, ∃ c' ∈ lastFull calls, ∃ d' ∈ c'.devices,
    d'.type = d.type))

namespace Loaded

variable {l : Loaded} {m : Module}

theorem rmmod_of_not_has (h : l.has m = false) : l.rmmod m = none := by
  cases l with
  | nothing => rfl
  | core uart gpio => cases uart <;> cases gpio <;> cases m <;> cases h <;> rfl

theorem rmmod_device_has (hm : m ≠ .core) (m' : Module) :
    ((l.rmmod m).getD l).has m' = (l.has m' && decide (m' ≠ m)) := by
  cases l with
  | nothing => rfl
  | core uart gpio =>
    cases m with
    | core => exact absurd rfl hm
    | uart | gpio => cases uart <;> cases gpio <;> cases m' <;> rfl

theorem rmmod_core (l : Loaded) : (l.rmmod .core).getD l = .nothing ↔ ∀ m, m ≠ .core → l.has m = false := by
  cases l with
  | nothing => simp [rmmod, has]
  | core uart gpio =>
    constructor
    · cases uart <;> cases gpio <;> intro h <;> cases h
      intro m hm
      cases m with
      | core => exact absurd rfl hm
      | uart | gpio => rfl
    · intro h
      cases h .uart (by decide)
      cases h .gpio (by decide)
      rfl

theorem unload_nothing (ms : List Module) : Loaded.nothing.unload ms = .nothing := by
  induction ms with
  | nil => rfl
  | cons m ms ih => exact ih

theorem unload_devices_has {ms : List Module} (hms : .core ∉ ms) (l : Loaded) (m : Module) :
    (l.unload ms).has m = (l.has m && decide (m ∉ ms)) := by
  induction ms generalizing l with
  | nil => simp [unload]
  | cons x ms ih =>
    have hx : x ≠ .core := fun h => hms (by simp [h])
    have hrest : .core ∉ ms := fun h => hms (by simp [h])
    change (((l.rmmod x).getD l).unload ms).has m = _
    rw [ih hrest, rmmod_device_has hx]
    simp only [List.mem_cons, not_or, Bool.decide_and, Bool.and_assoc]

theorem unload_reverse {ms : List Module} (hms : .core ∉ ms) (l : Loaded) :
    l.unload (.core :: ms).reverse = .nothing ↔ ∀ m, m ≠ .core → l.has m = true → m ∈ ms := by
  have hlast : l.unload (.core :: ms).reverse =
      ((l.unload ms.reverse).rmmod .core).getD (l.unload ms.reverse) := by
    rw [List.reverse_cons, unload, List.foldl_append]
    rfl
  rw [hlast, rmmod_core]
  have hrev : .core ∉ ms.reverse := by simpa using hms
  refine forall₂_congr fun m _ => ?_
  rw [unload_devices_has hrev]
  cases hm : l.has m with
  | false => simp
  | true => simp

end Loaded

theorem cmdDown_loaded (lab : Lab) :
    (cmdDown lab).loaded = lab.loaded.unload (lab.modulesList.getD KNOWN_MODULES).reverse := by
  have hfold (ms : List Module) (lab : Lab) :
      (ms.foldl (fun lab m => if lab.loaded.has m then rmmod lab m else lab) lab).loaded = lab.loaded.unload ms := by
    induction ms generalizing lab with
    | nil => rfl
    | cons m ms ih =>
      rw [List.foldl_cons, ih]
      split
      · rfl
      · rename_i hm
        change _ = ((lab.loaded.rmmod m).getD lab.loaded).unload ms
        rw [Loaded.rmmod_of_not_has (eq_false_of_ne_true hm)]
        rfl
  exact hfold _ _

theorem modulesLoadOrder_eq (devices : List Device) : ∃ ms, modulesLoadOrder devices = .core :: ms ∧
    ∀ m, m ∈ ms ↔ ∃ d ∈ devices, d.type.module = m := by
  induction devices using List.reverseRecOn with
  | nil => exact ⟨[], rfl, by simp⟩
  | append_singleton devices d ih =>
    obtain ⟨ms, hms, hmem⟩ := ih
    have hd := d.type.module_ne_core
    rw [modulesLoadOrder] at hms ⊢
    rw [List.foldl_append, hms, List.foldl_cons, List.foldl_nil]
    split
    · rename_i hin
      refine ⟨ms, rfl, fun m => ?_⟩
      rw [hmem]
      have hold : ∃ d' ∈ devices, d'.type.module = d.type.module := by
        rw [← hmem]
        simpa [hd] using hin
      constructor
      · rintro ⟨d', hd', h⟩
        exact ⟨d', by simp [hd'], h⟩
      · rintro ⟨d', hd', rfl⟩
        rcases List.mem_append.mp hd' with hd' | hd'
        · exact ⟨d', hd', rfl⟩
        · cases List.mem_singleton.mp hd'
          exact hold
    · refine ⟨ms ++ [d.type.module], rfl, fun m => ?_⟩
      simp [hmem, or_and_right, exists_or, eq_comm]

theorem mem_modulesLoadOrder {devices : List Device} {m : Module} :
    m ∈ modulesLoadOrder devices ↔ m = .core ∨ ∃ d ∈ devices, d.type.module = m := by
  obtain ⟨ms, hms, hmem⟩ := modulesLoadOrder_eq devices
  rw [hms, List.mem_cons, hmem]

theorem mem_modulesToLoad {devices : List Device} {m : Module} :
    m ∈ (modulesToLoad devices).map Prod.fst ↔ m ∈ modulesLoadOrder devices := by
  rw [mem_modulesLoadOrder]
  simp [modulesToLoad]

section

variable {env : Env} {p : Profile} {lab lab' : Lab} {contract : List Entry}

inductive Ups (env : Env) (p : Profile) (lab : Lab) : Lab → Prop
  | already (h : alreadyUp p lab = true) : Ups env p lab lab
  | full {lab₁ lab₂ lab'} (h : alreadyUp p lab = false) (hp : Prepared env p lab lab₁ lab₂)
      (hl : lab'.loaded = lab₂.loaded) (hm : lab'.modulesList = lab₂.modulesList) : Ups env p lab lab'

theorem bringUp_keeps (env : Env) (p : Profile) (lab : Lab) :
    (bringUp env p lab).2.loaded = lab.loaded ∧ (bringUp env p lab).2.modulesList = lab.modulesList := by
  have hlaunch : (launchDaemon env p.devices lab).2.loaded = lab.loaded ∧
      (launchDaemon env p.devices lab).2.modulesList = lab.modulesList := by
    unfold launchDaemon
    split
    · exact ⟨rfl, rfl⟩
    · split <;> exact ⟨rfl, rfl⟩
  unfold bringUp
  split
  · rename_i h
    rwa [h] at hlaunch
  · rename_i h
    rw [h] at hlaunch
    split <;> exact hlaunch

theorem cmdUp_ok (h : cmdUp env p lab = (.ok contract, lab')) : Ups env p lab lab' := by
  unfold cmdUp at h
  split at h
  · rename_i hup
    obtain rfl : lab = lab' := congrArg Prod.snd h
    exact .already hup
  · rename_i hup
    split at h
    · cases h
    · rename_i lab₂ hp
      obtain ⟨lab₁, hprep⟩ := prepare_ok hp
      obtain ⟨hl, hm⟩ := bringUp_keeps env p lab₂
      rw [h] at hl hm
      exact .full (eq_false_of_ne_true hup) hprep hl hm

theorem Prepared.has {lab₁ lab₂ : Lab} (h : Prepared env p lab lab₁ lab₂) (m : Module) :
    lab₁.loaded.has m = true ↔ lab.loaded.has m = true ∨ m ∈ modulesLoadOrder p.devices := by
  have hall := loadModules_ok (ready_modulesToLoad _ _) h.load
  rw [hall.has, Bool.or_eq_true, decide_eq_true_iff, mem_modulesToLoad, Lab.ran_loaded]

theorem Prepared.list {lab₁ lab₂ : Lab} (h : Prepared env p lab lab₁ lab₂) :
    lab₂.modulesList = some (modulesLoadOrder p.devices) := by
  rw [h.modulesList, List.filter_eq_self.mpr]
  intro m hm
  exact (h.has m).mpr (.inr hm)

end

structure Tracked (calls : List Call) (lab : Lab) : Prop where
  loaded : ∀ m, lab.loaded.has m = true ↔ ∃ c ∈ calls, m ∈ modulesLoadOrder c.devices
  list : calls = [] ∨ ∃ c, lastFull calls = some c ∧ lab.modulesList = some (modulesLoadOrder c.devices)

theorem Tracked.up {calls : List Call} {lab lab' : Lab} {env : Env} {p : Profile} (ht : Tracked calls lab)
    (h : Ups env p lab lab') : Tracked (calls ++ [⟨p.devices, !alreadyUp p lab⟩]) lab' := by
  have hcalls {P : Call → Prop} {c : Call} : (∃ x ∈ calls ++ [c], P x) ↔ (∃ x ∈ calls, P x) ∨ P c := by
    simp [or_and_right, exists_or]
  cases h with
  | already h =>
    have hall : ∀ m ∈ modulesLoadOrder p.devices, lab.loaded.has m = true := by
      intro m hm
      rw [alreadyUp, Bool.and_eq_true] at h
      exact List.all_eq_true.mp h.1 m hm
    constructor
    · intro m
      rw [hcalls, ← ht.loaded m]
      exact ⟨.inl, fun hm => hm.elim id (hall m)⟩
    · have hcore := (ht.loaded .core).mp (hall .core (mem_modulesLoadOrder.mpr (.inl rfl)))
      rcases ht.list with rfl | ⟨c, hc, hlist⟩
      · simp at hcore
      · refine .inr ⟨c, ?_, hlist⟩
        simpa [lastFull, h] using hc
  | full h hp hl hm =>
    constructor
    · intro m
      rw [hcalls, ← ht.loaded m, hl, hp.loaded]
      exact hp.has m
    · refine .inr ⟨⟨p.devices, true⟩, ?_, hm.trans hp.list⟩
      simp [lastFull, h]

theorem tracked_run {lab lab' : Lab} {calls : List Call} (hrun : Run lifecycle Always lab calls lab')
    (h0 : lab.loaded = .nothing) : Tracked calls lab' := by
  apply hrun.history Tracked
  · exact ⟨by simp [h0, Loaded.has], .inl rfl⟩
  · intro calls lab a lab' o ht _ hm
    cases a with
    | daemon alive =>
      cases hm
      rw [List.append_nil]
      exact ⟨ht.loaded, ht.list⟩
    | up env files args =>
      simp only [lifecycle] at hm
      split at hm
      · cases hm
      · split at hm
        · cases hm
        · rename_i hup
          cases hm
          exact ht.up (cmdUp_ok hup)

/-- After any history of successful calls, `down` leaves nothing behind if and only if the last full call had every
device type of the history. -/
theorem down_unloads {lab lab' : Lab} {calls : List Call} (hrun : Run lifecycle Always lab calls lab')
    (h0 : lab.loaded = .nothing) : (cmdDown lab').loaded = .nothing ↔ Covered calls := by
  have ht := tracked_run hrun h0
  rw [cmdDown_loaded]
  rcases ht.list with rfl | ⟨c', hc', hlist⟩
  · have hnone : lab'.loaded = .nothing := Loaded.ext_has fun m => by simpa [Loaded.has] using ht.loaded m
    simp [hnone, Loaded.unload_nothing, Covered]
  · obtain ⟨ms, hms, hmem⟩ := modulesLoadOrder_eq c'.devices
    have hcore : .core ∉ ms := by
      rw [hmem]
      rintro ⟨d, -, hd⟩
      exact d.type.module_ne_core hd
    rw [hlist, Option.getD_some, hms, Loaded.unload_reverse hcore]
    constructor
    · intro h c hc d hd
      have hhas := (ht.loaded d.type.module).mpr ⟨c, hc, mem_modulesLoadOrder.mpr (.inr ⟨d, hd, rfl⟩)⟩
      obtain ⟨d', hd', hm⟩ := (hmem _).mp (h _ d.type.module_ne_core hhas)
      exact ⟨c', hc', d', hd', DevType.module_injective hm⟩
    · intro h m hm hhas
      obtain ⟨c, hc, hmc⟩ := (ht.loaded m).mp hhas
      rcases mem_modulesLoadOrder.mp hmc with rfl | ⟨d, hd, rfl⟩
      · exact absurd rfl hm
      · obtain ⟨c'', hc'', d', hd', htype⟩ := h c hc d hd
        cases hc'.symm.trans hc''
        exact (hmem _).mpr ⟨d', hd', congrArg DevType.module htype⟩

def upInline (uart gpio : Option ℤ) : Act := .up .working (fun _ => none) ⟨none, uart, gpio⟩

theorem down_unloads_uart_then_both : ∃ calls lab, Run lifecycle Always .empty calls lab ∧
    calls = [⟨[⟨.uart, 1⟩], true⟩, ⟨[⟨.uart, 1⟩, ⟨.gpio, 2⟩], true⟩, ⟨[⟨.gpio, 2⟩], false⟩] ∧
    (cmdDown lab).loaded = .nothing := by
  obtain ⟨calls, lab, hrun, hcalls⟩ := Run.exists_of_exec (M := lifecycle) (P := Always) (s := .empty)
    [upInline (some 1) none, .daemon false, upInline (some 1) (some 2), upInline none (some 2)]
    (fun calls _ => calls = [⟨[⟨.uart, 1⟩], true⟩, ⟨[⟨.uart, 1⟩, ⟨.gpio, 2⟩], true⟩, ⟨[⟨.gpio, 2⟩], false⟩])
    (by decide +kernel)
  have hcovered : Covered calls := by
    rw [hcalls]
    decide
  exact ⟨calls, lab, hrun, hcalls, (down_unloads hrun rfl).mpr hcovered⟩

theorem uart_stays_after_gpio : ¬∀ (lab lab' : Lab) (calls : List Call), Run lifecycle Always lab calls lab' →
    lab.loaded = .nothing → (cmdDown lab').loaded = .nothing := by
  intro h
  obtain ⟨calls, lab, hrun, hdown⟩ := Run.exists_of_exec (M := lifecycle) (P := Always) (s := .empty)
    [upInline (some 1) none, upInline none (some 1)] (fun _ lab => (cmdDown lab).loaded = .core true false)
    (by decide +kernel)
  rw [h .empty lab calls hrun rfl] at hdown
  cases hdown

end VirtRtLab.Ctl
