import VirtRtLab.Ctl.Load

namespace VirtRtLab.Ctl

def insmodFailsFirst (env : Env) (dir : Option String) : List LoadEntry → Bool
  | [] => false
  | x :: rest =>
    match env.findKo x.1 dir with
    | .error _ => false
    | .ok _ => if env.insmodOk x then insmodFailsFirst env dir rest else true

def lookupFails (env : Env) (dir : Option String) : List LoadEntry → Bool
  | [] => false
  | x :: _ => (env.findKo x.1 dir).toOption.isNone

/-- `mkdir` fails, nothing has to be loaded, the first module that has to be has no file, or it is an `insmod` that
fails. -/
def RollsBack (env : Env) (p : Profile) (lab : Lab) : Prop :=
  let todo := missing lab.loaded (modulesToLoad p.devices)
  env.mkdir = false ∨ todo = [] ∨ lookupFails env p.moduleDir todo = true ∨
    insmodFailsFirst env p.moduleDir todo = true

instance (env : Env) (p : Profile) (lab : Lab) : Decidable (RollsBack env p lab) :=
  inferInstanceAs (Decidable (_ ∨ _))

section

variable {env : Env} {dir : Option String} {lab lab' : Lab} {e : Error} {mods : List LoadEntry} {done : List Module}

structure Undoable (initial l : Loaded) (done : List Module) : Prop where
  undo : l.unload done.reverse = initial
  grown : ∀ m, initial.has m = true → l.has m = true
  new : ∀ m ∈ done, initial.has m = false ∧ l.has m = true

theorem Undoable.load {initial l l' : Loaded} {m : Module} (h : Undoable initial l done)
    (hl : l.insmod m = some l') : Undoable initial l' (done ++ [m]) where
  undo := by
    rw [List.reverse_append, List.reverse_singleton, List.singleton_append]
    change ((l'.rmmod m).getD l').unload done.reverse = initial
    rw [Loaded.rmmod_of_insmod hl]
    exact h.undo
  grown m' hm' := by rw [Loaded.insmod_has hl, h.grown m' hm', Bool.true_or]
  new m' hm' := by
    rw [Loaded.insmod_has hl]
    rcases List.mem_append.mp hm' with hm' | hm'
    · obtain ⟨hnew, hhas⟩ := h.new m' hm'
      exact ⟨hnew, by rw [hhas, Bool.true_or]⟩
    · cases List.mem_singleton.mp hm'
      refine ⟨eq_false_of_ne_true fun hi => ?_, by simp⟩
      rw [Loaded.insmod_of_has (h.grown m hi)] at hl
      cases hl

theorem Undoable.eq_iff {initial l : Loaded} (h : Undoable initial l done) : l = initial ↔ done = [] := by
  constructor
  · rintro rfl
    rw [List.eq_nil_iff_forall_not_mem]
    intro m hm
    obtain ⟨hnew, hhas⟩ := h.new m hm
    rw [hhas] at hnew
    cases hnew
  · rintro rfl
    exact h.undo

theorem loadModules_error {initial : Loaded} (hr : Ready lab.loaded mods) (hu : Undoable initial lab.loaded done)
    (h : loadModules env dir mods done lab = (.error e, lab')) : missing lab.loaded mods ≠ [] ∧
      (lab'.loaded = initial ↔ (done = [] ∧ lookupFails env dir (missing lab.loaded mods) = true) ∨
        insmodFailsFirst env dir (missing lab.loaded mods) = true) := by
  induction mods generalizing done lab with
  | nil => cases h
  | cons x mods ih =>
    cases loadModules_turn hr h with
    | present hm hr' hrest =>
      rw [missing_present hm]
      exact ih hr' hu hrest
    | lookup hl hf hend =>
      cases hend
      rw [missing_cons hl, hu.eq_iff]
      simp [lookupFails, insmodFailsFirst, hf, Except.toOption]
    | refused hl hf hi hend =>
      cases hend
      rw [missing_cons hl, foldl_rmmod, Lab.ran_loaded, hu.undo]
      simp [insmodFailsFirst, hf, hi]
    | loaded hl hr' hf hi hrest =>
      rw [missing_cons hl, (ih (by exact hr') (hu.load hl) hrest).2]
      simp [lookupFails, insmodFailsFirst, hf, hi, Except.toOption]

theorem passed_lookup (h : ∀ x ∈ mods, env.insmodOk x = true ∧ ∃ path, env.findKo x.1 dir = .ok path) :
    lookupFails env dir mods = false := by
  cases mods with
  | nil => rfl
  | cons x mods =>
    obtain ⟨-, path, hf⟩ := h x (by simp)
    simp [lookupFails, hf, Except.toOption]

theorem passed_insmod (h : ∀ x ∈ mods, env.insmodOk x = true ∧ ∃ path, env.findKo x.1 dir = .ok path) :
    insmodFailsFirst env dir mods = false := by
  induction mods with
  | nil => rfl
  | cons x mods ih =>
    obtain ⟨hi, path, hf⟩ := h x (by simp)
    simp only [insmodFailsFirst, hf, hi, if_true]
    exact ih fun y hy => h y (by simp [hy])

theorem LoadsAll.loaded_eq (h : LoadsAll env dir mods lab lab') (hr : Ready lab.loaded mods) :
    lab'.loaded = lab.loaded ↔ missing lab.loaded mods = [] := by
  rw [missing_eq_nil hr]
  constructor
  · intro heq x hx
    rw [← heq, h.has]
    simp [List.mem_map_of_mem (f := Prod.fst) hx]
  · intro hx
    refine Loaded.ext_has fun m => ?_
    rw [h.has]
    by_cases hm : m ∈ mods.map Prod.fst
    · obtain ⟨x, hmem, rfl⟩ := List.mem_map.mp hm
      simp [hx x hmem]
    · simp [hm]

/-- A call that stops before the daemon leaves the modules as they were in these cases and no others. -/
theorem failed_up_rolls_back {p : Profile} (hup : alreadyUp p lab = false) (hp : (prepare env p lab).1 = .error e) :
    (cmdUp env p lab).1 = .error e ∧ ((cmdUp env p lab).2.loaded = lab.loaded ↔ RollsBack env p lab) := by
  obtain ⟨lab', hprep⟩ : ∃ lab', prepare env p lab = (.error e, lab') := ⟨_, Prod.ext hp rfl⟩
  have hcmd : cmdUp env p lab = (.error e, lab') := by simp only [cmdUp, hup, hprep, Bool.false_eq_true, if_false]
  rw [hcmd]
  refine ⟨rfl, ?_⟩
  have hr := ready_modulesToLoad lab.loaded p.devices
  cases prepare_error hprep with
  | mkdir hm hl => simp [RollsBack, hm, hl]
  | load hm hl =>
    have hu : Undoable lab.loaded (lab.ran .mkdir).loaded [] := ⟨rfl, fun _ h => h, by simp⟩
    obtain ⟨hne, hiff⟩ := loadModules_error (by exact hr) hu hl
    rw [hiff]
    simp only [Lab.ran_loaded] at hne ⊢
    simp [RollsBack, hm, hne]
  | write hm hl hw =>
    have hall := loadModules_ok (by exact hr) hl
    have hloaded := hall.loaded_eq (by exact hr)
    have hpassed := hall.passed
    rw [Lab.ran_loaded] at hloaded hpassed
    rw [hw, hloaded]
    simp [RollsBack, hm, passed_lookup hpassed, passed_insmod hpassed]

end

def fiveUarts : Profile := ⟨[⟨.gpio, 1⟩, ⟨.uart, 5⟩], none, none⟩

theorem failed_up_rolls_back_five_uarts : ∃ e, (cmdUp .working fiveUarts .empty).1 = .error e ∧
    (cmdUp .working fiveUarts .empty).2.loaded = .nothing := by
  obtain ⟨herr, hiff⟩ : (cmdUp .working fiveUarts .empty).1 =
      .error (commandFailed true (insmodText "./virtrtlab_uart.ko" (some ("num_uart_devices", 5)))) ∧
        ((cmdUp .working fiveUarts .empty).2.loaded = .nothing ↔ RollsBack .working fiveUarts .empty) :=
    failed_up_rolls_back rfl rfl
  exact ⟨_, herr, hiff.mpr (by decide)⟩

def noUartFile : Env :=
  { Env.working with
    findKo := fun m _ =>
      if m = .uart then .error ⟨"virtrtlab_uart.ko not found (searched: virtrtlab_uart.ko)", 1⟩
      else .ok s!"./{m.name}.ko" }

theorem core_stays_without_uart_file :
    ¬∀ (env : Env) (p : Profile) (lab : Lab) (e : Error), alreadyUp p lab = false → (prepare env p lab).1 = .error e →
      (cmdUp env p lab).2.loaded = lab.loaded := by
  intro h
  have hcore := h noUartFile ⟨[⟨.uart, 1⟩], none, none⟩ .empty
    ⟨"virtrtlab_uart.ko not found (searched: virtrtlab_uart.ko)", 1⟩ rfl rfl
  have hloaded : (cmdUp noUartFile ⟨[⟨.uart, 1⟩], none, none⟩ .empty).2.loaded = .core false false := rfl
  rw [hloaded] at hcore
  cases hcore

end VirtRtLab.Ctl
