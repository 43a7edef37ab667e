import VirtRtLab.Ctl.Lab

namespace VirtRtLab.Ctl

theorem DevType.module_ne_core (t : DevType) : t.module ≠ .core := by cases t <;> decide

theorem DevType.module_injective : Function.Injective DevType.module := by
  intro t t' h
  cases t <;> cases t' <;> first | rfl | cases h

abbrev LoadEntry := Module × Option (String × ℤ)

namespace Loaded

variable {l l' : Loaded} {m m' : Module}

theorem insmod_has (h : l.insmod m = some l') : l'.has m' = (l.has m' || decide (m' = m)) := by
  cases l with
  | nothing =>
    cases m <;> cases h
    cases m' <;> rfl
  | core uart gpio => cases uart <;> cases gpio <;> cases m <;> cases h <;> cases m' <;> rfl

theorem rmmod_of_insmod (h : l.insmod m = some l') : l'.rmmod m = some l := by
  cases l with
  | nothing =>
    cases m <;> cases h
    rfl
  | core uart gpio => cases uart <;> cases gpio <;> cases m <;> cases h <;> rfl

theorem ext_has (h : ∀ m, l.has m = l'.has m) : l = l' := by
  cases l with
  | nothing =>
    cases l' with
    | nothing => rfl
    | core uart gpio => cases h .core
  | core uart gpio =>
    cases l' with
    | nothing => cases h .core
    | core uart' gpio' =>
      have hu : uart = uart' := h .uart
      have hg : gpio = gpio' := h .gpio
      rw [hu, hg]

theorem insmod_ready (hm : l.has m = false) (hc : m = .core ∨ l.has .core = true) : ∃ l', l.insmod m = some l' := by
  cases l with
  | nothing =>
    rcases hc with rfl | hc
    · exact ⟨_, rfl⟩
    · cases hc
  | core uart gpio =>
    cases m with
    | core => cases hm
    | uart =>
      have hu : uart = false := hm
      subst hu
      exact ⟨_, rfl⟩
    | gpio =>
      have hg : gpio = false := hm
      subst hg
      exact ⟨_, rfl⟩

theorem insmod_of_has (h : l.has m = true) : l.insmod m = none := by
  cases l with
  | nothing => cases h
  | core uart gpio => cases uart <;> cases gpio <;> cases m <;> cases h <;> rfl

def unload (l : Loaded) (ms : List Module) : Loaded := ms.foldl (fun l m => (l.rmmod m).getD l) l

end Loaded

@[simp] theorem Lab.ran_loaded (lab : Lab) (c : Command) : (lab.ran c).loaded = lab.loaded := rfl
@[simp] theorem Lab.ran_daemon (lab : Lab) (c : Command) : (lab.ran c).daemon = lab.daemon := rfl
@[simp] theorem Lab.ran_log (lab : Lab) (c : Command) : (lab.ran c).log = lab.log ++ [c] := rfl

def missing : Loaded → List LoadEntry → List LoadEntry
  | _, [] => []
  | l, e :: rest =>
    match l.insmod e.1 with
    | none => missing l rest
    | some l' => e :: missing l' rest

def Env.insmodOk (env : Env) (e : LoadEntry) : Bool := env.insmod e.1 ((e.2.map Prod.snd).getD 0)

section

variable {env : Env} {dir : Option String} {lab lab' : Lab} {e : Error} {mods : List LoadEntry} {done : List Module}

theorem foldl_rmmod (ms : List Module) (lab : Lab) : (ms.foldl rmmod lab).loaded = lab.loaded.unload ms := by
  induction ms generalizing lab with
  | nil => rfl
  | cons m ms ih =>
    rw [List.foldl_cons, ih]
    rfl

theorem insmod_ok {m : Module} {path : String} {param : Option (String × ℤ)}
    (h : insmod env lab m path param = .ok lab') : env.insmodOk (m, param) = true ∧
      ∃ l, lab.loaded.insmod m = some l ∧ lab' = { lab.ran (.insmod m path param) with loaded := l } := by
  unfold insmod at h
  dsimp only at h
  split at h
  · rename_i l hl
    cases h
    split at hl
    · exact ⟨‹_›, l, hl, rfl⟩
    · cases hl
  · cases h

theorem insmod_error {m : Module} {path : String} {param : Option (String × ℤ)} {l : Loaded}
    (hl : lab.loaded.insmod m = some l) (h : insmod env lab m path param = .error e) :
    env.insmodOk (m, param) = false := by
  unfold insmod at h
  dsimp only at h
  split at h
  · cases h
  · rename_i hn
    split at hn
    · rw [hl] at hn
      cases hn
    · exact eq_false_of_ne_true ‹_›

def Ready (l : Loaded) (mods : List LoadEntry) : Prop := l.has .core = true ∨ ∃ param rest, mods = (.core, param) :: rest

theorem Ready.skip {l : Loaded} {x : LoadEntry} (h : Ready l (x :: mods)) (hx : l.has x.1 = true) : Ready l mods := by
  rcases h with h | ⟨param, rest, he⟩
  · exact .inl h
  · cases he
    exact .inl hx

theorem Ready.insmod {l : Loaded} {x : LoadEntry} (h : Ready l (x :: mods)) (hx : l.has x.1 = false) :
    ∃ l', l.insmod x.1 = some l' ∧ Ready l' mods := by
  have hc : x.1 = .core ∨ l.has .core = true := by
    rcases h with h | ⟨param, rest, he⟩
    · exact .inr h
    · cases he
      exact .inl rfl
  obtain ⟨l', hl⟩ := Loaded.insmod_ready hx hc
  refine ⟨l', hl, .inl ?_⟩
  rw [Loaded.insmod_has hl]
  rcases hc with hc | hc
  · simp [hc]
  · simp [hc]

inductive Turn (env : Env) (dir : Option String) (x : LoadEntry) (mods : List LoadEntry) (done : List Module)
    (lab : Lab) (r : Except Error Unit × Lab) : Prop
  | present (hm : lab.loaded.has x.1 = true) (hr : Ready lab.loaded mods)
      (hrest : loadModules env dir mods done lab = r)
  | lookup {l e} (hl : lab.loaded.insmod x.1 = some l) (hf : env.findKo x.1 dir = .error e) (hend : r = (.error e, lab))
  | refused {l path e} (hl : lab.loaded.insmod x.1 = some l) (hf : env.findKo x.1 dir = .ok path)
      (hi : env.insmodOk x = false)
      (hend : r = (.error e, done.reverse.foldl rmmod (lab.ran (.insmod x.1 path x.2))))
  | loaded {l path} (hl : lab.loaded.insmod x.1 = some l) (hr : Ready l mods) (hf : env.findKo x.1 dir = .ok path)
      (hi : env.insmodOk x = true)
      (hrest : loadModules env dir mods (done ++ [x.1]) { lab.ran (.insmod x.1 path x.2) with loaded := l } = r)

theorem loadModules_turn {x : LoadEntry} {r : Except Error Unit × Lab} (hr : Ready lab.loaded (x :: mods))
    (h : loadModules env dir (x :: mods) done lab = r) : Turn env dir x mods done lab r := by
  obtain ⟨m, param⟩ := x
  unfold loadModules at h
  split at h
  · rename_i hm
    exact .present hm (hr.skip hm) h
  · rename_i hm
    obtain ⟨l, hl, hr'⟩ := hr.insmod (eq_false_of_ne_true hm)
    split at h
    · rename_i hf
      exact .lookup hl hf h.symm
    · rename_i hf
      split at h
      · rename_i hi
        exact .refused hl hf (insmod_error hl hi) h.symm
      · rename_i hi
        obtain ⟨hok, l', hl', rfl⟩ := insmod_ok hi
        cases hl.symm.trans hl'
        exact .loaded hl hr' hf hok h

theorem missing_present {l : Loaded} {x : LoadEntry} (h : l.has x.1 = true) : missing l (x :: mods) = missing l mods := by
  simp only [missing, Loaded.insmod_of_has h]

theorem missing_cons {l l' : Loaded} {x : LoadEntry} (h : l.insmod x.1 = some l') :
    missing l (x :: mods) = x :: missing l' mods := by
  simp only [missing, h]

def insmodCommand (env : Env) (dir : Option String) (x : LoadEntry) : Command :=
  .insmod x.1 ((env.findKo x.1 dir).toOption.getD "") x.2

structure LoadsAll (env : Env) (dir : Option String) (mods : List LoadEntry) (lab lab' : Lab) : Prop where
  has : ∀ m, lab'.loaded.has m = (lab.loaded.has m || decide (m ∈ mods.map Prod.fst))
  passed : ∀ x ∈ missing lab.loaded mods, env.insmodOk x = true ∧ ∃ path, env.findKo x.1 dir = .ok path
  daemon : lab'.daemon = lab.daemon
  log : lab'.log = lab.log ++ (missing lab.loaded mods).map (insmodCommand env dir)

theorem loadModules_ok (hr : Ready lab.loaded mods) (h : loadModules env dir mods done lab = (.ok (), lab')) :
    LoadsAll env dir mods lab lab' := by
  induction mods generalizing done lab with
  | nil =>
    cases h
    exact ⟨by simp, by simp [missing], rfl, by simp [missing]⟩
  | cons x mods ih =>
    cases loadModules_turn hr h with
    | present hm hr' hrest =>
      obtain ⟨hhas, hpass, hdaemon, hlog⟩ := ih hr' hrest
      refine ⟨fun m => ?_, ?_, hdaemon, by rw [missing_present hm, hlog]⟩
      · rw [hhas m]
        by_cases hx : m = x.1
        · rw [hx, hm]
          rfl
        · simp only [List.map_cons, List.mem_cons, hx, false_or]
      · rw [missing_present hm]
        exact hpass
    | lookup _ _ hend => cases hend
    | refused _ _ _ hend => cases hend
    | loaded hl hr' hf hi hrest =>
      obtain ⟨hhas, hpass, hdaemon, hlog⟩ := ih (by exact hr') hrest
      refine ⟨fun m => ?_, ?_, hdaemon, ?_⟩
      · rw [hhas m, Loaded.insmod_has hl]
        simp only [List.map_cons, List.mem_cons, Bool.decide_or, Bool.or_assoc]
      · rw [missing_cons hl]
        rintro y hy
        rcases List.mem_cons.mp hy with rfl | hy
        · exact ⟨hi, _, hf⟩
        · exact hpass y hy
      · rw [missing_cons hl, hlog, List.map_cons]
        simp [insmodCommand, hf, Except.toOption]

theorem missing_eq_nil {l : Loaded} (hr : Ready l mods) : missing l mods = [] ↔ ∀ x ∈ mods, l.has x.1 = true := by
  induction mods with
  | nil => simp [missing]
  | cons x mods ih =>
    cases hx : l.has x.1 with
    | true =>
      rw [missing_present hx, ih (hr.skip hx)]
      simp [hx]
    | false =>
      obtain ⟨l', hl, -⟩ := hr.insmod hx
      rw [missing_cons hl]
      simp [hx]

theorem ready_modulesToLoad (l : Loaded) (devices : List Device) : Ready l (modulesToLoad devices) :=
  .inr ⟨none, _, rfl⟩

inductive Stops (env : Env) (p : Profile) (lab : Lab) (e : Error) (lab' : Lab) : Prop
  | mkdir (hm : env.mkdir = false) (hl : lab'.loaded = lab.loaded)
  | load (hm : env.mkdir = true)
      (hl : loadModules env p.moduleDir (modulesToLoad p.devices) [] (lab.ran .mkdir) = (.error e, lab'))
  | write {lab₁} (hm : env.mkdir = true)
      (hl : loadModules env p.moduleDir (modulesToLoad p.devices) [] (lab.ran .mkdir) = (.ok (), lab₁))
      (hw : lab'.loaded = lab₁.loaded)

theorem writeSeed_loaded (env : Env) (seed : Option String) (lab : Lab) :
    (writeSeed env seed lab).2.loaded = lab.loaded := by
  cases seed with
  | none => rfl
  | some text =>
    simp only [writeSeed]
    split <;> rfl

theorem writeModulesList_loaded (env : Env) (devices : List Device) (lab : Lab) :
    (writeModulesList env devices lab).2.loaded = lab.loaded := by
  unfold writeModulesList
  dsimp only
  split <;> rfl

theorem prepare_error {p : Profile} (h : prepare env p lab = (.error e, lab')) : Stops env p lab e lab' := by
  unfold prepare at h
  split at h
  · rename_i hm
    cases h
    exact .mkdir (by simpa using hm) rfl
  · rename_i hm
    have hmk : env.mkdir = true := by simpa using hm
    split at h
    · rename_i hl
      cases h
      exact .load hmk hl
    · rename_i lab₁ hl
      have hseed := writeSeed_loaded env p.seed lab₁
      split at h
      · rename_i hw
        cases h
        rw [hw] at hseed
        exact .write hmk hl hseed
      · rename_i lab₂ hw
        have hlist := writeModulesList_loaded env p.devices lab₂
        rw [h] at hlist
        rw [hw] at hseed
        exact .write hmk hl (hlist.trans hseed)

structure Prepared (env : Env) (p : Profile) (lab lab₁ lab' : Lab) : Prop where
  load : loadModules env p.moduleDir (modulesToLoad p.devices) [] (lab.ran .mkdir) = (.ok (), lab₁)
  loaded : lab'.loaded = lab₁.loaded
  daemon : lab'.daemon = lab₁.daemon
  modulesList : lab'.modulesList = some ((modulesLoadOrder p.devices).filter lab₁.loaded.has)
  log : ∃ c, lab'.log = lab₁.log ++ p.seed.toList.map .seed ++ [.modulesList c]

theorem writeSeed_ok {seed : Option String} (h : writeSeed env seed lab = (.ok (), lab')) :
    lab' = { lab with log := lab.log ++ seed.toList.map .seed } := by
  cases seed with
  | none =>
    cases h
    simp
  | some text =>
    simp only [writeSeed] at h
    split at h
    · cases h
      rfl
    · cases h

theorem prepare_ok {p : Profile} (h : prepare env p lab = (.ok (), lab')) : ∃ lab₁, Prepared env p lab lab₁ lab' := by
  unfold prepare at h
  split at h
  · cases h
  · split at h
    · cases h
    · rename_i lab₁ hl
      split at h
      · cases h
      · rename_i lab₂ hs
        cases writeSeed_ok hs
        simp only [writeModulesList] at h
        split at h
        · cases h
          exact ⟨lab₁, hl, rfl, rfl, rfl, _, rfl⟩
        · cases h

end

end VirtRtLab.Ctl
