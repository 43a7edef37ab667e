import VirtRtLab.Ctl.Load

/-!
The device set of a profile, as the modules, the daemon, the socket poll and the contract have it.
-/

namespace VirtRtLab.Ctl

def passedTo (m : Module) : Command → Option ℤ
  | .insmod m' _ (some (_, count)) => if m' = m then some count else none
  | _ => none

def insmodCount (m : Module) (log : List Command) : ℤ := (log.findSome? (passedTo m)).getD 0

def launchedWith : Command → Option ℤ
  | .daemon numUarts => some numUarts
  | _ => none

def numUarts (log : List Command) : Option ℤ := log.findSome? launchedWith

def Entry.socket? : Entry → Option String
  | .uart entry => some entry.socketPath
  | .gpio _ => none

def uartSockets (contract : List Entry) : List String := contract.filterMap Entry.socket?

def gpioCount (contract : List Entry) : ℕ := contract.countP (fun entry => entry.socket?.isNone)

structure Agreement (devices : List Device) (contract : List Entry) (log : List Command) : Prop where
  uarts : insmodCount .uart log = (uartSockets contract).length
  daemon : numUarts log = some (insmodCount .uart log)
  sockets : ∀ path, path ∈ expectedSockets devices ↔ path ∈ uartSockets contract
  gpios : insmodCount .gpio log = gpioCount contract

def counts (type : DevType) (devices : List Device) : List ℤ :=
  (devices.filter (fun dev => dev.type = type)).map Device.count

structure FirstOnly (devices : List Device) : Prop where
  uart : ∀ count ∈ (counts .uart devices).head?, 0 ≤ count
  uarts : ∀ count ∈ (counts .uart devices).tail, count = 0
  gpio : ∀ count ∈ (counts .gpio devices).head?, 0 ≤ count
  gpios : ∀ count ∈ (counts .gpio devices).tail, count ≤ 0

section

variable {first : ℤ} {cs : List ℤ}

def cumulative : ℤ → List ℤ → List ℤ
  | _, [] => []
  | first, c :: cs => indices first c ++ cumulative (first + c) cs

theorem indices_length (first c : ℤ) : (indices first c).length = c.toNat := by simp [indices]

theorem indices_nonpos {c : ℤ} (h : c ≤ 0) : indices first c = [] := by
  simp [indices, Int.toNat_of_nonpos h]

theorem cumulative_length (first : ℤ) (cs : List ℤ) : (cumulative first cs).length = (cs.map Int.toNat).sum := by
  induction cs generalizing first with
  | nil => rfl
  | cons c cs ih => rw [cumulative, List.length_append, indices_length, ih, List.map_cons, List.sum_cons]

theorem sum_toNat_eq_zero : (cs.map Int.toNat).sum = 0 ↔ ∀ c ∈ cs, c ≤ 0 := by
  induction cs with
  | nil => simp
  | cons c cs ih =>
    rw [List.forall_mem_cons, ← ih]
    simp only [List.map_cons, List.sum_cons]
    omega

theorem cumulative_nonpos (h : ∀ c ∈ cs, c ≤ 0) : cumulative first cs = [] := by
  rw [← List.length_eq_zero_iff, cumulative_length, sum_toNat_eq_zero]
  exact h

theorem sum_le_sum_toNat (cs : List ℤ) : cs.sum ≤ ((cs.map Int.toNat).sum : ℕ) := by
  induction cs with
  | nil => simp
  | cons c cs ih =>
    simp only [List.sum_cons, List.map_cons]
    omega

theorem sum_eq_sum_toNat : cs.sum = ((cs.map Int.toNat).sum : ℕ) ↔ ∀ c ∈ cs, 0 ≤ c := by
  induction cs with
  | nil => simp
  | cons c cs ih =>
    have hle := sum_le_sum_toNat cs
    rw [List.forall_mem_cons, ← ih]
    simp only [List.sum_cons, List.map_cons]
    omega

theorem head_eq_sum_toNat : cs.head?.getD 0 = ((cs.map Int.toNat).sum : ℕ) ↔
    (∀ c ∈ cs.head?, 0 ≤ c) ∧ ∀ c ∈ cs.tail, c ≤ 0 := by
  cases cs with
  | nil => simp
  | cons c cs =>
    rw [List.tail_cons, ← sum_toNat_eq_zero]
    simp only [List.head?_cons, Option.getD_some, Option.mem_some_iff, forall_eq', List.map_cons, List.sum_cons]
    omega

end

section

variable {env : Env} {p : Profile} {lab lab' : Lab} {contract : List Entry}

theorem missing_filter {l : Loaded} {mods : List LoadEntry} (hr : Ready l mods) (m : Module) :
    (missing l mods).filter (fun x => x.1 = m) =
      if l.has m then [] else (mods.filter (fun x => x.1 = m)).take 1 := by
  induction mods generalizing l with
  | nil => simp [missing]
  | cons x mods ih =>
    cases hx : l.has x.1 with
    | true =>
      rw [missing_present hx, ih (hr.skip hx)]
      by_cases hm : x.1 = m
      · subst hm
        simp [hx]
      · simp [hm]
    | false =>
      obtain ⟨l', hl, hr'⟩ := hr.insmod hx
      have hhas : l'.has m = _ := Loaded.insmod_has hl
      rw [missing_cons hl, List.filter_cons, ih hr']
      by_cases hm : x.1 = m
      · subst hm
        simp [hx, hhas]
      · have hne : m ≠ x.1 := fun h => hm h.symm
        simp [hm, hhas, hne]

theorem passedTo_insmod (env : Env) (dir : Option String) (x : LoadEntry) (m : Module) :
    passedTo m (insmodCommand env dir x) = if x.1 = m then x.2.map Prod.snd else none := by
  obtain ⟨m', param⟩ := x
  cases param with
  | none => exact (ite_self none).symm
  | some param => rfl

theorem findSome?_passedTo (env : Env) (dir : Option String) (mods : List LoadEntry) (m : Module) :
    (mods.map (insmodCommand env dir)).findSome? (passedTo m) =
      ((mods.filter (fun x => x.1 = m)).findSome? (fun x => x.2.map Prod.snd)) := by
  induction mods with
  | nil => rfl
  | cons x mods ih =>
    rw [List.map_cons, List.findSome?_cons, passedTo_insmod, ih]
    by_cases hm : x.1 = m
    · simp only [hm, if_true, List.filter_cons, decide_true, List.findSome?_cons]
    · simp only [hm, if_false, List.filter_cons, decide_false, Bool.false_eq_true]

theorem filter_modulesToLoad (t : DevType) (devices : List Device) :
    (modulesToLoad devices).filter (fun x => x.1 = t.module) =
      (devices.filter (fun dev => dev.type = t)).map (fun dev => (t.module, some (t.param, dev.count))) := by
  rw [modulesToLoad, List.filter_cons, if_neg (by simpa using t.module_ne_core.symm)]
  induction devices with
  | nil => rfl
  | cons dev devices ih =>
    by_cases ht : dev.type = t
    · simp [ht, ih]
    · have hm : dev.type.module ≠ t.module := fun h => ht (DevType.module_injective h)
      simp [ht, hm, ih]

theorem loaded_counts (env : Env) (dir : Option String) (t : DevType) (devices : List Device) :
    ((missing .nothing (modulesToLoad devices)).map (insmodCommand env dir)).findSome? (passedTo t.module) =
      (counts t devices).head? := by
  rw [findSome?_passedTo, missing_filter (ready_modulesToLoad _ _), filter_modulesToLoad, counts]
  cases devices.filter (fun dev => dev.type = t) with
  | nil => rfl
  | cons dev rest => rfl

theorem cmdUp_log (h0 : lab.loaded = .nothing) (hd : lab.daemon = false) (hp : (prepare env p lab).1 = .ok ())
    (hl : env.launch = .ok ()) : ∃ c, (cmdUp env p lab).2.log = lab.log ++ .mkdir ::
      (missing .nothing (modulesToLoad p.devices)).map (insmodCommand env p.moduleDir) ++
        p.seed.toList.map .seed ++ [.modulesList c, .daemon (uartCount p.devices)] := by
  obtain ⟨lab₂, hprep⟩ : ∃ lab₂, prepare env p lab = (.ok (), lab₂) := ⟨_, Prod.ext hp rfl⟩
  obtain ⟨lab₁, hpre⟩ := prepare_ok hprep
  have hall := loadModules_ok (ready_modulesToLoad _ _) hpre.load
  obtain ⟨c, hlog⟩ := hpre.log
  have hup : alreadyUp p lab = false := by simp [alreadyUp, hd]
  have hdaemon : lab₂.daemon = false := by rw [hpre.daemon, hall.daemon, Lab.ran_daemon, hd]
  have hbring : (bringUp env p lab₂).2.log = lab₂.log ++ [.daemon (uartCount p.devices)] := by
    simp only [bringUp, launchDaemon, hdaemon, hl, Bool.false_eq_true, if_false]
    split <;> rfl
  refine ⟨c, ?_⟩
  simp only [cmdUp, hup, hprep, Bool.false_eq_true, if_false, hbring, hlog, hall.log, Lab.ran_log, Lab.ran_loaded, h0]
  simp only [List.append_assoc, List.cons_append, List.nil_append]

theorem findSome?_seed {f : Command → Option ℤ} (hf : ∀ text, f (.seed text) = none) (seed : Option String) :
    (seed.toList.map .seed).findSome? f = none := by
  cases seed with
  | none => rfl
  | some text => simp [hf]

theorem findSome?_insmod (env : Env) (dir : Option String) (mods : List LoadEntry) :
    (mods.map (insmodCommand env dir)).findSome? launchedWith = none := by
  rw [List.findSome?_eq_none_iff]
  intro c hc
  obtain ⟨x, -, rfl⟩ := List.mem_map.mp hc
  rfl

theorem cmdUp_counts (h0 : lab.loaded = .nothing) (hd : lab.daemon = false) (hlog : lab.log = [])
    (hp : (prepare env p lab).1 = .ok ()) (hl : env.launch = .ok ()) :
    numUarts (cmdUp env p lab).2.log = some (counts .uart p.devices).sum ∧
      ∀ t : DevType, insmodCount t.module (cmdUp env p lab).2.log = (counts t p.devices).head?.getD 0 := by
  obtain ⟨c, h⟩ := cmdUp_log h0 hd hp hl
  rw [h, hlog, List.nil_append, List.cons_append, List.cons_append]
  constructor
  · rw [numUarts, List.findSome?_cons_of_isNone (by rfl), List.findSome?_append, List.findSome?_append,
      findSome?_insmod, findSome?_seed (fun _ => rfl)]
    rfl
  · intro t
    rw [insmodCount, List.findSome?_cons_of_isNone (by rfl), List.findSome?_append, List.findSome?_append,
      loaded_counts, findSome?_seed (fun _ => rfl)]
    cases (counts t p.devices).head? <;> rfl

theorem expectedSockets_eq (devices : List Device) :
    expectedSockets devices = (counts .uart devices).flatMap (fun count => (indices 0 count).map socketPath) := by
  induction devices with
  | nil => rfl
  | cons dev devices ih =>
    rw [expectedSockets, List.flatMap_cons, ← expectedSockets, ih]
    by_cases ht : dev.type = .uart
    · simp [counts, ht]
    · simp [counts, ht]

end

section

variable {sysfs : ℤ → GpioSysfs}

@[simp] theorem uartSockets_append (xs ys : List Entry) : uartSockets (xs ++ ys) = uartSockets xs ++ uartSockets ys :=
  List.filterMap_append

@[simp] theorem gpioCount_append (xs ys : List Entry) : gpioCount (xs ++ ys) = gpioCount xs + gpioCount ys :=
  List.countP_append

theorem map_eq_ok {α β : Type} {x : Except Error α} {f : α → β} {b : β} (h : x.map f = .ok b) :
    ∃ a, x = .ok a ∧ f a = b := by
  cases x with
  | error e => cases h
  | ok a =>
    cases h
    exact ⟨a, rfl, rfl⟩

theorem gpioEntries_spec {idxs : List ℤ} {entries : List Entry} (h : gpioEntries sysfs idxs = .ok entries) :
    uartSockets entries = [] ∧ gpioCount entries = idxs.length := by
  induction idxs generalizing entries with
  | nil =>
    cases h
    exact ⟨rfl, rfl⟩
  | cons idx idxs ih =>
    unfold gpioEntries at h
    split at h
    · cases h
    · split at h
      · cases h
      · rename_i rest hrest
        cases h
        obtain ⟨hs, hg⟩ := ih hrest
        constructor
        · rw [uartSockets, List.filterMap_cons_none (by rfl)]
          exact hs
        · rw [gpioCount, List.countP_cons_of_pos (by rfl), List.length_cons]
          exact congrArg (· + 1) hg

theorem uartEntries_spec (idxs : List ℤ) :
    uartSockets (idxs.map (fun idx => Entry.uart (uartEntry idx))) = idxs.map socketPath ∧
      gpioCount (idxs.map (fun idx => Entry.uart (uartEntry idx))) = 0 := by
  constructor
  · rw [uartSockets, List.filterMap_map, ← List.filterMap_eq_map]
    rfl
  · rw [gpioCount, List.countP_eq_zero]
    intro entry hentry
    obtain ⟨idx, -, rfl⟩ := List.mem_map.mp hentry
    simp [Entry.socket?]

theorem contractFrom_spec {u g : ℤ} {devices : List Device} {contract : List Entry}
    (h : contractFrom sysfs u g devices = .ok contract) :
    uartSockets contract = (cumulative u (counts .uart devices)).map socketPath ∧
      gpioCount contract = (cumulative g (counts .gpio devices)).length := by
  induction devices generalizing u g contract with
  | nil =>
    cases h
    exact ⟨rfl, rfl⟩
  | cons dev devices ih =>
    obtain ⟨t, count⟩ := dev
    unfold contractFrom at h
    cases t with
    | uart =>
      obtain ⟨rest, hrest, rfl⟩ := map_eq_ok h
      obtain ⟨hs, hg⟩ := ih hrest
      obtain ⟨hs', hg'⟩ := uartEntries_spec (indices u count)
      constructor
      · rw [uartSockets_append, hs, hs', ← List.map_append]
        rfl
      · rw [gpioCount_append, hg, hg', Nat.zero_add]
        rfl
    | gpio =>
      dsimp only at h
      split at h
      · cases h
      · rename_i entries hentries
        obtain ⟨rest, hrest, rfl⟩ := map_eq_ok h
        obtain ⟨hs, hg⟩ := ih hrest
        obtain ⟨hs', hg'⟩ := gpioEntries_spec hentries
        constructor
        · rw [uartSockets_append, hs, hs', List.nil_append]
          rfl
        · rw [gpioCount_append, hg, hg', ← List.length_append]
          rfl

end

theorem sockets_of_first {cs : List ℤ} (h : ∀ c ∈ cs.tail, c = 0) :
    cs.flatMap (fun c => (indices 0 c).map socketPath) = (cumulative 0 cs).map socketPath := by
  cases cs with
  | nil => rfl
  | cons c cs =>
    rw [List.tail_cons] at h
    have hrest : cs.flatMap (fun c => (indices 0 c).map socketPath) = [] := by
      rw [List.flatMap_eq_nil_iff]
      intro x hx
      rw [indices_nonpos (h x hx).le, List.map_nil]
    rw [List.flatMap_cons, hrest, cumulative, cumulative_nonpos fun x hx => (h x hx).le, List.append_nil,
      List.append_nil]

/-- From a kernel without the modules and without a daemon, where every command works, the four agree on the device
set of the profile if and only if no entry after the first of its type adds to it. -/
theorem profile_agreement {env : Env} {p : Profile} {lab : Lab} {contract : List Entry} (h0 : lab.loaded = .nothing)
    (hd : lab.daemon = false) (hlog : lab.log = []) (hp : (prepare env p lab).1 = .ok ()) (hl : env.launch = .ok ())
    (hc : resolveAutContract env.sysfs p.devices = .ok contract) :
    Agreement p.devices contract (cmdUp env p lab).2.log ↔ FirstOnly p.devices := by
  obtain ⟨hnum, hins⟩ := cmdUp_counts h0 hd hlog hp hl
  obtain ⟨hsock, hgpio⟩ := contractFrom_spec hc
  have huarts : insmodCount .uart (cmdUp env p lab).2.log = (uartSockets contract).length ↔
      (∀ c ∈ (counts .uart p.devices).head?, 0 ≤ c) ∧ ∀ c ∈ (counts .uart p.devices).tail, c ≤ 0 := by
    rw [hsock, List.length_map, cumulative_length, ← head_eq_sum_toNat, ← hins .uart]
    rfl
  have hgpios : insmodCount .gpio (cmdUp env p lab).2.log = gpioCount contract ↔
      (∀ c ∈ (counts .gpio p.devices).head?, 0 ≤ c) ∧ ∀ c ∈ (counts .gpio p.devices).tail, c ≤ 0 := by
    rw [hgpio, cumulative_length, ← head_eq_sum_toNat, ← hins .gpio]
    rfl
  have hsum (h : insmodCount .uart (cmdUp env p lab).2.log = (uartSockets contract).length) :
      numUarts (cmdUp env p lab).2.log = some (insmodCount .uart (cmdUp env p lab).2.log) ↔
        ∀ c ∈ counts .uart p.devices, 0 ≤ c := by
    rw [h, hnum, hsock, List.length_map, cumulative_length, Option.some_inj, sum_eq_sum_toNat]
  constructor
  · rintro ⟨hu, hn, -, hg⟩
    obtain ⟨hhead, htail⟩ := huarts.mp hu
    obtain ⟨hhead', htail'⟩ := hgpios.mp hg
    have hall := (hsum hu).mp hn
    exact ⟨hhead, fun c hc => (htail c hc).antisymm (hall c (List.mem_of_mem_tail hc)), hhead', htail'⟩
  · rintro ⟨hhead, htail, hhead', htail'⟩
    have hu := huarts.mpr ⟨hhead, fun c hc => (htail c hc).le⟩
    have hall : ∀ c ∈ counts .uart p.devices, 0 ≤ c := by
      intro c hc
      cases hcs : counts .uart p.devices with
      | nil => simp [hcs] at hc
      | cons x xs =>
        rw [hcs] at hc hhead htail
        rcases List.mem_cons.mp hc with rfl | hc
        · exact hhead c rfl
        · exact (htail c hc).ge
    refine ⟨hu, (hsum hu).mpr hall, fun path => ?_, hgpios.mpr ⟨hhead', htail'⟩⟩
    rw [expectedSockets_eq, sockets_of_first htail, hsock]

def labToml (devices : List (String × ℤ)) : String → Option TomlFile := fun _ =>
  some (.valid ⟨some (some (devices.map fun d => .table (some d.1) (some (some d.2)))), none, none⟩)

theorem profile_agreement_three_entries : ∃ p contract,
    resolveProfile (labToml [("gpio", 2), ("uart", 3), ("uart", 0)]) ⟨none, none, none⟩ = .ok p ∧
      (cmdUp .working p .empty).1 = .ok contract ∧ Agreement p.devices contract (cmdUp .working p .empty).2.log := by
  obtain ⟨contract, hc⟩ : ∃ contract, resolveAutContract Env.working.sysfs [⟨.gpio, 2⟩, ⟨.uart, 3⟩, ⟨.uart, 0⟩] =
      .ok contract := ⟨_, rfl⟩
  have hfirst : FirstOnly [⟨.gpio, 2⟩, ⟨.uart, 3⟩, ⟨.uart, 0⟩] := by constructor <;> decide
  refine ⟨⟨[⟨.gpio, 2⟩, ⟨.uart, 3⟩, ⟨.uart, 0⟩], none, none⟩, contract, rfl, hc, ?_⟩
  exact (profile_agreement rfl rfl rfl rfl rfl hc).mpr hfirst

theorem two_uart_entries_disagree : ¬∀ (files : String → Option TomlFile) (args : Args) (env : Env) (p : Profile)
    (lab : Lab) (contract : List Entry), resolveProfile files args = .ok p → lab.loaded = .nothing →
      lab.daemon = false → lab.log = [] → (prepare env p lab).1 = .ok () → env.launch = .ok () →
        resolveAutContract env.sysfs p.devices = .ok contract →
          Agreement p.devices contract (cmdUp env p lab).2.log := by
  intro h
  have hagree := h (labToml [("uart", 1), ("uart", 1)]) ⟨none, none, none⟩ .working
    ⟨[⟨.uart, 1⟩, ⟨.uart, 1⟩], none, none⟩ .empty _ rfl rfl rfl rfl rfl rfl rfl
  have hone : insmodCount .uart (cmdUp .working ⟨[⟨.uart, 1⟩, ⟨.uart, 1⟩], none, none⟩ .empty).2.log = 1 := rfl
  have hdaemon := hagree.daemon
  rw [hone] at hdaemon
  cases hdaemon

end VirtRtLab.Ctl
