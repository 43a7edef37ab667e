import VirtRtLab.Lib.Transition
import VirtRtLab.Module.Init

/-!
`virtrtlab_core_init`, the exit functions, and any order of `insmod` and `rmmod`. The module loader keeps
`virtrtlab_core` loaded while a module that uses its symbols is. Both parameters are read-only, so that an exit function
sees the number of devices its init function saw.
-/

namespace VirtRtLab.Module

open Ledger Transition
open scoped List

inductive CoreResource where
  | busType | root | rootGroup | buses | bus0 | bus0Group | devices
  deriving DecidableEq

structure CoreRound where
  busRegister : ℤ
  root : Bool
  rootGroup : ℤ
  buses : Bool
  bus0 : Bool
  bus0Group : ℤ
  devices : Bool

-- the labels of `virtrtlab_core_init`, each of which falls through to the one before
def errBusRegister : List (Op CoreResource) := [.release .busType]
def errGroup : List (Op CoreResource) := .release .root :: errBusRegister
def errBuses : List (Op CoreResource) := .release .rootGroup :: errGroup
def errBus0 : List (Op CoreResource) := .release .buses :: errBuses
def errBus0Put : List (Op CoreResource) := .release .bus0 :: errBus0
def errDevices : List (Op CoreResource) := .release .bus0Group :: errBus0Put

def coreResources : List CoreResource := [.busType, .root, .rootGroup, .buses, .bus0, .bus0Group, .devices]

def coreInit (out : CoreRound) : ℤ × List (Op CoreResource) :=
  if out.busRegister ≠ 0 then (out.busRegister, [])
  else if !out.root then (-ENOMEM, [.acquire .busType] ++ errBusRegister)
  else if out.rootGroup ≠ 0 then (out.rootGroup, [.acquire .busType, .acquire .root] ++ errGroup)
  else if !out.buses then (-ENOMEM, [.acquire .busType, .acquire .root, .acquire .rootGroup] ++ errBuses)
  else if !out.bus0 then
    (-ENOMEM, [.acquire .busType, .acquire .root, .acquire .rootGroup, .acquire .buses] ++ errBus0)
  else if out.bus0Group ≠ 0 then
    (out.bus0Group, [.acquire .busType, .acquire .root, .acquire .rootGroup, .acquire .buses, .acquire .bus0] ++
      errBus0Put)
  else if !out.devices then
    (-ENOMEM, [.acquire .busType, .acquire .root, .acquire .rootGroup, .acquire .buses, .acquire .bus0,
      .acquire .bus0Group] ++ errDevices)
  else
    (0, [.acquire .busType, .acquire .root, .acquire .rootGroup, .acquire .buses, .acquire .bus0, .acquire .bus0Group,
      .acquire .devices])

def coreExit : List (Op CoreResource) := .release .devices :: errDevices

structure Loaded where
  num : ℕ
  devs : Devs

def uartExit (m : Loaded) : Option (List (Op Resource)) :=
  (uartUnwind m.num m.devs).map (fun r => [.release .registration] ++ ops r.1 ++ ops [.ttyDriverKrefPut])

def gpioExit (m : Loaded) : Option (List (Op Resource)) :=
  (gpioUnwind m.num m.devs).map (fun r => ops r.1 ++ ops [.kfree])

inductive Owned where
  | core (r : CoreResource)
  | uart (r : Resource)
  | gpio (r : Resource)
  deriving DecidableEq

structure Kernel where
  core : Bool
  uart : Option Loaded
  gpio : Option Loaded
  oops : Bool

inductive Act where
  | insmodCore (out : CoreRound)
  | insmodUart (num : ℕ) (alloc register : ℤ) (out : ℕ → UartRound)
  | insmodGpio (num : ℕ) (kcalloc : Bool) (out : ℕ → GpioRound)
  | rmmodCore
  | rmmodUart
  | rmmodGpio

def loadedAfter (ret : ℤ) (num : ℕ) (devs : Devs) : Option Loaded := if ret = 0 then some ⟨num, devs⟩ else none

/-- One request to the module loader, with every call the module makes; `none` is a request that the loader refuses. -/
def machine : Machine Kernel Act (Op Owned) := fun k a =>
  if k.oops then none
  else
    match a with
    | .insmodCore out =>
      if k.core then none
      else some ({ k with core := (coreInit out).1 = 0 }, (coreInit out).2.map (Op.map .core))
    | .insmodUart num alloc register out =>
      if !k.core || k.uart.isSome then none
      else
        match uartInit num alloc register out with
        | none => some ({ k with oops := true }, [])
        | some (ret, log, devs) => some ({ k with uart := loadedAfter ret num devs }, (ops log).map (Op.map .uart))
    | .insmodGpio num kcalloc out =>
      if !k.core || k.gpio.isSome then none
      else
        match gpioInit num kcalloc out with
        | none => some ({ k with oops := true }, [])
        | some (ret, log, devs) => some ({ k with gpio := loadedAfter ret num devs }, (ops log).map (Op.map .gpio))
    | .rmmodCore =>
      if !k.core || k.uart.isSome || k.gpio.isSome then none
      else some ({ k with core := false }, coreExit.map (Op.map .core))
    | .rmmodUart =>
      match k.uart with
      | none => none
      | some m =>
        match uartExit m with
        | none => some ({ k with oops := true }, [])
        | some log => some ({ k with uart := none }, log.map (Op.map .uart))
    | .rmmodGpio =>
      match k.gpio with
      | none => none
      | some m =>
        match gpioExit m with
        | none => some ({ k with oops := true }, [])
        | some log => some ({ k with gpio := none }, log.map (Op.map .gpio))

def booted : Kernel := ⟨false, none, none, false⟩

def uartResources (num : ℕ) : List Resource := .registration :: ((rounds uartRound num).reverse ++ [.driver])

def gpioResources (num : ℕ) : List Resource := (rounds gpioRound num).reverse ++ [.array]

def part (resources : ℕ → List Resource) : Option Loaded → List Resource
  | none => []
  | some m => resources m.num

def Kernel.resources (k : Kernel) : List Owned :=
  (if k.core then coreResources.reverse else []).map .core ++
    ((part uartResources k.uart).map .uart ++ (part gpioResources k.gpio).map .gpio)

theorem coreInit_held (out : CoreRound) :
    held [] (coreInit out).2 = some (if (coreInit out).1 = 0 then coreResources.reverse else []) := by
  unfold coreInit
  split
  · rfl
  · split
    · rfl
    · split
      · rfl
      · split
        · rfl
        · split
          · rfl
          · split
            · rfl
            · split
              · rfl
              · rfl

theorem coreExit_held : held coreResources.reverse coreExit = some [] := rfl

def Loaded.Whole (m : Loaded) : Prop := ∀ j < m.num, m.devs j = some j

theorem held_acquired {log : List Call} {rs : List Resource} (h : ops log = rs.map .acquire) :
    held [] (ops log) = some rs.reverse := by
  have hs := stack_acquire (h := []) rs
  rw [List.append_nil] at hs
  rw [h]
  exact held_of_stack hs

structure Begun (num : ℕ) (resources : ℕ → List Resource) (log : List Call) (devs : Devs) : Prop where
  held : Ledger.held [] (ops log) = some (resources num)
  whole : ∀ j < num, devs j = some j

theorem uartInit_begun {num : ℕ} {alloc register : ℤ} {out : ℕ → UartRound} {log : List Call} {devs : Devs}
    (h : uartInit num alloc register out = some (0, log, devs)) : Begun num uartResources log devs := by
  unfold uartInit at h
  dsimp only at h
  by_cases hnum : num = 0 ∨ UART_MAX_DEVICES < num
  · rw [if_pos hnum] at h
    cases h
  · rw [if_neg hnum] at h
    by_cases halloc : alloc = 0
    · rw [if_neg (not_not.mpr halloc)] at h
      obtain ⟨⟨ret, i, log', devs'⟩, hadd⟩ : ∃ r, addAll (uartAdd out) num 0 (fun _ => none) = r := ⟨_, rfl⟩
      rw [hadd] at h
      dsimp only at h
      by_cases hret : ret = 0
      · rw [if_neg (not_not.mpr hret)] at h
        rw [hret] at hadd
        obtain ⟨hi, hset, -, hops⟩ := addAll_ok (uartAdd_adds out) filled_start hadd
        rw [Nat.zero_add] at hi
        rw [hi] at hset hops
        by_cases hreg : register = 0
        · rw [if_neg (not_not.mpr hreg)] at h
          cases h
          refine ⟨?_, hset.1⟩
          have hlog : ops ([.ttyAllocDriver 0] ++ log' ++ [.ttyRegisterDriver 0]) =
              (.driver :: (rounds uartRound num ++ [.registration])).map .acquire := by
            have hall : ops log' = (rounds uartRound num).map .acquire := hops
            rw [ops_append, ops_append, hall, List.map_cons, List.map_append]
            rfl
          rw [held_acquired hlog]
          simp [uartResources]
        · rw [if_pos hreg] at h
          obtain ⟨r, -, hr⟩ := Option.map_eq_some_iff.mp h
          exact absurd (Prod.mk.inj hr).1 hreg
      · rw [if_pos hret] at h
        obtain ⟨r, -, hr⟩ := Option.map_eq_some_iff.mp h
        exact absurd (Prod.mk.inj hr).1 hret
    · rw [if_pos halloc] at h
      exact absurd (Prod.mk.inj (Option.some.inj h)).1 halloc

theorem gpioInit_begun {num : ℕ} {kcalloc : Bool} {out : ℕ → GpioRound} {log : List Call} {devs : Devs}
    (h : gpioInit num kcalloc out = some (0, log, devs)) : Begun num gpioResources log devs := by
  unfold gpioInit at h
  dsimp only at h
  by_cases hnum : num = 0 ∨ GPIO_MAX_DEVS < num
  · rw [if_pos hnum] at h
    cases h
  · rw [if_neg hnum] at h
    cases kcalloc with
    | false => cases h
    | true =>
      rw [if_neg (by decide)] at h
      obtain ⟨⟨ret, n, log', devs'⟩, hadd⟩ : ∃ r, addAll (gpioAdd out) num 0 (fun _ => none) = r := ⟨_, rfl⟩
      rw [hadd] at h
      dsimp only at h
      by_cases hret : ret = 0
      · rw [if_neg (not_not.mpr hret)] at h
        rw [hret] at hadd
        obtain ⟨hn, hset, -, hops⟩ := addAll_ok (gpioAdd_adds out) filled_start hadd
        rw [Nat.zero_add] at hn
        rw [hn] at hset hops
        cases h
        refine ⟨?_, hset.1⟩
        have hlog : ops ([.kcalloc true] ++ log') = (.array :: rounds gpioRound num).map .acquire := by
          have hall : ops log' = (rounds gpioRound num).map .acquire := hops
          rw [ops_append, hall, List.map_cons]
          rfl
        rw [held_acquired hlog]
        simp [gpioResources]
      · rw [if_pos hret] at h
        obtain ⟨r, -, hr⟩ := Option.map_eq_some_iff.mp h
        exact absurd (Prod.mk.inj hr).1 hret

def Settles (result : Option (ℤ × List Call × Devs)) (num : ℕ) (resources : ℕ → List Resource) : Prop :=
  ∃ ret log devs, result = some (ret, log, devs) ∧
    held [] (ops log) = some (part resources (loadedAfter ret num devs)) ∧
    ∀ m, loadedAfter ret num devs = some m → m.Whole

theorem settles_of_unwinds {result : Option (ℤ × List Call × Devs)} {num : ℕ} {resources : ℕ → List Resource}
    (h : Unwinds result) (hb : ∀ log devs, result = some (0, log, devs) → Begun num resources log devs) :
    Settles result num resources := by
  obtain ⟨ret, log, devs, hr, -, hundone⟩ := h
  refine ⟨ret, log, devs, hr, ?_⟩
  by_cases hret : ret = 0
  · rw [hret] at hr
    have hbegun := hb log devs hr
    have hsome : loadedAfter ret num devs = some ⟨num, devs⟩ := if_pos hret
    rw [hsome]
    refine ⟨hbegun.held, fun m hm => ?_⟩
    cases hm
    exact hbegun.whole
  · have hnone : loadedAfter ret num devs = none := if_neg hret
    rw [hnone]
    refine ⟨held_of_stack (hundone hret).stack, fun m hm => ?_⟩
    cases hm

theorem settles_refused (num : ℕ) (devs : Devs) (resources : ℕ → List Resource) :
    Settles (some (-EINVAL, [], devs)) num resources := by
  refine ⟨-EINVAL, [], devs, rfl, rfl, fun m hm => ?_⟩
  cases hm

theorem uartInit_settles (num : ℕ) (alloc register : ℤ) (out : ℕ → UartRound) :
    Settles (uartInit num alloc register out) num uartResources := by
  by_cases hnum : num = 0 ∨ UART_MAX_DEVICES < num
  · have hrefused : uartInit num alloc register out = some (-EINVAL, [], fun _ => none) := if_pos hnum
    rw [hrefused]
    exact settles_refused num _ _
  · have hunwinds := uartInit_unwinds (by omega : 1 ≤ num) (by omega : num ≤ UART_MAX_DEVICES) alloc register out
    exact settles_of_unwinds hunwinds fun log devs h => uartInit_begun h

theorem gpioInit_settles (num : ℕ) (kcalloc : Bool) (out : ℕ → GpioRound) :
    Settles (gpioInit num kcalloc out) num gpioResources := by
  by_cases hnum : num = 0 ∨ GPIO_MAX_DEVS < num
  · have hrefused : gpioInit num kcalloc out = some (-EINVAL, [], fun _ => none) := if_pos hnum
    rw [hrefused]
    exact settles_refused num _ _
  · have hunwinds := gpioInit_unwinds (by omega : 1 ≤ num) (by omega : num ≤ GPIO_MAX_DEVS) kcalloc out
    exact settles_of_unwinds hunwinds fun log devs h => gpioInit_begun h

theorem uartExit_spec {m : Loaded} (h : m.Whole) :
    ∃ log, uartExit m = some log ∧ held (uartResources m.num) log = some [] := by
  obtain ⟨log, devs, hlog, -, hops⟩ := uartUnwind_spec h
  refine ⟨_, by rw [uartExit, hlog, Option.map_some], ?_⟩
  have hrounds := stack_release (h := [.driver]) (rounds uartRound m.num).reverse
  have hlast : stack [.driver] (ops [.ttyDriverKrefPut]) = some [] := rfl
  rw [← hops] at hrounds
  exact held_of_stack (stack_trans hrounds hlast)

theorem gpioExit_spec {m : Loaded} (h : m.Whole) :
    ∃ log, gpioExit m = some log ∧ held (gpioResources m.num) log = some [] := by
  obtain ⟨log, devs, hlog, -, hops⟩ := gpioUnwind_spec h
  refine ⟨_, by rw [gpioExit, hlog, Option.map_some], ?_⟩
  have hrounds := stack_release (h := [.array]) (rounds gpioRound m.num).reverse
  have hlast : stack [.array] (ops [.kfree]) = some [] := rfl
  rw [← hops] at hrounds
  exact held_of_stack (stack_trans hrounds hlast)

structure Lawful (os : List (Op Owned)) (k : Kernel) : Prop where
  runs : k.oops = false
  uart : ∀ m, k.uart = some m → m.Whole
  gpio : ∀ m, k.gpio = some m → m.Whole
  held : ∃ h, Ledger.held [] os = some h ∧ h ~ k.resources

section

variable {os o : List (Op Owned)} {k t : Kernel} {h : List Owned}

theorem held_core {log : List (Op CoreResource)} {before after : List CoreResource} {rest : List Owned}
    (hh : h ~ before.map .core ++ rest) (hl : Ledger.held before log = some after) :
    ∃ h', Ledger.held h (log.map (Op.map .core)) = some h' ∧ h' ~ after.map .core ++ rest :=
  held_part hh (held_map (fun _ _ he => Owned.core.inj he) hl)

theorem held_uart {log : List (Op Resource)} {before after : List Resource} {core gpio : List Owned}
    (hh : h ~ core ++ (before.map .uart ++ gpio)) (hl : Ledger.held before log = some after) :
    ∃ h', Ledger.held h (log.map (Op.map .uart)) = some h' ∧ h' ~ core ++ (after.map .uart ++ gpio) := by
  have hfront := hh.trans (List.perm_append_comm_assoc core (before.map .uart) gpio)
  obtain ⟨h', hh', hp⟩ := held_part hfront (held_map (fun _ _ he => Owned.uart.inj he) hl)
  exact ⟨h', hh', hp.trans (List.perm_append_comm_assoc (after.map .uart) core gpio)⟩

theorem held_gpio {log : List (Op Resource)} {before after : List Resource} {core uart : List Owned}
    (hh : h ~ core ++ (uart ++ before.map .gpio)) (hl : Ledger.held before log = some after) :
    ∃ h', Ledger.held h (log.map (Op.map .gpio)) = some h' ∧ h' ~ core ++ (uart ++ after.map .gpio) := by
  rw [← List.append_assoc] at hh
  obtain ⟨h', hh', hp⟩ := held_part (hh.trans List.perm_append_comm) (held_map (fun _ _ he => Owned.gpio.inj he) hl)
  refine ⟨h', hh', ?_⟩
  rw [← List.append_assoc]
  exact hp.trans List.perm_append_comm

theorem Lawful.step (hk : Lawful os k) (hruns : t.oops = false) (hu : ∀ m, t.uart = some m → m.Whole)
    (hg : ∀ m, t.gpio = some m → m.Whole)
    (hh : ∀ h, h ~ k.resources → ∃ h', Ledger.held h o = some h' ∧ h' ~ t.resources) : Lawful (os ++ o) t := by
  obtain ⟨h, hos, hp⟩ := hk.held
  obtain ⟨h', ho, hp'⟩ := hh h hp
  exact ⟨hruns, hu, hg, h', held_trans hos ho, hp'⟩

theorem machine_lawful {a : Act} (hk : Lawful os k) (hm : machine k a = some (t, o)) : Lawful (os ++ o) t := by
  have hruns := hk.runs
  unfold machine at hm
  rw [hruns, if_neg (by decide)] at hm
  split at hm
  · rename_i out
    split at hm
    · cases hm
    · rename_i hcore
      cases hm
      refine hk.step rfl hk.uart hk.gpio fun h hp => ?_
      simp only [Kernel.resources, if_neg hcore] at hp
      obtain ⟨h', hh', hp'⟩ := held_core hp (coreInit_held out)
      refine ⟨h', hh', ?_⟩
      simpa only [Kernel.resources, decide_eq_true_eq] using hp'
  · rename_i num alloc register out
    split at hm
    · cases hm
    · rename_i hfree
      obtain ⟨ret, log, devs, hr, hheld, hwhole⟩ := uartInit_settles num alloc register out
      have hnone : k.uart = none := by
        rw [Bool.or_eq_true, not_or, Option.not_isSome_iff_eq_none] at hfree
        exact hfree.2
      rw [hr] at hm
      cases hm
      refine hk.step rfl hwhole hk.gpio fun h hp => ?_
      simp only [Kernel.resources, hnone, part] at hp
      exact held_uart hp hheld
  · rename_i num kcalloc out
    split at hm
    · cases hm
    · rename_i hfree
      obtain ⟨ret, log, devs, hr, hheld, hwhole⟩ := gpioInit_settles num kcalloc out
      have hnone : k.gpio = none := by
        rw [Bool.or_eq_true, not_or, Option.not_isSome_iff_eq_none] at hfree
        exact hfree.2
      rw [hr] at hm
      cases hm
      refine hk.step rfl hk.uart hwhole fun h hp => ?_
      simp only [Kernel.resources, hnone, part] at hp
      exact held_gpio hp hheld
  · split at hm
    · cases hm
    · rename_i hfree
      have hcore : k.core = true := by
        simp only [Bool.or_eq_true, not_or, Bool.not_eq_true', Bool.not_eq_false] at hfree
        exact hfree.1.1
      cases hm
      refine hk.step rfl hk.uart hk.gpio fun h hp => ?_
      simp only [Kernel.resources, hcore, if_true] at hp
      exact held_core hp coreExit_held
  · split at hm
    · cases hm
    · rename_i m hloaded
      obtain ⟨log, hlog, hheld⟩ := uartExit_spec (hk.uart m hloaded)
      rw [hlog] at hm
      cases hm
      refine hk.step rfl (fun m hm => by cases hm) hk.gpio fun h hp => ?_
      simp only [Kernel.resources, hloaded, part] at hp
      exact held_uart hp hheld
  · split at hm
    · cases hm
    · rename_i m hloaded
      obtain ⟨log, hlog, hheld⟩ := gpioExit_spec (hk.gpio m hloaded)
      rw [hlog] at hm
      cases hm
      refine hk.step rfl hk.uart (fun m hm => by cases hm) fun h hp => ?_
      simp only [Kernel.resources, hloaded, part] at hp
      exact held_gpio hp hheld

end

/-- In any order of loads and unloads, with any failures, no module faults or releases what is not its own, and what is
held is what the loaded modules hold: nothing once they are unloaded. -/
theorem modules_leave_nothing {os : List (Op Owned)} {k : Kernel} (h : Run machine Always booted os k) :
    k.oops = false ∧ (∃ held, Ledger.held [] os = some held ∧ held ~ k.resources) ∧
      (k.core = false → k.uart = none → k.gpio = none → Ledger.held [] os = some []) := by
  have hlaw : Lawful os k := by
    apply h.history (fun os k => Lawful os k)
    · exact ⟨rfl, fun _ hm => absurd hm nofun, fun _ hm => absurd hm nofun, [], rfl, List.Perm.refl []⟩
    · intro os k a t o hk _ hm
      exact machine_lawful hk hm
  refine ⟨hlaw.runs, hlaw.held, fun hc hu hg => ?_⟩
  obtain ⟨held, hos, hp⟩ := hlaw.held
  have hempty : k.resources = [] := by simp [Kernel.resources, hc, hu, hg, part]
  rw [hempty] at hp
  rw [hos, hp.eq_nil]

def reloaded : List Act :=
  [.insmodCore ⟨0, true, 0, true, true, 0, true⟩, .insmodUart 2 0 0 secondMisc, .insmodUart 2 0 0 (fun _ => ⟨true, 0, 0, 0⟩),
    .insmodGpio 4 true thirdChip, .rmmodUart, .rmmodCore]

theorem modules_leave_nothing_reloaded : ∃ os k, Run machine Always booted os k ∧ os.length = 72 ∧
    k.core = false ∧ Ledger.held [] os = some [] := by
  obtain ⟨os, k, hrun, hlen, hc, hu, hg⟩ := Run.exists_of_exec (M := machine) (P := Always) (s := booted) reloaded
    (fun os k => os.length = 72 ∧ k.core = false ∧ k.uart.isNone = true ∧ k.gpio.isNone = true) (by decide +kernel)
  have h := modules_leave_nothing hrun
  exact ⟨os, k, hrun, hlen, hc, h.2.2 hc (Option.isNone_iff_eq_none.mp hu) (Option.isNone_iff_eq_none.mp hg)⟩

end VirtRtLab.Module
