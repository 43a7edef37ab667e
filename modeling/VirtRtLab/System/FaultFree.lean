import VirtRtLab.Lib.Deletion
import VirtRtLab.Uart.FaultFree
import VirtRtLab.Gpio.FaultFree
import VirtRtLab.System.Baseline

namespace VirtRtLab.System

open Kernel VirtRtLab.Core Transition

section

variable {U G : Type}

def Sys.attrs (s : Sys U G) : U ⊕ G → FaultAttrs
  | .inl u => (s.uarts u).attrs
  | .inr g => (s.gpios g).attrs

def FaultFree (x : U ⊕ G) (s : Sys U G) (_ : Act U G) : Prop := (s.attrs x).FaultFree

instance (x : U ⊕ G) (s : Sys U G) (a : Act U G) : Decidable (FaultFree x s a) :=
  inferInstanceAs (Decidable (s.attrs x).FaultFree)

def BesideAt (s s' : Sys U G) : U ⊕ G → Prop
  | .inl u => (s.uarts u).Beside (s'.uarts u)
  | .inr g => (s.gpios g).Beside (s'.gpios g)

/-- Two systems that differ in device `x` only, which is fault-free in the one and has its data path at rest in the
other. -/
structure Beside (x : U ⊕ G) (s s' : Sys U G) : Prop where
  bus : s'.bus = s.bus
  core : s'.core = s.core
  count : s'.count = s.count
  device : BesideAt s s' x
  other : ∀ y, y ≠ x → Same s s' y

variable [DecidableEq U] [DecidableEq G]

def own (x : U ⊕ G) : Act U G → Bool
  | .uart u _ => x = .inl u
  | .gpio g _ => x = .inr g
  | _ => false

def dataPath (x : U ⊕ G) : Act U G → Bool
  | .uart u a => decide (x = .inl u) && a.dataPath
  | .gpio g a => decide (x = .inr g) && a.dataPath
  | _ => false

def foreign (x : U ⊕ G) : Obs U G → Bool
  | .uart u _ => x ≠ .inl u
  | .gpio g _ => x ≠ .inr g
  | _ => true

variable {chain : Chain U G} {x : U ⊕ G} {s s' t : Sys U G} {o : List (Obs U G)}

omit [DecidableEq U] [DecidableEq G] in
theorem Beside.move (h : Beside x s s') (b : Bus) (core : CorePc U G) (count : ℕ) :
    Beside x { s with bus := b, core := core, count := count } { s' with bus := b, core := core, count := count } := by
  refine ⟨rfl, rfl, rfl, ?_, ?_⟩
  · cases x <;> exact h.device
  · intro y hy
    cases y <;> exact h.other _ hy

omit [DecidableEq G] in
theorem Beside.setUart (h : Beside x s s') (b : Bus) (u : U) {d e : Uart.Dev} (hx : x = .inl u → d.Beside e)
    (hy : x ≠ .inl u → e = d) : Beside x { s with bus := b, uarts := Function.update s.uarts u d }
      { s' with bus := b, uarts := Function.update s'.uarts u e } := by
  refine ⟨rfl, h.core, h.count, ?_, ?_⟩
  · cases x with
    | inl v =>
      by_cases hv : v = u
      · subst hv
        simpa [BesideAt] using hx rfl
      · simpa [BesideAt, hv] using h.device
    | inr g => exact h.device
  · intro y hne
    cases y with
    | inl v =>
      by_cases hv : v = u
      · subst hv
        simpa [Same] using hy (Ne.symm hne)
      · simpa [Same, hv] using h.other _ hne
    | inr g => exact h.other _ hne

omit [DecidableEq U] in
theorem Beside.setGpio (h : Beside x s s') (b : Bus) (g : G) {d e : Gpio.Dev} (hx : x = .inr g → d.Beside e)
    (hy : x ≠ .inr g → e = d) : Beside x { s with bus := b, gpios := Function.update s.gpios g d }
      { s' with bus := b, gpios := Function.update s'.gpios g e } := by
  refine ⟨rfl, h.core, h.count, ?_, ?_⟩
  · cases x with
    | inl u => exact h.device
    | inr f =>
      by_cases hf : f = g
      · subst hf
        simpa [BesideAt] using hx rfl
      · simpa [BesideAt, hf] using h.device
  · intro y hne
    cases y with
    | inl u => exact h.other _ hne
    | inr f =>
      by_cases hf : f = g
      · subst hf
        simpa [Same] using hy (Ne.symm hne)
      · simpa [Same, hf] using h.other _ hne

omit [DecidableEq G] in
theorem stepUart_eq_some {u : U} {a : Uart.Act} : stepUart s u a = some (t, o) ↔
    ∃ b d o', Uart.machine ⟨s.bus, s.uarts u⟩ a = some (⟨b, d⟩, o') ∧
      t = { s with bus := b, uarts := Function.update s.uarts u d } ∧ o = o'.map (.uart u) := by
  constructor
  · intro h
    obtain ⟨⟨⟨b, d⟩, o'⟩, hm, hr⟩ := Option.map_eq_some_iff.mp h
    cases hr
    exact ⟨b, d, o', hm, rfl, rfl⟩
  · rintro ⟨b, d, o', hm, rfl, rfl⟩
    rw [stepUart, hm]
    rfl

omit [DecidableEq U] in
theorem stepGpio_eq_some {g : G} {a : Gpio.Act} : stepGpio s g a = some (t, o) ↔
    ∃ b d o', Gpio.machine ⟨s.bus, s.gpios g⟩ a = some (⟨b, d⟩, o') ∧
      t = { s with bus := b, gpios := Function.update s.gpios g d } ∧ o = o'.map (.gpio g) := by
  constructor
  · intro h
    obtain ⟨⟨⟨b, d⟩, o'⟩, hm, hr⟩ := Option.map_eq_some_iff.mp h
    cases hr
    exact ⟨b, d, o', hm, rfl, rfl⟩
  · rintro ⟨b, d, o', hm, rfl, rfl⟩
    rw [stepGpio, hm]
    rfl

theorem foreign_uart (u : U) (o : List Uart.Obs) :
    (o.map (Obs.uart (G := G) u)).filter (foreign (.inl u)) = [] := by
  simp [List.filter_map, Function.comp_def, foreign]

theorem foreign_gpio (g : G) (o : List Gpio.Obs) :
    (o.map (Obs.gpio (U := U) g)).filter (foreign (.inr g)) = [] := by
  simp [List.filter_map, Function.comp_def, foreign]

theorem ownUart_ne {a : Uart.Act} (h : ownUart a = true) :
    a ≠ .notifier ∧ (∀ event, a ≠ .notify event) ∧ ∀ b, a ≠ .bus b := by
  cases a <;> simp_all [ownUart]

theorem ownGpio_ne {a : Gpio.Act} (h : ownGpio a = true) :
    a ≠ .notifier ∧ (∀ event, a ≠ .notify event) ∧ ∀ b, a ≠ .bus b := by
  cases a <;> simp_all [ownGpio]

theorem Beside.full {a : Act U G} (h : Beside x s s') (hf : FaultFree x s a) (ho : own x a = true)
    (hm : machine chain s a = some (t, o)) : Beside x t s' ∧ o.filter (foreign x) = [] := by
  cases a with
  | stateStore | core | seedStore => cases ho
  | uart u a =>
    have hx : x = .inl u := by simpa [own] using ho
    subst hx
    simp only [machine] at hm
    split at hm
    · rename_i ha
      obtain ⟨b, d, o', hm', rfl, rfl⟩ := stepUart_eq_some.mp hm
      obtain ⟨hn, he, hb⟩ := ownUart_ne ha
      obtain ⟨rfl, hd⟩ := Uart.Dev.Beside.full h.device hf hn he hb hm'
      have hset := h.setUart s.bus u (fun _ => hd) (fun hne => absurd rfl hne)
      rw [Function.update_eq_self, ← h.bus] at hset
      exact ⟨⟨h.bus, hset.core, hset.count, hset.device, hset.other⟩, foreign_uart u o'⟩
    · cases hm
  | gpio g a =>
    have hx : x = .inr g := by simpa [own] using ho
    subst hx
    simp only [machine] at hm
    split at hm
    · rename_i ha
      obtain ⟨b, d, o', hm', rfl, rfl⟩ := stepGpio_eq_some.mp hm
      obtain ⟨hn, he, hb⟩ := ownGpio_ne ha
      obtain ⟨rfl, hd⟩ := Gpio.Dev.Beside.full h.device hf hn he hb hm'
      have hset := h.setGpio s.bus g (fun _ => hd) (fun hne => absurd rfl hne)
      rw [Function.update_eq_self, ← h.bus] at hset
      exact ⟨⟨h.bus, hset.core, hset.count, hset.device, hset.other⟩, foreign_gpio g o'⟩
    · cases hm

theorem Beside.left {a : Act U G} (h : Beside x s s') (ho : own x a = true) (hg : dataPath x a = false)
    (hm : machine chain s' a = some (t, o)) : Beside x s t ∧ o.filter (foreign x) = [] := by
  cases a with
  | stateStore | core | seedStore => cases ho
  | uart u a =>
    have hx : x = .inl u := by simpa [own] using ho
    subst hx
    have hdata : a.dataPath = false := by simpa [dataPath] using hg
    simp only [machine] at hm
    split at hm
    · rename_i ha
      obtain ⟨b, d, o', hm', rfl, rfl⟩ := stepUart_eq_some.mp hm
      obtain ⟨hn, he, hb⟩ := ownUart_ne ha
      obtain ⟨rfl, hd⟩ := Uart.Dev.Beside.left h.device hdata hn he hb hm'
      have hset := h.setUart s.bus u (fun _ => hd) (fun hne => absurd rfl hne)
      rw [Function.update_eq_self] at hset
      exact ⟨⟨h.bus, hset.core, hset.count, hset.device, hset.other⟩, foreign_uart u o'⟩
    · cases hm
  | gpio g a =>
    have hx : x = .inr g := by simpa [own] using ho
    subst hx
    have hdata : a.dataPath = false := by simpa [dataPath] using hg
    simp only [machine] at hm
    split at hm
    · rename_i ha
      obtain ⟨b, d, o', hm', rfl, rfl⟩ := stepGpio_eq_some.mp hm
      obtain ⟨hn, he, hb⟩ := ownGpio_ne ha
      obtain ⟨rfl, hd⟩ := Gpio.Dev.Beside.left h.device hdata hn he hb hm'
      have hset := h.setGpio s.bus g (fun _ => hd) (fun hne => absurd rfl hne)
      rw [Function.update_eq_self] at hset
      exact ⟨⟨h.bus, hset.core, hset.count, hset.device, hset.other⟩, foreign_gpio g o'⟩
    · cases hm

def Alike (x : U ⊕ G) (t : Sys U G) (o : List (Obs U G)) (r : Option (Sys U G × List (Obs U G))) : Prop :=
  ∃ t' o', r = some (t', o') ∧ Beside x t t' ∧ o'.filter (foreign x) = o.filter (foreign x)

theorem Beside.uart_alike {u : U} {a : Uart.Act} (h : Beside x s s') (hx : x ≠ .inl u)
    (hm : stepUart s u a = some (t, o)) : Alike x t o (stepUart s' u a) := by
  obtain ⟨b, d, o', hm', rfl, rfl⟩ := stepUart_eq_some.mp hm
  have hsame : s'.uarts u = s.uarts u := h.other (.inl u) (Ne.symm hx)
  rw [← hsame, ← h.bus] at hm'
  exact ⟨_, _, stepUart_eq_some.mpr ⟨b, d, o', hm', rfl, rfl⟩,
    h.setUart b u (fun he => absurd he hx) (fun _ => rfl), rfl⟩

theorem Beside.gpio_alike {g : G} {a : Gpio.Act} (h : Beside x s s') (hx : x ≠ .inr g)
    (hm : stepGpio s g a = some (t, o)) : Alike x t o (stepGpio s' g a) := by
  obtain ⟨b, d, o', hm', rfl, rfl⟩ := stepGpio_eq_some.mp hm
  have hsame : s'.gpios g = s.gpios g := h.other (.inr g) (Ne.symm hx)
  rw [← hsame, ← h.bus] at hm'
  exact ⟨_, _, stepGpio_eq_some.mpr ⟨b, d, o', hm', rfl, rfl⟩,
    h.setGpio b g (fun he => absurd he hx) (fun _ => rfl), rfl⟩

theorem Beside.uart_called {u : U} {a : Uart.Act} (h : Beside (.inl u) s s')
    (hc : ∀ {b d o}, Uart.machine ⟨s.bus, s.uarts u⟩ a = some (⟨b, d⟩, o) → b = s.bus ∧
      ∃ e o', Uart.machine ⟨s.bus, s'.uarts u⟩ a = some (⟨s.bus, e⟩, o') ∧ d.Beside e)
    (hm : stepUart s u a = some (t, o)) : Alike (.inl u) t o (stepUart s' u a) := by
  obtain ⟨b, d, o', hm', rfl, rfl⟩ := stepUart_eq_some.mp hm
  obtain ⟨rfl, e, o'', hm'', hd⟩ := hc hm'
  rw [← h.bus] at hm''
  refine ⟨_, _, stepUart_eq_some.mpr ⟨s'.bus, e, o'', hm'', rfl, rfl⟩, ?_, ?_⟩
  · rw [h.bus]
    exact h.setUart s.bus u (fun _ => hd) (fun hne => absurd rfl hne)
  · rw [foreign_uart, foreign_uart]

theorem Beside.gpio_called {g : G} {a : Gpio.Act} (h : Beside (.inr g) s s')
    (hc : ∀ {b d o}, Gpio.machine ⟨s.bus, s.gpios g⟩ a = some (⟨b, d⟩, o) → b = s.bus ∧
      ∃ e o', Gpio.machine ⟨s.bus, s'.gpios g⟩ a = some (⟨s.bus, e⟩, o') ∧ d.Beside e)
    (hm : stepGpio s g a = some (t, o)) : Alike (.inr g) t o (stepGpio s' g a) := by
  obtain ⟨b, d, o', hm', rfl, rfl⟩ := stepGpio_eq_some.mp hm
  obtain ⟨rfl, e, o'', hm'', hd⟩ := hc hm'
  rw [← h.bus] at hm''
  refine ⟨_, _, stepGpio_eq_some.mpr ⟨s'.bus, e, o'', hm'', rfl, rfl⟩, ?_, ?_⟩
  · rw [h.bus]
    exact h.setGpio s.bus g (fun _ => hd) (fun hne => absurd rfl hne)
  · rw [foreign_gpio, foreign_gpio]

theorem Beside.notify {event : BusEvent} {y : U ⊕ G} (h : Beside x s s') (hm : notify s event y = some (t, o)) :
    Alike x t o (System.notify s' event y) := by
  by_cases hx : x = y
  · subst hx
    cases x with
    | inl u => exact h.uart_called (Uart.Dev.Beside.notify h.device) hm
    | inr g => exact h.gpio_called (Gpio.Dev.Beside.notify h.device) hm
  · cases y with
    | inl u => exact h.uart_alike hx hm
    | inr g => exact h.gpio_alike hx hm

theorem Beside.callback {y : U ⊕ G} (h : Beside x s s') (hm : callback s y = some (t, o)) :
    Alike x t o (System.callback s' y) := by
  by_cases hx : x = y
  · subst hx
    cases x with
    | inl u => exact h.uart_called (Uart.Dev.Beside.callback h.device) hm
    | inr g => exact h.gpio_called (Gpio.Dev.Beside.callback h.device) hm
  · cases y with
    | inl u => exact h.uart_alike hx hm
    | inr g => exact h.gpio_alike hx hm

omit [DecidableEq U] [DecidableEq G] in
theorem Beside.busy (h : Beside x s s') (y : U ⊕ G) : s'.busy y = s.busy y := by
  by_cases hx : y = x
  · subst hx
    cases y with
    | inl u =>
      have hphase : (s'.uarts u).notifier.phase = (s.uarts u).notifier.phase := Uart.Dev.Beside.phase h.device
      have hiff : (s'.uarts u).notifier = .idle ↔ (s.uarts u).notifier = .idle := by
        rw [← Uart.phase_idle, hphase, Uart.phase_idle]
      simp only [Sys.busy, ne_eq, hiff]
    | inr g =>
      have hnotifier : (s'.gpios g).notifier = (s.gpios g).notifier := Gpio.Dev.Beside.notifier h.device
      simp only [Sys.busy, hnotifier]
  · exact (h.other y hx).busy

theorem Beside.stateStore {buf : Bytes} (h : Beside x s s') (hm : stateStore chain s buf = some (t, o)) :
    Alike x t o (System.stateStore chain s' buf) := by
  have hset (new : BusState) :
      Alike x (setState chain s new buf.length).1 (setState chain s new buf.length).2
        (some (setState chain s' new buf.length)) := by
    unfold setState
    rw [h.bus]
    split
    · exact ⟨_, _, rfl, h, rfl⟩
    · refine ⟨_, _, rfl, ?_, rfl⟩
      exact h.move _ _ _
  unfold System.stateStore at hm ⊢
  rw [h.core]
  split at hm
  · by_cases hup : sysfsStreq buf [117, 112] = true
    · rw [if_pos hup, Option.some.injEq] at hm
      rw [if_pos hup]
      simpa only [hm] using hset .up
    · rw [if_neg hup] at hm ⊢
      by_cases hdown : sysfsStreq buf [100, 111, 119, 110] = true
      · rw [if_pos hdown, Option.some.injEq] at hm
        rw [if_pos hdown]
        simpa only [hm] using hset .down
      · rw [if_neg hdown] at hm ⊢
        by_cases hreset : sysfsStreq buf [114, 101, 115, 101, 116] = true
        · rw [if_pos hreset] at hm ⊢
          cases hm
          have hmove := h.move s.bus (.call .reset chain.blocks) buf.length
          exact ⟨_, _, rfl, ⟨h.bus, rfl, rfl, hmove.device, hmove.other⟩, rfl⟩
        · rw [if_neg hreset] at hm ⊢
          cases hm
          exact ⟨_, _, rfl, h, rfl⟩
  · cases hm

theorem Beside.seedStore (h : Beside x s s') (buf : Bytes) :
    Alike x (seedStore s buf).1 (seedStore s buf).2 (some (System.seedStore s' buf)) := by
  unfold System.seedStore
  split
  · exact ⟨_, _, rfl, h, rfl⟩
  · split
    · exact ⟨_, _, rfl, h, rfl⟩
    · rename_i value _ _
      have hmove := h.move { s.bus with prngState := value } s.core s.count
      refine ⟨_, _, rfl, ⟨?_, h.core, h.count, hmove.device, hmove.other⟩, rfl⟩
      simp only [h.bus]

theorem Beside.stepCore (h : Beside x s s') (hm : stepCore chain s = some (t, o)) :
    Alike x t o (System.stepCore chain s') := by
  unfold System.stepCore at hm ⊢
  rw [h.core]
  split at hm
  · cases hm
  · rename_i event y rest _
    obtain ⟨⟨t₁, o₁⟩, hn, hr⟩ := Option.map_eq_some_iff.mp hm
    cases hr
    obtain ⟨t', o', hn', hb, ho⟩ := h.notify hn
    have hmove := hb.move t₁.bus (.calling event y rest) t₁.count
    simp only [hn', Option.map_some]
    refine ⟨_, _, rfl, ⟨hb.bus, rfl, hb.count, hmove.device, hmove.other⟩, ?_⟩
    simp [List.filter_cons, foreign, ho]
  · cases hm
    have hmove := h.move s.bus .setUp s.count
    exact ⟨_, _, rfl, ⟨h.bus, rfl, h.count, hmove.device, hmove.other⟩, rfl⟩
  · cases hm
    have hmove := h.move s.bus .idle s.count
    refine ⟨_, _, rfl, ⟨h.bus, rfl, h.count, hmove.device, hmove.other⟩, ?_⟩
    rw [h.count]
  · rename_i event y rest _
    rw [h.busy]
    by_cases hb : s.busy y = true
    · rw [if_pos hb] at hm ⊢
      exact h.callback hm
    · rw [if_neg hb] at hm ⊢
      cases hm
      have hmove := h.move s.bus (.call event rest) s.count
      exact ⟨_, _, rfl, ⟨h.bus, rfl, h.count, hmove.device, hmove.other⟩, rfl⟩
  · cases hm
    have hmove := h.move { s.bus with state := .up } (.call .up chain.blocks) s.count
    refine ⟨_, _, rfl, ⟨?_, rfl, h.count, hmove.device, hmove.other⟩, rfl⟩
    simp only [h.bus]

theorem Beside.both {a : Act U G} (h : Beside x s s') (ho : own x a = false)
    (hm : machine chain s a = some (t, o)) : Alike x t o (machine chain s' a) := by
  cases a with
  | stateStore buf => exact h.stateStore hm
  | core => exact h.stepCore hm
  | seedStore buf =>
    have hs := h.seedStore buf
    rw [Option.some.inj hm] at hs
    exact hs
  | uart u a =>
    have hx : x ≠ .inl u := by simpa [own] using ho
    simp only [machine] at hm ⊢
    by_cases ha : ownUart a = true
    · rw [if_pos ha] at hm ⊢
      exact h.uart_alike hx hm
    · rw [if_neg ha] at hm
      cases hm
  | gpio g a =>
    have hx : x ≠ .inr g := by simpa [own] using ho
    simp only [machine] at hm ⊢
    by_cases ha : ownGpio a = true
    · rw [if_pos ha] at hm ⊢
      exact h.gpio_alike hx hm
    · rw [if_neg ha] at hm
      cases hm

theorem dataPath_own (a : Act U G) (h : dataPath x a = true) : own x a = true := by
  cases a <;> simp_all [dataPath, own]

theorem machine_deletion (chain : Chain U G) (x : U ⊕ G) :
    Deletion (machine chain) (FaultFree x) (own x) (dataPath x) (Beside x) (foreign x) where
  gone_own := dataPath_own
  full _ _ _ _ _ h hf ho hm := h.full hf ho hm
  left _ _ _ _ _ h ho hg hm := h.left ho hg hm
  both _ _ _ _ _ h ho hm := h.both ho hm

/-- The schedule `as'` is `as` without the data path of device `x`, and nobody else notices from `s` on. -/
structure LeftOut (chain : Chain U G) (x : U ⊕ G) (s : Sys U G) (as as' : List (Act U G)) (t : Sys U G)
    (os : List (Obs U G)) : Prop where
  deleted : ∀ a ∈ as', dataPath x a = false
  kept : as'.filter (fun a => !own x a) = as.filter (fun a => !own x a)
  unnoticed : ∃ t' os', exec (machine chain) Always s as' = some (t', os') ∧ t'.bus = t.bus ∧
    (∀ y, y ≠ x → Same t t' y) ∧ os'.filter (foreign x) = os.filter (foreign x)

theorem fault_free_undisturbed {as : List (Act U G)} {os : List (Obs U G)} (h : Beside x s s')
    (he : exec (machine chain) (FaultFree x) s as = some (t, os)) :
    LeftOut chain x s' as (without (machine chain) (own x) (dataPath x) s' as) t os := by
  have hdel := machine_deletion chain x
  constructor
  · exact fun a ha => without_gone ha
  · exact hdel.without_filter s' as
  · obtain ⟨t', os', he', ht, hos⟩ := hdel.exec h he
    exact ⟨t', os', he', ht.bus, ht.other, hos⟩

omit [DecidableEq U] [DecidableEq G] in
theorem beside_start (x : U ⊕ G) : Beside x start start := by
  refine ⟨rfl, rfl, rfl, ?_, ?_⟩
  · cases x with
    | inl u => exact ⟨trivial, rfl, rfl⟩
    | inr g =>
      refine ⟨⟨fun _ => ⟨rfl, trivial⟩, fun k inj hk => ?_⟩, fun _ => rfl, rfl⟩
      simp [start, Gpio.Dev.init, Gpio.Dev.inject?] at hk
  · intro y _
    cases y <;> rfl

end

def mixed : List (Act Unit Unit) :=
  uartActs Uart.openPort ++
    gpioActs [.attrStore .bitflipRatePpm [49, 48, 48, 48, 48, 48, 48], .injectStore [48, 58, 49], .inject 0 true] ++
    uartActs (Uart.write [7] ++ Uart.transmit 7) ++ gpioActs [.inject 0 true, .inject 0 true, .inject 0 true] ++
    .stateStore [100, 111, 119, 110] :: List.replicate 8 .core ++ gpioActs [.inject 0 true]

theorem fault_free_undisturbed_beside_bitflip : ∃ t os,
    exec (machine both) (FaultFree (.inl ())) start mixed = some (t, os) ∧ mixed.countP (dataPath (.inl ())) = 14 ∧
    t.bus.prngState = Bus.init.nextPrngU32 ∧ (t.gpios ()).statBitflips = 1 ∧ (t.uarts ()).statTxBytes = 1 ∧
    LeftOut both (.inl ()) start mixed (without (machine both) (own (.inl ())) (dataPath (.inl ())) start mixed) t os := by
  have hany : (exec (machine both) (FaultFree (.inl ())) start mixed).any (fun r =>
      decide (r.1.bus.prngState = Bus.init.nextPrngU32 ∧ (r.1.gpios ()).statBitflips = 1 ∧
        (r.1.uarts ()).statTxBytes = 1)) = true := by
    decide +kernel
  obtain ⟨⟨t, os⟩, he, hp⟩ := (Option.any_eq_true _ _).mp hany
  obtain ⟨hprng, hflips, htx⟩ := of_decide_eq_true hp
  exact ⟨t, os, he, by decide, hprng, hflips, htx, fault_free_undisturbed (beside_start _) he⟩

end VirtRtLab.System
