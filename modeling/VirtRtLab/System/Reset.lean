import VirtRtLab.System.Steps

namespace VirtRtLab.System

open Kernel VirtRtLab.Core Transition

section

variable {U G : Type}

structure Untouched (s t : Sys U G) : Prop where
  prng : t.bus.prngState = s.bus.prngState
  uarts : ∀ u, (t.uarts u).settings = (s.uarts u).settings
  lines : ∀ g, (t.gpios g).face = (s.gpios g).face

structure Baseline (s : Sys U G) : Prop where
  state : s.bus.state = .up
  uartAttrs : ∀ u, (s.uarts u).attrs = .default
  uartStats : ∀ u st, (s.uarts u).stat st = 0
  txFifo : ∀ u, (s.uarts u).txFifo.data = []
  gpioAttrs : ∀ g, (s.gpios g).attrs = .default
  valueChanges : ∀ g, (s.gpios g).statValueChanges = 0
  drops : ∀ g, (s.gpios g).statDrops = 0
  bitflips : ∀ g, (s.gpios g).statBitflips = 0

/-- Only the TX engines of the UARTs have moved: no line, counter, `rx_fifo` or draw. -/
structure Undisturbed (s t : Sys U G) : Prop where
  bus : t.bus = s.bus
  uarts : ∀ u, (t.uarts u).still = (s.uarts u).still
  gpios : t.gpios = s.gpios

def Act.internal : Act U G → Bool
  | .uart _ a => a.internal
  | .gpio _ a => a.internal
  | _ => false

def Internal (_ : Sys U G) (a : Act U G) : Prop := a.internal = true

instance (s : Sys U G) (a : Act U G) : Decidable (Internal s a) := inferInstanceAs (Decidable (_ = true))

def Alongside (_ : Sys U G) : Act U G → Prop
  | .core => True
  | a => a.internal = true

instance (s : Sys U G) (a : Act U G) : Decidable (Alongside s a) := by
  unfold Alongside
  split <;> infer_instance

/-- When a RESET resets `tx_fifo`, no `tx_work`, started again by a timer that it armed itself after the
`hrtimer_cancel`, is in the middle of a burst. -/
def Flushes (s : Sys U G) : Act U G → Prop
  | .core =>
    match s.core with
    | .calling _ (.inl u) _ => (s.uarts u).notifier = .resetFlush → (s.uarts u).txWork.settled = true
    | _ => True
  | _ => True

instance (s : Sys U G) (a : Act U G) : Decidable (Flushes s a) := by
  unfold Flushes
  repeat' split
  all_goals infer_instance

def Resets (s : Sys U G) (a : Act U G) : Prop := Alongside s a ∧ Flushes s a

instance (s : Sys U G) (a : Act U G) : Decidable (Resets s a) := inferInstanceAs (Decidable (_ ∧ _))

/-- No `tx_work` draws, and no `apply_work` draws or commits a level that an input line does not have. -/
def Unmoved (s : Sys U G) : Act U G → Prop
  | .uart u (.work _) => (s.uarts u).txWork.draws = 0
  | .gpio g (.work ℓ) => (s.gpios g).moves ℓ = false
  | _ => True

instance (s : Sys U G) (a : Act U G) : Decidable (Unmoved s a) := by
  unfold Unmoved
  split <;> infer_instance

def Spares (s : Sys U G) (a : Act U G) : Prop := Resets s a ∧ Unmoved s a

instance (s : Sys U G) (a : Act U G) : Decidable (Spares s a) := inferInstanceAs (Decidable (_ ∧ _))

theorem Untouched.refl {s : Sys U G} : Untouched s s := ⟨rfl, fun _ => rfl, fun _ => rfl⟩

theorem Untouched.trans {s t u : Sys U G} (h : Untouched s t) (h' : Untouched t u) : Untouched s u :=
  ⟨h'.prng.trans h.prng, fun v => (h'.uarts v).trans (h.uarts v), fun g => (h'.lines g).trans (h.lines g)⟩

theorem Undisturbed.trans {s t u : Sys U G} (h : Undisturbed s t) (h' : Undisturbed t u) : Undisturbed s u :=
  ⟨h'.bus.trans h.bus, fun v => (h'.uarts v).trans (h.uarts v), h'.gpios.trans h.gpios⟩

def Resetting (s : Sys U G) : U ⊕ G → Prop
  | .inl u => (s.uarts u).Resetting
  | .inr g => (s.gpios g).Resetting

theorem Same.resetting {s t : Sys U G} {x : U ⊕ G} (h : Same s t x) (hr : Resetting s x) : Resetting t x := by
  cases x with
  | inl u =>
    have hu : t.uarts u = s.uarts u := h
    rw [Resetting, hu]
    exact hr
  | inr g =>
    have hg : t.gpios g = s.gpios g := h
    rw [Resetting, hg]
    exact hr

def Reached : CorePc U G → U ⊕ G → Prop
  | .call .reset rest, y => y ∉ rest
  | .calling .reset x rest, y => y = x ∨ y ∉ rest
  | _, _ => True

def UpAgain (state : BusState) : CorePc U G → Prop
  | .call .reset _ | .calling .reset _ _ | .setUp => True
  | .call .up _ | .calling .up _ _ | .idle => state = .up
  | .call .down _ | .calling .down _ _ => False

structure Underway (s : Sys U G) : Prop where
  busy : ∀ x, s.busy x = true → ∃ rest, s.core = .calling .reset x rest
  reached : ∀ x, Reached s.core x → Resetting s x
  up : UpAgain s.bus.state s.core

structure Moves (s t : Sys U G) : Prop where
  core : t.core = s.core
  state : t.bus.state = s.bus.state
  busy : ∀ x, t.busy x = s.busy x
  resetting : ∀ x, Resetting s x → Resetting t x

structure Calls (s t : Sys U G) (x : U ⊕ G) : Prop where
  bus : t.bus = s.bus
  core : t.core = s.core
  other : ∀ y, y ≠ x → Same s t y
  untouched : Untouched s t

def cost (s : Sys U G) : U ⊕ G → ℕ
  | .inl u => (s.uarts u).notifier.cost
  | .inr g => (s.gpios g).notifier.cost

def workCost (s : Sys U G) : U ⊕ G → ℕ
  | .inl u => (s.uarts u).txWork.toGo
  | .inr g =>
    match (s.gpios g).notifier with
    | .cancelWork ℓ => ((s.gpios g).lines ℓ).work.cost
    | _ => 0

theorem Underway.moves {s t : Sys U G} (h : Underway s) (hm : Moves s t) : Underway t := by
  constructor
  · intro x hx
    rw [hm.busy] at hx
    rw [hm.core]
    exact h.busy x hx
  · intro x hx
    rw [hm.core] at hx
    exact hm.resetting x (h.reached x hx)
  · rw [hm.core, hm.state]
    exact h.up

theorem Underway.calm {s : Sys U G} (h : Underway s) (hc : ∀ x rest, s.core ≠ .calling .reset x rest) (x : U ⊕ G) :
    s.busy x = false := by
  cases hx : s.busy x with
  | false => rfl
  | true =>
    obtain ⟨rest, hcore⟩ := h.busy x hx
    exact absurd hcore (hc x rest)

theorem underway_of_calm {s : Sys U G} (hb : ∀ x, s.busy x = false) (hr : ∀ x, Reached s.core x → Resetting s x)
    (hu : UpAgain s.bus.state s.core) : Underway s := by
  refine ⟨fun x hx => ?_, hr, hu⟩
  rw [hb] at hx
  cases hx

theorem Underway.next {s : Sys U G} {event : BusEvent} {x : U ⊕ G} {rest : List (U ⊕ G)} (h : Underway s)
    (hc : s.core = .calling event x rest) (hb : s.busy x = false) : Underway { s with core := .call event rest } := by
  have hup := h.up
  have hreached := h.reached
  rw [hc] at hup hreached
  apply underway_of_calm
  · intro y
    cases hy : s.busy y with
    | false => exact hy
    | true =>
      obtain ⟨rest', hc'⟩ := h.busy y hy
      rw [hc] at hc'
      cases hc'
      rw [hb] at hy
      cases hy
  · intro y hy
    cases event with
    | reset => exact hreached y (.inr hy)
    | up | down => exact hreached y trivial
  · cases event with
    | reset => trivial
    | up => exact hup
    | down => exact hup.elim

end

section

variable {U G : Type} [DecidableEq U] [DecidableEq G] {chain : Chain U G} {s t : Sys U G} {o : List (Obs U G)}

variable (chain) in
/-- What a `reset` under way in `s` yields, along the steps that meet `P`: it can always come to its end, all along it
touches nothing that it is to keep, and at its end the baseline stands and stays. -/
def ResetYields (P : Sys U G → Act U G → Prop) (s : Sys U G) : Prop :=
  ∀ os t, Run (machine chain) P s os t →
    (∃ os' u, Run (machine chain) Alongside t os' u ∧ u.core = .idle) ∧ Untouched s t ∧
    (t.core = .idle → Baseline t ∧ ∀ os' u, Run (machine chain) Internal t os' u → Baseline u ∧ Undisturbed t u)

theorem UartStep.moves {u : U} {a : Uart.Act} (h : UartStep s t u a) (ha : a.internal = true) : Moves s t := by
  obtain ⟨o, hm⟩ := h.step
  obtain ⟨hn, -, hb⟩ := Uart.internal_frame ha hm
  constructor
  · exact h.core
  · exact hb
  · intro x
    by_cases hx : x = .inl u
    · subst hx
      simp only [Sys.busy]
      rw [hn]
    · exact (h.other x hx).busy
  · intro x hr
    by_cases hx : x = .inl u
    · subst hx
      exact Uart.internal_resetting ha hm hr
    · exact (h.other x hx).resetting hr

theorem GpioStep.moves {g : G} {a : Gpio.Act} (h : GpioStep s t g a) (ha : a.internal = true) : Moves s t := by
  obtain ⟨o, hm⟩ := h.step
  obtain ⟨ℓ, hstir⟩ := Gpio.internal_stir ha hm
  constructor
  · exact h.core
  · exact hstir.busState
  · intro x
    by_cases hx : x = .inr g
    · subst hx
      simp only [Sys.busy]
      rw [hstir.notifier]
    · exact (h.other x hx).busy
  · intro x hr
    by_cases hx : x = .inr g
    · subst hx
      exact hstir.resetting hr
    · exact (h.other x hx).resetting hr

theorem internal_cases {a : Act U G} (ha : a.internal = true) (hm : machine chain s a = some (t, o)) :
    (∃ u a, a.internal = true ∧ UartStep s t u a) ∨ ∃ g a, a.internal = true ∧ GpioStep s t g a := by
  cases a with
  | uart u a =>
    simp only [machine] at hm
    split at hm
    · exact .inl ⟨u, a, ha, stepUart_cases hm⟩
    · cases hm
  | gpio g a =>
    simp only [machine] at hm
    split at hm
    · exact .inr ⟨g, a, ha, stepGpio_cases hm⟩
    · cases hm
  | stateStore | core | seedStore => cases ha

theorem internal_moves {a : Act U G} (ha : a.internal = true) (hm : machine chain s a = some (t, o)) : Moves s t := by
  obtain ⟨u, a, ha, hu⟩ | ⟨g, a, ha, hg⟩ := internal_cases ha hm
  · exact hu.moves ha
  · exact hg.moves ha

omit [DecidableEq G] in
theorem UartStep.calls {u : U} {a : Uart.Act} (h : UartStep s t u a) (hb : t.bus = s.bus)
    (hs : (t.uarts u).settings = (s.uarts u).settings) : Calls s t (.inl u) := by
  refine ⟨hb, h.core, h.other, by rw [hb], fun v => ?_, fun g => ?_⟩
  · by_cases hv : v = u
    · rw [hv, hs]
    · have hsame : t.uarts v = s.uarts v := h.other (.inl v) (fun he => hv (Sum.inl.inj he))
      rw [hsame]
  · have hsame : t.gpios g = s.gpios g := h.other (.inr g) (by simp)
    rw [hsame]

omit [DecidableEq U] in
theorem GpioStep.calls {g : G} {a : Gpio.Act} (h : GpioStep s t g a) (hb : t.bus = s.bus)
    (hf : (t.gpios g).face = (s.gpios g).face) : Calls s t (.inr g) := by
  refine ⟨hb, h.core, h.other, by rw [hb], fun u => ?_, fun g' => ?_⟩
  · have hsame : t.uarts u = s.uarts u := h.other (.inl u) (by simp)
    rw [hsame]
  · by_cases hg : g' = g
    · rw [hg, hf]
    · have hsame : t.gpios g' = s.gpios g' := h.other (.inr g') (fun he => hg (Sum.inr.inj he))
      rw [hsame]

theorem internal_untouched {a : Act U G} (ha : a.internal = true) (hu : Unmoved s a)
    (hm : machine chain s a = some (t, o)) : Untouched s t := by
  cases a with
  | uart u a =>
    simp only [machine] at hm
    split at hm
    · have hstep := stepUart_cases hm
      obtain ⟨o, hs⟩ := hstep.step
      have hbus : t.bus = s.bus := by
        apply Uart.internal_spared ha _ hs
        rintro hiFirst rfl
        exact hu
      exact (hstep.calls hbus (Uart.internal_frame ha hs).2.1).untouched
    · cases hm
  | gpio g a =>
    simp only [machine] at hm
    split at hm
    · have hstep := stepGpio_cases hm
      obtain ⟨o, hs⟩ := hstep.step
      have hkept : t.bus = s.bus ∧ (t.gpios g).face = (s.gpios g).face := by
        apply Gpio.internal_unmoved ha _ hs
        rintro ℓ rfl
        exact hu
      exact (hstep.calls hkept.1 hkept.2).untouched
    · cases hm
  | stateStore | core | seedStore => cases ha

theorem notify_calls {event : BusEvent} {x : U ⊕ G} (h : notify s event x = some (t, o)) : Calls s t x := by
  cases x with
  | inl u =>
    have hstep := stepUart_cases h
    obtain ⟨o, hm⟩ := hstep.step
    obtain ⟨hb, hd⟩ := Uart.notify_cases hm
    exact hstep.calls hb hd.notify_settings
  | inr g =>
    have hstep := stepGpio_cases h
    obtain ⟨o, hm⟩ := hstep.step
    obtain ⟨hb, hd⟩ := Gpio.notify_cases hm
    exact hstep.calls hb hd.notify_face

theorem callback_calls {x : U ⊕ G} (h : callback s x = some (t, o)) : Calls s t x := by
  cases x with
  | inl u =>
    have hstep := stepUart_cases h
    obtain ⟨o, hm⟩ := hstep.step
    obtain ⟨hb, hd⟩ := Uart.notifier_cases hm
    exact hstep.calls hb hd.notifier_settings
  | inr g =>
    have hstep := stepGpio_cases h
    obtain ⟨o, hm⟩ := hstep.step
    obtain ⟨hb, hd⟩ := Gpio.notifier_cases hm
    exact hstep.calls hb hd.notifier_face

theorem notify_reset {x : U ⊕ G} (h : notify s .reset x = some (t, o)) : Resetting t x ∧ cost t x ≤ 17 := by
  cases x with
  | inl u =>
    obtain ⟨o, hm⟩ := (stepUart_cases h).step
    have hd : t.uarts u = _ := (Uart.notify_cases hm).2.notify_reset
    simp only [Resetting, cost, hd]
    exact ⟨trivial, by decide⟩
  | inr g =>
    obtain ⟨o, hm⟩ := (stepGpio_cases h).step
    have hd : t.gpios g = _ := (Gpio.notify_cases hm).2.notify_reset
    simp only [Resetting, cost, hd]
    refine ⟨fun j hj => ?_, by decide⟩
    exact absurd hj (Nat.not_lt_zero _)

theorem notify_up {x : U ⊕ G} (h : notify s .up x = some (t, o)) : Same s t x := by
  cases x with
  | inl u =>
    obtain ⟨o, hm⟩ := (stepUart_cases h).step
    exact (Uart.notify_cases hm).2.notify_up
  | inr g =>
    obtain ⟨o, hm⟩ := (stepGpio_cases h).step
    exact (Gpio.notify_cases hm).2.notify_other (by simp)

theorem callback_resetting {x : U ⊕ G} (h : callback s x = some (t, o)) (hr : Resetting s x)
    (hf : ∀ u, x = .inl u → (s.uarts u).notifier = .resetFlush → (s.uarts u).txWork.settled = true) :
    Resetting t x ∧ cost t x < cost s x := by
  cases x with
  | inl u =>
    obtain ⟨o, hm⟩ := (stepUart_cases h).step
    exact (Uart.notifier_cases hm).2.resetting hr (hf u rfl)
  | inr g =>
    obtain ⟨o, hm⟩ := (stepGpio_cases h).step
    exact (Gpio.notifier_cases hm).2.resetting hr

theorem CoreStep.untouched (h : CoreStep chain s t) : Untouched s t := by
  cases h with
  | call hc hn =>
    have hu := (notify_calls hn).untouched
    exact ⟨hu.prng, hu.uarts, hu.lines⟩
  | callback hc hb hn => exact (callback_calls hn).untouched
  | called | returned | next | setUp => exact ⟨rfl, fun _ => rfl, fun _ => rfl⟩

theorem Underway.call {x : U ⊕ G} {rest : List (U ⊕ G)} (h : Underway s) (hc : s.core = .call .reset (x :: rest))
    (hn : notify s .reset x = some (t, o)) : Underway { t with core := .calling .reset x rest } := by
  have hcalls := notify_calls hn
  have hcalm := h.calm (by simp [hc])
  have hreached := h.reached
  rw [hc] at hreached
  constructor
  · intro y hy
    by_cases hyx : y = x
    · rw [hyx]
      exact ⟨rest, rfl⟩
    · have hfalse : t.busy y = false := by rw [(hcalls.other y hyx).busy, hcalm]
      have htrue : t.busy y = true := hy
      rw [hfalse] at htrue
      cases htrue
  · intro y hy
    by_cases hyx : y = x
    · rw [hyx]
      exact (notify_reset hn).1
    · have hy' : y ∉ x :: rest := by
        rcases hy with hy | hy
        · exact absurd hy hyx
        · simp [hyx, hy]
      exact (hcalls.other y hyx).resetting (hreached y hy')
  · trivial

theorem Underway.callUp {x : U ⊕ G} {rest : List (U ⊕ G)} (h : Underway s) (hc : s.core = .call .up (x :: rest))
    (hn : notify s .up x = some (t, o)) : Underway { t with core := .calling .up x rest } := by
  have hcalls := notify_calls hn
  have hcalm := h.calm (by simp [hc])
  have hup := h.up
  have hreached := h.reached
  rw [hc] at hup hreached
  have hsame (y : U ⊕ G) : Same s t y := by
    by_cases hyx : y = x
    · rw [hyx]
      exact notify_up hn
    · exact hcalls.other y hyx
  apply underway_of_calm
  · intro y
    show t.busy y = false
    rw [(hsame y).busy, hcalm]
  · exact fun y _ => (hsame y).resetting (hreached y trivial)
  · show t.bus.state = .up
    rw [hcalls.bus]
    exact hup

theorem Underway.callback {x : U ⊕ G} {rest : List (U ⊕ G)} (h : Underway s) (hc : s.core = .calling .reset x rest)
    (hf : Flushes s .core) (hn : callback s x = some (t, o)) : Underway t ∧ cost t x < cost s x := by
  have hcalls := callback_calls hn
  have hreached := h.reached
  rw [hc] at hreached
  have hflush (u : U) (hx : x = .inl u) : (s.uarts u).notifier = .resetFlush → (s.uarts u).txWork.settled = true := by
    rw [hx] at hc
    simpa only [Flushes, hc] using hf
  obtain ⟨hself, hcost⟩ := callback_resetting hn (hreached x (.inl rfl)) hflush
  refine ⟨⟨fun y hy => ?_, fun y hy => ?_, ?_⟩, hcost⟩
  · rw [hcalls.core, hc]
    by_cases hyx : y = x
    · rw [hyx]
      exact ⟨rest, rfl⟩
    · rw [(hcalls.other y hyx).busy] at hy
      rw [← hc]
      exact h.busy y hy
  · rw [hcalls.core, hc] at hy
    by_cases hyx : y = x
    · rw [hyx]
      exact hself
    · exact (hcalls.other y hyx).resetting (hreached y hy)
  · rw [hcalls.core, hc]
    trivial

theorem Underway.core (h : Underway s) (hs : CoreStep chain s t) (hf : Flushes s .core) : Underway t := by
  have hreached := h.reached
  have hup := h.up
  cases hs with
  | @call event x rest t o hc hn =>
    rw [hc] at hup
    cases event with
    | reset => exact h.call hc hn
    | up => exact h.callUp hc hn
    | down => exact hup.elim
  | called hc =>
    rw [hc] at hreached
    exact underway_of_calm (h.calm (by simp [hc])) (fun y _ => hreached y (by simp [Reached])) trivial
  | @returned event hc he =>
    rw [hc] at hreached hup
    apply underway_of_calm
    · exact h.calm (by simp [hc])
    · intro y _
      cases event with
      | reset => exact absurd rfl he
      | up | down => exact hreached y trivial
    · cases event with
      | reset => exact absurd rfl he
      | up => exact hup
      | down => exact hup.elim
  | callback hc hb hn =>
    obtain ⟨rest, hc'⟩ := h.busy _ hb
    exact (h.callback hc' hf hn).1
  | next hc hb => exact h.next hc hb
  | setUp hc =>
    rw [hc] at hreached
    exact underway_of_calm (h.calm (by simp [hc])) (fun y _ => hreached y trivial) rfl

theorem Underway.step {a : Act U G} (h : Underway s) (hp : Resets s a) (hm : machine chain s a = some (t, o)) :
    Underway t := by
  cases a with
  | core => exact h.core (stepCore_cases hm) hp.2
  | uart u a | gpio g a => exact h.moves (internal_moves hp.1 hm)
  | stateStore | seedStore => cases hp.1

theorem Spares.untouched {a : Act U G} (hp : Spares s a) (hm : machine chain s a = some (t, o)) : Untouched s t := by
  cases a with
  | core => exact (stepCore_cases hm).untouched
  | uart u a | gpio g a => exact internal_untouched hp.1.1 hp.2 hm
  | stateStore | seedStore => cases hp.1.1

def Ordered (s : Sys U G) : Prop := ∀ x, s.busy x = true → ∃ event rest, s.core = .calling event x rest

theorem uart_own {s t : Uart.Sys} {a : Uart.Act} {o : List Uart.Obs} (ha : ownUart a = true)
    (hm : Uart.machine s a = some (t, o)) : t.dev.notifier = s.dev.notifier := by
  obtain ⟨hiFirst, rfl, hw⟩ | ⟨b, rfl, -⟩ | ⟨-, hd⟩ := Uart.machine_cases hm
  · exact hw.notifier
  · cases ha
  · generalize t.dev = d' at hd ⊢
    cases hd with
    | @resetStat k st => cases st <;> rfl
    | down | downWork | downFlush | downCount | reset | resetWork | resetFlush | resetAttrs | resetZero | resetWire =>
      cases ha
    | _ => rfl

theorem gpio_own {s t : Gpio.Sys} {a : Gpio.Act} {o : List Gpio.Obs} (ha : ownGpio a = true)
    (hm : Gpio.machine s a = some (t, o)) : t.dev.notifier = s.dev.notifier := by
  obtain ⟨k, hiFirst, rfl, hi⟩ | ⟨ℓ, rfl, hw⟩ | ⟨b, rfl, -⟩ | ⟨-, hd⟩ := Gpio.machine_cases hm
  · generalize t.bus = b' at hi
    generalize t.dev = d' at hi ⊢
    cases hi with
    | apply hk ha | applied hk ha => exact ha.frame.notifier
    | _ => rfl
  · exact hw.stir.notifier
  · cases ha
  · generalize t.dev = d' at hd ⊢
    cases hd with
    | reset | cancelTimer | cancelWork | critical => cases ha
    | _ => rfl

omit [DecidableEq U] [DecidableEq G] in
theorem Ordered.frame (h : Ordered s) (hc : t.core = s.core) (hb : ∀ x, t.busy x = s.busy x) : Ordered t := by
  intro x hx
  rw [hb] at hx
  rw [hc]
  exact h x hx

omit [DecidableEq U] [DecidableEq G] in
theorem Ordered.calm (h : Ordered s) (hc : ∀ event x rest, s.core ≠ .calling event x rest) (x : U ⊕ G) :
    s.busy x = false := by
  cases hx : s.busy x with
  | false => rfl
  | true =>
    obtain ⟨event, rest, hcore⟩ := h x hx
    exact absurd hcore (hc event x rest)

omit [DecidableEq U] [DecidableEq G] in
theorem ordered_of_calm (hb : ∀ x, s.busy x = false) : Ordered s := by
  intro x hx
  rw [hb] at hx
  cases hx

theorem Ordered.core (h : Ordered s) (hs : CoreStep chain s t) : Ordered t := by
  cases hs with
  | @call event x rest t o hc hn =>
    intro y hy
    by_cases hyx : y = x
    · rw [hyx]
      exact ⟨event, rest, rfl⟩
    · have hsame : t.busy y = s.busy y := ((notify_calls hn).other y hyx).busy
      have hcalm := h.calm (by simp [hc]) y
      have hy' : t.busy y = true := hy
      rw [hsame, hcalm] at hy'
      cases hy'
  | called hc | returned hc | setUp hc => exact ordered_of_calm (h.calm (by simp [hc]))
  | @callback event x rest t o hc hb hn =>
    have hcalls := callback_calls hn
    intro y hy
    rw [hcalls.core]
    by_cases hyx : y = x
    · rw [hyx]
      exact ⟨event, rest, hc⟩
    · rw [(hcalls.other y hyx).busy] at hy
      exact h y hy
  | @next event x rest hc hb =>
    intro y hy
    obtain ⟨event', rest', hc'⟩ := h y hy
    rw [hc] at hc'
    cases hc'
    have hy' : s.busy x = true := hy
    rw [hb] at hy'
    cases hy'

theorem Ordered.step {a : Act U G} (h : Ordered s) (hm : machine chain s a = some (t, o)) : Ordered t := by
  cases a with
  | stateStore buf =>
    obtain ⟨hc, hu, hg⟩ := stateStore_cases hm
    apply ordered_of_calm
    intro x
    rw [busy_congr hu hg]
    exact h.calm (by simp [hc]) x
  | core => exact h.core (stepCore_cases hm)
  | seedStore buf =>
    obtain ⟨hc, hu, hg⟩ := seedStore_frame s buf
    have ht : (seedStore s buf).1 = t := by rw [Option.some.inj hm]
    rw [← ht]
    exact h.frame hc (busy_congr hu hg)
  | uart u a =>
    simp only [machine] at hm
    split at hm
    · rename_i ha
      have hstep := stepUart_cases hm
      obtain ⟨o, hu⟩ := hstep.step
      apply h.frame hstep.core
      intro x
      by_cases hx : x = .inl u
      · subst hx
        simp only [Sys.busy]
        rw [uart_own ha hu]
      · exact (hstep.other x hx).busy
    · cases hm
  | gpio g a =>
    simp only [machine] at hm
    split at hm
    · rename_i ha
      have hstep := stepGpio_cases hm
      obtain ⟨o, hg⟩ := hstep.step
      apply h.frame hstep.core
      intro x
      by_cases hx : x = .inr g
      · subst hx
        simp only [Sys.busy]
        rw [gpio_own ha hg]
      · exact (hstep.other x hx).busy
    · cases hm

theorem ordered_run {os : List (Obs U G)} (h : Run (machine chain) Always start os s) : Ordered s := by
  apply h.invariant Ordered
  · apply ordered_of_calm
    intro x
    cases x <;> rfl
  · intro t a u o ht _ hm
    exact ht.step hm

end

end VirtRtLab.System
