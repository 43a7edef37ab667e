import VirtRtLab.System.Reset

namespace VirtRtLab.System

open Kernel VirtRtLab.Core Transition

variable {U G : Type}

section

variable {chain : Chain U G} {s t : Sys U G}

theorem workCost_le (s : Sys U G) (x : U ⊕ G) : workCost s x ≤ 12 := by
  cases x with
  | inl u =>
    simp only [workCost]
    cases (s.uarts u).txWork <;> simp [Uart.TxPc.toGo]
  | inr g =>
    simp only [workCost]
    split
    · rename_i ℓ hn
      cases ((s.gpios g).lines ℓ).work <;> simp [Gpio.ApplyPc.cost]
    · exact Nat.zero_le _

variable (chain) in
def coreCost (s : Sys U G) : ℕ :=
  match s.core with
  | .idle => 0
  | .call .reset rest => 20 * (chain.blocks.length + rest.length) + 3
  | .calling .reset x rest => 20 * (chain.blocks.length + rest.length) + 4 + cost s x
  | .setUp => 20 * chain.blocks.length + 2
  | .call _ rest => 20 * rest.length + 1
  | .calling _ x rest => 20 * rest.length + 2 + cost s x

def waitCost (s : Sys U G) : ℕ :=
  match s.core with
  | .calling _ x _ => workCost s x
  | _ => 0

variable (chain) in
def remaining (s : Sys U G) : ℕ := 16 * coreCost chain s + waitCost s

theorem remaining_lt (h : coreCost chain t < coreCost chain s) : remaining chain t < remaining chain s := by
  have hw : waitCost t ≤ 12 := by
    unfold waitCost
    split
    · exact workCost_le t _
    · exact Nat.zero_le _
  unfold remaining
  omega

theorem cost_of_calm {x : U ⊕ G} (hb : s.busy x = false) : cost s x = 0 := by
  cases x with
  | inl u =>
    have hn : (s.uarts u).notifier = .idle := by simpa [Sys.busy] using hb
    simp [cost, hn, Uart.NotifierPc.cost]
  | inr g =>
    have hn : (s.gpios g).notifier = .idle := by simpa [Sys.busy] using hb
    simp [cost, hn, Gpio.NotifierPc.cost]

def reset : Bytes := [114, 101, 115, 101, 116]

theorem stateStore_reset {buf : Bytes} {o : List (Obs U G)} (hb : sysfsStreq buf reset = true)
    (hs : stateStore chain s buf = some (t, o)) :
    s.core = .idle ∧ t = { s with core := .call .reset chain.blocks, count := buf.length } := by
  have hidle := (stateStore_cases hs).1
  have hstr : cstr buf = reset ∨ cstr buf = reset ++ [10] := by
    simp only [sysfsStreq, Bool.or_eq_true, decide_eq_true_eq] at hb
    rcases hb with hb | hb
    · exact hb
    · have hlast := congrArg List.getLast? hb
      simp [reset] at hlast
  have hup : sysfsStreq buf [117, 112] = false := by
    rcases hstr with hstr | hstr <;> simp [sysfsStreq, hstr, reset]
  have hdown : sysfsStreq buf [100, 111, 119, 110] = false := by
    rcases hstr with hstr | hstr <;> simp [sysfsStreq, hstr, reset]
  have hreset : sysfsStreq buf [114, 101, 115, 101, 116] = true := hb
  simp only [stateStore, hidle, hup, hdown, hreset, Bool.false_eq_true, if_false, if_true] at hs
  cases hs
  exact ⟨hidle, rfl⟩

theorem Underway.uart_cleared (h : Underway s) (hi : s.core = .idle) (u : U) : (s.uarts u).Cleared [] := by
  have hcalm := h.calm (by simp [hi]) (.inl u)
  have hn : (s.uarts u).notifier = .idle := by simpa [Sys.busy] using hcalm
  have hr : (s.uarts u).Resetting := h.reached (.inl u) (by rw [hi]; trivial)
  rw [Uart.Dev.Resetting, hn] at hr
  exact hr

theorem Underway.gpio_cleared (h : Underway s) (hi : s.core = .idle) (g : G) : (s.gpios g).Cleared := by
  have hcalm := h.calm (by simp [hi]) (.inr g)
  have hn : (s.gpios g).notifier = .idle := by simpa [Sys.busy] using hcalm
  have hr : (s.gpios g).Resetting := h.reached (.inr g) (by rw [hi]; trivial)
  rw [Gpio.Dev.Resetting, hn] at hr
  exact hr

theorem Underway.baseline (h : Underway s) (hi : s.core = .idle) : Baseline s := by
  have hup := h.up
  rw [hi] at hup
  exact {
    state := hup
    uartAttrs := fun u => (h.uart_cleared hi u).attrs
    uartStats := fun u st => (h.uart_cleared hi u).stats st (by simp)
    txFifo := fun u => (h.uart_cleared hi u).quiet.empty
    gpioAttrs := fun g => (h.gpio_cleared hi g).attrs
    valueChanges := fun g => (h.gpio_cleared hi g).valueChanges
    drops := fun g => (h.gpio_cleared hi g).drops
    bitflips := fun g => (h.gpio_cleared hi g).bitflips }

end

section

variable [DecidableEq U] [DecidableEq G] {chain : Chain U G} {s t : Sys U G} {o : List (Obs U G)}

theorem notify_enabled (event : BusEvent) {x : U ⊕ G} (hb : s.busy x = false) :
    ∃ t o, notify s event x = some (t, o) := by
  cases x with
  | inl u =>
    have hn : (s.uarts u).notifier = .idle := by simpa [Sys.busy] using hb
    apply stepUart_enabled
    cases event <;> simp [Uart.machine, Uart.stepDev, hn]
  | inr g =>
    have hn : (s.gpios g).notifier = .idle := by simpa [Sys.busy] using hb
    apply stepGpio_enabled
    cases event <;> simp [Gpio.machine, Gpio.stepDev, hn]

def Advances (chain : Chain U G) (s : Sys U G) : Prop :=
  ∃ a t o, Resets s a ∧ machine chain s a = some (t, o) ∧ remaining chain t < remaining chain s

theorem advances_core (hm : stepCore chain s = some (t, o)) (hf : Flushes s .core)
    (hlt : coreCost chain t < coreCost chain s) : Advances chain s :=
  ⟨.core, t, o, ⟨trivial, hf⟩, hm, remaining_lt hlt⟩

theorem advances_work {a : Act U G} {event : BusEvent} {x : U ⊕ G} {rest : List (U ⊕ G)} (ha : a.internal = true)
    (hm : machine chain s a = some (t, o)) (hc : s.core = .calling event x rest) (hcost : cost t x = cost s x)
    (hlt : workCost t x < workCost s x) : Advances chain s := by
  have hcore : t.core = .calling event x rest := by rw [(internal_moves ha hm).core, hc]
  have hf : Resets s a := by
    cases a with
    | uart | gpio => exact ⟨ha, trivial⟩
    | stateStore | core | seedStore => cases ha
  have hsame : coreCost chain t = coreCost chain s := by
    cases event <;> simp only [coreCost, hcore, hc, hcost]
  have hwait : waitCost t < waitCost s := by
    simp only [waitCost, hcore, hc]
    exact hlt
  refine ⟨a, t, o, hf, hm, ?_⟩
  unfold remaining
  omega

theorem Underway.advances_callback {x : U ⊕ G} {rest : List (U ⊕ G)} (h : Underway s)
    (hc : s.core = .calling .reset x rest) (hb : s.busy x = true) (hf : Flushes s .core)
    (hn : ∃ t o, System.callback s x = some (t, o)) : Advances chain s := by
  obtain ⟨t, o, hn⟩ := hn
  have hm : stepCore chain s = some (t, o) := by simp only [stepCore, hc, hb, if_true, hn]
  have hcost := (h.callback hc hf hn).2
  apply advances_core hm hf
  simp only [coreCost, (callback_calls hn).core, hc]
  omega

theorem Underway.advances_uart {u : U} {rest : List (U ⊕ G)} (h : Underway s)
    (hc : s.core = .calling .reset (.inl u) rest) (hb : s.busy (.inl u) = true) : Advances chain s := by
  have hn : (s.uarts u).notifier ≠ .idle := by simpa [Sys.busy] using hb
  have hr : (s.uarts u).Resetting := h.reached (.inl u) (by rw [hc]; exact .inl rfl)
  by_cases hw : (s.uarts u).txWork = .idle
  · apply h.advances_callback hc hb
    · simp only [Flushes, hc, hw]
      exact fun _ => rfl
    · exact stepUart_enabled (Uart.notifier_enabled ⟨s.bus, s.uarts u⟩ hr hn (fun _ => hw))
  · obtain ⟨t, o, hm⟩ := stepUart_enabled (s := s) (Uart.work_enabled (s := ⟨s.bus, s.uarts u⟩) hw)
    obtain ⟨o', hwork⟩ := (stepUart_cases hm).step
    apply advances_work (a := .uart u (.work true)) rfl hm hc
    · simp only [cost]
      rw [(Uart.internal_frame (a := .work true) rfl hwork).1]
    · exact Uart.work_toGo hwork

theorem Underway.advances_gpio {g : G} {rest : List (U ⊕ G)} (h : Underway s)
    (hc : s.core = .calling .reset (.inr g) rest) (hb : s.busy (.inr g) = true) : Advances chain s := by
  have hn : (s.gpios g).notifier ≠ .idle := by simpa [Sys.busy] using hb
  have hf : Flushes s .core := by simp only [Flushes, hc]
  by_cases hw : ∀ ℓ, (s.gpios g).notifier = .cancelWork ℓ → ((s.gpios g).lines ℓ).work = .idle
  · exact h.advances_callback hc hb hf (stepGpio_enabled (Gpio.notifier_enabled ⟨s.bus, s.gpios g⟩ hn hw))
  · push Not at hw
    obtain ⟨ℓ, hpc, hw⟩ := hw
    obtain ⟨t, o, hm⟩ := stepGpio_enabled (s := s) (Gpio.work_enabled ⟨s.bus, s.gpios g⟩ hw)
    obtain ⟨o', hwork⟩ := (stepGpio_cases hm).step
    obtain ⟨ℓ', hstir⟩ := Gpio.internal_stir (a := .work ℓ) rfl hwork
    have hnotifier : (t.gpios g).notifier = (s.gpios g).notifier := hstir.notifier
    apply advances_work (a := .gpio g (.work ℓ)) rfl hm hc
    · simp only [cost, hnotifier]
    · simp only [workCost, hnotifier, hpc]
      exact Gpio.work_cost hwork

theorem advances_end {event : BusEvent} (hc : s.core = .call event []) : Advances chain s := by
  have hf : Flushes s .core := by simp only [Flushes, hc]
  cases event with
  | reset =>
    have hm : stepCore chain s = some ({ s with core := .setUp }, []) := by simp only [stepCore, hc]
    apply advances_core hm hf
    simp [coreCost, hc]
  | up | down =>
    have hm : stepCore chain s = some ({ s with core := .idle }, [.stored (.ok s.count)]) := by
      simp only [stepCore, hc]
    apply advances_core hm hf
    simp [coreCost, hc]

theorem Underway.advances_call {event : BusEvent} {x : U ⊕ G} {rest : List (U ⊕ G)} (h : Underway s)
    (hc : s.core = .call event (x :: rest)) : Advances chain s := by
  have hcalm := h.calm (by simp [hc])
  have hf : Flushes s .core := by simp only [Flushes, hc]
  obtain ⟨t, o, hn⟩ := notify_enabled event (hcalm x)
  have hm : stepCore chain s = some ({ t with core := .calling event x rest }, .notified x event :: o) := by
    simp only [stepCore, hc, hn, Option.map_some]
  apply advances_core hm hf
  have hsame : cost { t with core := .calling event x rest } x = cost t x := by cases x <;> rfl
  have hup := h.up
  rw [hc] at hup
  cases event with
  | reset =>
    have hcost : cost t x ≤ 17 := (notify_reset hn).2
    simp only [coreCost, hc, hsame, List.length_cons]
    omega
  | up =>
    have hcost : cost t x = 0 := by
      apply cost_of_calm
      rw [(notify_up hn).busy, hcalm]
    simp only [coreCost, hc, hsame, hcost, List.length_cons]
    omega
  | down => exact hup.elim

theorem Underway.advances (h : Underway s) (hi : s.core ≠ .idle) : Advances chain s := by
  have hup := h.up
  cases hc : s.core with
  | idle => exact absurd hc hi
  | setUp =>
    have hm : stepCore chain s = some ({ s with bus := { s.bus with state := .up }, core := .call .up chain.blocks }, []) := by
      simp only [stepCore, hc]
    apply advances_core hm (by simp only [Flushes, hc])
    simp only [coreCost, hc]
    omega
  | call event rest =>
    rw [hc] at hup
    cases rest with
    | nil => exact advances_end hc
    | cons x rest => exact h.advances_call hc
  | calling event x rest =>
    cases hb : s.busy x with
    | false =>
      have hm : stepCore chain s = some ({ s with core := .call event rest }, []) := by
        simp only [stepCore, hc, hb, Bool.false_eq_true, if_false]
      apply advances_core hm
      · cases x with
        | inl u =>
          have hn : (s.uarts u).notifier = .idle := by simpa [Sys.busy] using hb
          simp [Flushes, hc, hn]
        | inr g => simp only [Flushes, hc]
      · cases event <;> simp only [coreCost, hc] <;> omega
    | true =>
      obtain ⟨rest', hc'⟩ := h.busy x hb
      cases x with
      | inl u => exact h.advances_uart hc' hb
      | inr g => exact h.advances_gpio hc' hb

theorem Underway.comes_to_end (h : Underway s) : ∃ os t, Run (machine chain) Resets s os t ∧ t.core = .idle := by
  apply Run.exists_done Underway (fun t => t.core = .idle) (remaining chain) h
  intro t ht hi
  obtain ⟨a, u, o, hp, hm, hlt⟩ := ht.advances hi
  exact ⟨a, u, o, hp, hm, ht.step hp hm, hlt⟩

theorem Underway.undisturbed {a : Act U G} (h : Underway s) (hi : s.core = .idle) (ha : a.internal = true)
    (hm : machine chain s a = some (t, o)) : Undisturbed s t := by
  obtain ⟨u, a, ha, hstep⟩ | ⟨g, a, ha, hstep⟩ := internal_cases ha hm
  · obtain ⟨o, hu⟩ := hstep.step
    obtain ⟨hb, hs, -⟩ := Uart.internal_quiet ha hu (h.uart_cleared hi u).quiet
    constructor
    · exact hb
    · intro v
      by_cases hv : v = u
      · subst hv
        exact hs
      · have hsame : t.uarts v = s.uarts v := hstep.other (.inl v) (fun he => hv (Sum.inl.inj he))
        rw [hsame]
    · funext g
      exact hstep.other (.inr g) (by simp)
  · obtain ⟨o, hg⟩ := hstep.step
    obtain ⟨ℓ, hstir⟩ := Gpio.internal_stir ha hg
    exact absurd ((h.gpio_cleared hi g).lines ℓ) hstir.awake

theorem Underway.stays {os : List (Obs U G)} (h : Underway s) (hi : s.core = .idle)
    (hrun : Run (machine chain) Internal s os t) : Baseline t ∧ Undisturbed s t := by
  have hinv : (Underway t ∧ t.core = .idle) ∧ Undisturbed s t := by
    apply hrun.invariant (fun t => (Underway t ∧ t.core = .idle) ∧ Undisturbed s t)
    · exact ⟨⟨h, hi⟩, rfl, fun _ => rfl, rfl⟩
    · rintro u a v o ⟨⟨hu, hidle⟩, hsame⟩ ha hm
      have hmoves := internal_moves ha hm
      exact ⟨⟨hu.moves hmoves, hmoves.core.trans hidle⟩, hsame.trans (hu.undisturbed hidle ha hm)⟩
  exact ⟨hinv.1.1.baseline hinv.1.2, hinv.2⟩

theorem Underway.yields (h : Underway s) : ResetYields chain Spares s := by
  intro os t hrun
  have hinv : Underway t ∧ Untouched s t := by
    apply hrun.invariant (fun t => Underway t ∧ Untouched s t)
    · exact ⟨h, .refl⟩
    · rintro u a v o ⟨hu, hsame⟩ hp hm
      exact ⟨hu.step hp.1 hm, hsame.trans (hp.untouched hm)⟩
  obtain ⟨os', u, hrun', hidle⟩ : ∃ os u, Run (machine chain) Resets t os u ∧ u.core = .idle := hinv.1.comes_to_end
  refine ⟨⟨os', u, hrun'.mono (fun _ _ hp => hp.1), hidle⟩, hinv.2, fun hi => ?_⟩
  exact ⟨hinv.1.baseline hi, fun os' u hrun' => hinv.1.stays hi hrun'⟩

theorem bus_reset_baseline {os : List (Obs U G)} {buf : Bytes} (h : Run (machine chain) Always start os s)
    (hb : sysfsStreq buf reset = true) (hm : machine chain s (.stateStore buf) = some (t, o)) :
    Untouched s t ∧ ResetYields chain Spares t := by
  obtain ⟨hi, rfl⟩ := stateStore_reset hb hm
  refine ⟨⟨rfl, fun _ => rfl, fun _ => rfl⟩, Underway.yields ?_⟩
  apply underway_of_calm
  · exact (ordered_run h).calm (by simp [hi])
  · intro x hx
    exact absurd (chain.all x) hx
  · trivial

end

def both : Chain Unit Unit := ⟨[.inl (), .inr ()], by rintro (⟨⟨⟩⟩ | ⟨⟨⟩⟩) <;> simp⟩

def uartActs (as : List Uart.Act) : List (Act Unit Unit) := as.map (.uart ())

def gpioActs (as : List Gpio.Act) : List (Act Unit Unit) := as.map (.gpio ())

def inFlight : List (Act Unit Unit) :=
  gpioActs [.attrStore .latencyNs [53], .injectStore [48, 58, 49], .inject 0 true, .inject 0 true, .inject 0 true] ++
    uartActs (Uart.openPort ++ Uart.write (List.replicate 65 7) ++ Uart.transmit 2)

-- the callback of the UART is called, and `tx_work` goes on to its end: it arms `tx_timer` after the cancel
def rearmed : List (Act Unit Unit) := .core :: uartActs (List.replicate 6 (.work true))

theorem bus_reset_baseline_in_flight : ∃ os s t o os' u os'' v,
    Run (machine both) Always start os s ∧ machine both s (.stateStore (reset ++ [10])) = some (t, o) ∧
    Run (machine both) Spares t os' u ∧ u.core = .idle ∧ Run (machine both) Internal u os'' v ∧
    (s.uarts ()).statTxBytes = 64 ∧ (v.uarts ()).rxFifo.len = 64 ∧ Untouched t u ∧ Baseline v ∧ Undisturbed u v := by
  obtain ⟨os, s, hrun, hstat, hreset⟩ := Run.exists_of_exec (M := machine both) (P := Always) (s := start) inFlight
    (fun _ s => (s.uarts ()).statTxBytes = 64 ∧ (machine both s (.stateStore (reset ++ [10]))).any (fun r =>
      (exec (machine both) Spares r.1 (rearmed ++ List.replicate 35 .core)).any (fun q => decide (q.1.core = .idle ∧
        (exec (machine both) Internal q.1 (uartActs [.timerExpire, .workStart, .work true])).any
          (fun w => decide ((w.1.uarts ()).rxFifo.len = 64)) = true))) = true) (by decide +kernel)
  obtain ⟨⟨t, o⟩, hm, hcore⟩ := (Option.any_eq_true _ _).mp hreset
  obtain ⟨os', u, hrun', hdone⟩ := Run.of_exec_any hcore
  obtain ⟨hidle, hwork⟩ := of_decide_eq_true hdone
  obtain ⟨os'', v, hrun'', hlen⟩ := Run.of_exec_any hwork
  have hbuf : sysfsStreq (reset ++ [10]) reset = true := by decide
  obtain ⟨-, hyields⟩ := bus_reset_baseline hrun hbuf hm
  obtain ⟨-, hkept, hend⟩ := hyields os' u hrun'
  obtain ⟨hbase, hsame⟩ := (hend hidle).2 os'' v hrun''
  exact ⟨os, s, t, o, os', u, os'', v, hrun, hm, hrun', hidle, hrun'', hstat, of_decide_eq_true hlen, hkept, hbase,
    hsame⟩

theorem burst_counted_after_reset : ¬ ∀ os s buf t o, Run (machine both) Always start os s →
    (∀ u, (s.uarts u).writers = []) → (∀ g, ∀ inj ∈ (s.gpios g).injects, inj = none) →
    sysfsStreq buf reset = true → machine both s (.stateStore buf) = some (t, o) → ResetYields both Alongside t := by
  intro hall
  -- the timer expires and `tx_work` takes the last byte before the callback resets `tx_fifo`
  obtain ⟨os, s, hrun, hw, hinj, hreset⟩ := Run.exists_of_exec (M := machine both) (P := Always) (s := start) inFlight
    (fun _ s => (s.uarts ()).writers = [] ∧ (s.gpios ()).injects = [none] ∧
      (machine both s (.stateStore reset)).any (fun r => (exec (machine both) Alongside r.1
        (rearmed ++ .core :: uartActs (Uart.transmit 1) ++ List.replicate 34 .core)).any
          (fun q => decide (q.1.core = .idle ∧ (exec (machine both) Internal q.1 (uartActs [.work true])).any
            (fun w => decide ((w.1.uarts ()).statTxBytes = 1)) = true))) = true) (by decide +kernel)
  obtain ⟨⟨t, o⟩, hm, hcore⟩ := (Option.any_eq_true _ _).mp hreset
  obtain ⟨os', u, hrun', hdone⟩ := Run.of_exec_any hcore
  obtain ⟨hidle, hwork⟩ := of_decide_eq_true hdone
  obtain ⟨os'', v, hrun'', hcount⟩ := Run.of_exec_any hwork
  have hstat : (v.uarts ()).statTxBytes = 1 := of_decide_eq_true hcount
  have hnone : ∀ g, ∀ inj ∈ (s.gpios g).injects, inj = none := by
    rintro ⟨⟩ inj hmem
    rw [hinj] at hmem
    exact List.mem_singleton.mp hmem
  have hyields := hall os s reset t o hrun (fun _ => hw) hnone (by decide) hm
  obtain ⟨hbase, -⟩ := ((hyields os' u hrun').2.2 hidle).2 os'' v hrun''
  have hzero : (v.uarts ()).statTxBytes = 0 := hbase.uartStats () .txBytes
  rw [hstat] at hzero
  cases hzero

end VirtRtLab.System
