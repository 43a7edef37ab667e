import VirtRtLab.Core.Seed
import VirtRtLab.Uart.Attributes
import VirtRtLab.Gpio.Attributes
import VirtRtLab.System.Baseline

/-!
The system seen from the bus, and from one device: there it is the bus by itself, and the device in an arbitrary
environment.
-/

namespace VirtRtLab.System

open Kernel VirtRtLab.Core Transition

def BusMove (b b' : Bus) : Prop := b' = b ∨ ∃ x, b.step x = some b'

theorem BusMove.draw {b b' : Bus} (h : b' = b ∨ b' = b.drawn) : BusMove b b' := by
  rcases h with rfl | rfl
  · exact .inl rfl
  · exact .inr ⟨.draw, rfl⟩

section

variable {U G : Type} {chain : Chain U G} {s t : Sys U G} {o : List (Obs U G)}

theorem setState_bus (chain : Chain U G) (s : Sys U G) (new : BusState) (count : ℕ) :
    BusMove s.bus (setState chain s new count).1.bus := by
  unfold setState
  split
  · exact .inl rfl
  · exact .inr ⟨.setState new, rfl⟩

theorem stateStore_bus {buf : Bytes} (h : stateStore chain s buf = some (t, o)) : BusMove s.bus t.bus := by
  unfold stateStore at h
  split at h
  · split at h
    · have hbus := setState_bus chain s .up buf.length
      rwa [Option.some.inj h] at hbus
    · split at h
      · have hbus := setState_bus chain s .down buf.length
        rwa [Option.some.inj h] at hbus
      · split at h
        all_goals
          cases h
          exact .inl rfl
  · cases h

theorem seedStore_bus (s : Sys U G) (buf : Bytes) : BusMove s.bus (seedStore s buf).1.bus := by
  unfold seedStore
  split
  · exact .inl rfl
  · rename_i value _
    split
    · exact .inl rfl
    · rename_i hz
      exact .inr ⟨.seed value, if_neg hz⟩

variable [DecidableEq U] [DecidableEq G]

def Seen (s t : Sys U G) : U ⊕ G → Prop
  | .inl u => (∃ a o, Uart.machine ⟨s.bus, s.uarts u⟩ a = some (⟨t.bus, t.uarts u⟩, o)) ∨ t.uarts u = s.uarts u
  | .inr g => (∃ a o, Gpio.machine ⟨s.bus, s.gpios g⟩ a = some (⟨t.bus, t.gpios g⟩, o)) ∨ t.gpios g = s.gpios g

structure Projects (s t : Sys U G) : Prop where
  bus : BusMove s.bus t.bus
  device : ∀ x, Seen s t x

omit [DecidableEq U] [DecidableEq G] in
theorem Projects.outside (hb : BusMove s.bus t.bus) (hu : t.uarts = s.uarts) (hg : t.gpios = s.gpios) :
    Projects s t := by
  refine ⟨hb, fun x => ?_⟩
  cases x with
  | inl u => exact .inr (congrFun hu u)
  | inr g => exact .inr (congrFun hg g)

theorem UartStep.projects {u : U} {a : Uart.Act} (h : UartStep s t u a) (ha : ∀ x, a ≠ .bus x) : Projects s t := by
  obtain ⟨o, hm⟩ := h.step
  refine ⟨.draw (Uart.machine_bus ha hm), fun x => ?_⟩
  by_cases hx : x = .inl u
  · subst hx
    exact .inl ⟨a, o, hm⟩
  · have hsame := h.other x hx
    cases x with
    | inl v => exact .inr hsame
    | inr g => exact .inr hsame

theorem GpioStep.projects {g : G} {a : Gpio.Act} (h : GpioStep s t g a) (ha : ∀ x, a ≠ .bus x) : Projects s t := by
  obtain ⟨o, hm⟩ := h.step
  refine ⟨.draw (Gpio.machine_bus ha hm), fun x => ?_⟩
  by_cases hx : x = .inr g
  · subst hx
    exact .inl ⟨a, o, hm⟩
  · have hsame := h.other x hx
    cases x with
    | inl u => exact .inr hsame
    | inr g' => exact .inr hsame

theorem notify_projects {event : BusEvent} {x : U ⊕ G} (h : notify s event x = some (t, o)) : Projects s t := by
  cases x with
  | inl u => exact (stepUart_cases h).projects (by simp)
  | inr g => exact (stepGpio_cases h).projects (by simp)

theorem callback_projects {x : U ⊕ G} (h : callback s x = some (t, o)) : Projects s t := by
  cases x with
  | inl u => exact (stepUart_cases h).projects (by simp)
  | inr g => exact (stepGpio_cases h).projects (by simp)

theorem CoreStep.projects (h : CoreStep chain s t) : Projects s t := by
  cases h with
  | call hc hn =>
    have hp := notify_projects hn
    exact ⟨hp.bus, hp.device⟩
  | callback hc hb hn => exact callback_projects hn
  | called | returned | next => exact .outside (.inl rfl) rfl rfl
  | setUp => exact .outside (.inr ⟨.setState .up, rfl⟩) rfl rfl

theorem machine_projects {a : Act U G} (h : machine chain s a = some (t, o)) : Projects s t := by
  cases a with
  | stateStore buf =>
    obtain ⟨-, hu, hg⟩ := stateStore_cases h
    exact .outside (stateStore_bus h) hu hg
  | core => exact (stepCore_cases h).projects
  | seedStore buf =>
    obtain ⟨-, hu, hg⟩ := seedStore_frame s buf
    have hb := seedStore_bus s buf
    rw [Option.some.inj h] at hb hu hg
    exact .outside hb hu hg
  | uart u a =>
    simp only [machine] at h
    split at h
    · rename_i ha
      exact (stepUart_cases h).projects (by rintro x rfl; cases ha)
    · cases h
  | gpio g a =>
    simp only [machine] at h
    split at h
    · rename_i ha
      exact (stepGpio_cases h).projects (by rintro x rfl; cases ha)
    · cases h

/-- Every run of the system is, to one of its UARTs, a run of that device in its environment. -/
theorem run_uart {os : List (Obs U G)} (h : Run (machine chain) Always start os s) (u : U) :
    ∃ os', Run Uart.machine Always Uart.start os' ⟨s.bus, s.uarts u⟩ := by
  refine h.project (fun s => Uart.Sys.mk s.bus (s.uarts u)) fun t a v o hm => ?_
  obtain ⟨hb, hd⟩ := machine_projects hm
  rcases hd (.inl u) with hstep | hsame
  · exact .inr hstep
  · rcases hb with hb | ⟨x, hx⟩
    · exact .inl (by rw [hb, hsame])
    · refine .inr ⟨.bus x, [], ?_⟩
      simp only [Uart.machine, hx, hsame, Option.map_some]

theorem run_gpio {os : List (Obs U G)} (h : Run (machine chain) Always start os s) (g : G) :
    ∃ os', Run Gpio.machine Always Gpio.start os' ⟨s.bus, s.gpios g⟩ := by
  refine h.project (fun s => Gpio.Sys.mk s.bus (s.gpios g)) fun t a v o hm => ?_
  obtain ⟨hb, hd⟩ := machine_projects hm
  rcases hd (.inr g) with hstep | hsame
  · exact .inr hstep
  · rcases hb with hb | ⟨x, hx⟩
    · exact .inl (by rw [hb, hsame])
    · refine .inr ⟨.bus x, [], ?_⟩
      simp only [Gpio.machine, hx, hsame, Option.map_some]

omit [DecidableEq U] [DecidableEq G] in
theorem BusMove.call {b b' : Bus} {x : Bus.Act} (h : b.step x = some b') : ∃ a o, Core.machine b a = some (b', o) := by
  cases x with
  | draw =>
    cases h
    exact ⟨.draw, _, rfl⟩
  | seed value =>
    simp only [Bus.step] at h
    split at h
    · cases h
    · rename_i hz
      cases h
      refine ⟨.seedStore (emitUnsigned value.toNat), [.seeded (.ok (emitUnsigned value.toNat).length)], ?_⟩
      simp only [Core.machine, Bus.seedStore, kstrtou32_emit_decimal, if_neg hz]
  | setState state =>
    cases h
    cases state with
    | up => exact ⟨.stateStore [117, 112], _, rfl⟩
    | down => exact ⟨.stateStore [100, 111, 119, 110], _, rfl⟩

theorem run_bus {os : List (Obs U G)} (h : Run (machine chain) Always start os s) :
    ∃ os', Run Core.machine Always .init os' s.bus := by
  refine h.project (fun s => s.bus) fun t a u o hm => ?_
  rcases (machine_projects hm).bus with hb | ⟨x, hx⟩
  · exact .inl hb
  · exact .inr (BusMove.call hx)

theorem attribute_stores {os : List (Obs U G)} (h : Run (machine chain) Always start os s) :
    (∀ u, Uart.StoreLaw ⟨s.bus, s.uarts u⟩) ∧ ∀ g, Gpio.StoreLaw ⟨s.bus, s.gpios g⟩ := by
  constructor
  · intro u
    obtain ⟨os', hrun⟩ := run_uart h u
    exact Uart.storeLaw_run hrun
  · intro g
    obtain ⟨os', hrun⟩ := run_gpio h g
    exact Gpio.storeLaw_run hrun

end

theorem attribute_stores_hex_and_refused : ∃ os s, Run (machine both) Always start os s ∧
    (s.uarts ()).attrs.latencyNs = 16 ∧ (s.uarts ()).txBufSz = 128 ∧ (s.gpios ()).attrs.dropRatePpm = 0 ∧
    Uart.StoreLaw ⟨s.bus, s.uarts ()⟩ ∧ Gpio.StoreLaw ⟨s.bus, s.gpios ()⟩ := by
  obtain ⟨os, s, hrun, hl, hb, hd⟩ := Run.exists_of_exec (M := machine both) (P := Always) (s := start)
    (uartActs [.attrStore .latencyNs [48, 120, 49, 48], .bufSzStore .tx [49, 50, 56, 10], .bufSzCommit 0] ++
      gpioActs [.attrStore .dropRatePpm [49, 48, 48, 48, 48, 48, 49]])
    (fun _ s => (s.uarts ()).attrs.latencyNs = 16 ∧ (s.uarts ()).txBufSz = 128 ∧ (s.gpios ()).attrs.dropRatePpm = 0)
    (by decide +kernel)
  obtain ⟨hu, hg⟩ := attribute_stores hrun
  exact ⟨os, s, hrun, hl, hb, hd, hu (), hg ()⟩

end VirtRtLab.System
