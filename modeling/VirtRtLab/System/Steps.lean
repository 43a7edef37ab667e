import VirtRtLab.Uart.Baseline
import VirtRtLab.Gpio.Baseline
import VirtRtLab.System.Machine

namespace VirtRtLab.System

open Kernel VirtRtLab.Core Transition

section

variable {U G : Type}

def Same (s t : Sys U G) : U ⊕ G → Prop
  | .inl u => t.uarts u = s.uarts u
  | .inr g => t.gpios g = s.gpios g

theorem Same.busy {s t : Sys U G} {x : U ⊕ G} (h : Same s t x) : t.busy x = s.busy x := by
  cases x with
  | inl u =>
    have hu : t.uarts u = s.uarts u := h
    simp only [Sys.busy, hu]
  | inr g =>
    have hg : t.gpios g = s.gpios g := h
    simp only [Sys.busy, hg]

theorem setState_devices (chain : Chain U G) (s : Sys U G) (new : BusState) (count : ℕ) :
    (setState chain s new count).1.uarts = s.uarts ∧ (setState chain s new count).1.gpios = s.gpios := by
  unfold setState
  split <;> exact ⟨rfl, rfl⟩

theorem stateStore_cases {chain : Chain U G} {s t : Sys U G} {buf : Bytes} {o : List (Obs U G)}
    (h : stateStore chain s buf = some (t, o)) : s.core = .idle ∧ t.uarts = s.uarts ∧ t.gpios = s.gpios := by
  unfold stateStore at h
  split at h
  · refine ⟨‹_›, ?_⟩
    repeat' split at h
    · have ht : (setState chain s .up buf.length).1 = t := by rw [Option.some.inj h]
      rw [← ht]
      exact setState_devices chain s .up buf.length
    · have ht : (setState chain s .down buf.length).1 = t := by rw [Option.some.inj h]
      rw [← ht]
      exact setState_devices chain s .down buf.length
    · cases h
      exact ⟨rfl, rfl⟩
    · cases h
      exact ⟨rfl, rfl⟩
  · cases h

theorem seedStore_frame (s : Sys U G) (buf : Bytes) : (seedStore s buf).1.core = s.core ∧
    (seedStore s buf).1.uarts = s.uarts ∧ (seedStore s buf).1.gpios = s.gpios := by
  unfold seedStore
  repeat' split
  all_goals exact ⟨rfl, rfl, rfl⟩

theorem busy_congr {s t : Sys U G} (hu : t.uarts = s.uarts) (hg : t.gpios = s.gpios) (x : U ⊕ G) :
    t.busy x = s.busy x := by
  apply Same.busy
  cases x with
  | inl u => exact congrFun hu u
  | inr g => exact congrFun hg g

variable [DecidableEq U] [DecidableEq G] {chain : Chain U G} {s t : Sys U G} {o : List (Obs U G)}

structure UartStep (s t : Sys U G) (u : U) (a : Uart.Act) : Prop where
  step : ∃ o, Uart.machine ⟨s.bus, s.uarts u⟩ a = some (⟨t.bus, t.uarts u⟩, o)
  core : t.core = s.core
  other : ∀ y, y ≠ .inl u → Same s t y

structure GpioStep (s t : Sys U G) (g : G) (a : Gpio.Act) : Prop where
  step : ∃ o, Gpio.machine ⟨s.bus, s.gpios g⟩ a = some (⟨t.bus, t.gpios g⟩, o)
  core : t.core = s.core
  other : ∀ y, y ≠ .inr g → Same s t y

omit [DecidableEq G] in
theorem stepUart_cases {u : U} {a : Uart.Act} (h : stepUart s u a = some (t, o)) : UartStep s t u a := by
  obtain ⟨⟨r, o'⟩, hm, hr⟩ := Option.map_eq_some_iff.mp h
  cases hr
  constructor
  · exact ⟨o', by simp [hm]⟩
  · rfl
  · intro y hy
    cases y with
    | inl v => exact Function.update_of_ne (fun hv => hy (by rw [hv])) ..
    | inr g => rfl

omit [DecidableEq U] in
theorem stepGpio_cases {g : G} {a : Gpio.Act} (h : stepGpio s g a = some (t, o)) : GpioStep s t g a := by
  obtain ⟨⟨r, o'⟩, hm, hr⟩ := Option.map_eq_some_iff.mp h
  cases hr
  constructor
  · exact ⟨o', by simp [hm]⟩
  · rfl
  · intro y hy
    cases y with
    | inl u => rfl
    | inr g' => exact Function.update_of_ne (fun hg => hy (by rw [hg])) ..

omit [DecidableEq G] in
theorem stepUart_enabled {u : U} {a : Uart.Act} (h : ∃ r o, Uart.machine ⟨s.bus, s.uarts u⟩ a = some (r, o)) :
    ∃ t o, stepUart s u a = some (t, o) := by
  obtain ⟨r, o, hm⟩ := h
  rw [stepUart, hm]
  exact ⟨_, _, rfl⟩

omit [DecidableEq U] in
theorem stepGpio_enabled {g : G} {a : Gpio.Act} (h : ∃ r o, Gpio.machine ⟨s.bus, s.gpios g⟩ a = some (r, o)) :
    ∃ t o, stepGpio s g a = some (t, o) := by
  obtain ⟨r, o, hm⟩ := h
  rw [stepGpio, hm]
  exact ⟨_, _, rfl⟩

variable (chain) in
inductive CoreStep (s : Sys U G) : Sys U G → Prop
  | call {event x rest t o} (hc : s.core = .call event (x :: rest)) (hn : notify s event x = some (t, o)) :
      CoreStep s { t with core := .calling event x rest }
  | called (hc : s.core = .call .reset []) : CoreStep s { s with core := .setUp }
  | returned {event} (hc : s.core = .call event []) (he : event ≠ .reset) : CoreStep s { s with core := .idle }
  | callback {event x rest t o} (hc : s.core = .calling event x rest) (hb : s.busy x = true)
      (hn : callback s x = some (t, o)) : CoreStep s t
  | next {event x rest} (hc : s.core = .calling event x rest) (hb : s.busy x = false) :
      CoreStep s { s with core := .call event rest }
  | setUp (hc : s.core = .setUp) :
      CoreStep s { s with bus := { s.bus with state := .up }, core := .call .up chain.blocks }

theorem stepCore_cases (h : stepCore chain s = some (t, o)) : CoreStep chain s t := by
  unfold stepCore at h
  split at h
  · cases h
  · obtain ⟨⟨r, o'⟩, hn, hr⟩ := Option.map_eq_some_iff.mp h
    cases hr
    exact .call ‹_› hn
  · cases h
    exact .called ‹_›
  · cases h
    rename_i hne hc
    exact .returned hc (fun he => hne (by rw [he]))
  · split at h
    · exact .callback ‹_› ‹_› h
    · cases h
      exact .next ‹_› (eq_false_of_ne_true ‹_›)
  · cases h
    exact .setUp ‹_›

end

end VirtRtLab.System
