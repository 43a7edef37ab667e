import VirtRtLab.Uart.Machine
import VirtRtLab.Gpio.Machine

/-!
The bus of `virtrtlab_core.c` with any number of UART and GPIO devices on it. A write to the bus state calls the
notifier blocks of the devices one after another, with `virtrtlab_bus_state_mutex` held; everything else on the
devices goes on meanwhile.
-/

namespace VirtRtLab.System

open Kernel VirtRtLab.Core Transition

/-- The notifier chain of the bus, in the order of its calls. Every device has a block on it. -/
structure Chain (U G : Type) where
  blocks : List (U ⊕ G)
  all : ∀ x, x ∈ blocks

/-- `state_store` by its next access, with `virtrtlab_bus_state_mutex` held. -/
inductive CorePc (U G : Type) where
  | idle
  | call (event : BusEvent) (rest : List (U ⊕ G))
  | calling (event : BusEvent) (block : U ⊕ G) (rest : List (U ⊕ G))
  | setUp
  deriving DecidableEq

structure Sys (U G : Type) where
  bus : Bus
  uarts : U → Uart.Dev
  gpios : G → Gpio.Dev
  core : CorePc U G
  count : ℕ

inductive Act (U G : Type) where
  | stateStore (buf : Bytes)
  | core
  | seedStore (buf : Bytes)
  | uart (u : U) (a : Uart.Act)
  | gpio (g : G) (a : Gpio.Act)

inductive Obs (U G : Type) where
  | notified (block : U ⊕ G) (event : BusEvent)
  | stored (r : Except Errno ℕ)
  | seeded (r : Except Errno ℕ)
  | uart (u : U) (o : Uart.Obs)
  | gpio (g : G) (o : Gpio.Obs)

def ownUart : Uart.Act → Bool
  | .notify _ | .notifier | .bus _ => false
  | _ => true

def ownGpio : Gpio.Act → Bool
  | .notify _ | .notifier | .bus _ => false
  | _ => true

section

variable {U G : Type}

def start : Sys U G := ⟨.init, fun _ => .init, fun _ => .init, .idle, 0⟩

def Sys.busy (s : Sys U G) : U ⊕ G → Bool
  | .inl u => (s.uarts u).notifier ≠ .idle
  | .inr g => (s.gpios g).notifier ≠ .idle

/-- `virtrtlab_bus_set_state`, up to its notification. -/
def setState (chain : Chain U G) (s : Sys U G) (new : BusState) (count : ℕ) : Sys U G × List (Obs U G) :=
  if s.bus.state = new then (s, [.stored (.ok count)])
  else
    ({ s with
        bus := { s.bus with state := new }
        core := .call (if new = .up then .up else .down) chain.blocks
        count := count }, [])

def stateStore (chain : Chain U G) (s : Sys U G) (buf : Bytes) : Option (Sys U G × List (Obs U G)) :=
  match s.core with
  | .idle =>
    if sysfsStreq buf [117, 112] then some (setState chain s .up buf.length)
    else if sysfsStreq buf [100, 111, 119, 110] then some (setState chain s .down buf.length)
    else if sysfsStreq buf [114, 101, 115, 101, 116] then
      some ({ s with core := .call .reset chain.blocks, count := buf.length }, [])
    else some (s, [.stored (.error .einval)])
  | _ => none

def seedStore (s : Sys U G) (buf : Bytes) : Sys U G × List (Obs U G) :=
  match kstrtou32 buf 10 with
  | .error e => (s, [.seeded (.error e)])
  | .ok value =>
    if value = 0 then (s, [.seeded (.error .einval)])
    else ({ s with bus := { s.bus with prngState := value } }, [.seeded (.ok buf.length)])

variable [DecidableEq U] [DecidableEq G]

def stepUart (s : Sys U G) (u : U) (a : Uart.Act) : Option (Sys U G × List (Obs U G)) :=
  (Uart.machine ⟨s.bus, s.uarts u⟩ a).map (fun r =>
    ({ s with bus := r.1.bus, uarts := Function.update s.uarts u r.1.dev }, r.2.map (.uart u)))

def stepGpio (s : Sys U G) (g : G) (a : Gpio.Act) : Option (Sys U G × List (Obs U G)) :=
  (Gpio.machine ⟨s.bus, s.gpios g⟩ a).map (fun r =>
    ({ s with bus := r.1.bus, gpios := Function.update s.gpios g r.1.dev }, r.2.map (.gpio g)))

def notify (s : Sys U G) (event : BusEvent) : U ⊕ G → Option (Sys U G × List (Obs U G))
  | .inl u => stepUart s u (.notify event)
  | .inr g => stepGpio s g (.notify event)

def callback (s : Sys U G) : U ⊕ G → Option (Sys U G × List (Obs U G))
  | .inl u => stepUart s u .notifier
  | .inr g => stepGpio s g .notifier

/-- `virtrtlab_bus_notifier_call`, and `virtrtlab_bus_reset` between its two notifications. -/
def stepCore (chain : Chain U G) (s : Sys U G) : Option (Sys U G × List (Obs U G)) :=
  match s.core with
  | .idle => none
  | .call event (x :: rest) =>
    (notify s event x).map (fun r => ({ r.1 with core := .calling event x rest }, .notified x event :: r.2))
  | .call .reset [] => some ({ s with core := .setUp }, [])
  | .call _ [] => some ({ s with core := .idle }, [.stored (.ok s.count)])
  | .calling event x rest => if s.busy x then callback s x else some ({ s with core := .call event rest }, [])
  | .setUp => some ({ s with bus := { s.bus with state := .up }, core := .call .up chain.blocks }, [])

def machine (chain : Chain U G) : Machine (Sys U G) (Act U G) (Obs U G) := fun s a =>
  match a with
  | .stateStore buf => stateStore chain s buf
  | .core => stepCore chain s
  | .seedStore buf => some (seedStore s buf)
  | .uart u a => if ownUart a then stepUart s u a else none
  | .gpio g a => if ownGpio a then stepGpio s g a else none

end

end VirtRtLab.System
