import Mathlib.Data.List.Basic

namespace VirtRtLab.Core

inductive BusState where
  | up | down
  deriving DecidableEq, Repr

inductive BusEvent where
  | up | down | reset
  deriving DecidableEq, Repr

def DEFAULT_SEED : UInt32 := 1

structure Bus where
  state : BusState
  prngState : UInt32
  deriving DecidableEq, Repr

namespace Bus

def init : Bus := ⟨.up, DEFAULT_SEED⟩

def isUp (b : Bus) : Bool := b.state = .up

def nextPrngU32 (b : Bus) : UInt32 :=
  let value := if b.prngState = 0 then DEFAULT_SEED else b.prngState
  let value := value ^^^ (value <<< 13)
  let value := value ^^^ (value >>> 17)
  value ^^^ (value <<< 5)

def drawn (b : Bus) : Bus := { b with prngState := b.nextPrngU32 }

/-- What happens to the bus behind one device's back: other devices draw from the shared stream,
the harness seeds it, the core changes the state. -/
inductive Act where
  | draw
  | seed (value : UInt32)
  | setState (state : BusState)
  deriving DecidableEq, Repr

def step (b : Bus) : Act → Option Bus
  | .draw => some b.drawn
  | .seed value => if value = 0 then none else some { b with prngState := value }
  | .setState state => some { b with state }

end Bus

def gate (draw ppm : UInt32) : Bool := draw % 1000000 < ppm

def jitterSample (hi lo : UInt32) (jitterNs : UInt64) : UInt64 :=
  ((hi.toUInt64 <<< 32) ||| lo.toUInt64) % (jitterNs + 1)

end VirtRtLab.Core
