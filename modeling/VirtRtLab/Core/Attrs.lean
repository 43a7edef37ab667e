import VirtRtLab.Kernel.Text

namespace VirtRtLab.Core

open Kernel

structure FaultAttrs where
  enabled : Bool
  latencyNs : UInt64
  jitterNs : UInt64
  dropRatePpm : UInt32
  bitflipRatePpm : UInt32
  deriving DecidableEq, Repr

inductive Attr where
  | enabled | latencyNs | jitterNs | dropRatePpm | bitflipRatePpm
  deriving DecidableEq, Repr

namespace FaultAttrs

def default : FaultAttrs := ⟨true, 0, 0, 0, 0⟩

def FaultFree (a : FaultAttrs) : Prop := a.dropRatePpm = 0 ∧ a.bitflipRatePpm = 0 ∧ a.jitterNs = 0

instance (a : FaultAttrs) : Decidable a.FaultFree := inferInstanceAs (Decidable (_ ∧ _))

def u64Store (max : UInt64) (buf : Bytes) : Except Errno UInt64 :=
  match kstrtou64 buf 0 with
  | .error e => .error e
  | .ok val => if val > max then .error .einval else .ok val

def u32Store (max : UInt32) (buf : Bytes) : Except Errno UInt32 :=
  match kstrtou32 buf 0 with
  | .error e => .error e
  | .ok val => if val > max then .error .einval else .ok val

def store (maxNs : UInt64) (maxPpm : UInt32) (a : FaultAttrs) (attr : Attr) (buf : Bytes) :
    Except Errno FaultAttrs :=
  match attr with
  | .enabled => (kstrtobool buf).map (fun val => { a with enabled := val })
  | .latencyNs => (u64Store maxNs buf).map (fun val => { a with latencyNs := val })
  | .jitterNs => (u64Store maxNs buf).map (fun val => { a with jitterNs := val })
  | .dropRatePpm => (u32Store maxPpm buf).map (fun val => { a with dropRatePpm := val })
  | .bitflipRatePpm => (u32Store maxPpm buf).map (fun val => { a with bitflipRatePpm := val })

theorem u64Store_le {max val : UInt64} {buf : Bytes} (h : u64Store max buf = .ok val) : val ≤ max := by
  unfold u64Store at h
  split at h
  · cases h
  · split at h <;> cases h
    exact UInt64.not_lt.mp ‹_›

structure Bounded (maxNs : UInt64) (a : FaultAttrs) : Prop where
  latency : a.latencyNs ≤ maxNs
  jitter : a.jitterNs ≤ maxNs

theorem bounded_default (maxNs : UInt64) : default.Bounded maxNs := by
  constructor <;> exact UInt64.le_iff_toNat_le.mpr (Nat.zero_le _)

theorem map_eq_ok {α β : Type} {r : Except Errno α} {f : α → β} {y : β} (h : r.map f = .ok y) :
    ∃ x, r = .ok x ∧ f x = y := by
  cases r with
  | error e => cases h
  | ok x =>
    cases h
    exact ⟨x, rfl, rfl⟩

theorem Bounded.store {maxNs : UInt64} {maxPpm : UInt32} {a a' : FaultAttrs} {attr : Attr} {buf : Bytes}
    (ha : a.Bounded maxNs) (h : a.store maxNs maxPpm attr buf = .ok a') : a'.Bounded maxNs := by
  cases attr with
  | latencyNs =>
    obtain ⟨val, hval, rfl⟩ := map_eq_ok h
    exact ⟨u64Store_le hval, ha.jitter⟩
  | jitterNs =>
    obtain ⟨val, hval, rfl⟩ := map_eq_ok h
    exact ⟨ha.latency, u64Store_le hval⟩
  | enabled | dropRatePpm | bitflipRatePpm =>
    obtain ⟨val, -, rfl⟩ := map_eq_ok h
    exact ⟨ha.latency, ha.jitter⟩

end FaultAttrs

end VirtRtLab.Core
