import VirtRtLab.Kernel.Decimal
import VirtRtLab.Core.Attrs

namespace VirtRtLab.Core

open Kernel

def Attr.limit : Attr → ℕ
  | .enabled => 1
  | .latencyNs | .jitterNs => 10 ^ 10
  | .dropRatePpm | .bitflipRatePpm => 10 ^ 6

namespace FaultAttrs

def get (a : FaultAttrs) : Attr → ℕ
  | .enabled => a.enabled.toNat
  | .latencyNs => a.latencyNs.toNat
  | .jitterNs => a.jitterNs.toNat
  | .dropRatePpm => a.dropRatePpm.toNat
  | .bitflipRatePpm => a.bitflipRatePpm.toNat

def set (a : FaultAttrs) (attr : Attr) (v : ℕ) : FaultAttrs :=
  match attr with
  | .enabled => { a with enabled := decide (v ≠ 0) }
  | .latencyNs => { a with latencyNs := UInt64.ofNat v }
  | .jitterNs => { a with jitterNs := UInt64.ofNat v }
  | .dropRatePpm => { a with dropRatePpm := UInt32.ofNat v }
  | .bitflipRatePpm => { a with bitflipRatePpm := UInt32.ofNat v }

def attrShow (a : FaultAttrs) : Attr → Bytes
  | .enabled => emitBool a.enabled
  | .latencyNs => emitUnsigned a.latencyNs.toNat
  | .jitterNs => emitUnsigned a.jitterNs.toNat
  | .dropRatePpm => emitUnsigned a.dropRatePpm.toNat
  | .bitflipRatePpm => emitUnsigned a.bitflipRatePpm.toNat

def InRange (a : FaultAttrs) : Prop := ∀ attr, a.get attr ≤ attr.limit

theorem inRange_default : default.InRange := by
  intro attr
  cases attr <;> simp [default, get, Attr.limit]

theorem InRange.set {a : FaultAttrs} {attr : Attr} {v : ℕ} (h : a.InRange) (hv : v ≤ attr.limit) :
    (a.set attr v).InRange := by
  intro attr'
  have ha := h attr'
  cases attr with
  | enabled =>
    cases attr' with
    | enabled => exact Bool.toNat_le _
    | _ => exact ha
  | latencyNs =>
    cases attr' with
    | latencyNs => exact (Nat.mod_le v _).trans hv
    | _ => exact ha
  | jitterNs =>
    cases attr' with
    | jitterNs => exact (Nat.mod_le v _).trans hv
    | _ => exact ha
  | dropRatePpm =>
    cases attr' with
    | dropRatePpm => exact (Nat.mod_le v _).trans hv
    | _ => exact ha
  | bitflipRatePpm =>
    cases attr' with
    | bitflipRatePpm => exact (Nat.mod_le v _).trans hv
    | _ => exact ha

variable {maxNs : UInt64} {maxPpm : UInt32} {a a' : FaultAttrs} {attr : Attr} {buf : Bytes}

theorem u32Store_le {max val : UInt32} (h : u32Store max buf = .ok val) : val ≤ max := by
  unfold u32Store at h
  split at h
  · cases h
  · split at h <;> cases h
    exact UInt32.not_lt.mp ‹_›

theorem store_ok (hn : maxNs.toNat = 10 ^ 10) (hp : maxPpm.toNat = 10 ^ 6)
    (h : a.store maxNs maxPpm attr buf = .ok a') : ∃ v, v ≤ attr.limit ∧ a' = a.set attr v := by
  cases attr with
  | enabled =>
    obtain ⟨val, -, rfl⟩ := map_eq_ok h
    refine ⟨val.toNat, Bool.toNat_le val, ?_⟩
    cases val <;> rfl
  | latencyNs | jitterNs =>
    obtain ⟨val, hval, rfl⟩ := map_eq_ok h
    refine ⟨val.toNat, ?_, by simp [set]⟩
    rw [Attr.limit, ← hn]
    exact UInt64.le_iff_toNat_le.mp (u64Store_le hval)
  | dropRatePpm | bitflipRatePpm =>
    obtain ⟨val, hval, rfl⟩ := map_eq_ok h
    refine ⟨val.toNat, ?_, by simp [set]⟩
    rw [Attr.limit, ← hp]
    exact UInt32.le_iff_toNat_le.mp (u32Store_le hval)

theorem u64Store_emit {val : UInt64} (h : val ≤ maxNs) : u64Store maxNs (emitUnsigned val.toNat) = .ok val := by
  have hle : ¬ val > maxNs := UInt64.not_lt.mpr h
  simp only [u64Store, kstrtou64_emit, if_neg hle]

theorem u32Store_emit {val : UInt32} (h : val ≤ maxPpm) : u32Store maxPpm (emitUnsigned val.toNat) = .ok val := by
  have hle : ¬ val > maxPpm := UInt32.not_lt.mpr h
  simp only [u32Store, kstrtou32_emit, if_neg hle]

theorem store_attrShow (hn : maxNs.toNat = 10 ^ 10) (hp : maxPpm.toNat = 10 ^ 6) (h : a.InRange) (attr : Attr) :
    a.store maxNs maxPpm attr (a.attrShow attr) = .ok a := by
  have hns {val : UInt64} (hv : val.toNat ≤ 10 ^ 10) : val ≤ maxNs := UInt64.le_iff_toNat_le.mpr (hn ▸ hv)
  have hppm {val : UInt32} (hv : val.toNat ≤ 10 ^ 6) : val ≤ maxPpm := UInt32.le_iff_toNat_le.mpr (hp ▸ hv)
  have ha := h attr
  cases attr with
  | enabled => simp only [store, attrShow, kstrtobool_emit, Except.map]
  | latencyNs | jitterNs => simp only [store, attrShow, u64Store_emit (hns ha), Except.map]
  | dropRatePpm | bitflipRatePpm => simp only [store, attrShow, u32Store_emit (hppm ha), Except.map]

end FaultAttrs

end VirtRtLab.Core
