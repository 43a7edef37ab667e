import VirtRtLab.Core.AttrText
import VirtRtLab.Gpio.Steps

namespace VirtRtLab.Gpio

open Kernel VirtRtLab.Core Transition

def Dev.set (d : Dev) (attr : Attr) (v : ℕ) : Dev := { d with attrs := d.attrs.set attr v }

def Dev.store (d : Dev) (attr : Attr) (buf : Bytes) : Except Errno Dev :=
  (d.attrs.store MAX_LATENCY_NS MAX_PPM attr buf).map (fun attrs => { d with attrs })

section

variable {b b' : Bus} {d d' : Dev} {a : Act} {o : List Obs}

theorem InjectStep.attrs {k : ℕ} (h : InjectStep b d k b' d' o) : d'.attrs = d.attrs := by
  cases h with
  | apply hk ha | applied hk ha => exact ha.frame.attrs
  | _ => rfl

theorem WorkStep.attrs {ℓ : Fin LINES} (h : WorkStep b d ℓ b' d' o) : d'.attrs = d.attrs := by
  cases h with
  | apply ha => exact ha.frame.attrs

theorem DevStep.inRange (h : DevStep d a d' o) (hd : d.attrs.InRange) : d'.attrs.InRange := by
  cases h with
  | attrStore hs =>
    obtain ⟨v, hv, rfl⟩ := FaultAttrs.store_ok rfl rfl hs
    exact hd.set hv
  | critical => exact FaultAttrs.inRange_default
  | _ => exact hd

theorem machine_inRange {s t : Sys} (hs : s.dev.attrs.InRange) (h : machine s a = some (t, o)) :
    t.dev.attrs.InRange := by
  obtain ⟨k, hiFirst, -, hi⟩ | ⟨ℓ, -, hw⟩ | ⟨x, -, -, hd, -⟩ | ⟨-, hd⟩ := machine_cases h
  · rw [hi.attrs]
    exact hs
  · rw [hw.attrs]
    exact hs
  · rw [hd]
    exact hs
  · exact hd.inRange hs

theorem inRange_run {s : Sys} {os : List Obs} (h : Run machine Always start os s) : s.dev.attrs.InRange :=
  h.invariant (fun s => s.dev.attrs.InRange) FaultAttrs.inRange_default (fun _ _ _ _ hi _ hm => machine_inRange hi hm)

structure StoreLaw (s : Sys) : Prop where
  range : ∀ attr, s.dev.attrs.get attr ≤ attr.limit
  failed : ∀ attr buf e, s.dev.store attr buf = .error e → machine s (.attrStore attr buf) = some (s, [])
  stored : ∀ attr buf d, s.dev.store attr buf = .ok d → (∃ v, v ≤ attr.limit ∧ d = s.dev.set attr v) ∧
    machine s (.attrStore attr buf) = some (⟨s.bus, d⟩, [])
  noop : ∀ attr, s.dev.store attr (s.dev.attrs.attrShow attr) = .ok s.dev

theorem storeLaw_run {s : Sys} {os : List Obs} (h : Run machine Always start os s) : StoreLaw s := by
  have hs := inRange_run h
  constructor
  · exact hs
  · intro attr buf e he
    cases hstore : s.dev.attrs.store MAX_LATENCY_NS MAX_PPM attr buf with
    | error e' => simp only [machine, stepDev, hstore, Option.map_some]
    | ok attrs =>
      rw [Dev.store, hstore] at he
      cases he
  · intro attr buf d hd
    obtain ⟨attrs, hstore, rfl⟩ := FaultAttrs.map_eq_ok hd
    obtain ⟨v, hv, rfl⟩ := FaultAttrs.store_ok rfl rfl hstore
    exact ⟨⟨v, hv, rfl⟩, by simp only [machine, stepDev, hstore, Option.map_some]⟩
  · intro attr
    have hstore : s.dev.attrs.store MAX_LATENCY_NS MAX_PPM attr (s.dev.attrs.attrShow attr) = .ok s.dev.attrs :=
      FaultAttrs.store_attrShow rfl rfl hs attr
    simp only [Dev.store, hstore, Except.map]

end

end VirtRtLab.Gpio
