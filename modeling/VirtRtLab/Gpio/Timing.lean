import VirtRtLab.Core.Jitter
import VirtRtLab.Gpio.Attributes
import VirtRtLab.Gpio.FaultFree

/-!
The arithmetic of the `delay_timer` delays is exact, and in every run they stay below what `ktime_t` holds.
-/

namespace VirtRtLab.Gpio

open Kernel VirtRtLab.Core Transition

-- `delay_ns` of `inject_store`, over the two draws
def injectDelay (latencyNs jitterNs : UInt64) (hi lo : UInt32) : UInt64 :=
  if jitterNs = 0 then latencyNs else latencyNs + jitterSample hi lo jitterNs

section delay

variable {latencyNs jitterNs : UInt64}

theorem toNat_le_max {ns : UInt64} (h : ns ≤ MAX_LATENCY_NS) : ns.toNat ≤ 10 ^ 10 := UInt64.le_iff_toNat_le.mp h

theorem delay_fits (hl : latencyNs ≤ MAX_LATENCY_NS) (hj : jitterNs ≤ MAX_LATENCY_NS) :
    latencyNs.toNat + jitterNs.toNat + 1 < 2 ^ 63 := by
  have h1 := toNat_le_max hl
  have h2 := toNat_le_max hj
  omega

theorem injectDelay_toNat (hi lo : UInt32) (hl : latencyNs ≤ MAX_LATENCY_NS) (hj : jitterNs ≤ MAX_LATENCY_NS) :
    (injectDelay latencyNs jitterNs hi lo).toNat =
      latencyNs.toNat + (hi.toNat * 2 ^ 32 + lo.toNat) % (jitterNs.toNat + 1) :=
  jittered_toNat hi lo ((delay_fits hl hj).trans (by decide))

theorem injectDelay_bounds (hi lo : UInt32) (hl : latencyNs ≤ MAX_LATENCY_NS) (hj : jitterNs ≤ MAX_LATENCY_NS) :
    latencyNs.toNat ≤ (injectDelay latencyNs jitterNs hi lo).toNat ∧
      (injectDelay latencyNs jitterNs hi lo).toNat ≤ latencyNs.toNat + jitterNs.toNat ∧
      (injectDelay latencyNs jitterNs hi lo).toNat < 2 ^ 63 := by
  have h1 := injectDelay_toNat hi lo hl hj
  have h2 := delay_fits hl hj
  have h3 := offset_le hi lo jitterNs
  omega

theorem latency_add_lt {hi lo : UInt32} (hl : latencyNs ≤ MAX_LATENCY_NS) (hj : jitterNs ≤ MAX_LATENCY_NS) :
    (latencyNs + jitterSample hi lo jitterNs).toNat < 2 ^ 63 := by
  have h1 := delay_fits hl hj
  have h2 := offset_le hi lo jitterNs
  rw [add_jitterSample_toNat hi lo (h1.trans (by decide))]
  omega

end delay

theorem stepInject_delay {b : Bus} {d : Dev} {k count : ℕ} {ℓ : Fin LINES} {latencyNs jitterNs : UInt64}
    (hk : d.inject? k = some ⟨count, .jitter ℓ latencyNs jitterNs⟩) (hj : jitterNs ≠ 0) (h₁ h₂ : Bool) :
    ∃ d', stepInject b d k h₁ = some (b.drawn, d', []) ∧
      stepInject b.drawn d' k h₂ = some (b.drawn.drawn, d'.setInject k (some ⟨count, .arm ℓ
        (if h₂ then injectDelay latencyNs jitterNs b.nextPrngU32 b.drawn.nextPrngU32
          else injectDelay latencyNs jitterNs b.drawn.nextPrngU32 b.nextPrngU32)⟩), []) := by
  refine ⟨d.setInject k (some ⟨count, .jitter2 ℓ latencyNs jitterNs b.nextPrngU32⟩), by simp only [stepInject, hk], ?_⟩
  have hk' : (d.setInject k (some ⟨count, .jitter2 ℓ latencyNs jitterNs b.nextPrngU32⟩)).inject? k =
      some ⟨count, .jitter2 ℓ latencyNs jitterNs b.nextPrngU32⟩ := by
    rw [setInject_inject? d k _ hk, Function.update_self]
  simp only [stepInject, hk', injectDelay, if_neg hj]
  cases h₂ <;> rfl

def InjectPc.Timely : InjectPc → Prop
  | .jitter _ latencyNs jitterNs | .jitter2 _ latencyNs jitterNs _ =>
    latencyNs ≤ MAX_LATENCY_NS ∧ jitterNs ≤ MAX_LATENCY_NS
  | .arm _ delayNs => delayNs.toNat < 2 ^ 63
  | _ => True

def Line.Timely (line : Line) : Prop := ∀ t, line.delayTimer = some t → t.toNat < 2 ^ 63

abbrev Dev.Timely (d : Dev) : Prop := d.Each Line.Timely InjectPc.Timely

section steps

variable {b b' : Bus} {d d' : Dev} {ℓ : Fin LINES} {a : Act} {o : List Obs}

theorem ApplyStep.timely {pc pc' : ApplyPc} (h : ApplyStep b d ℓ pc b' d' pc' o) (hd : d.Timely) : d'.Timely := by
  refine ⟨fun ℓ' => ?_, by rw [h.frame.inject?]; exact hd.inject⟩
  by_cases he : ℓ' = ℓ
  · obtain ⟨gen, value, hline⟩ := h.frame.line
    rw [he, hline]
    exact hd.line ℓ
  · rw [h.frame.other ℓ' he]
    exact hd.line ℓ'

theorem dispatch_timely (ℓ : Fin LINES) {latencyNs jitterNs : UInt64} (hl : latencyNs ≤ MAX_LATENCY_NS)
    (hj : jitterNs ≤ MAX_LATENCY_NS) : (dispatch ℓ latencyNs jitterNs).Timely := by
  unfold dispatch
  split
  · trivial
  · split
    · exact (toNat_le_max hl).trans_lt (by decide)
    · exact ⟨hl, hj⟩

theorem stepInject_sum {k count : ℕ} {hiFirst : Bool} {latencyNs jitterNs : UInt64} {first : UInt32}
    (hk : d.inject? k = some ⟨count, .jitter2 ℓ latencyNs jitterNs first⟩)
    (h : stepInject b d k hiFirst = some (b', d', o)) :
    ∃ hi lo, d' = d.setInject k (some ⟨count, .arm ℓ (latencyNs + jitterSample hi lo jitterNs)⟩) := by
  simp only [stepInject, hk] at h
  cases hiFirst <;> cases h
  · exact ⟨_, _, rfl⟩
  · exact ⟨_, _, rfl⟩

theorem stepInject_timely {k : ℕ} {hiFirst : Bool} (h : stepInject b d k hiFirst = some (b', d', o))
    (hl : d.attrs.latencyNs ≤ MAX_LATENCY_NS) (hj : d.attrs.jitterNs ≤ MAX_LATENCY_NS) (hd : d.Timely) : d'.Timely := by
  cases stepInject_cases h with
  | busUp hk =>
    refine hd.setInject hk ?_
    rintro _ ⟨⟩
    trivial
  | busDown hk | disabled hk => exact hd.setInject hk (by simp)
  | drop hk he =>
    have hd' : ({ d with statDrops := d.statDrops + 1 } : Dev).Timely := ⟨hd.line, hd.inject⟩
    exact hd'.setInject hk (by simp)
  | @snapshot count ℓ val b' hk he =>
    have hsnap : (takeSnapshot d ℓ val).Timely := hd.setLine (hd.line ℓ)
    refine hsnap.setInject hk ?_
    rintro _ ⟨⟩
    exact dispatch_timely ℓ hl hj
  | apply hk hstep hpc =>
    have hd' := hstep.timely hd
    rw [← hstep.frame.inject?] at hk
    refine hd'.setInject hk ?_
    rintro _ ⟨⟩
    trivial
  | applied hk hstep =>
    have hd' := hstep.timely hd
    rw [← hstep.frame.inject?] at hk
    exact hd'.setInject hk (by simp)
  | draw hk =>
    have hbounds := hd.inject k _ hk
    refine hd.setInject hk ?_
    rintro _ ⟨⟩
    exact hbounds
  | draw2 hk =>
    obtain ⟨hi, lo, heq⟩ := stepInject_sum hk h
    rw [heq]
    refine hd.setInject hk ?_
    rintro _ ⟨⟩
    have hbounds := hd.inject k _ hk
    exact latency_add_lt hbounds.1 hbounds.2
  | @arm count ℓ delayNs hk =>
    have hset : (d.setLine ℓ { d.lines ℓ with delayTimer := some delayNs }).Timely := by
      refine hd.setLine ?_
      rintro t ⟨⟩
      exact hd.inject k _ hk
    exact hset.setInject hk (by simp)

theorem WorkStep.timely (h : WorkStep b d ℓ b' d' o) (hd : d.Timely) : d'.Timely := by
  cases h with
  | apply ha =>
    have he := ha.timely hd
    exact he.setLine (he.line ℓ)

theorem DevStep.timely (h : DevStep d a d' o) (hd : d.Timely) : d'.Timely := by
  cases h with
  | refused => exact hd
  | rejected => exact hd.call (by simp)
  | parsed hp =>
    refine hd.call ?_
    rintro _ ⟨⟩
    trivial
  | timerExpire =>
    refine hd.setLine ?_
    rintro t ⟨⟩
  | @directionInput ℓ | @directionOutput ℓ | @workStart ℓ => exact hd.setLine (hd.line ℓ)
  | @set ℓ value => exact hd.setLine (setValue_each _ (fun _ => hd.line ℓ) (hd.line ℓ))
  | setMultiple =>
    refine ⟨fun ℓ => ?_, hd.inject⟩
    dsimp only
    split
    · exact setValue_each _ (fun _ => hd.line ℓ) (hd.line ℓ)
    · exact hd.line ℓ
  | attrStore | resetStore | reset => exact ⟨hd.line, hd.inject⟩
  | @cancelTimer ℓ =>
    have hset : (d.setLine ℓ { d.lines ℓ with delayTimer := none }).Timely := by
      refine hd.setLine ?_
      rintro t ⟨⟩
    exact ⟨hset.line, hset.inject⟩
  | @cancelWork ℓ =>
    have hset : (d.setLine ℓ { d.lines ℓ with workQueued := false }).Timely := hd.setLine (hd.line ℓ)
    exact ⟨hset.line, hset.inject⟩
  | critical => exact ⟨fun ℓ => hd.line ℓ, hd.inject⟩

theorem machine_timely {s t : Sys} (hs : s.dev.attrs.InRange) (hd : s.dev.Timely) (h : machine s a = some (t, o)) :
    t.dev.Timely := by
  cases a with
  | inject k hiFirst =>
    obtain ⟨⟨b', d', o'⟩, he, hr⟩ := Option.map_eq_some_iff.mp h
    cases hr
    exact stepInject_timely he (UInt64.le_iff_toNat_le.mpr (hs .latencyNs)) (UInt64.le_iff_toNat_le.mpr (hs .jitterNs)) hd
  | _ =>
    obtain ⟨k, hiFirst, ha, -⟩ | ⟨ℓ, -, hw⟩ | ⟨x, -, -, hbus, -⟩ | ⟨-, hdev⟩ := machine_cases h
    · cases ha
    · exact hw.timely hd
    · rwa [hbus]
    · exact hdev.timely hd

end steps

theorem timely_run {os : List Obs} {s : Sys} (h : Run machine Always start os s) : s.dev.Timely := by
  have hinv : s.dev.attrs.InRange ∧ s.dev.Timely := by
    apply h.invariant (fun s => s.dev.attrs.InRange ∧ s.dev.Timely)
    · refine ⟨FaultAttrs.inRange_default, ?_, ?_⟩
      · rintro ℓ t ⟨⟩
      · rintro k inj ⟨⟩
    · intro t a u o hi _ hm
      exact ⟨machine_inRange hi.1 hm, machine_timely hi.1 hi.2 hm⟩
  exact hinv.2

end VirtRtLab.Gpio
