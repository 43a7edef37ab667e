import VirtRtLab.Uart.Timing
import VirtRtLab.Gpio.Timing
import VirtRtLab.System.Projection

/-!
The delays of both kinds of device, and of all devices of a bus in a run.
-/

namespace VirtRtLab.System

open VirtRtLab.Core Transition

structure ExactDelays (snap : Uart.TxSnap) (len : ℕ) (latencyNs jitterNs : UInt64) (hi lo : UInt32) : Prop where
  divisor : (Uart.divisor snap.baud).toNat = if snap.baud = 0 then 9600 else snap.baud.toNat
  positive : 0 < (Uart.divisor snap.baud).toNat ∧ 0 < (snap.attrs.jitterNs + 1).toNat ∧ 0 < (jitterNs + 1).toNat
  byte : (Uart.byteNs snap.baud).toNat = 10 ^ 10 / (Uart.divisor snap.baud).toNat
  uart : (Uart.rearmDelay snap len hi lo).toNat = (Uart.byteNs snap.baud).toNat * len + snap.attrs.latencyNs.toNat +
    (hi.toNat * 2 ^ 32 + lo.toNat) % (snap.attrs.jitterNs.toNat + 1)
  gpio : (Gpio.injectDelay latencyNs jitterNs hi lo).toNat =
    latencyNs.toNat + (hi.toNat * 2 ^ 32 + lo.toNat) % (jitterNs.toNat + 1)

theorem delays_exact (snap : Uart.TxSnap) (len : ℕ) (latencyNs jitterNs : UInt64) (hi lo : UInt32)
    (hburst : len ≤ Uart.BURST_SZ) (hul : snap.attrs.latencyNs ≤ Uart.MAX_FAULT_NS)
    (huj : snap.attrs.jitterNs ≤ Uart.MAX_FAULT_NS) (hgl : latencyNs ≤ Gpio.MAX_LATENCY_NS)
    (hgj : jitterNs ≤ Gpio.MAX_LATENCY_NS) :
    ExactDelays snap len latencyNs jitterNs hi lo ∧
      2 * len + snap.attrs.latencyNs.toNat ≤ (Uart.rearmDelay snap len hi lo).toNat ∧
      (Uart.rearmDelay snap len hi lo).toNat ≤
        (Uart.byteNs snap.baud).toNat * len + snap.attrs.latencyNs.toNat + snap.attrs.jitterNs.toNat ∧
      (Uart.rearmDelay snap len hi lo).toNat < 2 ^ 63 ∧
      latencyNs.toNat ≤ (Gpio.injectDelay latencyNs jitterNs hi lo).toNat ∧
      (Gpio.injectDelay latencyNs jitterNs hi lo).toNat ≤ latencyNs.toNat + jitterNs.toNat ∧
      (Gpio.injectDelay latencyNs jitterNs hi lo).toNat < 2 ^ 63 := by
  have hb : snap.attrs.Bounded Uart.MAX_FAULT_NS := ⟨hul, huj⟩
  have hu := Uart.toNat_le_max huj
  have hg := Gpio.toNat_le_max hgj
  obtain ⟨hu1, hu2, hu3⟩ := Uart.rearmDelay_bounds hi lo hb hburst
  obtain ⟨hg1, hg2, hg3⟩ := Gpio.injectDelay_bounds hi lo hgl hgj
  refine ⟨?_, hu1, hu2, hu3, hg1, hg2, hg3⟩
  constructor
  · exact Uart.divisor_toNat snap.baud
  · refine ⟨Uart.divisor_pos snap.baud, ?_, ?_⟩
    · rw [succ_toNat (by omega)]
      exact Nat.succ_pos _
    · rw [succ_toNat (by omega)]
      exact Nat.succ_pos _
  · exact Uart.byteNs_toNat snap.baud
  · exact Uart.rearmDelay_toNat hi lo hb hburst
  · exact Gpio.injectDelay_toNat hi lo hgl hgj

theorem delays_exact_three_bytes :
    (Uart.rearmDelay ⟨⟨true, 1000000, 5000000000, 0, 0⟩, 115200⟩ 3 270369 67634689).toNat =
      260415 + 1000000 + (270369 * 2 ^ 32 + 67634689) % 5000000001 ∧
    (Gpio.injectDelay 1000000 0 270369 67634689).toNat < 2 ^ 63 := by
  have h := delays_exact ⟨⟨true, 1000000, 5000000000, 0, 0⟩, 115200⟩ 3 1000000 0 270369 67634689 (by decide) (by decide)
    (by decide) (by decide) (by decide)
  exact ⟨h.1.uart.trans (by decide), h.2.2.2.2.2.2⟩

variable {U G : Type} [DecidableEq U] [DecidableEq G] {chain : Chain U G} {s : Sys U G} {os : List (Obs U G)}

/-- No device of the bus ever arms a timer with a delay that `ktime_t` would take for a negative one. -/
theorem timely_run (h : Run (machine chain) Always start os s) :
    (∀ u t, (s.uarts u).txTimer = some t → t.toNat < 2 ^ 63) ∧
      ∀ g ℓ t, ((s.gpios g).lines ℓ).delayTimer = some t → t.toNat < 2 ^ 63 := by
  constructor
  · intro u
    obtain ⟨os', hu⟩ := run_uart h u
    exact (Uart.timely_run hu).timer
  · intro g ℓ
    obtain ⟨os', hg⟩ := run_gpio h g
    exact (Gpio.timely_run hg).line ℓ

end VirtRtLab.System
