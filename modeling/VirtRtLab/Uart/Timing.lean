import VirtRtLab.Uart.Pacing

/-!
The arithmetic of the `tx_timer` delays is exact, and in every run they stay below what `ktime_t` holds.
-/

namespace VirtRtLab.Uart

open Kernel VirtRtLab.Core Transition

-- `delay_ns` of `virtrtlab_uart_tx_work_fn`, over the two draws
def rearmDelay (snap : TxSnap) (len : ℕ) (hi lo : UInt32) : UInt64 :=
  if snap.attrs.jitterNs = 0 then delayNs snap len else delayNs snap len + jitterSample hi lo snap.attrs.jitterNs

def divisor (baud : UInt32) : UInt64 := if baud = 0 then 9600 else baud.toUInt64

theorem divisor_toNat (baud : UInt32) : (divisor baud).toNat = if baud = 0 then 9600 else baud.toNat := by
  unfold divisor
  split
  · rfl
  · exact UInt32.toNat_toUInt64 baud

theorem divisor_pos (baud : UInt32) : 0 < (divisor baud).toNat := by
  rw [divisor_toNat]
  split
  · decide
  · rename_i hb
    exact Nat.pos_of_ne_zero (fun h => hb (UInt32.toNat_inj.mp h))

theorem byteNs_toNat (baud : UInt32) : (byteNs baud).toNat = 10 ^ 10 / (divisor baud).toNat := by
  have h : byteNs baud = 10 * NSEC_PER_SEC / divisor baud := rfl
  rw [h, UInt64.toNat_div]
  rfl

theorem two_le_byteNs (baud : UInt32) : 2 ≤ (byteNs baud).toNat := by
  have hlt : (divisor baud).toNat < 2 ^ 32 := by
    have hb : baud.toNat < 2 ^ 32 := baud.toNat_lt
    rw [divisor_toNat]
    split <;> omega
  rw [byteNs_toNat, Nat.le_div_iff_mul_le (divisor_pos baud)]
  omega

theorem delayNs_le {snap : TxSnap} {len : ℕ} (hb : snap.attrs.Bounded MAX_FAULT_NS) (hlen : len ≤ BURST_SZ) :
    (delayNs snap len).toNat ≤ 10 ^ 10 * 65 := by
  have h1 : (byteNs snap.baud).toNat * len ≤ 10 ^ 10 * 64 := Nat.mul_le_mul (byteNs_le snap.baud) hlen
  have h2 := toNat_le_max hb.latency
  rw [delayNs_toNat hb.latency hlen]
  omega

theorem delayNs_fits {snap : TxSnap} {len : ℕ} (hb : snap.attrs.Bounded MAX_FAULT_NS) (hlen : len ≤ BURST_SZ) :
    (delayNs snap len).toNat + snap.attrs.jitterNs.toNat + 1 < 2 ^ 63 := by
  have h1 := delayNs_le hb hlen
  have h2 := toNat_le_max hb.jitter
  omega

theorem rearmDelay_toNat {snap : TxSnap} {len : ℕ} (hi lo : UInt32) (hb : snap.attrs.Bounded MAX_FAULT_NS)
    (hlen : len ≤ BURST_SZ) : (rearmDelay snap len hi lo).toNat =
      (byteNs snap.baud).toNat * len + snap.attrs.latencyNs.toNat +
        (hi.toNat * 2 ^ 32 + lo.toNat) % (snap.attrs.jitterNs.toNat + 1) := by
  rw [← delayNs_toNat hb.latency hlen]
  exact jittered_toNat hi lo ((delayNs_fits hb hlen).trans (by decide))

theorem rearmDelay_bounds {snap : TxSnap} {len : ℕ} (hi lo : UInt32) (hb : snap.attrs.Bounded MAX_FAULT_NS)
    (hlen : len ≤ BURST_SZ) :
    2 * len + snap.attrs.latencyNs.toNat ≤ (rearmDelay snap len hi lo).toNat ∧
      (rearmDelay snap len hi lo).toNat ≤
        (byteNs snap.baud).toNat * len + snap.attrs.latencyNs.toNat + snap.attrs.jitterNs.toNat ∧
      (rearmDelay snap len hi lo).toNat < 2 ^ 63 := by
  have h1 := rearmDelay_toNat hi lo hb hlen
  have h2 := delayNs_fits hb hlen
  rw [delayNs_toNat hb.latency hlen] at h2
  have h3 : 2 * len ≤ (byteNs snap.baud).toNat * len := Nat.mul_le_mul_right len (two_le_byteNs snap.baud)
  have h4 := offset_le hi lo snap.attrs.jitterNs
  omega

theorem stepWork_delay {b : Bus} {d : Dev} {len : ℕ} {snap : TxSnap} (hpc : d.txWork = .jitter len snap)
    (hj : snap.attrs.jitterNs ≠ 0) (h₁ h₂ : Bool) :
    ∃ d', stepWork b d h₁ = some (b.drawn, d', []) ∧
      stepWork b.drawn d' h₂ = some (b.drawn.drawn, { d with
        txWork := .arm (if h₂ then rearmDelay snap len b.nextPrngU32 b.drawn.nextPrngU32
          else rearmDelay snap len b.drawn.nextPrngU32 b.nextPrngU32) }, []) := by
  refine ⟨{ d with txWork := .jitter2 len snap b.nextPrngU32 }, by simp only [stepWork, hpc], ?_⟩
  simp only [stepWork, rearmDelay, if_neg hj]
  cases h₂ <;> rfl

def TxPc.Timely : TxPc → Prop
  | .idle | .entered => True
  | .dequeued burst | .counted burst => burst.length ≤ BURST_SZ
  | .gates burst snap | .flip burst snap | .flipBit burst snap _ | .deliver burst snap =>
    burst.length ≤ BURST_SZ ∧ snap.attrs.Bounded MAX_FAULT_NS
  | .drop len snap | .overrun len _ snap | .rearm len snap | .jitter len snap | .jitter2 len snap _ =>
    len ≤ BURST_SZ ∧ snap.attrs.Bounded MAX_FAULT_NS
  | .arm delay => delay.toNat < 2 ^ 63

structure Timely (d : Dev) : Prop where
  attrs : d.attrs.Bounded MAX_FAULT_NS
  work : d.txWork.Timely
  timer : ∀ t, d.txTimer = some t → t.toNat < 2 ^ 63

section steps

variable {b b' : Bus} {d d' : Dev} {a : Act} {o : List Obs}

theorem delayNs_add_lt {snap : TxSnap} {len : ℕ} {hi lo : UInt32} (hb : snap.attrs.Bounded MAX_FAULT_NS)
    (hlen : len ≤ BURST_SZ) : (delayNs snap len + jitterSample hi lo snap.attrs.jitterNs).toNat < 2 ^ 63 := by
  have h1 := delayNs_fits hb hlen
  have h2 := offset_le hi lo snap.attrs.jitterNs
  rw [add_jitterSample_toNat hi lo (h1.trans (by decide))]
  omega

theorem flipped_length (burst : Bytes) (rnd rnd2 : UInt32) : (flipped burst rnd rnd2).length = burst.length :=
  List.length_modify ..

theorem WorkStep.work_timely (h : WorkStep b d b' d' o) (hb : d.attrs.Bounded MAX_FAULT_NS) (hw : d.txWork.Timely) :
    d'.txWork.Timely := by
  cases h with
  | nothing | done | arm => trivial
  | dequeue hpc => exact List.length_take_le ..
  | snap hpc =>
    rw [hpc] at hw
    exact ⟨hw, hb⟩
  | flipBit hpc =>
    rw [hpc] at hw
    exact ⟨(flipped_length ..).trans_le hw.1, hw.2⟩
  | noJitter hpc =>
    rw [hpc] at hw
    exact (delayNs_le hw.2 hw.1).trans_lt (by decide)
  | draw2 hpc hs =>
    rw [hpc] at hw
    rcases hs with rfl | rfl
    · exact delayNs_add_lt hw.2 hw.1
    · exact delayNs_add_lt hw.2 hw.1
  | count hpc | disabled hpc | noDropRate hpc | dropFires hpc | dropSpares hpc | drop hpc | noFlipRate hpc
  | flipFires hpc | flipSpares hpc | deliver hpc | deliverPart hpc | overrun hpc | jitter hpc | draw hpc =>
    rw [hpc] at hw
    exact hw

theorem WorkStep.timely (h : WorkStep b d b' d' o) (ht : Timely d) : Timely d' := by
  refine ⟨?_, h.work_timely ht.attrs ht.work, ?_⟩
  · rw [h.attrs]
    exact ht.attrs
  · cases h with
    | arm hpc =>
      have hw := ht.work
      rw [hpc] at hw
      rintro t ⟨⟩
      exact hw
    | _ => exact ht.timer

theorem DevStep.timely (h : DevStep b d a d' o) (ht : Timely d) : Timely d' := by
  have hattrs := h.bounded ht.attrs
  cases h with
  | writeArm hk =>
    refine ⟨hattrs, ht.work, ?_⟩
    rintro t ⟨⟩
    exact (byteNs_le _).trans_lt (by decide)
  | timerExpire | portShutdown | down | reset =>
    refine ⟨hattrs, ht.work, ?_⟩
    rintro t ⟨⟩
  | workStart => exact ⟨hattrs, trivial, ht.timer⟩
  | @resetStat k st | @resetZero st => cases st <;> exact ⟨hattrs, ht.work, ht.timer⟩
  | _ => exact ⟨hattrs, ht.work, ht.timer⟩

end steps

/-- In every run, whatever the attributes are set to, `ns_to_ktime` gets a delay it keeps non-negative. -/
theorem timely_run {os : List Obs} {s : Sys} (h : Run machine Always start os s) : Timely s.dev := by
  apply h.invariant (fun s => Timely s.dev)
  · refine ⟨FaultAttrs.bounded_default _, trivial, ?_⟩
    rintro t ⟨⟩
  · intro t a u o ht _ hm
    obtain ⟨hiFirst, -, hw⟩ | ⟨b, -, -, hd, -⟩ | ⟨-, hd⟩ := machine_cases hm
    · exact hw.timely ht
    · rwa [hd]
    · exact hd.timely ht

end VirtRtLab.Uart
