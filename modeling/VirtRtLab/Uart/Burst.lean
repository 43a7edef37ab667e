import Mathlib.Tactic.IntervalCases
import VirtRtLab.Uart.Steps

namespace VirtRtLab.Uart

open Kernel VirtRtLab.Core Transition

def TxPc.atRearm : TxPc → Bool
  | .rearm _ _ => true
  | _ => false

/-- `tx_work` up to the re-arm with nobody else at work, and its draws. -/
def toRearm : ℕ → Bus → Dev → Option (Bus × Dev × ℕ)
  | 0, _, _ => none
  | fuel + 1, b, d =>
    if d.txWork.atRearm then some (b, d, 0)
    else
      match stepWork b d true with
      | none => none
      | some (b', d', _) => (toRearm fuel b' d').map (fun r => (r.1, r.2.1, d.txWork.draws + r.2.2))

theorem toRearm_run {fuel draws : ℕ} {b b' : Bus} {d d' : Dev} (h : toRearm fuel b d = some (b', d', draws)) :
    b' = Bus.drawn^[draws] b ∧ ∃ os, Run machine (fun _ a => a = .work true) ⟨b, d⟩ os ⟨b', d'⟩ := by
  induction fuel generalizing b d draws with
  | zero => cases h
  | succ fuel ih =>
    simp only [toRearm] at h
    split at h
    · cases h
      exact ⟨rfl, _, .refl⟩
    · split at h
      · cases h
      · rename_i b₁ d₁ o hs
        obtain ⟨⟨b₂, d₂, k⟩, hr, he⟩ := Option.map_eq_some_iff.mp h
        cases he
        obtain ⟨hbus, os, hrun⟩ := ih hr
        have hone : Run machine (fun _ a => a = .work true) ⟨b, d⟩ ([] ++ o) ⟨b₁, d₁⟩ :=
          .step .refl rfl (by simp [machine, hs])
        refine ⟨?_, _, hone.trans hrun⟩
        rw [hbus, (stepWork_cases hs).drawn, Nat.add_comm, Function.iterate_add_apply]

def fires (b : Bus) (ppm : UInt32) : Bool := ppm ≠ 0 && gate b.nextPrngU32 ppm

def afterGate (b : Bus) (ppm : UInt32) : Bus := if ppm = 0 then b else b.drawn

def OneBitOff (burst sent : Bytes) : Prop :=
  ∃ i < burst.length, ∃ k < 8, sent = burst.modify i (fun c => c ^^^ ((1 : UInt8) <<< k))

theorem fires_always (b : Bus) : fires b MAX_PPM = true := by
  have hlt : b.nextPrngU32 % 1000000 < 1000000 := by
    rw [UInt32.lt_iff_toNat_lt, UInt32.toNat_mod]
    exact Nat.mod_lt _ (by decide)
  rw [fires, gate, MAX_PPM, decide_eq_true hlt]
  rfl

theorem fires_never (b : Bus) : fires b 0 = false := rfl

theorem shiftLeft_ne_zero {k : UInt8} (hk : k < 8) : (1 : UInt8) <<< k ≠ 0 := by
  have hlt : k.toNat < 8 := UInt8.lt_iff_toNat_lt.mp hk
  rw [← @UInt8.ofNat_toNat k]
  generalize k.toNat = n at hlt
  interval_cases n <;> decide

theorem OneBitOff.ne {burst sent : Bytes} (h : OneBitOff burst sent) : sent ≠ burst := by
  obtain ⟨i, hi, k, hk, rfl⟩ := h
  intro he
  have hget := congrArg (fun bs => bs[i]?) he
  have hsame : burst[i] ^^^ ((1 : UInt8) <<< k) = burst[i] ^^^ 0 := by
    simpa [List.getElem?_modify_eq, List.getElem?_eq_getElem hi] using hget
  exact shiftLeft_ne_zero hk ((UInt8.xor_right_inj _).mp hsame)

theorem flipped_off {burst : Bytes} (rnd rnd2 : UInt32) (h : burst ≠ []) : OneBitOff burst (flipped burst rnd rnd2) := by
  refine ⟨_, Nat.mod_lt _ (List.length_pos_iff.mpr h), (rnd2 &&& 7).toUInt8, ?_, rfl⟩
  rw [UInt8.lt_iff_toNat_lt, UInt32.toNat_toUInt8, UInt32.toNat_and]
  have : rnd2.toNat &&& (7 : UInt32).toNat ≤ 7 := Nat.and_le_right
  exact (Nat.mod_le _ _).trans_lt (Nat.lt_succ_of_le this)

def corrupted (b : Bus) (ppm : UInt32) (burst : Bytes) : Bytes :=
  if fires b ppm then flipped burst b.nextPrngU32 b.drawn.nextPrngU32 else burst

theorem corrupted_off (b : Bus) (ppm : UInt32) {burst : Bytes} (h : burst ≠ []) :
    (fires b ppm = true ↔ OneBitOff burst (corrupted b ppm burst)) ∧
      (fires b ppm = false ↔ corrupted b ppm burst = burst) := by
  unfold corrupted
  cases fires b ppm with
  | true =>
    have hoff := flipped_off b.nextPrngU32 b.drawn.nextPrngU32 h
    simp [hoff, hoff.ne]
  | false =>
    have hno : ¬OneBitOff burst burst := fun hoff => hoff.ne rfl
    simp [hno]

def delivered (d : Dev) (sent : Bytes) (snap : TxSnap) : Dev :=
  { d with
    rxFifo := d.rxFifo.put sent
    statOverruns := d.statOverruns + UInt64.ofNat (sent.length - d.rxFifo.room sent)
    txWork := .rearm sent.length snap }

section

variable {b b₁ b₂ : Bus} {d d₁ d₂ : Dev} {burst : Bytes} {snap : TxSnap} (fuel : ℕ)

theorem toRearm_succ {draws : ℕ} {o : List Obs} (hpc : d.txWork.atRearm = false)
    (hs : stepWork b d true = some (b₁, d₁, o)) (ht : toRearm fuel b₁ d₁ = some (b₂, d₂, draws)) :
    toRearm (fuel + 1) b d = some (b₂, d₂, d.txWork.draws + draws) := by
  simp [toRearm, hpc, hs, ht]

theorem toRearm_deliver (hpc : d.txWork = .deliver burst snap) :
    toRearm (fuel + 3) b d = some (b, delivered d burst snap, 0) := by
  by_cases hr : d.rxFifo.room burst < burst.length
  · simp [toRearm, stepWork, hpc, hr, TxPc.atRearm, TxPc.draws, delivered]
  · have h0 : burst.length - d.rxFifo.room burst = 0 := by omega
    simp [toRearm, stepWork, hpc, hr, h0, TxPc.atRearm, TxPc.draws, delivered]

theorem toRearm_flip (hpc : d.txWork = .flip burst snap) : ∃ b', toRearm (fuel + 5) b d =
    some (b', delivered d (corrupted b snap.attrs.bitflipRatePpm burst) snap,
      (decide (snap.attrs.bitflipRatePpm ≠ 0)).toNat + (fires b snap.attrs.bitflipRatePpm).toNat) := by
  have hat : d.txWork.atRearm = false := by rw [hpc]; rfl
  by_cases hr : snap.attrs.bitflipRatePpm = 0
  · have hs : stepWork b d true = some (b, { d with txWork := .deliver burst snap }, []) := by simp [stepWork, hpc, hr]
    refine ⟨b, (toRearm_succ (fuel + 4) hat hs (toRearm_deliver (fuel + 1) rfl)).trans ?_⟩
    simp [delivered, corrupted, fires, hpc, TxPc.draws, hr]
  · by_cases hg : gate b.nextPrngU32 snap.attrs.bitflipRatePpm = true
    · have hs : stepWork b d true = some (b.drawn, { d with txWork := .flipBit burst snap b.nextPrngU32 }, []) := by
        simp [stepWork, hpc, hr, hg]
      have hflip := toRearm_succ (fuel + 3) (b := b.drawn) (d := { d with txWork := .flipBit burst snap b.nextPrngU32 })
        rfl rfl (toRearm_deliver fuel rfl)
      refine ⟨b.drawn.drawn, (toRearm_succ (fuel + 4) hat hs hflip).trans ?_⟩
      simp [delivered, corrupted, fires, hpc, TxPc.draws, hr, hg]
    · have hs : stepWork b d true = some (b.drawn, { d with txWork := .deliver burst snap }, []) := by
        simp [stepWork, hpc, hr, hg]
      refine ⟨b.drawn, (toRearm_succ (fuel + 4) hat hs (toRearm_deliver (fuel + 1) rfl)).trans ?_⟩
      simp [delivered, corrupted, fires, hpc, TxPc.draws, hr, hg]

theorem toRearm_drop {len : ℕ} (hpc : d.txWork = .drop len snap) : toRearm (fuel + 2) b d =
    some (b, { d with statDrops := d.statDrops + UInt64.ofNat len, txWork := .rearm len snap }, 0) := by
  simp [toRearm, stepWork, hpc, TxPc.atRearm, TxPc.draws]

theorem toRearm_gates (hpc : d.txWork = .gates burst snap) (he : snap.attrs.enabled = true) :
    ∃ b', toRearm (fuel + 6) b d = some (
      if fires b snap.attrs.dropRatePpm then
        (b', { d with statDrops := d.statDrops + UInt64.ofNat burst.length, txWork := .rearm burst.length snap }, 1)
      else
        (b', delivered d (corrupted (afterGate b snap.attrs.dropRatePpm) snap.attrs.bitflipRatePpm burst) snap,
          (decide (snap.attrs.dropRatePpm ≠ 0)).toNat + ((decide (snap.attrs.bitflipRatePpm ≠ 0)).toNat +
            (fires (afterGate b snap.attrs.dropRatePpm) snap.attrs.bitflipRatePpm).toNat))) := by
  have hat : d.txWork.atRearm = false := by rw [hpc]; rfl
  by_cases hr : snap.attrs.dropRatePpm = 0
  · have hs : stepWork b d true = some (b, { d with txWork := .flip burst snap }, []) := by
      simp [stepWork, hpc, hr, he]
    obtain ⟨b', hflip⟩ := toRearm_flip (b := b) (d := { d with txWork := .flip burst snap }) fuel rfl
    refine ⟨b', (toRearm_succ (fuel + 5) hat hs hflip).trans ?_⟩
    simp [delivered, fires, afterGate, hpc, TxPc.draws, hr]
  · by_cases hg : gate b.nextPrngU32 snap.attrs.dropRatePpm = true
    · have hs : stepWork b d true = some (b.drawn, { d with txWork := .drop burst.length snap }, []) := by
        simp [stepWork, hpc, hr, hg, he]
      refine ⟨b.drawn, (toRearm_succ (fuel + 5) hat hs (toRearm_drop (fuel + 3) rfl)).trans ?_⟩
      simp [fires, hpc, TxPc.draws, hr, hg, he]
    · have hs : stepWork b d true = some (b.drawn, { d with txWork := .flip burst snap }, []) := by
        simp [stepWork, hpc, hr, hg, he]
      obtain ⟨b', hflip⟩ := toRearm_flip (b := b.drawn) (d := { d with txWork := .flip burst snap }) fuel rfl
      refine ⟨b', (toRearm_succ (fuel + 5) hat hs hflip).trans ?_⟩
      simp [delivered, fires, afterGate, hpc, TxPc.draws, hr, hg, he]

end

/-- One burst through the gates: `tx_work` drops it whole or delivers what fits, with at most one bit flipped. -/
inductive BurstFaults (b : Bus) (d : Dev) (burst : Bytes) (d' : Dev) (draws : ℕ) : Prop
  | dropped (hg : fires b d.attrs.dropRatePpm = true) (hrx : d'.rxFifo = d.rxFifo)
      (hdrops : d'.statDrops = d.statDrops + UInt64.ofNat burst.length)
      (hdraws : draws = (decide (d.attrs.dropRatePpm ≠ 0)).toNat)
  | delivered (sent : Bytes) (hg : fires b d.attrs.dropRatePpm = false)
      (hrx : d'.rxFifo.size = d.rxFifo.size ∧ d'.rxFifo.data = d.rxFifo.data ++ sent.take d.rxFifo.avail)
      (hdrops : d'.statDrops = d.statDrops)
      (hflip : fires (afterGate b d.attrs.dropRatePpm) d.attrs.bitflipRatePpm = true ↔ OneBitOff burst sent)
      (hsame : fires (afterGate b d.attrs.dropRatePpm) d.attrs.bitflipRatePpm = false ↔ sent = burst)
      (hdraws : draws = (decide (d.attrs.dropRatePpm ≠ 0)).toNat + ((decide (d.attrs.bitflipRatePpm ≠ 0)).toNat +
        (fires (afterGate b d.attrs.dropRatePpm) d.attrs.bitflipRatePpm).toNat))

theorem put_data (q : Fifo UInt8) (bs : Bytes) : (q.put bs).data = q.data ++ bs.take q.avail := by
  rw [Fifo.data_put, Fifo.room, Nat.min_comm, ← List.take_eq_take_min]

def snapped (d : Dev) (burst : Bytes) : Dev :=
  { d with
    txFifo := d.txFifo.get BURST_SZ
    statTxBytes := d.statTxBytes + UInt64.ofNat burst.length
    txWork := .gates burst ⟨d.attrs, d.termios.baud⟩ }

theorem toRearm_snapped {b b' : Bus} {d d' : Dev} {burst : Bytes} {draws : ℕ} (hpc : d.txWork = .entered)
    (hb : d.txFifo.front BURST_SZ = burst) (hne : burst ≠ [])
    (h : toRearm 6 b (snapped d burst) = some (b', d', draws)) : toRearm 9 b d = some (b', d', draws) := by
  have hs : stepWork b d true =
      some (b, { d with txFifo := d.txFifo.get BURST_SZ, txWork := .dequeued burst }, []) := by
    simp [stepWork, hpc, hb, hne]
  have hrun := toRearm_succ 8 (by rw [hpc]; rfl) hs (toRearm_succ 7 rfl rfl (toRearm_succ 6 rfl rfl h))
  simpa [hpc, TxPc.draws] using hrun

theorem toRearm_entered {d : Dev} {burst : Bytes} (b : Bus) (hpc : d.txWork = .entered)
    (hb : d.txFifo.front BURST_SZ = burst) (hne : burst ≠ []) (he : d.attrs.enabled = true) :
    ∃ b' d' draws, toRearm 9 b d = some (b', d', draws) ∧ BurstFaults b d burst d' draws := by
  have hat : (snapped d burst).txWork = .gates burst ⟨d.attrs, d.termios.baud⟩ := rfl
  obtain ⟨b', hgates⟩ := toRearm_gates (b := b) 0 hat he
  cases hg : fires b d.attrs.dropRatePpm with
  | true =>
    rw [if_pos hg] at hgates
    have hr : d.attrs.dropRatePpm ≠ 0 := by
      intro hr
      rw [hr, fires_never] at hg
      cases hg
    exact ⟨_, _, _, toRearm_snapped hpc hb hne hgates, .dropped hg rfl rfl (by simp [hr])⟩
  | false =>
    rw [if_neg (by simp [hg])] at hgates
    obtain ⟨hflip, hsame⟩ := corrupted_off (afterGate b d.attrs.dropRatePpm) d.attrs.bitflipRatePpm hne
    exact ⟨_, _, _, toRearm_snapped hpc hb hne hgates, .delivered _ hg ⟨rfl, put_data _ _⟩ rfl hflip hsame rfl⟩

theorem burst_faults {d : Dev} {burst : Bytes} (b : Bus) (hpc : d.txWork = .entered)
    (hb : d.txFifo.front BURST_SZ = burst) (hne : burst ≠ []) (he : d.attrs.enabled = true) :
    (∃ b' d' draws, toRearm 9 b d = some (b', d', draws) ∧ b' = Bus.drawn^[draws] b ∧
      BurstFaults b d burst d' draws) ∧
    ∀ b', fires b' MAX_PPM = true ∧ fires b' 0 = false := by
  obtain ⟨b', d', draws, hrun, hf⟩ := toRearm_entered b hpc hb hne he
  exact ⟨⟨b', d', draws, hrun, (toRearm_run hrun).1, hf⟩, fun b' => ⟨fires_always b', fires_never b'⟩⟩

theorem burst_faults_one_byte : ∃ os s b' d' draws, Run machine Always start os s ∧
    s.dev.txFifo.front BURST_SZ = [65] ∧ toRearm 9 s.bus s.dev = some (b', d', draws) ∧
      BurstFaults s.bus s.dev [65] d' draws := by
  obtain ⟨os, s, hrun, hpc, hb, he⟩ := Run.exists_of_exec (M := machine) (P := Always) (s := start)
    (openPort ++ write [65] ++ [.timerExpire, .workStart])
    (fun _ s => s.dev.txWork = .entered ∧ s.dev.txFifo.front BURST_SZ = [65] ∧ s.dev.attrs.enabled = true)
    (by decide +kernel)
  obtain ⟨⟨b', d', draws, ht, -, hf⟩, -⟩ := burst_faults s.bus hpc hb (by decide) he
  exact ⟨os, s, b', d', draws, hrun, hb, ht, hf⟩

end VirtRtLab.Uart
