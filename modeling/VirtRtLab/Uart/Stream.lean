import VirtRtLab.Lib.Pipe
import VirtRtLab.Uart.Steps

namespace VirtRtLab.Uart

open Kernel VirtRtLab.Core Transition Pipe

def Obs.acceptedBytes : Obs → Bytes
  | .accepted bs => bs
  | _ => []

def Obs.bursts : Obs → List (Burst UInt8)
  | .burst bs flipPpm => [⟨bs, flipPpm != 0⟩]
  | _ => []

def Obs.readBytes : Obs → Bytes
  | .wireRead bs => bs
  | _ => []

def acc (os : List Obs) : Bytes := os.flatMap Obs.acceptedBytes
def txBursts (os : List Obs) : List (Burst UInt8) := os.flatMap Obs.bursts
def out (os : List Obs) : Bytes := os.flatMap Obs.readBytes

def OneBit (a b : UInt8) : Prop := ∃ k < 8, b = a ^^^ ((1 : UInt8) <<< k)

def TxPc.hand : TxPc → Hand UInt8
  | .dequeued burst | .counted burst => .raw burst
  | .gates burst _ | .flip burst _ | .flipBit burst _ _ => .marked burst false
  | .deliver burst _ => .marked burst true
  | _ => .empty

def toPipe (os : List Obs) (d : Dev) : Pipe UInt8 :=
  ⟨acc os, txBursts os, d.txFifo.data, d.txWork.hand, d.rxFifo.data, out os⟩

def Steps : Pipe UInt8 → Pipe UInt8 → Prop := Relation.ReflTransGen (Pipe.Step OneBit)

theorem Steps.of_eq {p q : Pipe UInt8} (h : p = q) : Steps p q := h ▸ .refl

theorem Steps.single {p q : Pipe UInt8} (h : Pipe.Step OneBit p q) : Steps p q :=
  Relation.ReflTransGen.single h

theorem toPipe_append (os o : List Obs) (d : Dev) :
    toPipe (os ++ o) d = ⟨acc os ++ acc o, txBursts os ++ txBursts o, d.txFifo.data, d.txWork.hand,
      d.rxFifo.data, out os ++ out o⟩ := by
  simp [toPipe, acc, txBursts, out]

theorem Steps.quiet {os o : List Obs} {d d' : Dev} (hd : toPipe os d' = toPipe os d) (ho : toPipe o d = toPipe [] d) :
    Steps (toPipe os d) (toPipe (os ++ o) d') := by
  apply Steps.of_eq
  simp only [toPipe, Pipe.mk.injEq] at hd ho
  rw [toPipe_append, ho.1, ho.2.1, ho.2.2.2.2.2, hd.2.2.1, hd.2.2.2.1, hd.2.2.2.2.1]
  simp [toPipe, acc, txBursts, out]

theorem Steps.flushTx {os : List Obs} {d d' : Dev} (hd : toPipe os d' = { toPipe os d with queue := [] }) :
    Steps (toPipe os d) (toPipe (os ++ []) d') := by
  apply Steps.single
  rw [List.append_nil, hd]
  exact Pipe.Step.flushQueue (toPipe os d)

theorem Steps.flushRx {os : List Obs} {d d' : Dev} (hd : toPipe os d' = { toPipe os d with line := [] }) :
    Steps (toPipe os d) (toPipe (os ++ []) d') := by
  apply Steps.single
  rw [List.append_nil, hd]
  exact Pipe.Step.flushLine (toPipe os d)

theorem flipped_split (burst : Bytes) (rnd rnd2 : UInt32) (h : burst ≠ []) :
    ∃ l a r c, burst = l ++ a :: r ∧ flipped burst rnd rnd2 = l ++ c :: r ∧ OneBit a c := by
  have hlt : (rnd / 1000000).toNat % burst.length < burst.length :=
    Nat.mod_lt _ (List.length_pos_iff.mpr h)
  obtain ⟨l, a, r, hb, -, hm⟩ := List.exists_of_modify
    (fun c => c ^^^ ((1 : UInt8) <<< (rnd2 &&& 7).toUInt8)) hlt
  refine ⟨l, a, r, _, hb, hm, (rnd2 &&& 7).toUInt8, ?_, rfl⟩
  rw [UInt8.lt_iff_toNat_lt, UInt32.toNat_toUInt8, UInt32.toNat_and]
  have : rnd2.toNat &&& (7 : UInt32).toNat ≤ 7 := Nat.and_le_right
  exact (Nat.mod_le _ _).trans_lt (Nat.lt_succ_of_le this)

def Recorded (os : List Obs) : TxPc → Prop
  | .gates burst snap | .flip burst snap =>
    ∃ bs, txBursts os = bs ++ [⟨burst, snap.attrs.bitflipRatePpm != 0⟩]
  | .flipBit burst snap _ => snap.attrs.bitflipRatePpm ≠ 0 ∧ ∃ bs, txBursts os = bs ++ [⟨burst, true⟩]
  | _ => True

theorem Recorded.mono {os : List Obs} {pc : TxPc} (h : Recorded os pc) {o : List Obs} (ho : txBursts o = []) :
    Recorded (os ++ o) pc := by
  have he : txBursts (os ++ o) = txBursts os := by simpa [txBursts] using ho
  cases pc <;> simp_all [Recorded]

theorem WorkStep.recorded {b b' : Bus} {d d' : Dev} {o os : List Obs} (h : WorkStep b d b' d' o)
    (hrec : Recorded os d.txWork) : Recorded (os ++ o) d'.txWork := by
  cases h with
  | snap hpc => exact ⟨txBursts os, by simp [txBursts, Obs.bursts]⟩
  | noDropRate hpc | dropSpares hpc =>
    rw [hpc] at hrec
    exact hrec.mono rfl
  | @flipFires burst snap hpc hr =>
    rw [hpc] at hrec
    obtain ⟨bs, hbs⟩ := hrec
    have hn : (snap.attrs.bitflipRatePpm != 0) = true := bne_iff_ne.mpr hr
    exact ⟨hr, bs, by rwa [List.append_nil, ← hn]⟩
  | _ => trivial

theorem WorkStep.pipe {b b' : Bus} {d d' : Dev} {o os : List Obs} (h : WorkStep b d b' d' o)
    (hrec : Recorded os d.txWork) : Steps (toPipe os d) (toPipe (os ++ o) d') := by
  have hhand : (toPipe os d).hand = d.txWork.hand := rfl
  cases h with
  | dequeue hpc he =>
    rw [hpc] at hhand
    apply Steps.single
    rw [toPipe_append]
    convert Pipe.Step.take (toPipe os d) BURST_SZ hhand using 1
    simp [toPipe, acc, txBursts, out, TxPc.hand, Fifo.front]
  | @snap burst hpc =>
    rw [hpc] at hhand
    apply Steps.single
    rw [toPipe_append]
    convert Pipe.Step.mark (toPipe os d) burst (d.attrs.bitflipRatePpm != 0) hhand using 1
    simp [toPipe, acc, txBursts, out, TxPc.hand, Obs.acceptedBytes, Obs.bursts, Obs.readBytes]
  | disabled | dropFires =>
    apply Steps.single
    rw [List.append_nil]
    exact Pipe.Step.discard (toPipe os d)
  | @noFlipRate burst snap hpc | @flipSpares burst snap hpc =>
    rw [hpc] at hhand
    apply Steps.single
    rw [List.append_nil]
    exact Pipe.Step.settle (toPipe os d) burst false hhand
  | @flipBit burst snap rnd hpc =>
    rw [hpc] at hrec hhand
    obtain ⟨-, bs, hbs⟩ := hrec
    apply Steps.single
    rw [List.append_nil]
    by_cases hne : burst = []
    · subst hne
      have hf : flipped [] rnd b.nextPrngU32 = [] := by simp [flipped]
      simpa [toPipe, TxPc.hand, hf] using Pipe.Step.settle (C := OneBit) (toPipe os d) [] false hhand
    · obtain ⟨l, a, r, c, rfl, hf, hone⟩ := flipped_split burst rnd b.nextPrngU32 hne
      convert Pipe.Step.spoil (toPipe os d) bs l a c r hhand hbs hone using 1
      simp [toPipe, TxPc.hand, hf]
  | @deliver burst snap hpc | @deliverPart burst snap hpc =>
    rw [hpc] at hhand
    apply Steps.single
    rw [toPipe_append]
    convert Pipe.Step.put (toPipe os d) burst true (d.rxFifo.room burst) hhand using 1
    simp [toPipe, acc, txBursts, out, TxPc.hand, Obs.acceptedBytes, Obs.bursts, Obs.readBytes]
  | nothing hpc | count hpc | noDropRate hpc | dropSpares hpc | drop hpc | flipFires hpc | overrun hpc
  | done hpc | noJitter hpc | jitter hpc | draw hpc | draw2 hpc | arm hpc =>
    exact Steps.quiet (by simp only [toPipe, hpc, TxPc.hand]) rfl

theorem zeroStat_pipe (os : List Obs) (d : Dev) (st : Stat) : toPipe os (d.zeroStat st) = toPipe os d := by
  cases st <;> rfl

theorem zeroStat_txWork (d : Dev) (st : Stat) : (d.zeroStat st).txWork = d.txWork := by cases st <;> rfl

theorem DevStep.pipe {b : Bus} {d d' : Dev} {a : Act} {o : List Obs} (h : DevStep b d a d' o) (os : List Obs) :
    Steps (toPipe os d) (toPipe (os ++ o) d') := by
  cases h with
  | @accept k buf baud hk hr =>
    apply Steps.single
    rw [toPipe_append]
    convert Pipe.Step.accept (toPipe os d) (buf.take (d.txFifo.room buf)) using 1
    simp [toPipe, acc, txBursts, out, Obs.acceptedBytes, Obs.bursts, Obs.readBytes]
  | @readTakes k ok rdSz nonblock hk ha hf =>
    apply Steps.single
    rw [toPipe_append]
    convert Pipe.Step.read (toPipe os d) rdSz using 1
    simp [toPipe, acc, txBursts, out, Obs.acceptedBytes, Obs.bursts, Obs.readBytes, Fifo.front]
  | txAlloc | rxAllocFails | shutTx | downFlush | resetFlush => exact Steps.flushTx rfl
  | rxAlloc | shutRx | wireRelease => exact Steps.flushRx rfl
  | workStart hq hw => exact Steps.quiet (by simp only [toPipe, hw, TxPc.hand]) rfl
  | resetStat | resetZero => exact Steps.quiet (zeroStat_pipe os d _) rfl
  | _ => exact Steps.quiet rfl rfl

theorem DevStep.recorded {b : Bus} {d d' : Dev} {a : Act} {o os : List Obs} (h : DevStep b d a d' o)
    (hrec : Recorded os d.txWork) : Recorded (os ++ o) d'.txWork := by
  cases h with
  | workStart => trivial
  | @resetStat k st rest hk | @resetZero st rest hn =>
    apply Recorded.mono _ rfl
    rw [← zeroStat_txWork d st] at hrec
    exact hrec
  | _ => exact hrec.mono rfl

structure StreamInv (os : List Obs) (d : Dev) : Prop where
  pipe : Inv OneBit (toPipe os d)
  recorded : Recorded os d.txWork

theorem StreamInv.step {os o : List Obs} {s t : Sys} {a : Act} (hinv : StreamInv os s.dev)
    (h : machine s a = some (t, o)) : StreamInv (os ++ o) t.dev := by
  obtain ⟨hiFirst, -, hw⟩ | ⟨b, -, -, hd, rfl⟩ | ⟨-, hd⟩ := machine_cases h
  · exact ⟨inv_steps (hw.pipe hinv.recorded) hinv.pipe, hw.recorded hinv.recorded⟩
  · rwa [List.append_nil, hd]
  · exact ⟨inv_steps (hd.pipe os) hinv.pipe, hd.recorded hinv.recorded⟩

/-- Whatever a wire reader got was written by the AUT, in order, with at most one flipped bit a burst. -/
theorem tx_stream_fidelity {os : List Obs} {s : Sys} (h : Run machine Always start os s) :
    Faithful OneBit (acc os) (txBursts os) (out os) := by
  have hinv : StreamInv os s.dev := by
    apply h.history (fun os s => StreamInv os s.dev)
    · exact ⟨inv_initial, trivial⟩
    · intro os t a u o hi _ hm
      exact hi.step hm
  exact hinv.pipe.faithful

theorem tx_stream_fidelity_one_flip : Faithful OneBit [65, 66] [⟨[65, 66], true⟩] [67, 66] := by
  obtain ⟨os, s, hrun, ha, hb, hr⟩ := Run.exists_of_exec (M := machine) (P := Always) (s := start)
    [.attrStore .bitflipRatePpm [49, 48, 48, 48, 48, 48, 48], .portActivate, .port true, .port true, .port true,
      .wireOpen, .wireOpened, .ttyWrite [65, 66], .writer 0, .writer 0, .writer 0, .writer 0, .timerExpire,
      .workStart, .work true, .work true, .work true, .work true, .work true, .work true, .work true, .work true,
      .wireRead 16 false, .reader 0 true, .reader 0 true, .reader 0 true, .reader 0 true, .readReturn 0]
    (fun os _ => acc os = [65, 66] ∧ txBursts os = [⟨[65, 66], true⟩] ∧ out os = [67, 66]) (by decide +kernel)
  have h := tx_stream_fidelity hrun
  rwa [ha, hb, hr] at h

end VirtRtLab.Uart
