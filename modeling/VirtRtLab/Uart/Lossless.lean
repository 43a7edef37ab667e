import VirtRtLab.Uart.Stream

/-!
A UART that loses nothing: what the AUT wrote is what was read, what waits in the FIFOs and the burst in between.
-/

namespace VirtRtLab.Uart

open Kernel VirtRtLab.Core Transition

def Dev.flushed (d : Dev) : Act → Bytes
  | .port ok =>
    match d.port with
    | .sized _ _ => if ok then d.txFifo.data else []
    | .txAlloc _ => if ok then d.rxFifo.data else d.txFifo.data
    | .shutTx _ => d.txFifo.data
    | .shutRx => d.rxFifo.data
    | _ => []
  | .wireRelease => d.rxFifo.data
  | .notifier =>
    match d.notifier with
    | .downFlush | .resetFlush => d.txFifo.data
    | _ => []
  | _ => []

-- jitter and latency delay a burst and leave its bytes alone
def TxPc.passes (s : Sys) : TxPc → Bool
  | .gates _ snap => snap.attrs.enabled && !gate s.bus.nextPrngU32 snap.attrs.dropRatePpm
  | .flip _ snap => !gate s.bus.nextPrngU32 snap.attrs.bitflipRatePpm
  | .deliver burst _ => burst.length ≤ s.dev.rxFifo.avail
  | _ => true

/-- A step that empties no FIFO with bytes in it, decides for no drop and no flip, and delivers whole bursts. -/
def keeps (s : Sys) (a : Act) : Bool :=
  (s.dev.flushed a).isEmpty &&
    match a with
    | .work _ => s.dev.txWork.passes s
    | _ => true

def TxPc.Clean : TxPc → Prop
  | .flipBit _ _ _ => False
  | _ => True

def Dev.inside (d : Dev) : Bytes := d.rxFifo.data ++ (d.txWork.holding ++ d.txFifo.data)

structure Whole (os : List Obs) (d : Dev) : Prop where
  clean : d.txWork.Clean
  bytes : acc os = out os ++ d.inside

section

variable {b b' : Bus} {d d' : Dev} {a : Act} {o os : List Obs}

theorem Whole.append (h : Whole os d) (hc : d'.txWork.Clean) (hb : d.inside ++ acc o = out o ++ d'.inside) :
    Whole (os ++ o) d' := by
  refine ⟨hc, ?_⟩
  have hacc : acc (os ++ o) = acc os ++ acc o := by simp [acc]
  have hout : out (os ++ o) = out os ++ out o := by simp [out]
  rw [hacc, hout, h.bytes, List.append_assoc, List.append_assoc, hb]

theorem Whole.same (h : Whole os d) (hw : d'.txWork = d.txWork) (hi : d'.inside = d.inside)
    (ho : acc o = [] ∧ out o = []) : Whole (os ++ o) d' := by
  apply h.append
  · rw [hw]
    exact h.clean
  · rw [hi, ho.1, ho.2, List.append_nil, List.nil_append]

theorem put_whole {q : Fifo UInt8} {bs : Bytes} (h : bs.length ≤ q.avail) : (q.put bs).data = q.data ++ bs := by
  have hroom : q.room bs = bs.length := Nat.min_eq_left h
  rw [Fifo.data_put, hroom, List.take_length]

theorem WorkStep.whole (h : WorkStep b d b' d' o) (hi : Whole os d) (hp : d.txWork.passes ⟨b, d⟩ = true) :
    Whole (os ++ o) d' := by
  cases h with
  | dequeue hpc he =>
    apply hi.append
    · trivial
    · simp [Dev.inside, hpc, TxPc.holding, acc, out, Fifo.front]
  | snap hpc | noDropRate hpc | dropSpares hpc | flipSpares hpc =>
    apply hi.append
    · trivial
    · simp [Dev.inside, hpc, TxPc.holding, acc, out, Obs.acceptedBytes, Obs.readBytes]
  | disabled hpc he => simp [hpc, TxPc.passes, he] at hp
  | dropFires hpc he hr hg => simp [hpc, TxPc.passes, hg] at hp
  | flipFires hpc hr hg => simp [hpc, TxPc.passes, hg] at hp
  | flipBit hpc =>
    have hclean := hi.clean
    rw [hpc] at hclean
    exact hclean.elim
  | @deliver burst snap hpc hr | @deliverPart burst snap hpc hr =>
    rw [hpc] at hp
    have hput : (d.rxFifo.put burst).data = d.rxFifo.data ++ burst := put_whole (of_decide_eq_true hp)
    apply hi.append
    · trivial
    · simp only [Dev.inside, hput, hpc, TxPc.holding, acc, out, Obs.acceptedBytes, Obs.readBytes, List.flatMap_cons,
        List.flatMap_nil, List.append_nil, List.nil_append, List.append_assoc]
  | nothing hpc | count hpc | drop hpc | noFlipRate hpc | overrun hpc | done hpc | noJitter hpc | jitter hpc
  | draw hpc | draw2 hpc | arm hpc =>
    apply hi.append
    · trivial
    · simp [Dev.inside, hpc, TxPc.holding, acc, out, Obs.acceptedBytes, Obs.readBytes]

theorem inside_zeroStat (d : Dev) (st : Stat) : (d.zeroStat st).inside = d.inside := by
  cases st <;> rfl

theorem DevStep.whole (h : DevStep b d a d' o) (hi : Whole os d) (hf : d.flushed a = []) : Whole (os ++ o) d' := by
  cases h with
  | @accept k buf baud hk hr =>
    apply hi.append
    · exact hi.clean
    · simp [Dev.inside, acc, out, Obs.acceptedBytes, Obs.readBytes]
  | @readTakes k ok rdSz nonblock hk ha hn =>
    apply hi.append
    · exact hi.clean
    · simp only [Dev.inside, acc, out, Obs.acceptedBytes, Obs.readBytes, List.flatMap_cons, List.flatMap_nil,
        List.append_nil, Fifo.data_get, Fifo.front]
      rw [← List.append_assoc (List.take rdSz _), List.take_append_drop]
  | workStart hq hw =>
    apply hi.append
    · trivial
    · simp [Dev.inside, hw, TxPc.holding, acc, out]
  | txAlloc hp | rxAllocFails hp | shutTx hp =>
    have hdata : d.txFifo.data = [] := by simpa [Dev.flushed, hp] using hf
    refine hi.same rfl ?_ ⟨rfl, rfl⟩
    simp [Dev.inside, hdata]
  | downFlush hn | resetFlush hn =>
    have hdata : d.txFifo.data = [] := by simpa [Dev.flushed, hn] using hf
    refine hi.same rfl ?_ ⟨rfl, rfl⟩
    simp [Dev.inside, hdata]
  | rxAlloc hp | shutRx hp =>
    have hdata : d.rxFifo.data = [] := by simpa [Dev.flushed, hp] using hf
    refine hi.same rfl ?_ ⟨rfl, rfl⟩
    simp [Dev.inside, hdata]
  | wireRelease =>
    have hdata : d.rxFifo.data = [] := hf
    refine hi.same rfl ?_ ⟨rfl, rfl⟩
    simp [Dev.inside, hdata]
  | @resetStat k st | @resetZero st => exact hi.same (zeroStat_txWork d st) (inside_zeroStat d st) ⟨rfl, rfl⟩
  | _ => exact hi.same rfl rfl ⟨rfl, rfl⟩

end

theorem whole_start : Whole [] start.dev := ⟨trivial, rfl⟩

theorem machine_whole {s t : Sys} {a : Act} {o os : List Obs} (h : machine s a = some (t, o)) (hi : Whole os s.dev)
    (hk : keeps s a = true) : Whole (os ++ o) t.dev := by
  obtain ⟨hflush, hpass⟩ := Bool.and_eq_true_iff.mp hk
  obtain ⟨hiFirst, rfl, hw⟩ | ⟨b, -, -, hd, rfl⟩ | ⟨-, hd⟩ := machine_cases h
  · exact hw.whole hi hpass
  · rw [List.append_nil, hd]
    exact hi
  · exact hd.whole hi (List.isEmpty_iff.mp hflush)

theorem streamInv_run {os : List Obs} {s : Sys} (h : Run machine Always start os s) : StreamInv os s.dev := by
  apply h.history (fun os s => StreamInv os s.dev)
  · exact ⟨Pipe.inv_initial, trivial⟩
  · intro os t a u o hi _ hm
    exact hi.step hm

theorem lossless_stream {os : List Obs} {s : Sys} (h : Run machine (fun s a => keeps s a = true) start os s) :
    acc os = out os ++ s.dev.inside := by
  have hinv : Whole os s.dev := by
    apply h.history (fun os s => Whole os s.dev)
    · exact whole_start
    · intro os t a u o hi hk hm
      exact machine_whole hm hi hk
  exact hinv.bytes

end VirtRtLab.Uart
