import VirtRtLab.Uart.Steps

namespace VirtRtLab.Uart

open Kernel VirtRtLab.Core Transition

def TxPc.untested : TxPc → Bool
  | .idle | .jitter _ _ | .jitter2 _ _ _ | .arm _ => false
  | _ => true

def PortPc.tearing : PortPc → Bool
  | .shutWork | .shutLen | .shutCount _ | .shutTx _ => true
  | _ => false

def NotifierPc.tearing : NotifierPc → Bool
  | .downWork | .downFlush | .resetWork | .resetFlush => true
  | _ => false

/-- `hrtimer_cancel` of a teardown is done and its flush of `tx_fifo` is still to come. -/
def Dev.tearing (d : Dev) : Bool := d.notifier.tearing || d.port.tearing

def Dev.Starting (d : Dev) : Prop := ∃ (k : ℕ) (baud : UInt32), d.writers[k]? = some (.enqueued baud)

inductive Attended (d : Dev) : Prop
  | timer (h : d.txTimer.isSome = true)
  | queued (h : d.txWorkQueued = true)
  | untested (h : d.txWork.untested = true)
  | rearming (h : d.txWork.rearming = true)
  | starting (h : d.Starting)
  | tearing (h : d.tearing = true)

section

variable {b b' : Bus} {d d' : Dev} {a : Act} {o : List Obs}

theorem Attended.frame (h : Attended d) (he : (d'.txTimer, d'.txWorkQueued, d'.txWork) =
    (d.txTimer, d.txWorkQueued, d.txWork)) (hs : d.Starting → d'.Starting)
    (ht : d.tearing = true → d'.tearing = true) : Attended d' := by
  simp only [Prod.mk.injEq] at he
  obtain ⟨htimer, hqueued, hwork⟩ := he
  cases h with
  | timer h => exact .timer (htimer ▸ h)
  | queued h => exact .queued (hqueued ▸ h)
  | untested h => exact .untested (hwork ▸ h)
  | rearming h => exact .rearming (hwork ▸ h)
  | starting h => exact .starting (hs h)
  | tearing h => exact .tearing (ht h)

theorem Dev.Starting.append (h : d.Starting) (pc : WritePc) :
    ({ d with writers := d.writers ++ [pc] } : Dev).Starting := by
  obtain ⟨k, baud, hk⟩ := h
  have hlt : k < d.writers.length := (List.getElem?_eq_some_iff.mp hk).1
  exact ⟨k, baud, (List.getElem?_append_left hlt).trans hk⟩

theorem Dev.Starting.set (h : d.Starting) {k : ℕ} {old pc : WritePc} (hk : d.writers[k]? = some old)
    (ho : ∀ baud, old ≠ .enqueued baud) : ({ d with writers := d.writers.set k pc } : Dev).Starting := by
  obtain ⟨j, baud, hj⟩ := h
  have hne : k ≠ j := by
    rintro rfl
    exact ho baud (Option.some.inj (hk.symm.trans hj))
  exact ⟨j, baud, (List.getElem?_set_ne hne).trans hj⟩

theorem Dev.Starting.erase (h : d.Starting) {k : ℕ} {old : WritePc} (hk : d.writers[k]? = some old)
    (ho : ∀ baud, old ≠ .enqueued baud) : ({ d with writers := d.writers.eraseIdx k } : Dev).Starting := by
  obtain ⟨j, baud, hj⟩ := h
  have hne : j ≠ k := by
    rintro rfl
    exact ho baud (Option.some.inj (hk.symm.trans hj))
  have hmem : WritePc.enqueued baud ∈ d.writers.eraseIdx k := List.mem_eraseIdx_iff_getElem?.mpr ⟨j, hne, hj⟩
  obtain ⟨i, hi⟩ := List.getElem?_of_mem hmem
  exact ⟨i, baud, hi⟩

theorem front_burst_eq_nil {q : Fifo UInt8} (h : q.front BURST_SZ = []) : q.data = [] := by
  rcases List.take_eq_nil_iff.mp h with h | h
  · cases h
  · exact h

theorem WorkStep.attended (h : WorkStep b d b' d' o) (hne : d'.txFifo.data ≠ []) : Attended d' := by
  cases h with
  | nothing hpc he => exact absurd (front_burst_eq_nil he) hne
  | done hpc he => exact absurd he hne
  | arm => exact .timer rfl
  | noJitter | jitter | draw | draw2 => exact .rearming rfl
  | _ => exact .untested rfl

theorem DevStep.attended (h : DevStep b d a d' o) (hd : d.txFifo.data ≠ [] → Attended d)
    (hne : d'.txFifo.data ≠ []) : Attended d' := by
  cases h with
  | refused => exact hd hne
  | writeCall => exact (hd hne).frame rfl (fun hs => hs.append _) id
  | writeUp hk | writeEnabled hk => exact (hd hne).frame rfl (fun hs => hs.set hk (by simp)) id
  | writeDown hk | writeDisabled hk | writeFull hk => exact (hd hne).frame rfl (fun hs => hs.erase hk (by simp)) id
  | @accept k buf baud hk hr =>
    refine .starting ⟨k, baud, ?_⟩
    exact List.getElem?_set_self (List.getElem?_eq_some_iff.mp hk).1
  | writeArm => exact .timer rfl
  | timerExpire => exact .queued rfl
  | workStart => exact .untested rfl
  | txAlloc | rxAllocFails | shutTx | downFlush | resetFlush => exact absurd rfl hne
  | portShutdown hp | shutWork hp | shutLen hp | shutCount hp => exact .tearing (by simp [Dev.tearing, PortPc.tearing])
  | down hn | downWork hn | reset hn | resetWork hn => exact .tearing (by simp [Dev.tearing, NotifierPc.tearing])
  | portActivate hp | txAllocFails hp | rxAlloc hp | portActive hp | shutRx hp =>
    exact (hd hne).frame rfl id (by simp [Dev.tearing, PortPc.tearing, hp])
  | downCount hn | resetAttrs hn | resetWire hn =>
    exact (hd hne).frame rfl id (by simp [Dev.tearing, NotifierPc.tearing, hn])
  | @resetZero st rest hn =>
    cases st <;> exact (hd hne).frame rfl id (by simp [Dev.tearing, Dev.zeroStat, NotifierPc.tearing, hn])
  | @resetStat k st => cases st <;> exact (hd hne).frame rfl id id
  | _ => exact (hd hne).frame rfl id id

end

theorem machine_attended {s t : Sys} {a : Act} {o : List Obs} (hs : s.dev.txFifo.data ≠ [] → Attended s.dev)
    (h : machine s a = some (t, o)) (hne : t.dev.txFifo.data ≠ []) : Attended t.dev := by
  obtain ⟨hiFirst, -, hw⟩ | ⟨b, -, -, hd, -⟩ | ⟨-, hd⟩ := machine_cases h
  · exact hw.attended hne
  · rw [hd] at hne ⊢
    exact hs hne
  · exact hd.attended hs hne

theorem attended_run {os : List Obs} {s : Sys} (h : Run machine Always start os s) :
    s.dev.txFifo.data ≠ [] → Attended s.dev := by
  apply h.invariant (fun s => s.dev.txFifo.data ≠ [] → Attended s.dev)
  · intro hne
    exact absurd rfl hne
  · intro t a u o hs _ hm
    exact machine_attended hs hm

def EngineOnly (s : Sys) : Act → Prop
  | .writer k => ∃ baud, s.dev.writers[k]? = some (.enqueued baud)
  | .timerExpire | .workStart | .work _ => True
  | _ => False

def Dev.stage (d : Dev) : ℕ :=
  match d.txWork with
  | .entered => 1
  | .idle => if d.txWorkQueued then 2 else if d.txTimer.isSome then 3 else 4
  | pc => pc.toGo + 4

def Dev.distance (d : Dev) : ℕ := 16 * d.txFifo.len + d.stage

theorem WorkStep.distance {b b' : Bus} {d d' : Dev} {o : List Obs} (h : WorkStep b d b' d' o)
    (hne : d.txFifo.data ≠ []) : d'.distance < d.distance := by
  have hpos : 0 < d.txFifo.data.length := List.length_pos_iff.mpr hne
  cases h with
  | nothing hpc he => exact absurd (front_burst_eq_nil he) hne
  | done hpc he => exact absurd he hne
  | dequeue hpc =>
    simp only [Dev.distance, Dev.stage, hpc, TxPc.toGo, Fifo.len, Fifo.data_get, List.length_drop, BURST_SZ]
    omega
  | arm hpc =>
    simp only [Dev.distance, Dev.stage, hpc, TxPc.toGo]
    split <;> simp
  | count hpc | snap hpc | disabled hpc | noDropRate hpc | dropFires hpc | dropSpares hpc | drop hpc | noFlipRate hpc
  | flipFires hpc | flipSpares hpc | flipBit hpc | deliver hpc | deliverPart hpc | overrun hpc | noJitter hpc
  | jitter hpc | draw hpc | draw2 hpc => simp [Dev.distance, Dev.stage, hpc, TxPc.toGo]

theorem WorkStep.tearing {b b' : Bus} {d d' : Dev} {o : List Obs} (h : WorkStep b d b' d' o) :
    d'.tearing = d.tearing := by
  cases h <;> rfl

structure Moving (s : Sys) : Prop where
  attended : s.dev.txFifo.data ≠ [] → Attended s.dev
  whole : s.dev.tearing = false

theorem Moving.step {s : Sys} (h : Moving s) (hne : s.dev.txFifo.data ≠ []) :
    ∃ a t o, EngineOnly s a ∧ machine s a = some (t, o) ∧ Moving t ∧ t.dev.distance < s.dev.distance := by
  by_cases hw : s.dev.txWork = .idle
  · by_cases hq : s.dev.txWorkQueued = true
    · have hm : machine s .workStart = some
          (⟨s.bus, { s.dev with txWorkQueued := false, txWork := .entered }⟩, []) := by
        simp [machine, stepDev, hq, hw]
      refine ⟨.workStart, _, _, trivial, hm, ⟨machine_attended h.attended hm, h.whole⟩, ?_⟩
      simp [Dev.distance, Dev.stage, hw, hq]
    · by_cases ht : s.dev.txTimer.isSome = true
      · have hm : machine s .timerExpire = some
            (⟨s.bus, { s.dev with txTimer := none, txWorkQueued := true }⟩, []) := by
          simp [machine, stepDev, ht]
        refine ⟨.timerExpire, _, _, trivial, hm, ⟨machine_attended h.attended hm, h.whole⟩, ?_⟩
        simp [Dev.distance, Dev.stage, hw, hq, ht]
      · -- only a `tty_write` on its way to `hrtimer_start` is left
        obtain ⟨k, baud, hk⟩ : s.dev.Starting := by
          cases h.attended hne with
          | timer h' => exact absurd h' ht
          | queued h' => exact absurd h' hq
          | untested h' => simp [hw, TxPc.untested] at h'
          | rearming h' => simp [hw, TxPc.rearming] at h'
          | starting h' => exact h'
          | tearing h' => simp [h.whole] at h'
        have hm : machine s (.writer k) = some
            (⟨s.bus, { s.dev with txTimer := some (byteNs baud), writers := s.dev.writers.eraseIdx k }⟩, []) := by
          simp [machine, stepWriter, hk]
        refine ⟨.writer k, _, _, ⟨baud, hk⟩, hm, ⟨machine_attended h.attended hm, h.whole⟩, ?_⟩
        simp [Dev.distance, Dev.stage, hw, hq, ht]
  · obtain ⟨t, o, hm⟩ := work_enabled hw
    obtain ⟨hiFirst, -, hs⟩ | ⟨b, hb, -⟩ | ⟨-, hs⟩ := machine_cases hm
    · exact ⟨.work true, t, o, trivial, hm, ⟨machine_attended h.attended hm, hs.tearing.trans h.whole⟩, hs.distance hne⟩
    · cases hb
    · exact absurd hs DevStep.not_work

/-- Bytes in `tx_fifo` are always attended to, so short of a teardown the engine empties it by itself. -/
theorem no_stranded_bytes {os : List Obs} {s : Sys} (h : Run machine Always start os s)
    (hne : s.dev.txFifo.data ≠ []) : Attended s.dev ∧
      (s.dev.tearing = true ∨ ∃ os' t, Run machine EngineOnly s os' t ∧ t.dev.txFifo.data = []) := by
  refine ⟨attended_run h hne, ?_⟩
  cases hw : s.dev.tearing with
  | true => exact .inl rfl
  | false =>
    right
    apply Run.exists_done Moving (fun t => t.dev.txFifo.data = []) (fun t => t.dev.distance) ⟨attended_run h, hw⟩
    intro t ht hne
    exact ht.step hne

def twoBursts : List Act := openPort ++ write (List.replicate 65 65) ++ transmit 7

theorem no_stranded_bytes_one_left : ∃ os s, Run machine Always start os s ∧ s.dev.txFifo.data = [65] ∧
    Attended s.dev ∧ ∃ os' t, Run machine EngineOnly s os' t ∧ t.dev.txFifo.data = [] := by
  obtain ⟨os, s, hrun, hd, ht⟩ := Run.exists_of_exec (M := machine) (P := Always) (s := start) twoBursts
    (fun _ s => s.dev.txFifo.data = [65] ∧ s.dev.tearing = false) (by decide +kernel)
  obtain ⟨ha, he⟩ := no_stranded_bytes hrun (by simp [hd])
  rcases he with he | he
  · rw [ht] at he
    cases he
  · exact ⟨os, s, hrun, hd, ha, he⟩

theorem tested_and_not_yet_armed : ¬ ∀ os s, Run machine Always start os s → s.dev.txFifo.data ≠ [] →
    s.dev.txTimer.isSome = true ∨ s.dev.txWorkQueued = true ∨ s.dev.txWork.untested = true ∨ s.dev.Starting ∨
      s.dev.tearing = true := by
  intro hall
  obtain ⟨os, s, hrun, hd, ht, hq, hu, hw, htear⟩ := Run.exists_of_exec (M := machine) (P := Always) (s := start)
    twoBursts (fun _ s => s.dev.txFifo.data = [65] ∧ s.dev.txTimer = none ∧ s.dev.txWorkQueued = false ∧
      s.dev.txWork.untested = false ∧ s.dev.writers = [] ∧ s.dev.tearing = false) (by decide +kernel)
  have h := hall os s hrun (by simp [hd])
  simp [ht, hq, hu, hw, htear, Dev.Starting] at h

end VirtRtLab.Uart
