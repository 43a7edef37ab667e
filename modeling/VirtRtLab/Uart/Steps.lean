import VirtRtLab.Uart.Machine

namespace VirtRtLab.Uart

open Kernel VirtRtLab.Core

inductive WorkStep (b : Bus) (d : Dev) : Bus → Dev → List Obs → Prop
  | nothing (hpc : d.txWork = .entered) (he : d.txFifo.front BURST_SZ = []) :
      WorkStep b d b { d with txWork := .idle } []
  | dequeue (hpc : d.txWork = .entered) (he : d.txFifo.front BURST_SZ ≠ []) :
      WorkStep b d b { d with
        txFifo := d.txFifo.get BURST_SZ, txWork := .dequeued (d.txFifo.front BURST_SZ) } []
  | count {burst} (hpc : d.txWork = .dequeued burst) :
      WorkStep b d b { d with
        statTxBytes := d.statTxBytes + UInt64.ofNat burst.length, txWork := .counted burst } []
  | snap {burst} (hpc : d.txWork = .counted burst) :
      WorkStep b d b { d with txWork := .gates burst ⟨d.attrs, d.termios.baud⟩ }
        [.burst burst d.attrs.bitflipRatePpm]
  | disabled {burst snap} (hpc : d.txWork = .gates burst snap) (he : snap.attrs.enabled = false) :
      WorkStep b d b { d with txWork := .drop burst.length snap } []
  | noDropRate {burst snap} (hpc : d.txWork = .gates burst snap) (he : snap.attrs.enabled = true)
      (hr : snap.attrs.dropRatePpm = 0) : WorkStep b d b { d with txWork := .flip burst snap } []
  | dropFires {burst snap} (hpc : d.txWork = .gates burst snap) (he : snap.attrs.enabled = true)
      (hr : snap.attrs.dropRatePpm ≠ 0) (hg : gate b.nextPrngU32 snap.attrs.dropRatePpm = true) :
      WorkStep b d b.drawn { d with txWork := .drop burst.length snap } []
  | dropSpares {burst snap} (hpc : d.txWork = .gates burst snap) (he : snap.attrs.enabled = true)
      (hr : snap.attrs.dropRatePpm ≠ 0) (hg : gate b.nextPrngU32 snap.attrs.dropRatePpm = false) :
      WorkStep b d b.drawn { d with txWork := .flip burst snap } []
  | drop {len snap} (hpc : d.txWork = .drop len snap) :
      WorkStep b d b { d with statDrops := d.statDrops + UInt64.ofNat len, txWork := .rearm len snap } [.dropped len]
  | noFlipRate {burst snap} (hpc : d.txWork = .flip burst snap) (hr : snap.attrs.bitflipRatePpm = 0) :
      WorkStep b d b { d with txWork := .deliver burst snap } []
  | flipFires {burst snap} (hpc : d.txWork = .flip burst snap) (hr : snap.attrs.bitflipRatePpm ≠ 0)
      (hg : gate b.nextPrngU32 snap.attrs.bitflipRatePpm = true) :
      WorkStep b d b.drawn { d with txWork := .flipBit burst snap b.nextPrngU32 } []
  | flipSpares {burst snap} (hpc : d.txWork = .flip burst snap) (hr : snap.attrs.bitflipRatePpm ≠ 0)
      (hg : gate b.nextPrngU32 snap.attrs.bitflipRatePpm = false) :
      WorkStep b d b.drawn { d with txWork := .deliver burst snap } []
  | flipBit {burst snap rnd} (hpc : d.txWork = .flipBit burst snap rnd) :
      WorkStep b d b.drawn { d with txWork := .deliver (flipped burst rnd b.nextPrngU32) snap } []
  | deliver {burst snap} (hpc : d.txWork = .deliver burst snap) (hr : burst.length ≤ d.rxFifo.room burst) :
      WorkStep b d b { d with rxFifo := d.rxFifo.put burst, txWork := .rearm burst.length snap }
        [.queued (burst.take (d.rxFifo.room burst))]
  | deliverPart {burst snap} (hpc : d.txWork = .deliver burst snap) (hr : d.rxFifo.room burst < burst.length) :
      WorkStep b d b { d with
        rxFifo := d.rxFifo.put burst
        txWork := .overrun burst.length (burst.length - d.rxFifo.room burst) snap }
        [.queued (burst.take (d.rxFifo.room burst))]
  | overrun {len lost snap} (hpc : d.txWork = .overrun len lost snap) :
      WorkStep b d b { d with
        statOverruns := d.statOverruns + UInt64.ofNat lost, txWork := .rearm len snap } [.overran lost]
  | done {len snap} (hpc : d.txWork = .rearm len snap) (he : d.txFifo.data = []) :
      WorkStep b d b { d with txWork := .idle } []
  | noJitter {len snap} (hpc : d.txWork = .rearm len snap) (he : d.txFifo.data ≠ [])
      (hj : snap.attrs.jitterNs = 0) : WorkStep b d b { d with txWork := .arm (delayNs snap len) } []
  | jitter {len snap} (hpc : d.txWork = .rearm len snap) (he : d.txFifo.data ≠ [])
      (hj : snap.attrs.jitterNs ≠ 0) : WorkStep b d b { d with txWork := .jitter len snap } []
  | draw {len snap} (hpc : d.txWork = .jitter len snap) :
      WorkStep b d b.drawn { d with txWork := .jitter2 len snap b.nextPrngU32 } []
  | draw2 {len snap first sample} (hpc : d.txWork = .jitter2 len snap first)
      (hs : sample = jitterSample first b.nextPrngU32 snap.attrs.jitterNs ∨
        sample = jitterSample b.nextPrngU32 first snap.attrs.jitterNs) :
      WorkStep b d b.drawn { d with txWork := .arm (delayNs snap len + sample) } []
  | arm {delay} (hpc : d.txWork = .arm delay) :
      WorkStep b d b { d with txTimer := some delay, txWork := .idle } []

theorem stepWork_cases {b b' : Bus} {d d' : Dev} {hiFirst : Bool} {o : List Obs}
    (h : stepWork b d hiFirst = some (b', d', o)) : WorkStep b d b' d' o := by
  unfold stepWork at h
  split at h
  · cases h
  · dsimp only at h
    split at h <;> cases h
    · exact .nothing ‹_› ‹_›
    · exact .dequeue ‹_› ‹_›
  · cases h; exact .count ‹_›
  · cases h; exact .snap ‹_›
  · rename_i burst snap hpc
    cases he : snap.attrs.enabled with
    | false => simp only [he, Bool.not_false, ↓reduceIte] at h; cases h; exact .disabled hpc he
    | true =>
      simp only [he, Bool.not_true, Bool.false_eq_true, ↓reduceIte] at h
      split at h
      · cases h; exact .noDropRate hpc he ‹_›
      · split at h <;> cases h
        · exact .dropFires hpc he ‹_› ‹_›
        · exact .dropSpares hpc he ‹_› (eq_false_of_ne_true ‹_›)
  · cases h; exact .drop ‹_›
  · split at h
    · cases h; exact .noFlipRate ‹_› ‹_›
    · split at h <;> cases h
      · exact .flipFires ‹_› ‹_› ‹_›
      · exact .flipSpares ‹_› ‹_› (eq_false_of_ne_true ‹_›)
  · cases h; exact .flipBit ‹_›
  · rename_i burst snap hpc
    dsimp only at h
    by_cases hr : d.rxFifo.room burst < burst.length
    · rw [if_pos hr] at h; cases h; exact .deliverPart hpc hr
    · rw [if_neg hr] at h; cases h; exact .deliver hpc (Nat.not_lt.mp hr)
  · cases h; exact .overrun ‹_›
  · rename_i len snap hpc
    by_cases he : d.txFifo.isEmpty = true
    · rw [if_pos he] at h; cases h; exact .done hpc (d.txFifo.isEmpty_iff.mp he)
    · rw [if_neg he] at h
      have hne : d.txFifo.data ≠ [] := fun hd => he (d.txFifo.isEmpty_iff.mpr hd)
      split at h <;> cases h
      · exact .noJitter hpc hne ‹_›
      · exact .jitter hpc hne ‹_›
  · cases h; exact .draw ‹_›
  · dsimp only at h
    cases hiFirst <;> cases h
    · exact .draw2 ‹_› (Or.inr rfl)
    · exact .draw2 ‹_› (Or.inl rfl)
  · cases h; exact .arm ‹_›

-- a store can be refused, and a bus UP does nothing
def Act.refusable : Act → Bool
  | .attrStore _ _ | .bufSzStore _ _ | .resetStore _ | .notify .up => true
  | _ => false

inductive DevStep (b : Bus) (d : Dev) : Act → Dev → List Obs → Prop
  | refused {a} (ha : a.refusable = true) : DevStep b d a d []
  | writeCall {buf} : DevStep b d (.ttyWrite buf) { d with writers := d.writers ++ [.called buf] } []
  | writeUp {k buf} (hk : d.writers[k]? = some (.called buf)) (hb : b.isUp = true) :
      DevStep b d (.writer k) { d with writers := d.writers.set k (.gated buf) } []
  | writeDown {k buf} (hk : d.writers[k]? = some (.called buf)) (hb : b.isUp = false) :
      DevStep b d (.writer k) { d with writers := d.writers.eraseIdx k } []
  | writeEnabled {k buf} (hk : d.writers[k]? = some (.gated buf)) (he : d.attrs.enabled = true) :
      DevStep b d (.writer k) { d with writers := d.writers.set k (.ready buf d.termios.baud) } []
  | writeDisabled {k buf} (hk : d.writers[k]? = some (.gated buf)) (he : d.attrs.enabled = false) :
      DevStep b d (.writer k) { d with writers := d.writers.eraseIdx k } []
  | writeFull {k buf baud} (hk : d.writers[k]? = some (.ready buf baud)) (hr : d.txFifo.room buf = 0) :
      DevStep b d (.writer k) { d with writers := d.writers.eraseIdx k } []
  | accept {k buf baud} (hk : d.writers[k]? = some (.ready buf baud)) (hr : d.txFifo.room buf ≠ 0) :
      DevStep b d (.writer k) { d with txFifo := d.txFifo.put buf, writers := d.writers.set k (.enqueued baud) }
        [.accepted (buf.take (d.txFifo.room buf))]
  | writeArm {k baud} (hk : d.writers[k]? = some (.enqueued baud)) :
      DevStep b d (.writer k) { d with txTimer := some (byteNs baud), writers := d.writers.eraseIdx k } []
  | timerExpire (ht : d.txTimer.isSome = true) :
      DevStep b d .timerExpire { d with txTimer := none, txWorkQueued := true } []
  | workStart (hq : d.txWorkQueued = true) (hw : d.txWork = .idle) :
      DevStep b d .workStart { d with txWorkQueued := false, txWork := .entered } []
  | portActivate (hp : d.port = .closed) :
      DevStep b d .portActivate { d with port := .sized d.txBufSz d.rxBufSz } []
  | txAlloc {txSz rxSz} (hp : d.port = .sized txSz rxSz) :
      DevStep b d (.port true) { d with txFifo := .alloc txSz.toNat, port := .txAlloc rxSz } []
  | txAllocFails {txSz rxSz} (hp : d.port = .sized txSz rxSz) :
      DevStep b d (.port false) { d with port := .closed } []
  | rxAlloc {rxSz} (hp : d.port = .txAlloc rxSz) :
      DevStep b d (.port true) { d with rxFifo := .alloc rxSz.toNat, port := .allocated } []
  | rxAllocFails {rxSz} (hp : d.port = .txAlloc rxSz) :
      DevStep b d (.port false) { d with txFifo := .free, port := .closed } []
  | portActive {ok} (hp : d.port = .allocated) :
      DevStep b d (.port ok) { d with portActive := true, port := .opened } []
  | portShutdown (hp : d.port = .opened) :
      DevStep b d .portShutdown { d with txTimer := none, port := .shutWork } []
  | shutWork {ok} (hp : d.port = .shutWork) (hw : d.txWork = .idle) :
      DevStep b d (.port ok) { d with txWorkQueued := false, port := .shutLen } []
  | shutLen {ok} (hp : d.port = .shutLen) : DevStep b d (.port ok) { d with port := .shutCount d.txFifo.len } []
  | shutCount {ok pending} (hp : d.port = .shutCount pending) :
      DevStep b d (.port ok) { d with
        statDrops := d.statDrops + UInt64.ofNat pending, port := .shutTx pending } [.dropped pending]
  | shutTx {ok pending} (hp : d.port = .shutTx pending) :
      DevStep b d (.port ok) { d with txFifo := .free, port := .shutRx } []
  | shutRx {ok} (hp : d.port = .shutRx) :
      DevStep b d (.port ok) { d with portActive := false, rxFifo := .free, port := .closed } []
  | wireOpen (hc : d.wireOpenCount = 0) : DevStep b d .wireOpen { d with wireOpenCount := 1, wire := .opening } []
  | wireBusy (hc : d.wireOpenCount ≠ 0) : DevStep b d .wireOpen d []
  | wireOpened (hw : d.wire = .opening) :
      DevStep b d .wireOpened { d with wireResetPending := false, wire := .opened } []
  | wireRelease (hw : d.wire = .opened) (hr : d.readers = []) :
      DevStep b d .wireRelease { d with rxFifo := d.rxFifo.reset, wire := .releasing } []
  | wireReleased (hw : d.wire = .releasing) :
      DevStep b d .wireReleased { d with wireOpenCount := 0, wire := .closed } []
  | readCall {count nonblock} (hw : d.wire = .opened) :
      DevStep b d (.wireRead count nonblock) { d with readers := d.readers ++ [.called count nonblock] } []
  | readGoesOn {k ok pc pc'} (hk : d.readers[k]? = some pc) (hs : stepRead d pc ok = some (d, pc', []))
      (hb : ∀ bs, pc' = .ret (.ok bs) → bs = []) :
      DevStep b d (.reader k ok) { d with readers := d.readers.set k pc' } []
  | readTakes {k ok rdSz nonblock} (hk : d.readers[k]? = some (.locked rdSz nonblock)) (ha : d.portActive = true)
      (hf : d.rxFifo.front rdSz ≠ []) :
      DevStep b d (.reader k ok) { d with
        rxFifo := d.rxFifo.get rdSz
        readers := d.readers.set k (.ret (if ok then .ok (d.rxFifo.front rdSz) else .error .efault)) }
        [.wireRead (d.rxFifo.front rdSz)]
  | readReturn {k r} (hk : d.readers[k]? = some (.ret r)) :
      DevStep b d (.readReturn k) { d with readers := d.readers.eraseIdx k } [.returned r]
  | wireChunk {chunk n} (hw : d.wire = .opened) (hc : 0 < chunk ∧ n ≤ chunk ∧ chunk ≤ 256) :
      DevStep b d (.wireChunk chunk n) { d with
        statRxBytes := d.statRxBytes + UInt64.ofNat n
        statOverruns := d.statOverruns + UInt64.ofNat (chunk - n) } [.rxInserted n, .rxOverran (chunk - n)]
  | attrStore {attr buf attrs} (hs : d.attrs.store MAX_FAULT_NS MAX_PPM attr buf = .ok attrs) :
      DevStep b d (.attrStore attr buf) { d with attrs } []
  | setTermios {t} : DevStep b d (.setTermios t) { d with termios := t } []
  | bufSzStore {side buf val} (hs : kstrtou32 buf 0 = .ok val) (hv : bufSzValid val = true)
      (hc : d.wireOpenCount = 0) (ha : d.portActive = false) :
      DevStep b d (.bufSzStore side buf) { d with sizers := d.sizers ++ [(side, val)] } []
  | bufSzTx {k val} (hk : d.sizers[k]? = some (.tx, val)) :
      DevStep b d (.bufSzCommit k) { d with txBufSz := val, sizers := d.sizers.eraseIdx k } []
  | bufSzRx {k val} (hk : d.sizers[k]? = some (.rx, val)) :
      DevStep b d (.bufSzCommit k) { d with rxBufSz := val, sizers := d.sizers.eraseIdx k } []
  | resetStore {buf} (hs : kstrtou32 buf 0 = .ok 0) :
      DevStep b d (.resetStore buf) { d with resets := d.resets ++ [[.txBytes, .rxBytes, .overruns, .drops]] } []
  | resetStat {k st rest} (hk : d.resets[k]? = some (st :: rest)) :
      DevStep b d (.resetStat k) { d.zeroStat st with resets := d.resets.set k rest } []
  | resetEnds {k} (hk : d.resets[k]? = some []) :
      DevStep b d (.resetStat k) { d with resets := d.resets.eraseIdx k } []
  | down (hn : d.notifier = .idle) : DevStep b d (.notify .down) { d with txTimer := none, notifier := .downWork } []
  | downWork (hn : d.notifier = .downWork) (hw : d.txWork = .idle) :
      DevStep b d .notifier { d with txWorkQueued := false, notifier := .downFlush } []
  | downFlush (hn : d.notifier = .downFlush) :
      DevStep b d .notifier { d with txFifo := d.txFifo.reset, notifier := .downCount d.txFifo.len } []
  | downCount {pending} (hn : d.notifier = .downCount pending) :
      DevStep b d .notifier { d with
        statDrops := d.statDrops + UInt64.ofNat pending, notifier := .idle } [.dropped pending]
  | reset (hn : d.notifier = .idle) :
      DevStep b d (.notify .reset) { d with txTimer := none, notifier := .resetWork } []
  | resetWork (hn : d.notifier = .resetWork) (hw : d.txWork = .idle) :
      DevStep b d .notifier { d with txWorkQueued := false, notifier := .resetFlush } []
  | resetFlush (hn : d.notifier = .resetFlush) :
      DevStep b d .notifier { d with txFifo := d.txFifo.reset, notifier := .resetAttrs } []
  | resetAttrs (hn : d.notifier = .resetAttrs) :
      DevStep b d .notifier { d with
        attrs := .default, notifier := .resetStats [.txBytes, .rxBytes, .overruns, .drops] } []
  | resetZero {st rest} (hn : d.notifier = .resetStats (st :: rest)) :
      DevStep b d .notifier { d.zeroStat st with notifier := .resetStats rest } []
  | resetWire (hn : d.notifier = .resetStats []) :
      DevStep b d .notifier { d with wireResetPending := true, notifier := .idle } []

section

variable {b : Bus} {d d' : Dev} {o : List Obs}

theorem DevStep.not_work {hiFirst : Bool} : ¬ DevStep b d (.work hiFirst) d' o := by
  intro h
  cases h with
  | refused ha => cases ha

theorem stepWriter_cases {k : ℕ} (h : stepWriter b d k = some (d', o)) : DevStep b d (.writer k) d' o := by
  unfold stepWriter at h
  split at h
  · cases h
  · split at h <;> cases h
    · exact .writeUp ‹_› ‹_›
    · exact .writeDown ‹_› (eq_false_of_ne_true ‹_›)
  · split at h <;> cases h
    · exact .writeEnabled ‹_› ‹_›
    · exact .writeDisabled ‹_› (eq_false_of_ne_true ‹_›)
  · split at h <;> cases h
    · exact .writeFull ‹_› ‹_›
    · exact .accept ‹_› ‹_›
  · cases h
    exact .writeArm ‹_›

theorem stepPort_cases {ok : Bool} (h : stepPort d ok = some (d', o)) : DevStep b d (.port ok) d' o := by
  unfold stepPort at h
  split at h
  · cases h
  · cases ok <;> cases h
    · exact .txAllocFails ‹_›
    · exact .txAlloc ‹_›
  · cases ok <;> cases h
    · exact .rxAllocFails ‹_›
    · exact .rxAlloc ‹_›
  · cases h
    exact .portActive ‹_›
  · cases h
  · split at h <;> cases h
    exact .shutWork ‹_› ‹_›
  · cases h
    exact .shutLen ‹_›
  · cases h
    exact .shutCount ‹_›
  · cases h
    exact .shutTx ‹_›
  · cases h
    exact .shutRx ‹_›

theorem stepNotifier_cases (h : stepNotifier d = some (d', o)) : DevStep b d .notifier d' o := by
  unfold stepNotifier at h
  split at h
  · cases h
  · split at h <;> cases h
    exact .downWork ‹_› ‹_›
  · cases h
    exact .downFlush ‹_›
  · cases h
    exact .downCount ‹_›
  · split at h <;> cases h
    exact .resetWork ‹_› ‹_›
  · cases h
    exact .resetFlush ‹_›
  · cases h
    exact .resetAttrs ‹_›
  · cases h
    exact .resetZero ‹_›
  · cases h
    exact .resetWire ‹_›

-- only the critical section of `virtrtlab_wire_read` touches the device
theorem stepRead_cases {pc pc' : ReadPc} {ok : Bool} (h : stepRead d pc ok = some (d', pc', o)) :
    (d' = d ∧ o = [] ∧ ∀ bs, pc' = .ret (.ok bs) → bs = []) ∨
    ∃ rdSz nonblock, pc = .locked rdSz nonblock ∧ d.portActive = true ∧ d.rxFifo.front rdSz ≠ [] ∧
      d' = { d with rxFifo := d.rxFifo.get rdSz } ∧
      pc' = .ret (if ok then .ok (d.rxFifo.front rdSz) else .error .efault) ∧
      o = [.wireRead (d.rxFifo.front rdSz)] := by
  cases pc with
  | locked rdSz nonblock =>
    simp only [stepRead] at h
    split at h
    · cases h
      exact .inl ⟨rfl, rfl, by simp⟩
    · rename_i ha
      split at h
      · split at h <;> cases h <;> exact .inl ⟨rfl, rfl, by simp⟩
      · cases h
        exact .inr ⟨rdSz, nonblock, rfl, by simpa using ha, ‹_›, rfl, rfl, rfl⟩
  | called | wait | woken | ret =>
    left
    simp only [stepRead] at h
    repeat' split at h
    all_goals cases h
    all_goals exact ⟨rfl, rfl, by simp⟩

theorem bufSzStore_cases (side : BufSide) (buf : Bytes) :
    DevStep b d (.bufSzStore side buf) (bufSzStore d side buf) [] := by
  unfold bufSzStore
  split
  · exact .refused rfl
  · split
    · exact .refused rfl
    · rename_i val hs hv
      split
      · exact .refused rfl
      · rename_i hc
        simp only [Bool.not_eq_true, Bool.or_eq_false_iff, decide_eq_false_iff_not, not_not] at hc
        exact .bufSzStore hs (by simpa using hv) hc.1 hc.2

theorem stepDev_cases {a : Act} (h : stepDev d a = some (d', o)) : DevStep b d a d' o := by
  cases a with
  | port ok => exact stepPort_cases h
  | notifier => exact stepNotifier_cases h
  | reader k ok =>
    simp only [stepDev] at h
    split at h
    · cases h
    · rename_i pc hk
      split at h
      · cases h
      · rename_i e pc' o' hs
        cases h
        obtain ⟨rfl, rfl, hb⟩ | ⟨rdSz, nonblock, rfl, ha, hf, rfl, rfl, rfl⟩ := stepRead_cases hs
        · exact .readGoesOn hk hs hb
        · exact .readTakes hk ha hf
  | resetStat k =>
    obtain ⟨e, he, hr⟩ := Option.map_eq_some_iff.mp h
    cases hr
    unfold resetStat at he
    split at he <;> cases he
    · exact .resetEnds ‹_›
    · exact .resetStat ‹_›
  | bufSzCommit k =>
    obtain ⟨e, he, hr⟩ := Option.map_eq_some_iff.mp h
    cases hr
    unfold bufSzCommit at he
    split at he <;> cases he
    · exact .bufSzTx ‹_›
    · exact .bufSzRx ‹_›
  | bufSzStore side buf =>
    cases h
    exact bufSzStore_cases side buf
  | attrStore attr buf =>
    cases h
    unfold attrStore
    split
    · exact .refused rfl
    · exact .attrStore ‹_›
  | resetStore buf =>
    cases h
    unfold resetStore
    split
    · exact .resetStore ‹_›
    · exact .refused rfl
  | ttyWrite buf =>
    cases h
    exact .writeCall
  | setTermios t =>
    cases h
    exact .setTermios
  | timerExpire =>
    simp only [stepDev] at h
    split at h <;> cases h
    exact .timerExpire ‹_›
  | workStart =>
    simp only [stepDev] at h
    split at h <;> cases h
    rename_i hc
    exact .workStart hc.1 hc.2
  | portActivate =>
    simp only [stepDev] at h
    split at h <;> cases h
    exact .portActivate ‹_›
  | portShutdown =>
    simp only [stepDev] at h
    split at h <;> cases h
    exact .portShutdown ‹_›
  | wireOpen =>
    simp only [stepDev] at h
    split at h <;> cases h
    · exact .wireOpen ‹_›
    · exact .wireBusy ‹_›
  | wireOpened =>
    simp only [stepDev] at h
    split at h <;> cases h
    exact .wireOpened ‹_›
  | wireRelease =>
    simp only [stepDev] at h
    split at h <;> cases h
    rename_i hc
    exact .wireRelease hc.1 hc.2
  | wireReleased =>
    simp only [stepDev] at h
    split at h <;> cases h
    exact .wireReleased ‹_›
  | wireRead count nonblock =>
    simp only [stepDev] at h
    split at h <;> cases h
    exact .readCall ‹_›
  | readReturn k =>
    simp only [stepDev] at h
    split at h <;> cases h
    exact .readReturn ‹_›
  | wireChunk chunk n =>
    simp only [stepDev] at h
    split at h <;> cases h
    rename_i hc
    exact .wireChunk hc.1 hc.2
  | notify event =>
    cases event <;> simp only [stepDev] at h <;> split at h <;> cases h
    · exact .refused rfl
    · exact .down ‹_›
    · exact .reset ‹_›
  | writer | work | bus => cases h

end

theorem machine_cases {s t : Sys} {a : Act} {o : List Obs} (h : machine s a = some (t, o)) :
    (∃ hiFirst, a = .work hiFirst ∧ WorkStep s.bus s.dev t.bus t.dev o) ∨
    (∃ b, a = .bus b ∧ s.bus.step b = some t.bus ∧ t.dev = s.dev ∧ o = []) ∨
    (t.bus = s.bus ∧ DevStep s.bus s.dev a t.dev o) := by
  unfold machine at h
  split at h
  · obtain ⟨⟨d', o'⟩, he, hr⟩ := Option.map_eq_some_iff.mp h
    cases hr
    exact .inr (.inr ⟨rfl, stepWriter_cases he⟩)
  · obtain ⟨⟨b', d', o'⟩, he, hr⟩ := Option.map_eq_some_iff.mp h
    cases hr
    exact .inl ⟨_, rfl, stepWork_cases he⟩
  · obtain ⟨bus, he, hr⟩ := Option.map_eq_some_iff.mp h
    cases hr
    exact .inr (.inl ⟨_, rfl, he, rfl, rfl⟩)
  · obtain ⟨⟨d', o'⟩, he, hr⟩ := Option.map_eq_some_iff.mp h
    cases hr
    exact .inr (.inr ⟨rfl, stepDev_cases he⟩)

def TxPc.draws : TxPc → ℕ
  | .gates _ snap => if snap.attrs.enabled ∧ snap.attrs.dropRatePpm ≠ 0 then 1 else 0
  | .flip _ snap => if snap.attrs.bitflipRatePpm ≠ 0 then 1 else 0
  | .flipBit _ _ _ | .jitter _ _ | .jitter2 _ _ _ => 1
  | _ => 0

theorem WorkStep.drawn {b b' : Bus} {d d' : Dev} {o : List Obs} (h : WorkStep b d b' d' o) :
    b' = Bus.drawn^[d.txWork.draws] b := by
  cases h with
  | dropFires hpc he hr | dropSpares hpc he hr => simp [hpc, TxPc.draws, he, hr]
  | noDropRate hpc he hr => simp [hpc, TxPc.draws, hr]
  | disabled hpc he => simp [hpc, TxPc.draws, he]
  | flipFires hpc hr | flipSpares hpc hr | noFlipRate hpc hr => simp [hpc, TxPc.draws, hr]
  | nothing hpc | dequeue hpc | count hpc | snap hpc | drop hpc | flipBit hpc | deliver hpc | deliverPart hpc
  | overrun hpc | done hpc | noJitter hpc | jitter hpc | draw hpc | draw2 hpc | arm hpc =>
    simp [hpc, TxPc.draws]

theorem WorkStep.toGo {b b' : Bus} {d d' : Dev} {o : List Obs} (h : WorkStep b d b' d' o) :
    d'.txWork.toGo < d.txWork.toGo := by
  cases h with
  | _ hpc =>
    rw [hpc]
    simp [TxPc.toGo]

theorem stepWork_isSome {b : Bus} {d : Dev} (h : d.txWork ≠ .idle) : (stepWork b d true).isSome = true := by
  cases hpc : d.txWork with
  | idle => exact absurd hpc h
  | entered | gates | flip | rearm =>
    simp only [stepWork, hpc]
    repeat' split
    all_goals rfl
  | _ =>
    simp only [stepWork, hpc]
    rfl

theorem work_enabled {s : Sys} (h : s.dev.txWork ≠ .idle) : ∃ t o, machine s (.work true) = some (t, o) := by
  obtain ⟨r, hr⟩ := Option.isSome_iff_exists.mp (stepWork_isSome (b := s.bus) h)
  have hm : machine s (.work true) = some (⟨r.1, r.2.1⟩, r.2.2) := by simp only [machine, hr, Option.map_some]
  exact ⟨_, _, hm⟩

end VirtRtLab.Uart
