import Mathlib.Order.Basic
import Mathlib.Data.Nat.Basic
import VirtRtLab.Core.Jitter
import VirtRtLab.Uart.Steps

namespace VirtRtLab.Uart

open Kernel VirtRtLab.Core Transition

/-- `released` and `running` are the delays of the `tx_timer` armings whose expiry queued `tx_work` and started
its present run. `owed` is the length of the last burst, if `tx_fifo` was not empty when it was decided; a teardown
cancels what is owed. -/
structure Pace where
  released : Option UInt64
  running : Option UInt64
  owed : Option ℕ
  deriving DecidableEq

inductive PaceEvent where
  | dequeued (delay : Option UInt64) (owed : Option ℕ)
  | started (pending : Option UInt64) (delay : UInt64)
  deriving DecidableEq

namespace Pace

def idle : Pace := ⟨none, none, none⟩

def next (n : Pace) (d : Dev) : Act → Pace
  | .timerExpire => if d.txWorkQueued then n else { n with released := d.txTimer }
  | .workStart => { n with released := none, running := n.released }
  | .work _ =>
    match d.txWork with
    | .entered => { n with owed := none }
    | .rearm len _ => if d.txFifo.isEmpty then { n with owed := none } else { n with owed := some len }
    | _ => n
  | .notify _ | .notifier | .portShutdown | .port _ => { n with owed := none }
  | _ => n

def shows (n : Pace) (d : Dev) : Act → List PaceEvent
  | .work _ => if d.txWork = .entered ∧ d.txFifo.front BURST_SZ ≠ [] then [.dequeued n.running n.owed] else []
  | .writer k =>
    match d.writers[k]? with
    | some (.enqueued baud) => [.started d.txTimer (byteNs baud)]
    | _ => []
  | _ => []

def due (n : Pace) (baud : UInt32) (latencyNs : UInt64) : ℕ :=
  (byteNs baud).toNat * n.owed.getD 0 + latencyNs.toNat

end Pace

def pacing : Observer Sys Act Obs Pace PaceEvent where
  next n s a _ := n.next s.dev a
  shows n s a _ := n.shows s.dev a

/-- A burst was released by an expired arming that was long enough; a `tty_write` shortens no armed timer. -/
def PaceEvent.Paced (baud : UInt32) (latencyNs : UInt64) : PaceEvent → Prop
  | .dequeued delay owed => ∃ t, delay = some t ∧ latencyNs.toNat ≤ t.toNat ∧
      ∀ len, owed = some len → (byteNs baud).toNat * len + latencyNs.toNat ≤ t.toNat
  | .started pending delay => ∀ t, pending = some t → t ≤ delay

def Dev.rates (d : Dev) : UInt32 × UInt64 × UInt64 := (d.termios.baud, d.attrs.latencyNs, d.attrs.jitterNs)

def Constant (s : Sys) (a : Act) : Prop := (machine s a).all (fun r => r.1.dev.rates = s.dev.rates) = true

instance (s : Sys) (a : Act) : Decidable (Constant s a) := inferInstanceAs (Decidable (_ = true))

/-- A `tty_write` starts `tx_timer` only when `latency_ns` is at most the time of a byte and no longer delay is
pending, and `tx_timer` does not expire too early inside a run of `tx_work` that re-arms it. -/
def unhurried (x : Sys × Pace) : Act → Bool
  | .writer k =>
    match x.1.dev.writers[k]? with
    | some (.enqueued baud) => x.1.dev.attrs.latencyNs ≤ byteNs baud && x.1.dev.txTimer.all (· ≤ byteNs baud)
    | _ => true
  | .timerExpire =>
    !x.1.dev.txWork.rearming || x.1.dev.txWorkQueued ||
      x.1.dev.txTimer.all (fun t => x.2.due x.1.dev.termios.baud x.1.dev.attrs.latencyNs ≤ t.toNat)
  | .work _ =>
    match x.1.dev.txWork with
    | .rearm len snap => x.1.dev.txFifo.isEmpty || !x.1.dev.txWorkQueued || x.2.released.all (delayNs snap len ≤ ·)
    | _ => true
  | _ => true

def Unhurried (x : Sys × Pace) (a : Act) : Prop := Constant x.1 a ∧ unhurried x a = true

instance (x : Sys × Pace) (a : Act) : Decidable (Unhurried x a) := inferInstanceAs (Decidable (_ ∧ _))

structure EngineIdle (d : Dev) : Prop where
  timer : d.txTimer = none
  queued : d.txWorkQueued = false
  work : d.txWork = .idle
  writers : d.writers = []

theorem byteNs_le (baud : UInt32) : (byteNs baud).toNat ≤ 10 ^ 10 := by
  unfold byteNs
  rw [UInt64.toNat_div]
  exact Nat.div_le_self _ _

theorem toNat_le_max {ns : UInt64} (h : ns ≤ MAX_FAULT_NS) : ns.toNat ≤ 10 ^ 10 := UInt64.le_iff_toNat_le.mp h

theorem delayNs_toNat {snap : TxSnap} {len : ℕ} (hl : snap.attrs.latencyNs ≤ MAX_FAULT_NS) (hb : len ≤ BURST_SZ) :
    (delayNs snap len).toNat = (byteNs snap.baud).toNat * len + snap.attrs.latencyNs.toNat := by
  have h1 := byteNs_le snap.baud
  have h2 := toNat_le_max hl
  have h3 : (byteNs snap.baud).toNat * len ≤ 10 ^ 10 * 64 := Nat.mul_le_mul h1 hb
  have hlen : (UInt64.ofNat len).toNat = len := by
    rw [UInt64.toNat_ofNat']
    exact Nat.mod_eq_of_lt (by unfold BURST_SZ at hb; omega)
  unfold delayNs
  rw [UInt64.toNat_add, UInt64.toNat_mul, hlen, Nat.mod_eq_of_lt (a := (byteNs snap.baud).toNat * len) (by omega),
    Nat.mod_eq_of_lt (by omega)]

theorem jitterSample_le {hi lo : UInt32} {jitterNs : UInt64} (h : jitterNs ≤ MAX_FAULT_NS) :
    (jitterSample hi lo jitterNs).toNat ≤ 10 ^ 10 := by
  have h1 := toNat_le_max h
  rw [jitterSample_toNat _ _ (by omega)]
  exact (offset_le hi lo jitterNs).trans h1

def WritePc.At (baud : UInt32) : WritePc → Prop
  | .ready _ b | .enqueued b => b = baud
  | _ => True

section

variable (baud : UInt32) (latencyNs jitterNs : UInt64)

def TxSnap.At (snap : TxSnap) : Prop := (snap.baud, snap.attrs.latencyNs, snap.attrs.jitterNs) = (baud, latencyNs, jitterNs)

def TxPc.At (n : Pace) : TxPc → Prop
  | .idle | .entered => True
  | .dequeued burst | .counted burst => n.owed = none ∧ burst.length ≤ BURST_SZ
  | .gates burst snap | .flip burst snap | .flipBit burst snap _ | .deliver burst snap =>
    n.owed = none ∧ burst.length ≤ BURST_SZ ∧ snap.At baud latencyNs jitterNs
  | .drop len snap | .overrun len _ snap | .rearm len snap =>
    n.owed = none ∧ len ≤ BURST_SZ ∧ snap.At baud latencyNs jitterNs
  | .jitter len snap | .jitter2 len snap _ =>
    n.owed.getD len = len ∧ len ≤ BURST_SZ ∧ snap.At baud latencyNs jitterNs
  | .arm delay => n.due baud latencyNs ≤ delay.toNat

structure Engine (n : Pace) (d : Dev) : Prop where
  rates : d.rates = (baud, latencyNs, jitterNs)
  writers : ∀ pc ∈ d.writers, pc.At baud
  work : d.txWork.At baud latencyNs jitterNs n
  timer : ∀ t, d.txTimer = some t → latencyNs.toNat ≤ t.toNat
  rest : n.owed ≠ none → d.txWork = .idle → d.txWorkQueued = false → d.txTimer ≠ none
  pending : ∀ t, d.txTimer = some t → d.txWork = .idle → d.txWorkQueued = false → n.due baud latencyNs ≤ t.toNat
  queued : d.txWorkQueued = true → ∃ t, n.released = some t ∧ latencyNs.toNat ≤ t.toNat ∧
    (d.txWork ≠ .entered → n.due baud latencyNs ≤ t.toNat)
  entered : d.txWork = .entered → ∃ t, n.running = some t ∧ n.due baud latencyNs ≤ t.toNat

end

section

variable {baud : UInt32} {latencyNs jitterNs : UInt64} {n : Pace} {b b' : Bus} {d d' : Dev} {a : Act} {o : List Obs}

theorem Pace.latency_le_due (n : Pace) : latencyNs.toNat ≤ n.due baud latencyNs := Nat.le_add_left _ _

theorem Pace.due_of_none (h : n.owed = none) : n.due baud latencyNs = latencyNs.toNat := by
  simp [Pace.due, h]

theorem Engine.forget (h : Engine baud latencyNs jitterNs n d) :
    Engine baud latencyNs jitterNs { n with owed := none } d := by
  have hdue : ({ n with owed := none } : Pace).due baud latencyNs = latencyNs.toNat := Pace.due_of_none rfl
  have hwork := h.work
  constructor
  · exact h.rates
  · exact h.writers
  · cases hpc : d.txWork with
    | idle | entered => trivial
    | dequeued | counted | gates | flip | flipBit | deliver | drop | overrun | rearm | jitter | jitter2 =>
      rw [hpc] at hwork
      exact ⟨rfl, hwork.2⟩
    | arm delay =>
      rw [hpc] at hwork
      exact hdue.trans_le (n.latency_le_due.trans hwork)
  · exact h.timer
  · intro hn
    exact absurd rfl hn
  · intro t ht _ _
    exact hdue.trans_le (h.timer t ht)
  · intro hq
    obtain ⟨t, ht, hl, -⟩ := h.queued hq
    exact ⟨t, ht, hl, fun _ => hdue.trans_le hl⟩
  · intro hw
    obtain ⟨t, ht, hl⟩ := h.entered hw
    exact ⟨t, ht, hdue.trans_le (n.latency_le_due.trans hl)⟩

def Dev.engine (d : Dev) : (UInt32 × UInt64 × UInt64) × TxPc × Option UInt64 × Bool :=
  (d.rates, d.txWork, d.txTimer, d.txWorkQueued)

theorem Engine.frame (h : Engine baud latencyNs jitterNs n d) (he : d'.engine = d.engine)
    (hw : ∀ pc ∈ d'.writers, pc.At baud) : Engine baud latencyNs jitterNs n d' := by
  simp only [Dev.engine, Prod.mk.injEq] at he
  obtain ⟨hr, hk, ht, hq⟩ := he
  constructor
  · rw [hr]; exact h.rates
  · exact hw
  · rw [hk]; exact h.work
  · rw [ht]; exact h.timer
  · rw [hk, ht, hq]; exact h.rest
  · rw [hk, ht, hq]; exact h.pending
  · rw [hk, hq]; exact h.queued
  · rw [hk]; exact h.entered

theorem Engine.stop (h : Engine baud latencyNs jitterNs n d) (hr : d'.rates = d.rates) (hw : d'.writers = d.writers)
    (hk : d'.txWork = d.txWork) (ht : d'.txTimer = none ∨ d'.txTimer = d.txTimer)
    (hq : d'.txWorkQueued = false ∨ d'.txWorkQueued = d.txWorkQueued) :
    Engine baud latencyNs jitterNs { n with owed := none } d' := by
  have hf := h.forget
  have hdue : ({ n with owed := none } : Pace).due baud latencyNs = latencyNs.toNat := Pace.due_of_none rfl
  have htimer (t : UInt64) (h' : d'.txTimer = some t) : latencyNs.toNat ≤ t.toNat := by
    rcases ht with ht | ht
    · rw [ht] at h'
      cases h'
    · rw [ht] at h'
      exact h.timer t h'
  constructor
  · rw [hr]; exact h.rates
  · rw [hw]; exact h.writers
  · rw [hk]; exact hf.work
  · exact htimer
  · intro hn
    exact absurd rfl hn
  · intro t h' _ _
    exact hdue.trans_le (htimer t h')
  · intro h'
    rcases hq with hq | hq
    · rw [hq] at h'
      cases h'
    · rw [hq] at h'
      rw [hk]
      exact hf.queued h'
  · rw [hk]; exact hf.entered

theorem Engine.writersOf (h : Engine baud latencyNs jitterNs n d) {pcs : List WritePc} {pc : WritePc}
    (hp : pc.At baud) (hs : ∀ x ∈ pcs, x ∈ d.writers ∨ x = pc) : ∀ x ∈ pcs, x.At baud := by
  intro x hx
  rcases hs x hx with hx | rfl
  · exact h.writers x hx
  · exact hp

theorem Engine.erase (h : Engine baud latencyNs jitterNs n d) (k : ℕ) : ∀ pc ∈ d.writers.eraseIdx k, pc.At baud :=
  fun pc hpc => h.writers pc (List.mem_of_mem_eraseIdx hpc)

theorem Engine.setWriter (h : Engine baud latencyNs jitterNs n d) (k : ℕ) {pc : WritePc} (hp : pc.At baud) :
    ∀ x ∈ d.writers.set k pc, x.At baud :=
  h.writersOf hp (fun _ hx => List.mem_or_eq_of_mem_set hx)

theorem Engine.startTimer (h : Engine baud latencyNs jitterNs n d) {k : ℕ} {baud' : UInt32}
    (hk : d.writers[k]? = some (.enqueued baud')) (hu : unhurried (⟨b, d⟩, n) (.writer k) = true) :
    Engine baud latencyNs jitterNs n { d with txTimer := some (byteNs baud'), writers := d.writers.eraseIdx k } := by
  simp only [unhurried, hk, Bool.and_eq_true, decide_eq_true_eq] at hu
  obtain ⟨hlat, hpend⟩ := hu
  have hrate : d.attrs.latencyNs = latencyNs := congrArg (fun r => r.2.1) h.rates
  rw [hrate] at hlat
  have hle : latencyNs.toNat ≤ (byteNs baud').toNat := UInt64.le_iff_toNat_le.mp hlat
  constructor
  · exact h.rates
  · exact h.erase k
  · exact h.work
  · rintro t ⟨rfl⟩
    exact hle
  · intro _ _ _ ht
    cases ht
  · rintro t ⟨rfl⟩ hw hq
    by_cases hn : n.owed = none
    · exact (Pace.due_of_none hn).trans_le hle
    · cases ht : d.txTimer with
      | none => exact absurd ht (h.rest hn hw hq)
      | some t =>
        simp only [ht, Option.all_some, decide_eq_true_eq] at hpend
        exact (h.pending t ht hw hq).trans (UInt64.le_iff_toNat_le.mp hpend)
  · exact h.queued
  · exact h.entered

theorem Engine.expire (h : Engine baud latencyNs jitterNs n d) (ht : d.txTimer.isSome = true)
    (hu : unhurried (⟨b, d⟩, n) .timerExpire = true) :
    Engine baud latencyNs jitterNs (n.next d .timerExpire) { d with txTimer := none, txWorkQueued := true } := by
  obtain ⟨t, ht⟩ := Option.isSome_iff_exists.mp ht
  have howed : (n.next d .timerExpire).owed = n.owed := by
    simp only [Pace.next]
    split <;> rfl
  have hrunning : (n.next d .timerExpire).running = n.running := by
    simp only [Pace.next]
    split <;> rfl
  have hdue : (n.next d .timerExpire).due baud latencyNs = n.due baud latencyNs := by
    simp only [Pace.due, howed]
  have hqueued : ∃ t, (n.next d .timerExpire).released = some t ∧ latencyNs.toNat ≤ t.toNat ∧
      (d.txWork ≠ .entered → n.due baud latencyNs ≤ t.toNat) := by
    cases hq : d.txWorkQueued with
    | true => simpa [Pace.next, hq] using h.queued hq
    | false =>
      refine ⟨t, by simp [Pace.next, hq, ht], h.timer t ht, fun hne => ?_⟩
      by_cases hr : d.txWork.rearming = true
      · have hb : d.termios.baud = baud := congrArg (fun r => r.1) h.rates
        have hl : d.attrs.latencyNs = latencyNs := congrArg (fun r => r.2.1) h.rates
        simpa [unhurried, hr, hq, ht, hb, hl] using hu
      · have hwork := h.work
        cases hpc : d.txWork with
        | idle => exact h.pending t ht hpc hq
        | entered => exact absurd hpc hne
        | jitter | jitter2 | arm => simp [hpc, TxPc.rearming] at hr
        | dequeued | counted | gates | flip | flipBit | deliver | drop | overrun | rearm =>
          rw [hpc] at hwork
          exact (Pace.due_of_none hwork.1).trans_le (h.timer t ht)
  have hwork : d.txWork.At baud latencyNs jitterNs (n.next d .timerExpire) := by
    have hwork := h.work
    cases hpc : d.txWork with
    | idle | entered => trivial
    | _ =>
      rw [hpc] at hwork
      simpa [TxPc.At, howed, hdue] using hwork
  constructor
  · exact h.rates
  · exact h.writers
  · exact hwork
  · intro t ht
    cases ht
  · intro _ _ hq
    cases hq
  · intro t ht
    cases ht
  · intro _
    rw [hdue]
    exact hqueued
  · rw [hrunning, hdue]
    exact h.entered

theorem Engine.startWork (h : Engine baud latencyNs jitterNs n d) (hq : d.txWorkQueued = true)
    (hw : d.txWork = .idle) : Engine baud latencyNs jitterNs (n.next d .workStart)
      { d with txWorkQueued := false, txWork := .entered } := by
  obtain ⟨t, ht, hl, hdue⟩ := h.queued hq
  constructor
  · exact h.rates
  · exact h.writers
  · trivial
  · exact h.timer
  · intro _ h'
    cases h'
  · intro _ _ h'
    cases h'
  · intro h'
    cases h'
  · intro _
    exact ⟨t, ht, hdue (by simp [hw])⟩

theorem DevStep.engine (h : DevStep b d a d' o) (he : Engine baud latencyNs jitterNs n d)
    (hr : d'.rates = d.rates) (hu : unhurried (⟨b, d⟩, n) a = true) :
    Engine baud latencyNs jitterNs (n.next d a) d' := by
  have hbaud : d.termios.baud = baud := congrArg (fun r => r.1) he.rates
  cases h with
  | refused ha =>
    cases a with
    | notify => exact he.forget
    | attrStore | bufSzStore | resetStore => exact he
    | _ => cases ha
  | @writeCall buf =>
    have hp : WritePc.At baud (.called buf) := trivial
    exact he.frame rfl (he.writersOf hp (by simp))
  | @writeUp k buf hk => exact he.frame rfl (he.setWriter k trivial)
  | writeDown | writeDisabled | writeFull => exact he.frame rfl (he.erase _)
  | @writeEnabled k buf hk => exact he.frame rfl (he.setWriter k hbaud)
  | @accept k buf baud' hk =>
    have hp : WritePc.At baud (.ready buf baud') := he.writers _ (List.mem_of_getElem? hk)
    exact he.frame rfl (he.setWriter k hp)
  | writeArm hk => exact he.startTimer hk hu
  | timerExpire ht => exact he.expire ht hu
  | workStart hq hw => exact he.startWork hq hw
  | down | reset | portShutdown => exact he.stop rfl rfl rfl (.inl rfl) (.inr rfl)
  | downWork | resetWork | shutWork => exact he.stop rfl rfl rfl (.inr rfl) (.inl rfl)
  | downFlush | downCount | resetFlush | resetWire | txAlloc | txAllocFails | rxAlloc | rxAllocFails | portActive
  | shutLen | shutCount | shutTx | shutRx => exact he.forget.frame rfl he.writers
  | resetAttrs => exact he.stop hr rfl rfl (.inr rfl) (.inr rfl)
  | @resetZero st => cases st <;> exact he.forget.frame rfl he.writers
  | @resetStat k st => cases st <;> exact he.frame rfl he.writers
  | attrStore | setTermios => exact he.frame (by simp only [Dev.engine, hr]) he.writers
  | portActivate | wireOpen | wireBusy | wireOpened | wireRelease | wireReleased | readCall | readGoesOn | readTakes | readReturn
  | wireChunk | bufSzStore | bufSzTx | bufSzRx | resetStore | resetEnds => exact he.frame rfl he.writers

def TxPc.inside : TxPc → Bool
  | .idle | .entered | .rearm _ _ => false
  | _ => true

theorem Engine.goOn (h : Engine baud latencyNs jitterNs n d) {hiFirst : Bool} (hin : d.txWork.inside = true)
    (hi : d'.txWork ≠ .idle) (he : d'.txWork ≠ .entered) (hw : d'.txWork.At baud latencyNs jitterNs n)
    (hd : (d'.rates, d'.writers, d'.txTimer, d'.txWorkQueued) = (d.rates, d.writers, d.txTimer, d.txWorkQueued)) :
    Engine baud latencyNs jitterNs (n.next d (.work hiFirst)) d' := by
  have hnext : n.next d (.work hiFirst) = n := by
    simp only [Pace.next]
    split <;> simp_all [TxPc.inside]
  have hne : d.txWork ≠ .entered := by
    intro hpc
    rw [hpc] at hin
    cases hin
  rw [hnext]
  simp only [Prod.mk.injEq] at hd
  obtain ⟨hr, hwr, ht, hq⟩ := hd
  constructor
  · rw [hr]; exact h.rates
  · rw [hwr]; exact h.writers
  · exact hw
  · rw [ht]; exact h.timer
  · intro _ h'
    exact absurd h' hi
  · intro _ _ h'
    exact absurd h' hi
  · intro h'
    obtain ⟨t, hrel, hl, hdue⟩ := h.queued (hq.symm.trans h')
    exact ⟨t, hrel, hl, fun _ => hdue hne⟩
  · intro h'
    exact absurd h' he

theorem Engine.finish (h : Engine baud latencyNs jitterNs n d) (hn : n.owed = none)
    (hd : d'.engine = (d.rates, .idle, d.txTimer, d.txWorkQueued)) (hwr : d'.writers = d.writers) :
    Engine baud latencyNs jitterNs n d' := by
  simp only [Dev.engine, Prod.mk.injEq] at hd
  obtain ⟨hr, hk, ht, hq⟩ := hd
  have hdue : n.due baud latencyNs = latencyNs.toNat := Pace.due_of_none hn
  constructor
  · rw [hr]; exact h.rates
  · rw [hwr]; exact h.writers
  · rw [hk]; trivial
  · rw [ht]; exact h.timer
  · intro h'
    exact absurd hn h'
  · intro t h' _ _
    exact hdue.trans_le (h.timer t (ht.symm.trans h'))
  · intro h'
    obtain ⟨t, hrel, hl, -⟩ := h.queued (hq.symm.trans h')
    exact ⟨t, hrel, hl, fun _ => hdue.trans_le hl⟩
  · intro h'
    rw [hk] at h'
    cases h'

theorem TxSnap.At.delayNs {snap : TxSnap} {len : ℕ} (h : snap.At baud latencyNs jitterNs)
    (hl : latencyNs ≤ MAX_FAULT_NS) (hb : len ≤ BURST_SZ) :
    (delayNs snap len).toNat = (byteNs baud).toNat * len + latencyNs.toNat := by
  simp only [TxSnap.At, Prod.mk.injEq] at h
  obtain ⟨rfl, rfl, -⟩ := h
  exact delayNs_toNat hl hb

theorem TxSnap.At.delayNs_jitter {snap : TxSnap} {len : ℕ} {sample : UInt64} (h : snap.At baud latencyNs jitterNs)
    (hl : latencyNs ≤ MAX_FAULT_NS) (hb : len ≤ BURST_SZ) (hs : sample.toNat ≤ 10 ^ 10) :
    (byteNs baud).toNat * len + latencyNs.toNat ≤ (Uart.delayNs snap len + sample).toNat := by
  have h1 := h.delayNs hl hb
  have h2 := byteNs_le baud
  have h3 := toNat_le_max hl
  have h4 : (byteNs baud).toNat * len ≤ 10 ^ 10 * 64 := Nat.mul_le_mul h2 hb
  rw [UInt64.toNat_add, h1, Nat.mod_eq_of_lt (by omega)]
  exact Nat.le_add_right _ _

theorem Pace.due_le {n : Pace} {len : ℕ} (h : n.owed.getD len = len) :
    n.due baud latencyNs ≤ (byteNs baud).toNat * len + latencyNs.toNat := by
  unfold Pace.due
  cases hn : n.owed with
  | none => simp
  | some b =>
    have hb : b = len := by simpa [hn] using h
    rw [hb]
    exact le_rfl

theorem Engine.take (h : Engine baud latencyNs jitterNs n d) (hn : n.owed = none) (hd : d'.engine =
    (d.rates, .dequeued (d.txFifo.front BURST_SZ), d.txTimer, d.txWorkQueued)) (hwr : d'.writers = d.writers) :
    Engine baud latencyNs jitterNs n d' := by
  simp only [Dev.engine, Prod.mk.injEq] at hd
  obtain ⟨hr, hk, ht, hq⟩ := hd
  constructor
  · rw [hr]; exact h.rates
  · rw [hwr]; exact h.writers
  · rw [hk]; exact ⟨hn, List.length_take_le ..⟩
  · rw [ht]; exact h.timer
  · intro h'
    exact absurd hn h'
  · intro t _ h'
    rw [hk] at h'
    cases h'
  · intro h'
    obtain ⟨t, hrel, hl, -⟩ := h.queued (hq.symm.trans h')
    exact ⟨t, hrel, hl, fun _ => (Pace.due_of_none hn).trans_le hl⟩
  · intro h'
    rw [hk] at h'
    cases h'

theorem Engine.owe (h : Engine baud latencyNs jitterNs n d) (hl : latencyNs ≤ MAX_FAULT_NS) {len : ℕ} {snap : TxSnap}
    (hpc : d.txWork = .rearm len snap) (hf : d.txFifo.data ≠ []) {hiFirst : Bool}
    (hu : unhurried (⟨b, d⟩, n) (.work hiFirst) = true) {pc : TxPc} (hi : pc ≠ .idle) (he : pc ≠ .entered)
    (hw : pc.At baud latencyNs jitterNs { n with owed := some len }) :
    Engine baud latencyNs jitterNs (n.next d (.work hiFirst)) { d with txWork := pc } := by
  have hwork := h.work
  rw [hpc] at hwork
  obtain ⟨-, hlen, hsnap⟩ := hwork
  have hempty : d.txFifo.isEmpty = false := by simpa [Fifo.isEmpty] using hf
  have hnext : n.next d (.work hiFirst) = { n with owed := some len } := by simp [Pace.next, hpc, hempty]
  rw [hnext]
  constructor
  · exact h.rates
  · exact h.writers
  · exact hw
  · exact h.timer
  · intro _ h'
    exact absurd h' hi
  · intro _ _ h'
    exact absurd h' hi
  · intro hq
    obtain ⟨t, hrel, hle, -⟩ := h.queued hq
    refine ⟨t, hrel, hle, fun _ => ?_⟩
    have hq' : d.txWorkQueued = true := hq
    simp only [unhurried, hpc, hempty, hq', hrel, Bool.false_or, Bool.not_true, Option.all_some,
      decide_eq_true_eq] at hu
    have hdelay := UInt64.le_iff_toNat_le.mp hu
    rw [hsnap.delayNs hl hlen] at hdelay
    exact hdelay
  · intro h'
    exact absurd h' he

theorem Engine.arm (h : Engine baud latencyNs jitterNs n d) {delay : UInt64} (hpc : d.txWork = .arm delay) :
    Engine baud latencyNs jitterNs n { d with txTimer := some delay, txWork := .idle } := by
  have hwork := h.work
  rw [hpc] at hwork
  constructor
  · exact h.rates
  · exact h.writers
  · trivial
  · rintro t ⟨rfl⟩
    exact n.latency_le_due.trans hwork
  · intro _ _ _ h'
    cases h'
  · rintro t ⟨rfl⟩ _ _
    exact hwork
  · intro hq
    obtain ⟨t, hrel, hle, hdue⟩ := h.queued hq
    exact ⟨t, hrel, hle, fun _ => hdue (by simp [hpc])⟩
  · intro h'
    cases h'

theorem WorkStep.engine (h : WorkStep b d b' d' o) (he : Engine baud latencyNs jitterNs n d)
    (hl : latencyNs ≤ MAX_FAULT_NS) (hj : jitterNs ≤ MAX_FAULT_NS) {hiFirst : Bool}
    (hu : unhurried (⟨b, d⟩, n) (.work hiFirst) = true) :
    Engine baud latencyNs jitterNs (n.next d (.work hiFirst)) d' := by
  have hwork := he.work
  cases h with
  | nothing hpc hf =>
    have hnext : n.next d (.work hiFirst) = { n with owed := none } := by simp [Pace.next, hpc]
    rw [hnext]
    exact he.forget.finish rfl rfl rfl
  | dequeue hpc hf =>
    have hnext : n.next d (.work hiFirst) = { n with owed := none } := by simp [Pace.next, hpc]
    rw [hnext]
    exact he.forget.take rfl rfl rfl
  | done hpc hf =>
    have hempty : d.txFifo.isEmpty = true := d.txFifo.isEmpty_iff.mpr hf
    have hnext : n.next d (.work hiFirst) = { n with owed := none } := by simp [Pace.next, hpc, hempty]
    rw [hnext]
    exact he.forget.finish rfl rfl rfl
  | noJitter hpc hf =>
    rw [hpc] at hwork
    obtain ⟨-, hlen, hsnap⟩ := hwork
    apply he.owe hl hpc hf hu
    · simp
    · simp
    · exact (hsnap.delayNs hl hlen).ge
  | jitter hpc hf =>
    rw [hpc] at hwork
    apply he.owe hl hpc hf hu
    · simp
    · simp
    · exact ⟨rfl, hwork.2⟩
  | @draw2 len snap first sample hpc hs =>
    rw [hpc] at hwork
    obtain ⟨howed, hlen, hsnap⟩ := hwork
    have hle : sample.toNat ≤ 10 ^ 10 := by
      have hjit : snap.attrs.jitterNs = jitterNs := congrArg (fun r => r.2.2) hsnap
      rw [hjit] at hs
      rcases hs with rfl | rfl <;> exact jitterSample_le hj
    refine he.goOn (by rw [hpc]; rfl) (by simp) (by simp) ?_ rfl
    exact (Pace.due_le howed).trans (hsnap.delayNs_jitter hl hlen hle)
  | arm hpc =>
    have hnext : n.next d (.work hiFirst) = n := by simp [Pace.next, hpc]
    rw [hnext]
    exact he.arm hpc
  | snap hpc =>
    rw [hpc] at hwork
    exact he.goOn (by rw [hpc]; rfl) (by simp) (by simp) ⟨hwork.1, hwork.2, he.rates⟩ rfl
  | flipBit hpc =>
    rw [hpc] at hwork
    refine he.goOn (by rw [hpc]; rfl) (by simp) (by simp) ⟨hwork.1, ?_, hwork.2.2⟩ rfl
    simpa [flipped] using hwork.2.1
  | count hpc | disabled hpc | noDropRate hpc | dropFires hpc | dropSpares hpc | drop hpc | noFlipRate hpc
  | flipFires hpc | flipSpares hpc | deliver hpc | deliverPart hpc | overrun hpc | draw hpc =>
    rw [hpc] at hwork
    exact he.goOn (by rw [hpc]; rfl) (by simp) (by simp) hwork rfl

theorem Engine.paced (he : Engine baud latencyNs jitterNs n d) (hiFirst : Bool) {e : PaceEvent}
    (hm : e ∈ n.shows d (.work hiFirst)) : e.Paced baud latencyNs := by
  simp only [Pace.shows] at hm
  split at hm
  · rename_i hc
    obtain ⟨t, ht, hdue⟩ := he.entered hc.1
    have heq : e = .dequeued n.running n.owed := by simpa using hm
    rw [heq]
    refine ⟨t, ht, n.latency_le_due.trans hdue, ?_⟩
    intro len hlen
    simpa [Pace.due, hlen] using hdue
  · cases hm

end

theorem unhurried_paced {baud : UInt32} {latencyNs : UInt64} {n : Pace} {s : Sys} {k : ℕ} {e : PaceEvent}
    (hu : unhurried (s, n) (.writer k) = true) (hm : e ∈ n.shows s.dev (.writer k)) : e.Paced baud latencyNs := by
  simp only [Pace.shows] at hm
  split at hm
  · rename_i baud' hk
    have heq : e = .started s.dev.txTimer (byteNs baud') := by simpa using hm
    simp only [unhurried, hk, Bool.and_eq_true] at hu
    rw [heq]
    intro t ht
    simpa [ht] using hu.2
  · cases hm

theorem Engine.step {baud : UInt32} {latencyNs jitterNs : UInt64} {x y : Sys × Pace} {a : Act} {e : List PaceEvent}
    (h : Engine baud latencyNs jitterNs x.2 x.1.dev) (hl : latencyNs ≤ MAX_FAULT_NS) (hj : jitterNs ≤ MAX_FAULT_NS)
    (hu : Unhurried x a) (hobs : observed machine pacing x a = some (y, e)) :
    Engine baud latencyNs jitterNs y.2 y.1.dev ∧ ∀ p ∈ e, p.Paced baud latencyNs := by
  obtain ⟨o, hm, hn, rfl⟩ := observed_eq_some hobs
  obtain ⟨hc, hu⟩ := hu
  have hr : y.1.dev.rates = x.1.dev.rates := by simpa [Constant, hm] using hc
  have hn' : y.2 = x.2.next x.1.dev a := hn
  rw [hn']
  obtain ⟨hiFirst, rfl, hw⟩ | ⟨b, rfl, -, hd, rfl⟩ | ⟨-, hd⟩ := machine_cases hm
  · exact ⟨hw.engine h hl hj hu, fun p hp => h.paced hiFirst hp⟩
  · rw [hd]
    exact ⟨h, by simp [pacing, Pace.shows]⟩
  · refine ⟨hd.engine h hr hu, fun p hp => ?_⟩
    cases a with
    | writer k => exact unhurried_paced hu hp
    | work hiFirst => exact absurd hd DevStep.not_work
    | _ => cases hp

theorem DevStep.bounded {b : Bus} {d d' : Dev} {a : Act} {o : List Obs} (h : DevStep b d a d' o)
    (hb : d.attrs.Bounded MAX_FAULT_NS) : d'.attrs.Bounded MAX_FAULT_NS := by
  cases h with
  | attrStore hs => exact hb.store hs
  | resetAttrs => exact FaultAttrs.bounded_default _
  | @resetStat k st | @resetZero st => cases st <;> exact hb
  | _ => exact hb

theorem WorkStep.attrs {b b' : Bus} {d d' : Dev} {o : List Obs} (h : WorkStep b d b' d' o) : d'.attrs = d.attrs := by
  cases h <;> rfl

theorem bounded_run {os : List Obs} {s : Sys} (h : Run machine Always start os s) :
    s.dev.attrs.Bounded MAX_FAULT_NS := by
  apply h.invariant (fun s => s.dev.attrs.Bounded MAX_FAULT_NS)
  · exact FaultAttrs.bounded_default _
  · intro t a u o hb _ hm
    obtain ⟨hiFirst, -, hw⟩ | ⟨b, -, -, hd, -⟩ | ⟨-, hd⟩ := machine_cases hm
    · rwa [hw.attrs]
    · rwa [hd]
    · exact hd.bounded hb

def Reachable (s : Sys) : Prop := ∃ os, Run machine Always start os s

theorem EngineIdle.engine {d : Dev} (h : EngineIdle d) :
    Engine d.termios.baud d.attrs.latencyNs d.attrs.jitterNs .idle d := by
  constructor
  · rfl
  · simp [h.writers]
  · rw [h.work]
    trivial
  · simp [h.timer]
  · intro hn
    exact absurd rfl hn
  · simp [h.timer]
  · simp [h.queued]
  · simp [h.work]

theorem tx_pacing {s₀ : Sys} (hr : Reachable s₀) (h₀ : EngineIdle s₀.dev) {es : List PaceEvent} {x : Sys × Pace}
    (h : Run (observed machine pacing) Unhurried (s₀, .idle) es x) :
    ∀ e ∈ es, e.Paced s₀.dev.termios.baud s₀.dev.attrs.latencyNs := by
  obtain ⟨os, hr⟩ := hr
  have hb := bounded_run hr
  have hinv : Engine s₀.dev.termios.baud s₀.dev.attrs.latencyNs s₀.dev.attrs.jitterNs x.2 x.1.dev ∧
      ∀ e ∈ es, e.Paced s₀.dev.termios.baud s₀.dev.attrs.latencyNs := by
    apply h.shown (fun x => Engine s₀.dev.termios.baud s₀.dev.attrs.latencyNs s₀.dev.attrs.jitterNs x.2 x.1.dev)
      (fun e => e.Paced s₀.dev.termios.baud s₀.dev.attrs.latencyNs) h₀.engine
    intro x a y e hi hu hm
    exact hi.step hb.latency hb.jitter hu hm
  exact hinv.2

def opened (latencyNs : UInt64) : Sys where
  bus := .init
  dev := { Dev.init with
    attrs := { FaultAttrs.default with latencyNs }
    portActive := true
    txFifo := .alloc 4096
    rxFifo := .alloc 4096
    port := .opened }

theorem opened_idle (latencyNs : UInt64) : EngineIdle (opened latencyNs).dev := ⟨rfl, rfl, rfl, rfl⟩

def opening (latency : Bytes) : List Act := .attrStore .latencyNs latency :: openPort

theorem opened_reachable {latencyNs : UInt64} (latency : Bytes)
    (h : exec machine Always start (opening latency) = some (opened latencyNs, [])) :
    Reachable (opened latencyNs) :=
  ⟨[], Run.of_exec (opening latency) h⟩

theorem tx_pacing_two_bursts : ∃ es x, Run (observed machine pacing) Unhurried (opened 5, .idle) es x ∧
    es = [.started none 260416, .dequeued (some 260416) none, .dequeued (some 16666629) (some 64)] ∧
    ∀ e ∈ es, e.Paced 38400 5 := by
  have hr : Reachable (opened 5) := opened_reachable [53] (by decide +kernel)
  obtain ⟨es, x, hrun, hes⟩ := Run.exists_of_exec (M := observed machine pacing) (P := Unhurried)
    (s := (opened 5, .idle))
    (write (List.replicate 66 65) ++ transmit 8 ++ transmit 1)
    (fun es _ => es = [.started none 260416, .dequeued (some 260416) none, .dequeued (some 16666629) (some 64)])
    (by decide +kernel)
  exact ⟨es, x, hrun, hes, tx_pacing hr (opened_idle 5) hrun⟩

theorem first_burst_skips_latency : ¬ ∀ s₀ : Sys, Reachable s₀ → EngineIdle s₀.dev → ∀ es x,
    Run (observed machine pacing) (fun x a => Constant x.1 a) (s₀, .idle) es x →
    ∀ e ∈ es, e.Paced s₀.dev.termios.baud s₀.dev.attrs.latencyNs := by
  intro hall
  have hr : Reachable (opened 1000000000) :=
    opened_reachable [49, 48, 48, 48, 48, 48, 48, 48, 48, 48] (by decide +kernel)
  -- one byte, released after the time of one byte
  obtain ⟨es, x, hrun, hes⟩ := Run.exists_of_exec (M := observed machine pacing) (P := fun x a => Constant x.1 a)
    (s := (opened 1000000000, .idle))
    (write [65] ++ transmit 1)
    (fun es _ => .dequeued (some 260416) none ∈ es) (by decide +kernel)
  obtain ⟨t, ht, hle, -⟩ := hall _ hr (opened_idle _) es x hrun _ hes
  cases ht
  exact absurd hle (by decide +kernel)

end VirtRtLab.Uart
