import VirtRtLab.Uart.Accounting

namespace VirtRtLab.Uart

open Kernel VirtRtLab.Core Transition

def Obs.insertedLen : Obs → ℕ
  | .rxInserted n => n
  | _ => 0

-- a step, and whether a DOWN notification was over and the bus not up again before it
structure Passage where
  halted : Bool
  act : Act
  before : Dev
  after : Dev
  obs : List Obs

/-- A step of a halted device moves no byte between the AUT and the wire; only a counter reset changes a counter. -/
def Passage.Still (p : Passage) : Prop :=
  p.halted = true → total Obs.queuedLen p.obs = 0 ∧ total Obs.insertedLen p.obs = 0 ∧
    (zeroes p.before p.act = false →
      p.after.statTxBytes = p.before.statTxBytes ∧ p.after.statRxBytes = p.before.statRxBytes)

def nextHalted (halted : Bool) (s : Sys) : Act → Bool
  | .notifier =>
    match s.dev.notifier with
    | .downCount _ => halted || !s.bus.isUp
    | _ => halted
  | .bus (.setState .up) => false
  | _ => halted

def halting : Observer Sys Act Obs Bool Passage where
  next halted s a _ := nextHalted halted s a
  shows halted s a r := [⟨halted, a, s.dev, r.1.dev, r.2⟩]

def hasRoom (d : Dev) (k : ℕ) : Bool :=
  match d.writers[k]? with
  | some (.ready buf _) => d.txFifo.room buf ≠ 0
  | _ => false

/-- The DOWN notification ends with `tx_fifo` empty and no burst in the hand of `tx_work`; from then until the bus is
up, no `tty_write` that passed its gate before finds room in `tx_fifo`, and nobody writes bytes to the wire. -/
def haltHolds (x : Sys × Bool) : Act → Bool
  | .notifier =>
    match x.1.dev.notifier with
    | .downCount _ => x.1.bus.isUp || x.1.dev.txFifo.isEmpty && x.1.dev.txWork.holding = []
    | _ => true
  | .writer k => !x.2 || !hasRoom x.1.dev k
  | .wireChunk _ _ => !x.2
  | _ => true

def HaltHolds (x : Sys × Bool) (a : Act) : Prop := haltHolds x a = true

instance (x : Sys × Bool) (a : Act) : Decidable (HaltHolds x a) := inferInstanceAs (Decidable (_ = _))

structure Drained (d : Dev) : Prop where
  tx : d.txFifo.data = []
  hand : d.txWork.holding = []

section

variable {b b' : Bus} {d d' : Dev} {a : Act} {o : List Obs}

theorem Drained.frame (h : Drained d) (htx : d'.txFifo = d.txFifo) (hw : d'.txWork = d.txWork) : Drained d' := by
  constructor
  · rw [htx]; exact h.tx
  · rw [hw]; exact h.hand

theorem Drained.burst (h : Drained d) {burst : Bytes} (hb : d.txWork.holding = burst) : burst = [] := hb.symm.trans h.hand

theorem WorkStep.drained (h : WorkStep b d b' d' o) (hd : Drained d) : Drained d' := by
  cases h with
  | dequeue hpc he => exact absurd (by simp [Fifo.front, hd.tx]) he
  | count hpc | snap hpc | noDropRate hpc | dropSpares hpc | noFlipRate hpc | flipFires hpc | flipSpares hpc =>
    exact ⟨hd.tx, hd.burst (by rw [hpc]; rfl)⟩
  | @flipBit burst snap rnd hpc =>
    have hb : burst = [] := hd.burst (by rw [hpc]; rfl)
    exact ⟨hd.tx, by simp [TxPc.holding, flipped, hb]⟩
  | _ => exact ⟨hd.tx, rfl⟩

theorem WorkStep.still (h : WorkStep b d b' d' o) (hd : Drained d) : total Obs.queuedLen o = 0 ∧
    total Obs.insertedLen o = 0 ∧ d'.statTxBytes = d.statTxBytes ∧ d'.statRxBytes = d.statRxBytes := by
  cases h with
  | @count burst hpc =>
    have hb : burst = [] := hd.burst (by rw [hpc]; rfl)
    simp [hb]
  | @deliver burst snap hpc | @deliverPart burst snap hpc =>
    have hb : burst = [] := hd.burst (by rw [hpc]; rfl)
    simp [hb, Obs.queuedLen, Obs.insertedLen]
  | _ => exact ⟨rfl, rfl, rfl, rfl⟩

theorem DevStep.drained (h : DevStep b d a d' o) (hh : haltHolds (⟨b, d⟩, true) a = true) (hd : Drained d) :
    Drained d' := by
  cases h with
  | accept hk hr => simp [haltHolds, hasRoom, hk, hr] at hh
  | txAlloc | rxAllocFails | shutTx | downFlush | resetFlush => exact ⟨rfl, hd.hand⟩
  | workStart => exact ⟨hd.tx, rfl⟩
  | @resetStat k st | @resetZero st => cases st <;> exact hd.frame rfl rfl
  | _ => exact hd.frame rfl rfl

theorem DevStep.still (h : DevStep b d a d' o) (hh : haltHolds (⟨b, d⟩, true) a = true) :
    total Obs.queuedLen o = 0 ∧ total Obs.insertedLen o = 0 ∧
      (zeroes d a = false → d'.statTxBytes = d.statTxBytes ∧ d'.statRxBytes = d.statRxBytes) := by
  cases h with
  | wireChunk hw hc => cases hh
  | resetStat => exact ⟨rfl, rfl, fun hz => absurd hz (by simp [zeroes])⟩
  | resetZero hn => exact ⟨rfl, rfl, fun hz => absurd hz (by simp [zeroes, hn])⟩
  | _ => exact ⟨rfl, rfl, fun _ => ⟨rfl, rfl⟩⟩

end

def Resting (x : Sys × Bool) : Prop := x.2 = true → Drained x.1.dev

theorem machine_still {s t : Sys} {a : Act} {o : List Obs} (hm : machine s a = some (t, o))
    (hh : haltHolds (s, true) a = true) (hd : Drained s.dev) :
    Drained t.dev ∧ (⟨true, a, s.dev, t.dev, o⟩ : Passage).Still := by
  obtain ⟨hiFirst, -, hw⟩ | ⟨b, -, -, he, rfl⟩ | ⟨-, hs⟩ := machine_cases hm
  · obtain ⟨hq, hi, hc⟩ := hw.still hd
    exact ⟨hw.drained hd, fun _ => ⟨hq, hi, fun _ => hc⟩⟩
  · rw [he]
    exact ⟨hd, fun _ => ⟨rfl, rfl, fun _ => ⟨rfl, rfl⟩⟩⟩
  · exact ⟨hs.drained hh hd, fun _ => hs.still hh⟩

theorem halts {s t : Sys} {a : Act} {o : List Obs} (hm : machine s a = some (t, o)) (hh : haltHolds (s, false) a = true)
    (hn : nextHalted false s a = true) : Drained t.dev := by
  cases a with
  | notifier =>
    simp only [nextHalted] at hn
    split at hn
    · rename_i pending hpc
      simp only [haltHolds, hpc, Bool.false_or, Bool.not_eq_true'] at hh hn
      simp only [hn, Bool.false_or, Bool.and_eq_true, decide_eq_true_eq, Fifo.isEmpty_iff] at hh
      have ht : t.dev = { s.dev with statDrops := s.dev.statDrops + UInt64.ofNat pending, notifier := .idle } := by
        simp only [machine, stepDev, stepNotifier, hpc, Option.map_some, Option.some.injEq, Prod.mk.injEq] at hm
        rw [← hm.1]
      rw [ht]
      exact ⟨hh.1, hh.2⟩
    · cases hn
  | bus b =>
    cases b with
    | setState state => cases state <;> cases hn
    | draw | seed => cases hn
  | _ => cases hn

theorem Resting.step {x y : Sys × Bool} {a : Act} {e : List Passage} (h : Resting x) (hh : HaltHolds x a)
    (hobs : observed machine halting x a = some (y, e)) : Resting y ∧ ∀ p ∈ e, p.Still := by
  obtain ⟨s, halted⟩ := x
  obtain ⟨o, hm, hn, rfl⟩ := observed_eq_some hobs
  have hn' : y.2 = nextHalted halted s a := hn
  cases halted with
  | false =>
    constructor
    · intro hy
      exact halts hm hh (hn'.symm.trans hy)
    · intro p hp
      rw [List.mem_singleton.mp hp]
      intro hhalted
      cases hhalted
  | true =>
    obtain ⟨hd, hs⟩ := machine_still hm hh (h rfl)
    refine ⟨fun _ => hd, fun p hp => ?_⟩
    rw [List.mem_singleton.mp hp]
    exact hs

theorem halt_on_bus_down {es : List Passage} {x : Sys × Bool}
    (h : Run (observed machine halting) HaltHolds (start, false) es x) : ∀ p ∈ es, p.Still := by
  have hinv : Resting x ∧ ∀ p ∈ es, p.Still := by
    apply h.shown Resting Passage.Still
    · intro hh
      cases hh
    · intro x a y e hi hh hm
      exact hi.step hh hm
  exact hinv.2

theorem halt_on_bus_down_flush : ∃ es x, Run (observed machine halting) HaltHolds (start, false) es x ∧
    x.2 = true ∧ x.1.dev.statDrops = 1 ∧ ∀ p ∈ es, p.Still := by
  obtain ⟨es, x, hrun, hx⟩ := Run.exists_of_exec (M := observed machine halting) (P := HaltHolds)
    (s := (start, false))
    (openPort ++ write [65] ++ busDown ++ [.ttyWrite [66], .writer 0])
    (fun _ x => x.2 = true ∧ x.1.dev.statDrops = 1) (by decide +kernel)
  exact ⟨es, x, hrun, hx.1, hx.2, halt_on_bus_down hrun⟩

theorem wire_write_while_down : ¬ ∀ es x, Run (observed machine halting) Always (start, false) es x →
    ∀ p ∈ es, p.Still := by
  intro hall
  obtain ⟨es, x, hrun, p, hp, hh, hi⟩ := Run.exists_of_exec (M := observed machine halting) (P := Always)
    (s := (start, false)) (openPort ++ openWire ++ busDown ++ [.wireChunk 1 1])
    (fun es _ => ∃ p ∈ es, p.halted = true ∧ total Obs.insertedLen p.obs = 1) (by decide +kernel)
  have h := (hall es x hrun p hp hh).2.1
  rw [hi] at h
  cases h

end VirtRtLab.Uart
