import VirtRtLab.Uart.Steps

namespace VirtRtLab.Uart

open Kernel VirtRtLab.Core Transition

def Act.internal : Act → Bool
  | .timerExpire | .workStart | .work _ => true
  | _ => false

def Dev.stat (d : Dev) : Stat → UInt64
  | .txBytes => d.statTxBytes
  | .rxBytes => d.statRxBytes
  | .overruns => d.statOverruns
  | .drops => d.statDrops

def Dev.settings (d : Dev) : Termios × UInt32 × UInt32 := (d.termios, d.txBufSz, d.rxBufSz)

def Dev.still (d : Dev) : Dev := { d with txTimer := none, txWorkQueued := false, txWork := .idle }

def Dev.kept (d : Dev) : Dev :=
  { d with
    attrs := .default
    txFifo := d.txFifo.reset
    statTxBytes := 0
    statRxBytes := 0
    statOverruns := 0
    statDrops := 0 }

/-- With `tx_fifo` empty, `tx_work` is not going to draw, count or deliver anything any more. -/
def TxPc.settled : TxPc → Bool
  | .idle | .entered | .rearm _ _ | .arm _ => true
  | _ => false

structure Dev.Quiet (d : Dev) : Prop where
  empty : d.txFifo.data = []
  work : d.txWork.settled = true

structure Dev.Cleared (d : Dev) (rest : List Stat) : Prop where
  quiet : d.Quiet
  attrs : d.attrs = .default
  stats : ∀ st, st ∉ rest → d.stat st = 0

def Dev.Resetting (d : Dev) : Prop :=
  match d.notifier with
  | .resetWork | .resetFlush => True
  | .resetAttrs => d.Quiet
  | .resetStats rest => d.Cleared rest
  | .idle => d.Cleared []
  | .downWork | .downFlush | .downCount _ => False

def NotifierPc.cost : NotifierPc → ℕ
  | .idle => 0
  | .resetStats rest => rest.length + 1
  | .downCount _ | .resetAttrs => 6
  | .downFlush | .resetFlush => 7
  | .downWork | .resetWork => 8

section

variable {b b' : Bus} {d d' : Dev} {a : Act} {o : List Obs}

theorem WorkStep.settings (h : WorkStep b d b' d' o) : d'.settings = d.settings := by
  cases h <;> rfl

theorem WorkStep.notifier (h : WorkStep b d b' d' o) : d'.notifier = d.notifier := by
  cases h <;> rfl

theorem WorkStep.busState (h : WorkStep b d b' d' o) : b'.state = b.state := by
  cases h <;> rfl

theorem WorkStep.quiet (h : WorkStep b d b' d' o) (hq : d.Quiet) : b' = b ∧ d'.still = d.still ∧ d'.Quiet := by
  have hs := hq.work
  cases h with
  | nothing | done | arm => exact ⟨rfl, rfl, hq.empty, rfl⟩
  | dequeue hpc he => simp [Fifo.front, hq.empty] at he
  | noJitter hpc he | jitter hpc he => exact absurd hq.empty he
  | count hpc | snap hpc | disabled hpc | noDropRate hpc | dropFires hpc | dropSpares hpc | drop hpc | noFlipRate hpc
  | flipFires hpc | flipSpares hpc | flipBit hpc | deliver hpc | deliverPart hpc | overrun hpc | draw hpc
  | draw2 hpc =>
    rw [hpc] at hs
    cases hs

theorem internal_cases {s t : Sys} (ha : a.internal = true) (hm : machine s a = some (t, o)) :
    (t.bus = s.bus ∧ t.dev = { s.dev with txTimer := none, txWorkQueued := true }) ∨
    (t.bus = s.bus ∧ t.dev = { s.dev with txWorkQueued := false, txWork := .entered }) ∨
    WorkStep s.bus s.dev t.bus t.dev o := by
  obtain ⟨hiFirst, rfl, hw⟩ | ⟨b, rfl, -⟩ | ⟨hb, hd⟩ := machine_cases hm
  · exact .inr (.inr hw)
  · cases ha
  · cases a with
    | timerExpire =>
      generalize t.dev = d' at hd
      cases hd with
      | timerExpire => exact .inl ⟨hb, rfl⟩
      | refused hr => cases hr
    | workStart =>
      generalize t.dev = d' at hd
      cases hd with
      | workStart => exact .inr (.inl ⟨hb, rfl⟩)
      | refused hr => cases hr
    | work => exact absurd hd DevStep.not_work
    | _ => cases ha

theorem internal_frame {s t : Sys} (ha : a.internal = true) (hm : machine s a = some (t, o)) :
    t.dev.notifier = s.dev.notifier ∧ t.dev.settings = s.dev.settings ∧ t.bus.state = s.bus.state := by
  rcases internal_cases ha hm with ⟨hb, hd⟩ | ⟨hb, hd⟩ | hw
  · rw [hb, hd]
    exact ⟨rfl, rfl, rfl⟩
  · rw [hb, hd]
    exact ⟨rfl, rfl, rfl⟩
  · exact ⟨hw.notifier, hw.settings, hw.busState⟩

theorem internal_spared {s t : Sys} (ha : a.internal = true)
    (hd : ∀ hiFirst, a = .work hiFirst → s.dev.txWork.draws = 0) (hm : machine s a = some (t, o)) :
    t.bus = s.bus := by
  obtain ⟨hiFirst, rfl, hw⟩ | ⟨b, rfl, -⟩ | ⟨hb, -⟩ := machine_cases hm
  · rw [hw.drawn, hd hiFirst rfl, Function.iterate_zero_apply]
  · cases ha
  · exact hb

theorem internal_quiet {s t : Sys} (ha : a.internal = true) (hm : machine s a = some (t, o)) (hq : s.dev.Quiet) :
    t.bus = s.bus ∧ t.dev.still = s.dev.still ∧ t.dev.Quiet := by
  rcases internal_cases ha hm with ⟨hb, hd⟩ | ⟨hb, hd⟩ | hw
  · rw [hd]
    exact ⟨hb, rfl, hq.empty, hq.work⟩
  · rw [hd]
    exact ⟨hb, rfl, hq.empty, rfl⟩
  · exact hw.quiet hq

theorem still_attrs (h : d'.still = d.still) : d'.attrs = d.attrs := by
  show d'.still.attrs = d.still.attrs
  rw [h]

theorem still_stat (h : d'.still = d.still) (st : Stat) : d'.stat st = d.stat st := by
  have hstill (e : Dev) : e.still.stat st = e.stat st := by cases st <;> rfl
  rw [← hstill d', h, hstill d]

theorem Dev.Cleared.still {rest : List Stat} (h : d.Cleared rest) (hs : d'.still = d.still) (hq : d'.Quiet) :
    d'.Cleared rest := by
  constructor
  · exact hq
  · rw [still_attrs hs, h.attrs]
  · intro st hst
    rw [still_stat hs, h.stats st hst]

theorem Dev.Cleared.kept (h : d.Cleared []) : d.kept = d := by
  have hfifo : d.txFifo.reset = d.txFifo := Fifo.reset_of_empty h.quiet.empty
  have hstat (st : Stat) : d.stat st = 0 := h.stats st List.not_mem_nil
  have hattrs := h.attrs
  have htx : d.statTxBytes = 0 := hstat .txBytes
  have hrx : d.statRxBytes = 0 := hstat .rxBytes
  have hover : d.statOverruns = 0 := hstat .overruns
  have hdrops : d.statDrops = 0 := hstat .drops
  rw [Dev.kept, hfifo, ← hattrs]
  cases d
  cases htx
  cases hrx
  cases hover
  cases hdrops
  rfl

theorem internal_cleared {s t : Sys} {rest : List Stat} (ha : a.internal = true) (hm : machine s a = some (t, o))
    (h : s.dev.Cleared rest) : t.dev.Cleared rest := by
  obtain ⟨-, hs, hq⟩ := internal_quiet ha hm h.quiet
  exact h.still hs hq

theorem internal_resetting {s t : Sys} (ha : a.internal = true) (hm : machine s a = some (t, o))
    (h : s.dev.Resetting) : t.dev.Resetting := by
  have hn := (internal_frame ha hm).1
  unfold Dev.Resetting at h ⊢
  rw [hn]
  split at h
  · trivial
  · trivial
  · exact (internal_quiet ha hm h).2.2
  · exact internal_cleared ha hm h
  · exact internal_cleared ha hm h
  · exact h
  · exact h
  · exact h

theorem notify_cases {s t : Sys} {event : BusEvent} (hm : machine s (.notify event) = some (t, o)) :
    t.bus = s.bus ∧ DevStep s.bus s.dev (.notify event) t.dev o := by
  obtain ⟨hiFirst, ha, -⟩ | ⟨b, ha, -⟩ | hd := machine_cases hm
  · cases ha
  · cases ha
  · exact hd

theorem notifier_cases {s t : Sys} (hm : machine s .notifier = some (t, o)) :
    t.bus = s.bus ∧ DevStep s.bus s.dev .notifier t.dev o := by
  obtain ⟨hiFirst, ha, -⟩ | ⟨b, ha, -⟩ | hd := machine_cases hm
  · cases ha
  · cases ha
  · exact hd

theorem DevStep.notify_settings {event : BusEvent} (h : DevStep b d (.notify event) d' o) :
    d'.settings = d.settings := by
  cases h <;> rfl

theorem DevStep.notifier_settings (h : DevStep b d .notifier d' o) : d'.settings = d.settings := by
  cases h with
  | @resetZero st => cases st <;> rfl
  | _ => rfl

theorem DevStep.notify_reset (h : DevStep b d (.notify .reset) d' o) :
    d' = { d with txTimer := none, notifier := .resetWork } := by
  cases h with
  | reset => rfl
  | refused ha => cases ha

theorem DevStep.notify_up (h : DevStep b d (.notify .up) d' o) : d' = d := by
  cases h
  rfl

theorem zeroStat_stat (d : Dev) (st st' : Stat) : (d.zeroStat st).stat st' = if st' = st then 0 else d.stat st' := by
  cases st <;> cases st' <;> rfl

theorem Dev.Cleared.zero {st : Stat} {rest : List Stat} {pc : NotifierPc} (h : d.Cleared (st :: rest)) :
    ({ d.zeroStat st with notifier := pc } : Dev).Cleared rest := by
  have hsame : (d.zeroStat st).txFifo = d.txFifo ∧ (d.zeroStat st).txWork = d.txWork ∧
      (d.zeroStat st).attrs = d.attrs := by
    cases st <;> exact ⟨rfl, rfl, rfl⟩
  obtain ⟨hfifo, hwork, hattrs⟩ := hsame
  constructor
  · constructor
    · show (d.zeroStat st).txFifo.data = []
      rw [hfifo, h.quiet.empty]
    · show (d.zeroStat st).txWork.settled = true
      rw [hwork, h.quiet.work]
  · show (d.zeroStat st).attrs = .default
    rw [hattrs, h.attrs]
  · intro st' hst
    show (d.zeroStat st).stat st' = 0
    rw [zeroStat_stat]
    split
    · rfl
    · rename_i hne
      apply h.stats
      simp [hne, hst]

theorem DevStep.resetting (h : DevStep b d .notifier d' o) (hr : d.Resetting)
    (hf : d.notifier = .resetFlush → d.txWork.settled = true) :
    d'.Resetting ∧ d'.notifier.cost < d.notifier.cost := by
  unfold Dev.Resetting at hr
  cases h with
  | downWork hn | downFlush hn | downCount hn =>
    rw [hn] at hr
    cases hr
  | resetWork hn =>
    rw [hn]
    exact ⟨trivial, by simp [NotifierPc.cost]⟩
  | resetFlush hn =>
    rw [hn]
    exact ⟨⟨rfl, hf hn⟩, by simp [NotifierPc.cost]⟩
  | resetAttrs hn =>
    rw [hn] at hr ⊢
    refine ⟨⟨⟨hr.empty, hr.work⟩, rfl, ?_⟩, by simp [NotifierPc.cost]⟩
    intro st hst
    cases st <;> simp at hst
  | @resetZero st rest hn =>
    rw [hn] at hr ⊢
    exact ⟨hr.zero, by simp [NotifierPc.cost]⟩
  | resetWire hn =>
    rw [hn] at hr ⊢
    exact ⟨⟨⟨hr.quiet.empty, hr.quiet.work⟩, hr.attrs, hr.stats⟩, by simp [NotifierPc.cost]⟩
  | refused ha => cases ha

theorem notifier_enabled (s : Sys) (hr : s.dev.Resetting) (hn : s.dev.notifier ≠ .idle)
    (hw : s.dev.notifier = .resetWork → s.dev.txWork = .idle) : ∃ t o, machine s .notifier = some (t, o) := by
  cases hpc : s.dev.notifier with
  | idle => exact absurd hpc hn
  | resetWork => simp [machine, stepDev, stepNotifier, hpc, hw hpc]
  | resetFlush | resetAttrs => simp [machine, stepDev, stepNotifier, hpc]
  | resetStats rest => cases rest <;> simp [machine, stepDev, stepNotifier, hpc]
  | downWork | downFlush | downCount =>
    rw [Dev.Resetting, hpc] at hr
    cases hr

theorem WorkStep.bus (h : WorkStep b d b' d' o) : b' = b ∨ b' = b.drawn := by
  cases h <;> first | exact .inl rfl | exact .inr rfl

theorem machine_bus {s t : Sys} (ha : ∀ x, a ≠ .bus x) (hm : machine s a = some (t, o)) :
    t.bus = s.bus ∨ t.bus = s.bus.drawn := by
  obtain ⟨hiFirst, -, hw⟩ | ⟨x, hx, -⟩ | ⟨hb, -⟩ := machine_cases hm
  · exact hw.bus
  · exact absurd hx (ha x)
  · exact .inl hb

theorem machine_busState {s t : Sys} (ha : ∀ x, a ≠ .bus x) (hm : machine s a = some (t, o)) :
    t.bus.state = s.bus.state := by
  rcases machine_bus ha hm with hb | hb
  · rw [hb]
  · rw [hb]
    rfl

theorem work_toGo {s t : Sys} {hiFirst : Bool} (hm : machine s (.work hiFirst) = some (t, o)) :
    t.dev.txWork.toGo < s.dev.txWork.toGo := by
  obtain ⟨hiFirst, -, hw⟩ | ⟨b, ha, -⟩ | ⟨-, hd⟩ := machine_cases hm
  · exact hw.toGo
  · cases ha
  · exact absurd hd DevStep.not_work

end

end VirtRtLab.Uart
