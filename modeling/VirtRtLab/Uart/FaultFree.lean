import VirtRtLab.Uart.Baseline

namespace VirtRtLab.Uart

open Kernel VirtRtLab.Core Transition

def Act.dataPath : Act → Bool
  | .ttyWrite _ | .writer _ | .timerExpire | .workStart | .work _ => true
  | _ => false

def TxPc.FaultFree : TxPc → Prop
  | .gates _ snap | .drop _ snap | .flip _ snap | .deliver _ snap | .overrun _ _ snap | .rearm _ snap =>
    snap.attrs.FaultFree
  | .flipBit _ _ _ | .jitter _ _ | .jitter2 _ _ _ => False
  | _ => True

def NotifierPc.phase : NotifierPc → NotifierPc
  | .downCount _ => .downCount 0
  | pc => pc

def NotifierPc.next : NotifierPc → NotifierPc
  | .idle => .idle
  | .downWork => .downFlush
  | .downFlush => .downCount 0
  | .downCount _ => .idle
  | .resetWork => .resetFlush
  | .resetFlush => .resetAttrs
  | .resetAttrs => .resetStats [.txBytes, .rxBytes, .overruns, .drops]
  | .resetStats (_ :: rest) => .resetStats rest
  | .resetStats [] => .idle

section

variable {b b' : Bus} {d d' e : Dev} {a : Act} {o : List Obs}

theorem WorkStep.faultFree (h : WorkStep b d b' d' o) (ha : d.attrs.FaultFree) (hw : d.txWork.FaultFree) :
    b' = b ∧ d'.txWork.FaultFree := by
  cases h with
  | nothing | dequeue | count | done | arm => exact ⟨rfl, trivial⟩
  | snap => exact ⟨rfl, ha⟩
  | disabled hpc | noDropRate hpc | drop hpc | noFlipRate hpc | deliver hpc | deliverPart hpc | overrun hpc =>
    rw [hpc] at hw
    exact ⟨rfl, hw⟩
  | noJitter => exact ⟨rfl, trivial⟩
  | dropFires hpc he hr | dropSpares hpc he hr =>
    rw [hpc] at hw
    exact absurd hw.1 hr
  | flipFires hpc hr | flipSpares hpc hr =>
    rw [hpc] at hw
    exact absurd hw.2.1 hr
  | jitter hpc he hj =>
    rw [hpc] at hw
    exact absurd hw.2.2 hj
  | flipBit hpc | draw hpc | draw2 hpc =>
    rw [hpc] at hw
    exact hw.elim

theorem DevStep.faultFree (h : DevStep b d a d' o) (hw : d.txWork.FaultFree) : d'.txWork.FaultFree := by
  cases h with
  | workStart => trivial
  | @resetStat k st | @resetZero st => cases st <;> exact hw
  | _ => exact hw

theorem DevStep.txWork_idle (h : DevStep b d a d' o) (ha : a.dataPath = false) (hw : d.txWork = .idle) :
    d'.txWork = .idle := by
  cases h with
  | workStart => cases ha
  | @resetStat k st | @resetZero st => cases st <;> exact hw
  | _ => exact hw

theorem DevStep.own_notifier (h : DevStep b d a d' o) (hn : a ≠ .notifier) (he : ∀ event, a ≠ .notify event) :
    d'.notifier = d.notifier := by
  cases h with
  | down | reset => exact absurd rfl (he _)
  | downWork | downFlush | downCount | resetWork | resetFlush | resetAttrs | resetZero | resetWire => exact absurd rfl hn
  | @resetStat k st => cases st <;> rfl
  | _ => rfl

theorem phase_idle {pc : NotifierPc} : pc.phase = .idle ↔ pc = .idle := by
  cases pc <;> simp [NotifierPc.phase]

theorem next_phase (pc : NotifierPc) : pc.phase.next = pc.next := by
  cases pc <;> rfl

structure Dev.Beside (d e : Dev) : Prop where
  work : d.txWork.FaultFree
  rest : e.txWork = .idle
  phase : e.notifier.phase = d.notifier.phase

theorem Dev.Beside.full (h : d.Beside e) (ha : d.attrs.FaultFree) (hn : a ≠ .notifier)
    (he : ∀ event, a ≠ .notify event) (hb : ∀ x, a ≠ .bus x) (hm : machine ⟨b, d⟩ a = some (⟨b', d'⟩, o)) :
    b' = b ∧ d'.Beside e := by
  obtain ⟨hiFirst, -, hw⟩ | ⟨x, ha, -⟩ | ⟨hbus, hd⟩ := machine_cases hm
  · obtain ⟨hbus, hfree⟩ := hw.faultFree ha h.work
    exact ⟨hbus, hfree, h.rest, by rw [hw.notifier]; exact h.phase⟩
  · exact absurd ha (hb x)
  · exact ⟨hbus, hd.faultFree h.work, h.rest, by rw [hd.own_notifier hn he]; exact h.phase⟩

theorem Dev.Beside.left {e' : Dev} (h : d.Beside e) (ha : a.dataPath = false) (hn : a ≠ .notifier)
    (he : ∀ event, a ≠ .notify event) (hb : ∀ x, a ≠ .bus x) (hm : machine ⟨b, e⟩ a = some (⟨b', e'⟩, o)) :
    b' = b ∧ d.Beside e' := by
  obtain ⟨hiFirst, rfl, -⟩ | ⟨x, ha, -⟩ | ⟨hbus, hd⟩ := machine_cases hm
  · cases ha
  · exact absurd ha (hb x)
  · exact ⟨hbus, h.work, hd.txWork_idle ha h.rest, by rw [hd.own_notifier hn he]; exact h.phase⟩

theorem Dev.Beside.notify {event : BusEvent} (h : d.Beside e)
    (hm : machine ⟨b, d⟩ (.notify event) = some (⟨b', d'⟩, o)) :
    b' = b ∧ ∃ e' o', machine ⟨b, e⟩ (.notify event) = some (⟨b, e'⟩, o') ∧ d'.Beside e' := by
  have hidle : d.notifier = .idle := by
    cases event <;> simp only [machine, stepDev] at hm <;> split at hm <;> first | assumption | cases hm
  have hidle' : e.notifier = .idle := by
    have hphase := h.phase
    rw [hidle] at hphase
    exact phase_idle.mp hphase
  cases event <;> simp only [machine, stepDev, hidle, hidle', if_true, Option.map_some] at hm ⊢ <;> cases hm
  · exact ⟨rfl, _, _, rfl, h⟩
  · exact ⟨rfl, _, _, rfl, h.work, h.rest, rfl⟩
  · exact ⟨rfl, _, _, rfl, h.work, h.rest, rfl⟩

theorem DevStep.notifier_next (h : DevStep b d .notifier d' o) :
    d'.notifier.phase = d.notifier.next ∧ d.notifier ≠ .idle := by
  cases h with
  | refused ha => cases ha
  | @resetZero st rest hn =>
    rw [hn]
    cases st <;> exact ⟨rfl, by simp⟩
  | downWork hn | downFlush hn | downCount hn | resetWork hn | resetFlush hn | resetAttrs hn | resetWire hn =>
    rw [hn]
    exact ⟨rfl, by simp⟩

theorem notifier_possible (hn : e.notifier ≠ .idle) (hw : e.txWork = .idle) :
    ∃ e' o', machine ⟨b, e⟩ .notifier = some (⟨b, e'⟩, o') := by
  have hsome : ∃ r, stepNotifier e = some r := by
    unfold stepNotifier
    split
    · exact absurd ‹_› hn
    all_goals first | exact ⟨_, rfl⟩ | exact ⟨_, if_pos hw⟩
  obtain ⟨r, hr⟩ := hsome
  exact ⟨r.1, r.2, by simp [machine, stepDev, hr]⟩

/-- The notifier of a device waits for nothing but `tx_work`. -/
theorem Dev.Beside.callback (h : d.Beside e) (hm : machine ⟨b, d⟩ .notifier = some (⟨b', d'⟩, o)) :
    b' = b ∧ ∃ e' o', machine ⟨b, e⟩ .notifier = some (⟨b, e'⟩, o') ∧ d'.Beside e' := by
  obtain ⟨hb, hd⟩ := notifier_cases hm
  obtain ⟨hnext, hbusy⟩ := hd.notifier_next
  have hbusy' : e.notifier ≠ .idle := by
    intro hi
    have hphase := h.phase
    rw [hi] at hphase
    exact hbusy (phase_idle.mp hphase.symm)
  obtain ⟨e', o', hm'⟩ := notifier_possible (b := b) hbusy' h.rest
  have he := (notifier_cases hm').2
  have hsame : e.notifier.next = d.notifier.next := by
    rw [← next_phase, h.phase, next_phase]
  exact ⟨hb, e', o', hm', hd.faultFree h.work, he.txWork_idle rfl h.rest,
    he.notifier_next.1.trans (hsame.trans hnext.symm)⟩

end

end VirtRtLab.Uart
