import VirtRtLab.Uart.Baseline
import VirtRtLab.Uart.Stranding

namespace VirtRtLab.Uart

open Kernel VirtRtLab.Core Transition

inductive Teardown where
  | portShutdown | busDown | busReset
  deriving DecidableEq, Repr

def Teardown.call : Teardown → Act
  | .portShutdown => .portShutdown
  | .busDown => .notify .down
  | .busReset => .notify .reset

def Teardown.cancelling : Teardown → PortPc → NotifierPc → Bool
  | .portShutdown, port, _ => port = .shutWork
  | .busDown, _, notifier | .busReset, _, notifier => notifier = .downWork || notifier = .resetWork

def Teardown.returned : Teardown → Dev → Prop
  | .portShutdown, d => d.port = .closed
  | .busDown, d | .busReset, d => d.notifier = .idle

instance (τ : Teardown) (d : Dev) : Decidable (τ.returned d) := by
  cases τ <;> exact inferInstanceAs (Decidable (_ = _))

def Unwritten (_ : Sys) : Act → Prop
  | .ttyWrite _ => False
  | _ => True

instance (s : Sys) (a : Act) : Decidable (Unwritten s a) := by
  cases a <;> first | exact .isTrue trivial | exact .isFalse id

structure Dev.Stopped (d : Dev) : Prop where
  timer : d.txTimer = none
  queued : d.txWorkQueued = false
  work : d.txWork = .idle

/-- Without a further `tty_write`, no run of `tx_work` that is under way or queued finds bytes left at its re-arm
test. -/
def Dev.Drains (d : Dev) : Prop :=
  match d.txWork with
  | .idle => d.txWorkQueued = true → d.txFifo.len ≤ BURST_SZ
  | .entered => d.txFifo.len ≤ BURST_SZ
  | .jitter _ _ | .jitter2 _ _ _ | .arm _ => False
  | _ => d.txFifo.data = []

instance (d : Dev) : Decidable d.Drains := by
  unfold Dev.Drains
  split <;> infer_instance

structure Dev.Quiescing (d : Dev) (τ : Teardown) : Prop where
  writers : d.writers = []
  timer : d.txTimer = none
  drains : d.Drains
  stopped : τ.cancelling d.port d.notifier = false → d.Stopped

section

variable {b b' : Bus} {d d' : Dev} {a : Act} {o : List Obs} {τ : Teardown}

theorem Dev.Drains.frame (h : d.Drains) (hw : d'.txWork = d.txWork)
    (hq : d'.txWorkQueued = true → d.txWorkQueued = true)
    (hf : d'.txFifo = d.txFifo ∨ d'.txFifo.data = []) : d'.Drains := by
  have hlen : d.txFifo.len ≤ BURST_SZ → d'.txFifo.len ≤ BURST_SZ := by
    intro hl
    rcases hf with hf | hf
    · rw [hf]
      exact hl
    · simp [Fifo.len, hf]
  have hdata : d.txFifo.data = [] → d'.txFifo.data = [] := by
    intro hd
    rcases hf with hf | hf
    · rw [hf]
      exact hd
    · exact hf
  unfold Dev.Drains at h ⊢
  rw [hw]
  cases hpc : d.txWork with
  | idle =>
    rw [hpc] at h
    exact fun hd => hlen (h (hq hd))
  | entered =>
    rw [hpc] at h
    exact hlen h
  | jitter | jitter2 | arm =>
    rw [hpc] at h
    exact h.elim
  | _ =>
    rw [hpc] at h
    exact hdata h

theorem WorkStep.drains (h : WorkStep b d b' d' o) (hd : d.Drains) : d'.Drains ∧ d'.txTimer = d.txTimer := by
  unfold Dev.Drains at hd
  cases h with
  | nothing hpc he =>
    refine ⟨fun _ => ?_, rfl⟩
    simp [Fifo.len, front_burst_eq_nil he]
  | dequeue hpc he =>
    rw [hpc] at hd
    exact ⟨List.drop_eq_nil_of_le hd, rfl⟩
  | done hpc he =>
    refine ⟨fun _ => ?_, rfl⟩
    simp [Fifo.len, he]
  | noJitter hpc he | jitter hpc he =>
    rw [hpc] at hd
    exact absurd hd he
  | draw hpc | draw2 hpc | arm hpc =>
    rw [hpc] at hd
    exact hd.elim
  | count hpc | snap hpc | disabled hpc | noDropRate hpc | dropFires hpc | dropSpares hpc | drop hpc | noFlipRate hpc
  | flipFires hpc | flipSpares hpc | flipBit hpc | deliver hpc | deliverPart hpc | overrun hpc =>
    rw [hpc] at hd
    exact ⟨hd, rfl⟩

theorem WorkStep.frame (h : WorkStep b d b' d' o) :
    d.txWork ≠ .idle ∧ d'.writers = d.writers ∧ d'.port = d.port ∧ d'.notifier = d.notifier := by
  cases h with
  | _ hpc => exact ⟨by rw [hpc]; simp, rfl, rfl, rfl⟩

theorem WorkStep.quiescing (h : WorkStep b d b' d' o) (hd : d.Quiescing τ) : d'.Quiescing τ := by
  obtain ⟨hne, hw, hp, hn⟩ := h.frame
  obtain ⟨hdr, ht⟩ := h.drains hd.drains
  constructor
  · rw [hw, hd.writers]
  · rw [ht, hd.timer]
  · exact hdr
  · intro hc
    rw [hp, hn] at hc
    exact absurd (hd.stopped hc).work hne

theorem Dev.Quiescing.frame (h : d.Quiescing τ) (he : (d'.writers, d'.txTimer, d'.txWorkQueued, d'.txWork) =
    (d.writers, d.txTimer, d.txWorkQueued, d.txWork)) (hf : d'.txFifo = d.txFifo ∨ d'.txFifo.data = [])
    (hc : τ.cancelling d'.port d'.notifier = false → τ.cancelling d.port d.notifier = false) : d'.Quiescing τ := by
  simp only [Prod.mk.injEq] at he
  obtain ⟨hw, ht, hq, hx⟩ := he
  constructor
  · rw [hw, h.writers]
  · rw [ht, h.timer]
  · exact h.drains.frame hx (by rw [hq]; exact id) hf
  · intro hd
    have hs := h.stopped (hc hd)
    exact ⟨ht.trans hs.timer, hq.trans hs.queued, hx.trans hs.work⟩

theorem DevStep.quiescing (h : DevStep b d a d' o) (hd : d.Quiescing τ) (ha : ∀ buf, a ≠ .ttyWrite buf) :
    d'.Quiescing τ := by
  have hw := hd.writers
  cases h with
  | refused => exact hd
  | writeCall => exact absurd rfl (ha _)
  | writeUp hk | writeDown hk | writeEnabled hk | writeDisabled hk | writeFull hk | accept hk | writeArm hk =>
    simp [hw] at hk
  | timerExpire ht => simp [hd.timer] at ht
  | workStart hq hx =>
    have hdr := hd.drains
    simp only [Dev.Drains, hx] at hdr
    refine ⟨hw, hd.timer, hdr hq, fun hc => ?_⟩
    rw [(hd.stopped hc).queued] at hq
    cases hq
  | shutWork hp hx | downWork hp hx | resetWork hp hx =>
    exact ⟨hw, hd.timer, by simp [Dev.Drains, hx], fun _ => ⟨hd.timer, rfl, hx⟩⟩
  | portShutdown hp => exact hd.frame (by simp [hd.timer]) (.inl rfl) (by cases τ <;> simp [Teardown.cancelling])
  | down hn | reset hn => exact hd.frame (by simp [hd.timer]) (.inl rfl) (by cases τ <;> simp [Teardown.cancelling])
  | portActivate hp | txAllocFails hp | rxAlloc hp | portActive hp | shutLen hp | shutCount hp | shutRx hp =>
    exact hd.frame rfl (.inl rfl) (by cases τ <;> simp [Teardown.cancelling, hp])
  | txAlloc hp | rxAllocFails hp | shutTx hp =>
    exact hd.frame rfl (.inr rfl) (by cases τ <;> simp [Teardown.cancelling, hp])
  | downCount hn | resetAttrs hn | resetWire hn =>
    exact hd.frame rfl (.inl rfl) (by cases τ <;> simp [Teardown.cancelling, hn])
  | downFlush hn | resetFlush hn => exact hd.frame rfl (.inr rfl) (by cases τ <;> simp [Teardown.cancelling, hn])
  | @resetZero st rest hn =>
    cases st <;> exact hd.frame rfl (.inl rfl) (by cases τ <;> simp [Teardown.cancelling, Dev.zeroStat, hn])
  | @resetStat k st => cases st <;> exact hd.frame rfl (.inl rfl) (fun hc => hc)
  | _ => exact hd.frame rfl (.inl rfl) (fun hc => hc)

theorem machine_quiescing {s t : Sys} (hs : s.dev.Quiescing τ) (hu : Unwritten s a) (hm : machine s a = some (t, o)) :
    t.dev.Quiescing τ := by
  obtain ⟨hiFirst, -, hw⟩ | ⟨b, -, -, hd, -⟩ | ⟨-, hd⟩ := machine_cases hm
  · exact hw.quiescing hs
  · rw [hd]
    exact hs
  · apply hd.quiescing hs
    rintro buf rfl
    exact hu

def Teardown.begun : Teardown → Dev → Dev
  | .portShutdown, d => { d with txTimer := none, port := .shutWork }
  | .busDown, d => { d with txTimer := none, notifier := .downWork }
  | .busReset, d => { d with txTimer := none, notifier := .resetWork }

theorem call_cases {s t : Sys} (hm : machine s τ.call = some (t, o)) : t.dev = τ.begun s.dev := by
  obtain ⟨hiFirst, ha, -⟩ | ⟨b, ha, -⟩ | ⟨-, hd⟩ := machine_cases hm
  · cases τ <;> cases ha
  · cases τ <;> cases ha
  · generalize t.dev = d' at hd ⊢
    cases τ with
    | portShutdown | busDown | busReset =>
      simp only [Teardown.call] at hd
      cases hd with
      | refused hr => cases hr
      | _ => rfl

theorem begun_cancelling (τ : Teardown) (d : Dev) : τ.cancelling (τ.begun d).port (τ.begun d).notifier = true := by
  cases τ <;> rfl

theorem begun_quiescing (hw : d.writers = []) (hd : d.Drains) : (τ.begun d).Quiescing τ := by
  have hdr : (τ.begun d).Drains := by cases τ <;> exact hd
  have hc := begun_cancelling τ d
  constructor
  · cases τ <;> exact hw
  · cases τ <;> rfl
  · exact hdr
  · intro hf
    rw [hf] at hc
    cases hc

theorem returned_not_cancelling (hr : τ.returned d) : τ.cancelling d.port d.notifier = false := by
  cases τ <;> simp only [Teardown.returned] at hr <;> simp [Teardown.cancelling, hr]

def Dev.Rearms (d : Dev) : Prop :=
  match d.txWork with
  | .idle => d.txTimer.isSome = true
  | .entered => BURST_SZ < d.txFifo.len
  | .jitter _ _ | .jitter2 _ _ _ | .arm _ => True
  | _ => d.txFifo.data ≠ []

theorem WorkStep.rearms (h : WorkStep b d b' d' o) (hd : d.Rearms) : d'.Rearms := by
  unfold Dev.Rearms at hd
  cases h with
  | nothing hpc he =>
    rw [hpc] at hd
    simp [Fifo.len, front_burst_eq_nil he] at hd
  | dequeue hpc he =>
    rw [hpc] at hd
    intro hnil
    exact absurd (List.drop_eq_nil_iff.mp hnil) (Nat.not_le.mpr hd)
  | done hpc he =>
    rw [hpc] at hd
    exact absurd he hd
  | noJitter | jitter | draw | draw2 => trivial
  | arm => rfl
  | count hpc | snap hpc | disabled hpc | noDropRate hpc | dropFires hpc | dropSpares hpc | drop hpc | noFlipRate hpc
  | flipFires hpc | flipSpares hpc | flipBit hpc | deliver hpc | deliverPart hpc | overrun hpc =>
    rw [hpc] at hd
    exact hd

structure Dev.Rearming (d : Dev) (τ : Teardown) : Prop where
  rearms : d.Rearms
  cancelling : τ.cancelling d.port d.notifier = true

theorem rearming_run {s : Sys} (h : s.dev.Rearming τ) :
    ∃ os t, Run machine Unwritten s os t ∧ t.dev.Rearming τ ∧ t.dev.txWork = .idle := by
  apply Run.exists_done (fun s : Sys => s.dev.Rearming τ) (fun s => s.dev.Rearming τ ∧ s.dev.txWork = .idle)
    (fun s => s.dev.txWork.toGo) h
  intro u hu hne
  have hrun : u.dev.txWork ≠ .idle := fun hi => hne ⟨hu, hi⟩
  obtain ⟨t, o, hm⟩ := work_enabled hrun
  obtain ⟨hiFirst, -, hw⟩ | ⟨b, ha, -⟩ | ⟨-, hd⟩ := machine_cases hm
  · obtain ⟨-, -, hp, hn⟩ := hw.frame
    refine ⟨.work true, t, o, trivial, hm, ⟨hw.rearms hu.rearms, ?_⟩, hw.toGo⟩
    rw [hp, hn]
    exact hu.cancelling
  · cases ha
  · exact absurd hd DevStep.not_work

def Teardown.next : Teardown → Act
  | .portShutdown => .port true
  | .busDown | .busReset => .notifier

def Teardown.toGo : Teardown → Dev → ℕ
  | .portShutdown, d =>
    match d.port with
    | .shutWork => 5
    | .shutLen => 4
    | .shutCount _ => 3
    | .shutTx _ => 2
    | .shutRx => 1
    | _ => 0
  | .busDown, d | .busReset, d => d.notifier.cost

structure Dev.Armed (d : Dev) (τ : Teardown) : Prop where
  timer : d.txTimer.isSome = true
  work : d.txWork = .idle
  ends : τ.toGo d = 0 → τ.returned d

theorem next_enabled {s : Sys} (h : s.dev.Armed τ) (hne : ¬ τ.returned s.dev) :
    ∃ t o, machine s τ.next = some (t, o) := by
  have hgo : τ.toGo s.dev ≠ 0 := fun h0 => hne (h.ends h0)
  cases τ with
  | portShutdown =>
    cases hp : s.dev.port with
    | shutWork | shutLen | shutCount | shutTx | shutRx =>
      simp [machine, Teardown.next, stepDev, stepPort, hp, h.work]
    | closed | sized | txAlloc | allocated | opened => simp [Teardown.toGo, hp] at hgo
  | busDown | busReset =>
    cases hn : s.dev.notifier with
    | idle => exact absurd hn hne
    | resetStats rest => cases rest <;> simp [machine, Teardown.next, stepDev, stepNotifier, hn]
    | _ => simp [machine, Teardown.next, stepDev, stepNotifier, hn, h.work]

theorem Dev.Armed.next {s : Sys} (h : s.dev.Armed τ) (hne : ¬ τ.returned s.dev) :
    ∃ t o, machine s τ.next = some (t, o) ∧ t.dev.Armed τ ∧ τ.toGo t.dev < τ.toGo s.dev := by
  obtain ⟨t, o, hm⟩ := next_enabled h hne
  refine ⟨t, o, hm, ?_⟩
  obtain ⟨hiFirst, ha, -⟩ | ⟨b, ha, -⟩ | ⟨-, hd⟩ := machine_cases hm
  · cases τ <;> cases ha
  · cases τ <;> cases ha
  · generalize t.dev = d' at hd ⊢
    cases τ with
    | portShutdown =>
      simp only [Teardown.next] at hd
      cases hd with
      | refused hr => cases hr
      | txAlloc hp | rxAlloc hp | portActive hp =>
        exact absurd (h.ends (by simp [Teardown.toGo, hp])) hne
      | shutWork hp | shutLen hp | shutCount hp | shutTx hp | shutRx hp =>
        exact ⟨⟨h.timer, h.work, by simp [Teardown.toGo, Teardown.returned]⟩, by simp [Teardown.toGo, hp]⟩
    | busDown | busReset =>
      simp only [Teardown.next] at hd
      cases hd with
      | refused hr => cases hr
      | @resetZero st rest hn =>
        cases st <;> exact ⟨⟨h.timer, h.work, by simp [Teardown.toGo, NotifierPc.cost]⟩,
          by simp [Teardown.toGo, NotifierPc.cost, hn]⟩
      | downWork hn | downFlush hn | downCount hn | resetWork hn | resetFlush hn | resetAttrs hn | resetWire hn =>
        exact ⟨⟨h.timer, h.work, by simp [Teardown.toGo, Teardown.returned, NotifierPc.cost]⟩,
          by simp [Teardown.toGo, NotifierPc.cost, hn]⟩

theorem armed_run {s : Sys} (h : s.dev.Armed τ) :
    ∃ os t, Run machine Unwritten s os t ∧ t.dev.Armed τ ∧ τ.returned t.dev := by
  apply Run.exists_done (fun s : Sys => s.dev.Armed τ) (fun s => s.dev.Armed τ ∧ τ.returned s.dev)
    (fun s => τ.toGo s.dev) h
  intro u hu hne
  obtain ⟨t, o, hm, ht, hlt⟩ := hu.next (fun hr => hne ⟨hu, hr⟩)
  exact ⟨τ.next, t, o, by cases τ <;> trivial, hm, ht, hlt⟩

theorem armed_of_rearming (h : d.Rearming τ) (hw : d.txWork = .idle) : d.Armed τ := by
  have hr := h.rearms
  have hc := h.cancelling
  simp only [Dev.Rearms, hw] at hr
  refine ⟨hr, hw, fun h0 => ?_⟩
  cases τ with
  | portShutdown =>
    simp only [Teardown.cancelling, decide_eq_true_eq] at hc
    simp [Teardown.toGo, hc] at h0
  | busDown | busReset =>
    simp only [Teardown.cancelling, Bool.or_eq_true, decide_eq_true_eq] at hc
    rcases hc with hc | hc <;> simp [Teardown.toGo, NotifierPc.cost, hc] at h0

end

theorem rearming_of_not_drains {s : Sys} {τ : Teardown} (hc : τ.cancelling s.dev.port s.dev.notifier = true)
    (hd : ¬ s.dev.Drains) : ∃ os t, Run machine Unwritten s os t ∧ t.dev.Rearming τ := by
  unfold Dev.Drains at hd
  cases hw : s.dev.txWork with
  | idle =>
    rw [hw] at hd
    have hq : s.dev.txWorkQueued = true ∧ BURST_SZ < s.dev.txFifo.len := by simpa using hd
    have hm : machine s .workStart = some (⟨s.bus, { s.dev with txWorkQueued := false, txWork := .entered }⟩, []) := by
      simp [machine, stepDev, hq.1, hw]
    have hone : Run machine Unwritten s ([] ++ []) _ := .step .refl (show Unwritten s .workStart from trivial) hm
    exact ⟨_, _, hone, hq.2, hc⟩
  | entered =>
    rw [hw] at hd
    exact ⟨_, s, .refl, by simpa [Dev.Rearms, hw] using hd, hc⟩
  | jitter | jitter2 | arm => exact ⟨_, s, .refl, by simp [Dev.Rearms, hw], hc⟩
  | _ =>
    rw [hw] at hd
    exact ⟨_, s, .refl, by simpa [Dev.Rearms, hw] using hd, hc⟩

theorem begun_drains (τ : Teardown) (d : Dev) : (τ.begun d).Drains ↔ d.Drains := by
  cases τ <;> rfl

/-- When a teardown has returned, the TX engine is at rest in every interleaving exactly if `tx_work` had nothing to
re-arm the timer for. -/
theorem teardown_quiesces {s s₁ : Sys} {τ : Teardown} {o : List Obs} (hm : machine s τ.call = some (s₁, o))
    (hw : s.dev.writers = []) :
    (∀ os t, Run machine Unwritten s₁ os t → τ.returned t.dev → t.dev.Stopped) ↔ s.dev.Drains := by
  have hb := call_cases hm
  constructor
  · intro hall
    by_contra hd
    have hc := begun_cancelling τ s.dev
    rw [← begun_drains τ] at hd
    rw [← hb] at hc hd
    obtain ⟨os₁, t₁, h₁, hr⟩ := rearming_of_not_drains hc hd
    obtain ⟨os₂, t₂, h₂, hr₂, hi⟩ := rearming_run hr
    obtain ⟨os₃, t₃, h₃, ha, hret⟩ := armed_run (armed_of_rearming hr₂ hi)
    have hs := hall _ t₃ ((h₁.trans h₂).trans h₃) hret
    have ht := ha.timer
    rw [hs.timer] at ht
    cases ht
  · intro hd os t hrun hret
    have hq : t.dev.Quiescing τ := by
      apply hrun.invariant (fun t => t.dev.Quiescing τ)
      · rw [hb]
        exact begun_quiescing hw hd
      · intro u a v o hu ha hv
        exact machine_quiescing hu ha hv
    exact hq.stopped (returned_not_cancelling hret)

theorem teardown_quiesces_last_burst : ∃ os s s₁ o, Run machine Always start os s ∧
    machine s Teardown.busReset.call = some (s₁, o) ∧ s.dev.txWork = .entered ∧ s.dev.txFifo.len = 2 ∧
    ∀ os' t, Run machine Unwritten s₁ os' t → t.dev.notifier = .idle → t.dev.Stopped := by
  obtain ⟨os, s, hrun, hw, hpc, hlen, hdr, hc⟩ := Run.exists_of_exec
    (M := machine) (P := Always) (s := start) (openPort ++ write [65, 66] ++ [.timerExpire, .workStart])
    (fun _ s => s.dev.writers = [] ∧ s.dev.txWork = .entered ∧ s.dev.txFifo.len = 2 ∧ s.dev.Drains ∧
      (machine s Teardown.busReset.call).isSome = true) (by decide)
  obtain ⟨⟨s₁, o⟩, hm⟩ := Option.isSome_iff_exists.mp hc
  exact ⟨os, s, s₁, o, hrun, hm, hpc, hlen, (teardown_quiesces hm hw).mpr hdr⟩

theorem timer_armed_after_shutdown : ¬ ∀ os s s₁ o os' t, Run machine Always start os s → s.dev.writers = [] →
    machine s Teardown.portShutdown.call = some (s₁, o) → Run machine Unwritten s₁ os' t →
    Teardown.portShutdown.returned t.dev → t.dev.Stopped := by
  -- `tx_work` has taken 64 of 65 bytes when the port is shut down, and goes on to its end before `cancel_work_sync`
  intro h
  obtain ⟨os, s, hrun, hw, hx⟩ := Run.exists_of_exec
    (M := machine) (P := Always) (s := start)
    (openPort ++ write (List.replicate 65 65) ++ [.timerExpire, .workStart, .work true])
    (fun _ s => s.dev.writers = [] ∧ ((machine s Teardown.portShutdown.call).any (fun r =>
      (exec machine Unwritten r.1 (List.replicate 7 (.work true) ++ List.replicate 5 (.port true))).any (fun r' =>
        Teardown.portShutdown.returned r'.1.dev ∧ r'.1.dev.txTimer.isSome = true))) = true) (by decide)
  obtain ⟨⟨s₁, o⟩, hm, hx⟩ := (Option.any_eq_true _ _).mp hx
  obtain ⟨os', t, hrun', ht⟩ := Run.of_exec_any hx
  obtain ⟨hret, harmed⟩ := of_decide_eq_true ht
  have hs := h os s s₁ o os' t hrun hw hm hrun' hret
  rw [hs.timer] at harmed
  cases harmed

end VirtRtLab.Uart
