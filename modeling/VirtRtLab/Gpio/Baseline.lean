import VirtRtLab.Gpio.Steps

namespace VirtRtLab.Gpio

open Kernel VirtRtLab.Core Transition

def Act.internal : Act → Bool
  | .timerExpire _ | .workStart _ | .work _ => true
  | _ => false

def Dev.face (d : Dev) (ℓ : Fin LINES) : UInt8 × Bool := ((d.lines ℓ).value, (d.lines ℓ).isOutput)

/-- The next access of `apply_work` draws from the PRNG, or commits a level that an input line does not have. -/
def Dev.moves (d : Dev) (ℓ : Fin LINES) : Bool :=
  match (d.lines ℓ).work with
  | .flip _ _ _ => true
  | .commit gen _ newVal => sameGen (d.lines ℓ).snapGen gen && !(d.lines ℓ).isOutput && newVal ≠ (d.lines ℓ).value
  | _ => false

structure Line.Quiet (line : Line) : Prop where
  timer : line.delayTimer = none
  queued : line.workQueued = false
  work : line.work = .idle

structure Dev.Cleared (d : Dev) : Prop where
  lines : ∀ ℓ, (d.lines ℓ).Quiet
  attrs : d.attrs = .default
  valueChanges : d.statValueChanges = 0
  drops : d.statDrops = 0
  bitflips : d.statBitflips = 0

def Dev.Resetting (d : Dev) : Prop :=
  match d.notifier with
  | .cancelTimer ℓ => ∀ j, j < ℓ → (d.lines j).Quiet
  | .cancelWork ℓ => (∀ j, j < ℓ → (d.lines j).Quiet) ∧ (d.lines ℓ).delayTimer = none
  | .critical => ∀ j, (d.lines j).Quiet
  | .idle => d.Cleared

def NotifierPc.cost : NotifierPc → ℕ
  | .idle => 0
  | .critical => 1
  | .cancelWork ℓ => 2 * (LINES - ℓ)
  | .cancelTimer ℓ => 2 * (LINES - ℓ) + 1

def ApplyPc.cost : ApplyPc → ℕ
  | .idle => 0
  | .commit _ _ _ => 1
  | .flip _ _ _ => 2
  | .enter => 3

structure Stir (s t : Sys) (ℓ : Fin LINES) : Prop where
  awake : ¬(s.dev.lines ℓ).Quiet
  other : ∀ j, j ≠ ℓ → t.dev.lines j = s.dev.lines j
  timer : (s.dev.lines ℓ).delayTimer = none → (t.dev.lines ℓ).delayTimer = none
  notifier : t.dev.notifier = s.dev.notifier
  busState : t.bus.state = s.bus.state

section

variable {b b' : Bus} {d d' : Dev} {ℓ : Fin LINES} {a : Act} {o : List Obs}

theorem ApplyStep.busState {pc pc' : ApplyPc} (h : ApplyStep b d ℓ pc b' d' pc' o) : b'.state = b.state := by
  cases h <;> rfl

theorem ApplyStep.cost {pc pc' : ApplyPc} (h : ApplyStep b d ℓ pc b' d' pc' o) : pc'.cost < pc.cost := by
  cases h <;> simp [ApplyPc.cost]

theorem WorkStep.stir {s t : Sys} (h : WorkStep s.bus s.dev ℓ t.bus t.dev o) : Stir s t ℓ := by
  generalize hb : t.bus = b' at h
  generalize hd : t.dev = d' at h
  cases h with
  | @apply e pc' o ha =>
    obtain ⟨gen, value, hline⟩ := ha.frame.line
    constructor
    · intro hq
      rw [hq.work] at ha
      cases ha
    · intro j hj
      rw [hd, setLine_lines, Function.update_of_ne hj]
      exact ha.frame.other j hj
    · intro ht
      rw [hd, setLine_lines, Function.update_self]
      show (e.lines ℓ).delayTimer = none
      rw [hline]
      exact ht
    · rw [hd]
      exact ha.frame.notifier
    · rw [hb]
      exact ha.busState

theorem internal_stir {s t : Sys} (ha : a.internal = true) (hm : machine s a = some (t, o)) : ∃ ℓ, Stir s t ℓ := by
  obtain ⟨k, hiFirst, rfl, -⟩ | ⟨ℓ, rfl, hw⟩ | ⟨b, rfl, -⟩ | ⟨hb, hd⟩ := machine_cases hm
  · cases ha
  · exact ⟨ℓ, hw.stir⟩
  · cases ha
  · generalize hdev : t.dev = d' at hd
    cases hd with
    | @timerExpire ℓ ht =>
      refine ⟨ℓ, ?_, ?_, ?_, ?_, by rw [hb]⟩
      · intro hq
        simp [hq.timer] at ht
      · intro j hj
        simp [hdev, hj]
      · simp [hdev]
      · rw [hdev]
        rfl
    | @workStart ℓ hqueued hw =>
      refine ⟨ℓ, ?_, ?_, ?_, ?_, by rw [hb]⟩
      · intro hq
        simp [hq.queued] at hqueued
      · intro j hj
        simp [hdev, hj]
      · intro ht
        simp [hdev, ht]
      · rw [hdev]
        rfl
    | refused hr => cases a <;> simp [Act.internal, Act.refusable] at ha hr
    | _ => cases ha

theorem Stir.quiet {s t : Sys} (h : Stir s t ℓ) {j : Fin LINES} (hq : (s.dev.lines j).Quiet) :
    (t.dev.lines j).Quiet := by
  have hj : j ≠ ℓ := by
    rintro rfl
    exact h.awake hq
  rw [h.other j hj]
  exact hq

theorem Stir.resetting {s t : Sys} (h : Stir s t ℓ) (hr : s.dev.Resetting) : t.dev.Resetting := by
  unfold Dev.Resetting at hr ⊢
  rw [h.notifier]
  split at hr
  · exact fun j hj => h.quiet (hr j hj)
  · rename_i k hk
    refine ⟨fun j hj => h.quiet (hr.1 j hj), ?_⟩
    by_cases hkl : k = ℓ
    · subst hkl
      exact h.timer hr.2
    · rw [h.other k hkl]
      exact hr.2
  · exact fun j => h.quiet (hr j)
  · exact absurd (hr.lines ℓ) h.awake

theorem notify_cases {s t : Sys} {event : BusEvent} (hm : machine s (.notify event) = some (t, o)) :
    t.bus = s.bus ∧ DevStep s.dev (.notify event) t.dev o := by
  obtain ⟨k, hiFirst, ha, -⟩ | ⟨ℓ, ha, -⟩ | ⟨b, ha, -⟩ | hd := machine_cases hm
  · cases ha
  · cases ha
  · cases ha
  · exact hd

theorem notifier_cases {s t : Sys} (hm : machine s .notifier = some (t, o)) :
    t.bus = s.bus ∧ DevStep s.dev .notifier t.dev o := by
  obtain ⟨k, hiFirst, ha, -⟩ | ⟨ℓ, ha, -⟩ | ⟨b, ha, -⟩ | hd := machine_cases hm
  · cases ha
  · cases ha
  · cases ha
  · exact hd

theorem DevStep.notify_reset (h : DevStep d (.notify .reset) d' o) : d' = { d with notifier := .cancelTimer 0 } := by
  cases h with
  | reset => rfl
  | refused ha => cases ha

theorem DevStep.notify_other {event : BusEvent} (h : DevStep d (.notify event) d' o) (he : event ≠ .reset) :
    d' = d := by
  cases h with
  | reset => exact absurd rfl he
  | refused => rfl

theorem face_setLine (line : Line) (hv : line.value = (d.lines ℓ).value) (ho : line.isOutput = (d.lines ℓ).isOutput) :
    (d.setLine ℓ line).face = d.face := by
  funext j
  by_cases hj : j = ℓ
  · subst hj
    simp [Dev.face, hv, ho]
  · simp [Dev.face, hj]

theorem ApplyStep.unmoved {pc' : ApplyPc} (h : ApplyStep b d ℓ (d.lines ℓ).work b' d' pc' o) (hd : d.moves ℓ = false) :
    b' = b ∧ d'.face = d.face := by
  generalize hpc : (d.lines ℓ).work = pc at h
  cases h with
  | flip => simp [Dev.moves, hpc] at hd
  | @commit gen snapVal newVal flipped changed hs =>
    simp only [Dev.moves, hpc, hs, Bool.true_and, Bool.and_eq_false_iff, Bool.not_eq_false', decide_eq_false_iff_not,
      ne_eq, not_not] at hd
    refine ⟨rfl, ?_⟩
    apply face_setLine
    · rcases hd with ho | hv
      · simp [ho]
      · simp [hv]
    · rfl
  | stale | plain | gate | giveUp => exact ⟨rfl, rfl⟩

theorem WorkStep.unmoved (h : WorkStep b d ℓ b' d' o) (hd : d.moves ℓ = false) : b' = b ∧ d'.face = d.face := by
  cases h with
  | @apply e pc' o ha =>
    obtain ⟨hb, hf⟩ := ha.unmoved hd
    have hset : (e.setLine ℓ { e.lines ℓ with work := pc' }).face = e.face := face_setLine _ rfl rfl
    exact ⟨hb, hset.trans hf⟩

theorem internal_unmoved {s t : Sys} (ha : a.internal = true) (hd : ∀ ℓ, a = .work ℓ → s.dev.moves ℓ = false)
    (hm : machine s a = some (t, o)) : t.bus = s.bus ∧ t.dev.face = s.dev.face := by
  obtain ⟨k, hiFirst, rfl, -⟩ | ⟨ℓ, rfl, hw⟩ | ⟨b, rfl, -⟩ | ⟨hb, hstep⟩ := machine_cases hm
  · cases ha
  · exact hw.unmoved (hd ℓ rfl)
  · cases ha
  · refine ⟨hb, ?_⟩
    generalize t.dev = d' at hstep
    cases hstep with
    | timerExpire | workStart => exact face_setLine _ rfl rfl
    | refused => rfl
    | _ => cases ha

theorem DevStep.notify_face {event : BusEvent} (h : DevStep d (.notify event) d' o) : d'.face = d.face := by
  cases h <;> rfl

theorem DevStep.notifier_face (h : DevStep d .notifier d' o) : d'.face = d.face := by
  cases h with
  | @cancelTimer ℓ => exact face_setLine (d := d) { d.lines ℓ with delayTimer := none } rfl rfl
  | @cancelWork ℓ => exact face_setLine (d := d) { d.lines ℓ with workQueued := false } rfl rfl
  | critical => rfl
  | refused ha => cases ha

theorem DevStep.resetting (h : DevStep d .notifier d' o) (hr : d.Resetting) :
    d'.Resetting ∧ d'.notifier.cost < d.notifier.cost := by
  unfold Dev.Resetting at hr
  cases h with
  | @cancelTimer ℓ hn =>
    rw [hn] at hr ⊢
    refine ⟨⟨fun j hj => ?_, by simp⟩, by simp [NotifierPc.cost]⟩
    have hne : j ≠ ℓ := Fin.ne_of_lt hj
    simpa [hne] using hr j hj
  | @cancelWork ℓ hn hw =>
    rw [hn] at hr ⊢
    have hquiet (j : Fin LINES) (hj : j ≤ ℓ) : ((d.setLine ℓ { d.lines ℓ with workQueued := false }).lines j).Quiet := by
      by_cases hne : j = ℓ
      · subst hne
        rw [setLine_lines, Function.update_self]
        exact ⟨hr.2, rfl, hw⟩
      · have hlt : j < ℓ := Fin.lt_def.mpr (Nat.lt_of_le_of_ne (Fin.le_def.mp hj) (fun h => hne (Fin.ext h)))
        simpa [hne] using hr.1 j hlt
    unfold NotifierPc.next
    split
    · refine ⟨fun j hj => hquiet j ?_, ?_⟩
      · have hlt : j.val < ℓ.val + 1 := hj
        exact Fin.le_def.mpr (by omega)
      · simp only [NotifierPc.cost]
        omega
    · refine ⟨fun j => hquiet j ?_, ?_⟩
      · have hj := j.isLt
        exact Fin.le_def.mpr (by omega)
      · simp only [NotifierPc.cost]
        omega
  | critical hn =>
    rw [hn] at hr ⊢
    refine ⟨⟨fun j => ?_, rfl, rfl, rfl, rfl⟩, by simp [NotifierPc.cost, resetDev]⟩
    exact ⟨(hr j).timer, (hr j).queued, (hr j).work⟩
  | refused ha => cases ha

theorem notifier_enabled (s : Sys) (hn : s.dev.notifier ≠ .idle)
    (hw : ∀ ℓ, s.dev.notifier = .cancelWork ℓ → (s.dev.lines ℓ).work = .idle) :
    ∃ t o, machine s .notifier = some (t, o) := by
  cases hpc : s.dev.notifier with
  | idle => exact absurd hpc hn
  | cancelTimer | critical => simp [machine, stepDev, stepNotifier, hpc]
  | cancelWork ℓ => simp [machine, stepDev, stepNotifier, hpc, hw ℓ hpc]

theorem work_enabled (s : Sys) (hw : (s.dev.lines ℓ).work ≠ .idle) : ∃ t o, machine s (.work ℓ) = some (t, o) := by
  have hsome : ∃ r, stepApply s.bus s.dev ℓ (s.dev.lines ℓ).work = some r := by
    unfold stepApply
    split
    · exact absurd ‹_› hw
    · dsimp only
      repeat' split
      all_goals exact ⟨_, rfl⟩
    · exact ⟨_, rfl⟩
    · split <;> exact ⟨_, rfl⟩
  obtain ⟨r, hr⟩ := hsome
  simp only [machine, stepWork, hr, Option.map_some]
  exact ⟨_, _, rfl⟩

theorem ApplyStep.bus {pc pc' : ApplyPc} (h : ApplyStep b d ℓ pc b' d' pc' o) : b' = b ∨ b' = b.drawn := by
  cases h <;> first | exact .inl rfl | exact .inr rfl

theorem stepInject_bus_cases {k : ℕ} {hiFirst : Bool} (h : stepInject b d k hiFirst = some (b', d', o)) :
    b' = b ∨ b' = b.drawn := by
  unfold stepInject at h
  split at h
  · cases h
  · split at h <;> cases h <;> exact .inl rfl
  · split at h
    · cases h
      exact .inl rfl
    · dsimp only at h
      split at h
      all_goals
        cases h
        exact ite_eq_or_eq ..
  · split at h
    · cases h
    · rename_i hs
      cases h
      exact (stepApply_cases hs).bus
    · rename_i hs
      cases h
      exact (stepApply_cases hs).bus
  all_goals
    cases h
    first | exact .inl rfl | exact .inr rfl

theorem machine_bus {s t : Sys} (ha : ∀ x, a ≠ .bus x) (hm : machine s a = some (t, o)) :
    t.bus = s.bus ∨ t.bus = s.bus.drawn := by
  obtain ⟨k, hiFirst, rfl, -⟩ | ⟨ℓ, -, hw⟩ | ⟨x, hx, -⟩ | ⟨hb, -⟩ := machine_cases hm
  · obtain ⟨⟨b', d', o'⟩, hs, hr⟩ := Option.map_eq_some_iff.mp hm
    cases hr
    exact stepInject_bus_cases hs
  · generalize t.bus = b' at hw ⊢
    generalize t.dev = d' at hw
    cases hw with
    | apply hstep => exact hstep.bus
  · exact absurd hx (ha x)
  · exact .inl hb

theorem machine_busState {s t : Sys} (ha : ∀ x, a ≠ .bus x) (hm : machine s a = some (t, o)) :
    t.bus.state = s.bus.state := by
  rcases machine_bus ha hm with hb | hb
  · rw [hb]
  · rw [hb]
    rfl

theorem work_cost {s t : Sys} (hm : machine s (.work ℓ) = some (t, o)) :
    (t.dev.lines ℓ).work.cost < (s.dev.lines ℓ).work.cost := by
  obtain ⟨k, hiFirst, ha, -⟩ | ⟨ℓ', ha, hw⟩ | ⟨b, ha, -⟩ | ⟨-, hd⟩ := machine_cases hm
  · cases ha
  · cases ha
    generalize t.bus = b' at hw
    generalize t.dev = d' at hw ⊢
    cases hw with
    | apply ha =>
      rw [setLine_lines, Function.update_self]
      exact ha.cost
  · cases ha
  · generalize t.dev = d' at hd
    cases hd with
    | refused ha => cases ha

end

end VirtRtLab.Gpio
