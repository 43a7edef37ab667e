import VirtRtLab.Gpio.Cells

namespace VirtRtLab.Gpio

open Kernel VirtRtLab.Core Transition

def injecting (ℓ : Fin LINES) : Option Inject → Bool
  | some ⟨_, .apply ℓ' _⟩ | some ⟨_, .jitter ℓ' _ _⟩ | some ⟨_, .jitter2 ℓ' _ _ _⟩ | some ⟨_, .arm ℓ' _⟩ => ℓ' = ℓ
  | _ => false

def Outstanding (d : Dev) (ℓ : Fin LINES) : Prop :=
  (d.lines ℓ).delayTimer.isSome = true ∨ (d.lines ℓ).workQueued = true ∨ (d.lines ℓ).work ≠ .idle ∨
    (∃ inj ∈ d.injects, injecting ℓ inj = true) ∨ d.notifier ≠ .idle

instance (d : Dev) (ℓ : Fin LINES) : Decidable (Outstanding d ℓ) := inferInstanceAs (Decidable (_ ∨ _))

structure Quiescent (d : Dev) (ℓ : Fin LINES) : Prop where
  timer : (d.lines ℓ).delayTimer = none
  queued : (d.lines ℓ).workQueued = false
  work : (d.lines ℓ).work = .idle
  injects : ∀ k, injecting ℓ (d.inject? k) = false
  reset : d.notifier = .idle

theorem quiescent_of_not_outstanding {d : Dev} {ℓ : Fin LINES} (h : ¬Outstanding d ℓ) : Quiescent d ℓ := by
  simp only [Outstanding, not_or, not_exists, not_and, Bool.not_eq_true, ne_eq, not_not] at h
  obtain ⟨htimer, hqueued, hwork, hinjects, hreset⟩ := h
  constructor
  · simpa using htimer
  · exact hqueued
  · exact hwork
  · intro k
    cases hk : d.injects[k]? with
    | none => simp [Dev.inject?, hk, injecting]
    | some inj => simpa [Dev.inject?, hk] using hinjects inj (List.mem_of_getElem? hk)
  · exact hreset

def arming (ℓ : Fin LINES) : Option Inject → Bool
  | some ⟨_, .jitter ℓ' _ _⟩ | some ⟨_, .jitter2 ℓ' _ _ _⟩ | some ⟨_, .arm ℓ' _⟩ => ℓ' = ℓ
  | _ => false

def Carries (d : Dev) (ℓ : Fin LINES) (w : Worker) : Prop :=
  applyOf d ℓ w = .enter ∨ (applyOf d ℓ w).gen? = some (d.lines ℓ).snapGen

inductive Live (d : Dev) (ℓ : Fin LINES) : Prop
  | applied (h : sameGen (d.lines ℓ).snapGen (d.lines ℓ).applyGen = true)
  | resetting (h : d.notifier ≠ .idle)
  | armed (h : (d.lines ℓ).delayTimer.isSome = true)
  | queued (h : (d.lines ℓ).workQueued = true)
  | carried (w : Worker) (h : Carries d ℓ w)
  | arming (k : ℕ) (h : arming ℓ (d.inject? k) = true)

theorem Quiescent.applyOf {d : Dev} {ℓ : Fin LINES} (hq : Quiescent d ℓ) (w : Worker) : applyOf d ℓ w = .idle := by
  cases w with
  | none => exact hq.work
  | some k =>
    have hk := hq.injects k
    simp only [Gpio.applyOf]
    unfold injecting at hk
    unfold applyPc
    split at hk <;> simp_all

theorem Live.sameGen_of_quiescent {d : Dev} {ℓ : Fin LINES} (h : Live d ℓ) (hq : Quiescent d ℓ) :
    sameGen (d.lines ℓ).snapGen (d.lines ℓ).applyGen = true := by
  cases h with
  | applied h => exact h
  | resetting h => exact absurd hq.reset h
  | armed h => simp [hq.timer] at h
  | queued h => simp [hq.queued] at h
  | carried w h =>
    rw [Carries, hq.applyOf] at h
    simp [ApplyPc.gen?] at h
  | arming k h =>
    have hk := hq.injects k
    unfold Gpio.arming at h
    unfold injecting at hk
    split at h <;> simp_all

theorem Live.frame {d d' : Dev} {ℓ : Fin LINES} (h : Live d ℓ) (hs : (d'.lines ℓ).snapGen = (d.lines ℓ).snapGen)
    (ha : (d'.lines ℓ).applyGen = (d.lines ℓ).applyGen) (ht : (d'.lines ℓ).delayTimer = (d.lines ℓ).delayTimer)
    (hq : (d'.lines ℓ).workQueued = (d.lines ℓ).workQueued) (hn : d.notifier ≠ .idle → d'.notifier ≠ .idle)
    (hw : ∀ w, Carries d ℓ w → Carries d' ℓ w)
    (hi : ∀ k, Gpio.arming ℓ (d.inject? k) = true → Gpio.arming ℓ (d'.inject? k) = true) : Live d' ℓ := by
  cases h with
  | applied h => exact .applied (by rw [hs, ha]; exact h)
  | resetting h => exact .resetting (hn h)
  | armed h => exact .armed (by rw [ht]; exact h)
  | queued h => exact .queued (by rw [hq]; exact h)
  | carried w h => exact .carried w (hw w h)
  | arming k h => exact .arming k (hi k h)

theorem carries_congr {d d' : Dev} {ℓ : Fin LINES} (hs : (d'.lines ℓ).snapGen = (d.lines ℓ).snapGen) {w : Worker}
    (hw : applyOf d' ℓ w = applyOf d ℓ w) (h : Carries d ℓ w) : Carries d' ℓ w := by
  unfold Carries
  rw [hw, hs]
  exact h

theorem Live.setInject {d : Dev} {ℓ : Fin LINES} {k : ℕ} {inj : Inject} (h : Live d ℓ) (hk : d.inject? k = some inj)
    (hinj : injecting ℓ (some inj) = false) (inj' : Option Inject) : Live (d.setInject k inj') ℓ := by
  have hpc : applyPc ℓ (some inj) = .idle := by
    unfold injecting at hinj
    unfold applyPc
    split at hinj <;> simp_all
  have harm : Gpio.arming ℓ (some inj) = false := by
    unfold injecting at hinj
    unfold Gpio.arming
    split at hinj <;> simp_all
  apply h.frame
  · rfl
  · rfl
  · rfl
  · rfl
  · exact id
  · intro w hw
    have hne : w ≠ some k := by
      rintro rfl
      simp [Carries, applyOf, hk, hpc, ApplyPc.gen?] at hw
    apply carries_congr (d := d) _ _ hw
    · rfl
    · rw [applyOf_setInject hk, Function.update_of_ne hne]
  · intro j hj
    have hne : j ≠ k := by
      rintro rfl
      simp [hk, harm] at hj
    rw [setInject_inject? d k inj' hk, Function.update_of_ne hne]
    exact hj

theorem Live.setLine {d : Dev} {ℓ ℓ' : Fin LINES} {line : Line} (h : Live d ℓ) (hl : ℓ ≠ ℓ') :
    Live (d.setLine ℓ' line) ℓ := by
  apply h.frame
  · simp [hl]
  · simp [hl]
  · simp [hl]
  · simp [hl]
  · exact id
  · intro w hw
    apply carries_congr (d := d) _ _ hw
    · simp [hl]
    · rw [applyOf_setLine, if_neg hl]
  · exact fun _ hk => hk

theorem ApplyStep.live {b b' : Bus} {d d' e : Dev} {ℓ : Fin LINES} {pc pc' : ApplyPc} {o : List Obs} {w : Worker}
    (h : ApplyStep b d ℓ pc b' d' pc' o) (hlive : Live d ℓ) (hw : applyOf d ℓ w = pc)
    (hs : (e.lines ℓ).snapGen = (d'.lines ℓ).snapGen) (ha : (e.lines ℓ).applyGen = (d'.lines ℓ).applyGen)
    (ht : (e.lines ℓ).delayTimer = (d.lines ℓ).delayTimer) (hq : (e.lines ℓ).workQueued = (d.lines ℓ).workQueued)
    (hn : e.notifier = d.notifier) (he : applyOf e ℓ = Function.update (applyOf d ℓ) w pc')
    (hi : ∀ k, arming ℓ (d.inject? k) = true → arming ℓ (e.inject? k) = true) : Live e ℓ := by
  have hself : applyOf e ℓ w = pc' := by rw [he, Function.update_self]
  have hother (v : Worker) (hv : v ≠ w) : applyOf e ℓ v = applyOf d ℓ v := by rw [he, Function.update_of_ne hv]
  have hframe (hs' : (d'.lines ℓ).snapGen = (d.lines ℓ).snapGen) (ha' : (d'.lines ℓ).applyGen = (d.lines ℓ).applyGen)
      (hc : Carries d ℓ w → Carries e ℓ w) : Live e ℓ := by
    apply hlive.frame (hs.trans hs') (ha.trans ha') ht hq
    · rw [hn]
      exact id
    · intro v hv
      by_cases hvw : v = w
      · subst hvw
        exact hc hv
      · exact carries_congr (hs.trans hs') (hother v hvw) hv
    · exact hi
  cases h with
  | stale hg =>
    apply Live.applied
    rw [hs, ha]
    exact hg
  | plain hg hp | gate hg hp =>
    apply Live.carried w
    right
    rw [hself, hs]
    rfl
  | flip hnew =>
    apply hframe rfl rfl
    intro hc
    right
    rw [hself, hs]
    simpa [Carries, hw, ApplyPc.gen?] using hc
  | giveUp hg =>
    apply hframe rfl rfl
    intro hc
    have hgen := sameGen_eq_false.mp hg
    simp only [Carries, hw, ApplyPc.gen?, reduceCtorEq, Option.some.injEq, false_or] at hc
    rw [hc] at hgen
    exact absurd rfl hgen
  | commit hg hf hc =>
    apply Live.applied
    rw [hs, ha]
    simpa [commitLine] using hg

theorem ApplyStep.live_other {b b' : Bus} {d d' : Dev} {ℓ ℓ' : Fin LINES} {pc pc' : ApplyPc} {o : List Obs}
    (h : ApplyStep b d ℓ pc b' d' pc' o) (hl : ℓ' ≠ ℓ) (hlive : Live d ℓ') : Live d' ℓ' := by
  have hline := h.frame.other ℓ' hl
  apply hlive.frame
  · rw [hline]
  · rw [hline]
  · rw [hline]
  · rw [hline]
  · rw [h.frame.notifier]
    exact id
  · intro w hw
    apply carries_congr (d := d) _ _ hw
    · rw [hline]
    · rw [h.frame.applyOf]
  · rw [h.frame.inject?]
    exact fun _ hk => hk

theorem ApplyStep.live_inject {b b' : Bus} {d d' : Dev} {ℓ ℓ' : Fin LINES} {k count : ℕ} {pc pc' : ApplyPc}
    {o : List Obs} {inj' : Option Inject} (h : ApplyStep b d ℓ pc b' d' pc' o) (hlive : Live d ℓ')
    (hk : d.inject? k = some ⟨count, .apply ℓ pc⟩) (hpc : applyPc ℓ inj' = pc') : Live (d'.setInject k inj') ℓ' := by
  have hk' : d'.inject? k = some ⟨count, .apply ℓ pc⟩ := by rw [h.frame.inject?, hk]
  by_cases hl : ℓ' = ℓ
  · subst hl
    obtain ⟨gen, value, hline⟩ := h.frame.line
    have hset := applyOf_setInject hk' inj' ℓ'
    rw [h.frame.applyOf, hpc] at hset
    have hw : applyOf d ℓ' (some k) = pc := by simp [applyOf, hk, applyPc]
    apply h.live (e := d'.setInject k inj') hlive hw rfl rfl (by simp [hline]) (by simp [hline])
      (by simp [h.frame.notifier]) hset
    intro j hj
    have hne : j ≠ k := by
      rintro rfl
      simp [hk, arming] at hj
    rw [setInject_inject? _ _ _ hk', Function.update_of_ne hne, h.frame.inject?]
    exact hj
  · exact (h.live_other hl hlive).setInject hk' (by simp [injecting, Ne.symm hl]) _

theorem dispatch_live {d : Dev} {ℓ : Fin LINES} {k count : ℕ} {latencyNs jitterNs : UInt64}
    (hk : d.inject? k = some ⟨count, dispatch ℓ latencyNs jitterNs⟩) : Live d ℓ := by
  unfold dispatch at hk
  split at hk
  · apply Live.carried (some k)
    left
    simp [applyOf, hk, applyPc]
  · split at hk
    · apply Live.arming k
      simp [hk, arming]
    · apply Live.arming k
      simp [hk, arming]

theorem InjectStep.live {b b' : Bus} {d d' : Dev} {k : ℕ} {o : List Obs} (h : InjectStep b d k b' d' o)
    {ℓ : Fin LINES} (hlive : Live d ℓ) : Live d' ℓ := by
  cases h with
  | busUp hk | busDown hk | disabled hk => exact hlive.setInject hk rfl _
  | @drop count ℓ₀ val b' hk he =>
    have hlive' : Live { d with statDrops := d.statDrops + 1 } ℓ := by
      apply hlive.frame
      · rfl
      · rfl
      · rfl
      · rfl
      · exact id
      · exact fun w hw => hw
      · exact fun k hk => hk
    exact hlive'.setInject hk rfl _
  | @snapshot count ℓ₀ val b' hk he =>
    by_cases hl : ℓ = ℓ₀
    · subst hl
      have hk' : (takeSnapshot d ℓ val).inject? k = some ⟨count, .gated ℓ val⟩ := hk
      apply dispatch_live
      rw [setInject_inject? _ _ _ hk', Function.update_self]
    · have hlive' : Live (takeSnapshot d ℓ₀ val) ℓ := hlive.setLine hl
      exact hlive'.setInject hk rfl _
  | @apply count ℓ₀ pc b' e pc' o hk ha hpc => exact ha.live_inject hlive hk (by simp [applyPc])
  | @applied count ℓ₀ pc b' e o hk ha => exact ha.live_inject hlive hk rfl
  | @draw count ℓ₀ latencyNs jitterNs hk =>
    by_cases hl : ℓ = ℓ₀
    · subst hl
      apply Live.arming k
      rw [setInject_inject? _ _ _ hk, Function.update_self]
      simp [arming]
    · exact hlive.setInject hk (by simp [injecting, Ne.symm hl]) _
  | @draw2 count ℓ₀ latencyNs jitterNs first delayNs hk =>
    by_cases hl : ℓ = ℓ₀
    · subst hl
      apply Live.arming k
      rw [setInject_inject? _ _ _ hk, Function.update_self]
      simp [arming]
    · exact hlive.setInject hk (by simp [injecting, Ne.symm hl]) _
  | @arm count ℓ₀ delayNs hk =>
    by_cases hl : ℓ = ℓ₀
    · subst hl
      apply Live.armed
      simp
    · have hlive' : Live (d.setLine ℓ₀ { d.lines ℓ₀ with delayTimer := some delayNs }) ℓ := hlive.setLine hl
      exact hlive'.setInject hk (by simp [injecting, Ne.symm hl]) _

theorem WorkStep.live {b b' : Bus} {d d' : Dev} {ℓ₀ ℓ : Fin LINES} {o : List Obs} (h : WorkStep b d ℓ₀ b' d' o)
    (hlive : Live d ℓ) : Live d' ℓ := by
  cases h with
  | @apply e pc' o ha =>
    by_cases hl : ℓ = ℓ₀
    · subst hl
      obtain ⟨gen, value, hline⟩ := ha.frame.line
      have hset := applyOf_setLine e ℓ ℓ { e.lines ℓ with work := pc' }
      rw [if_pos rfl, ha.frame.applyOf] at hset
      apply ha.live (e := e.setLine ℓ { e.lines ℓ with work := pc' }) hlive (w := none) rfl (by simp) (by simp)
        (by simp [hline]) (by simp [hline]) (by simp [ha.frame.notifier]) hset
      intro k hk
      rw [setLine_inject?, ha.frame.inject?]
      exact hk
    · exact (ha.live_other hl hlive).setLine hl

theorem Live.sameLines {d d' : Dev} {ℓ : Fin LINES} (h : Live d ℓ) (hline : ∃ value isOutput,
    d'.lines ℓ = { d.lines ℓ with value := value, isOutput := isOutput })
    (hi : d'.inject? = d.inject?) (hn : d'.notifier = d.notifier) : Live d' ℓ := by
  have hof := applyOf_lines hi hline
  obtain ⟨value, isOutput, hline⟩ := hline
  apply h.frame
  · rw [hline]
  · rw [hline]
  · rw [hline]
  · rw [hline]
  · rw [hn]
    exact id
  · intro w hw
    apply carries_congr (d := d) _ (by rw [hof]) hw
    rw [hline]
  · rw [hi]
    exact fun _ hk => hk

theorem Live.call {d : Dev} {ℓ : Fin LINES} (h : Live d ℓ) (inj : Option Inject) : Live (d.call inj) ℓ := by
  apply h.frame
  · rfl
  · rfl
  · rfl
  · rfl
  · exact id
  · intro w hw
    have hne : w ≠ some d.injects.length := by
      rintro rfl
      simp [Carries, applyOf_next_call, ApplyPc.gen?] at hw
    apply carries_congr (d := d) _ _ hw
    · rfl
    · rw [applyOf_call, Function.update_of_ne hne]
  · intro j hj
    have hne : j ≠ d.injects.length := by
      rintro rfl
      simp [Dev.inject?, Gpio.arming] at hj
    rw [call_inject?, Function.update_of_ne hne]
    exact hj

theorem Live.setValue {d : Dev} {ℓ ℓ₀ : Fin LINES} (h : Live d ℓ) {line : Line} (hline : ∃ value isOutput,
    line = { d.lines ℓ₀ with value := value, isOutput := isOutput }) : Live (d.setLine ℓ₀ line) ℓ := by
  obtain ⟨value, isOutput, rfl⟩ := hline
  by_cases hl : ℓ = ℓ₀
  · subst hl
    exact h.sameLines ⟨value, isOutput, by simp⟩ rfl rfl
  · exact h.setLine hl

theorem DevStep.live {d d' : Dev} {a : Act} {o : List Obs} {ℓ : Fin LINES} (h : DevStep d a d' o)
    (hlive : Live d ℓ) : Live d' ℓ := by
  cases h with
  | rejected | parsed => exact hlive.call _
  | @timerExpire ℓ₀ =>
    by_cases hl : ℓ = ℓ₀
    · subst hl
      exact .queued (by simp)
    · exact hlive.setLine hl
  | @workStart ℓ₀ =>
    by_cases hl : ℓ = ℓ₀
    · subst hl
      exact .carried none (.inl (by simp [applyOf]))
    · exact hlive.setLine hl
  | directionInput | directionOutput => exact hlive.setValue ⟨_, _, rfl⟩
  | set => exact hlive.setValue (setValue_line _ _)
  | setMultiple => exact hlive.sameLines (setMultiple_line _ _ _) rfl rfl
  | attrStore | resetStore => exact hlive.sameLines ⟨_, _, rfl⟩ rfl rfl
  | reset | cancelTimer => exact .resetting (by simp)
  | cancelWork =>
    apply Live.resetting
    unfold NotifierPc.next
    dsimp only
    split <;> simp
  | critical => exact .applied (by simp [resetDev, sameGen])
  | refused => exact hlive

theorem machine_live {s t : Sys} {a : Act} {o : List Obs} {ℓ : Fin LINES} (h : machine s a = some (t, o))
    (hlive : Live s.dev ℓ) : Live t.dev ℓ := by
  obtain ⟨k, hiFirst, -, hi⟩ | ⟨ℓ', -, hw⟩ | ⟨b, -, -, hd, rfl⟩ | ⟨-, hd⟩ := machine_cases h
  · exact hi.live hlive
  · exact hw.live hlive
  · rwa [hd]
  · exact hd.live hlive

theorem live_run {P : Sys → Act → Prop} {s₀ s : Sys} {os : List Obs} {ℓ : Fin LINES} (h : Run machine P s₀ os s)
    (h₀ : Live s₀.dev ℓ) : Live s.dev ℓ := by
  apply h.invariant (fun s => Live s.dev ℓ) h₀
  intro t a u o hi _ hm
  exact machine_live hm hi

end VirtRtLab.Gpio
