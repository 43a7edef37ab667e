import VirtRtLab.Gpio.Baseline

namespace VirtRtLab.Gpio

open Kernel VirtRtLab.Core Transition

def Act.dataPath : Act → Bool
  | .injectStore _ | .inject _ _ | .timerExpire _ | .workStart _ | .work _ => true
  | _ => false

def ApplyPc.FaultFree : ApplyPc → Prop
  | .flip _ _ _ => False
  | _ => True

def InjectPc.FaultFree : InjectPc → Prop
  | .apply _ pc => pc.FaultFree
  | .jitter _ _ _ | .jitter2 _ _ _ _ => False
  | _ => True

structure Line.FaultFree (line : Line) : Prop where
  snap : line.snapBitflipPpm = 0
  work : line.work.FaultFree

abbrev Dev.FaultFree (d : Dev) : Prop := d.Each Line.FaultFree InjectPc.FaultFree

section

variable {b b' : Bus} {d d' e : Dev} {ℓ : Fin LINES} {a : Act} {o : List Obs}

theorem ApplyStep.faultFree {pc pc' : ApplyPc} (h : ApplyStep b d ℓ pc b' d' pc' o) (hd : d.FaultFree)
    (hpc : pc.FaultFree) : b' = b ∧ d'.FaultFree ∧ pc'.FaultFree := by
  cases h with
  | stale | plain | giveUp => exact ⟨rfl, hd, trivial⟩
  | gate hs hp => exact absurd (hd.line ℓ).snap hp
  | flip => exact hpc.elim
  | @commit gen snapVal newVal flipped changed hs hf hc =>
    have hset : (d.setLine ℓ { d.lines ℓ with
        applyGen := gen, value := if (d.lines ℓ).isOutput then (d.lines ℓ).value else newVal }).FaultFree :=
      hd.setLine ⟨(hd.line ℓ).snap, (hd.line ℓ).work⟩
    exact ⟨rfl, ⟨hset.line, hset.inject⟩, trivial⟩

theorem dispatch_faultFree (ℓ : Fin LINES) {latencyNs jitterNs : UInt64} (hj : jitterNs = 0) :
    (dispatch ℓ latencyNs jitterNs).FaultFree := by
  unfold dispatch
  split
  · trivial
  · trivial

theorem InjectStep.faultFree {k : ℕ} (h : InjectStep b d k b' d' o) (ha : d.attrs.FaultFree) (hd : d.FaultFree) :
    d'.FaultFree := by
  cases h with
  | busUp hk =>
    refine hd.setInject hk ?_
    rintro _ ⟨⟩
    trivial
  | busDown hk | disabled hk => exact hd.setInject hk (by simp)
  | drop hk he =>
    have hd' : ({ d with statDrops := d.statDrops + 1 } : Dev).FaultFree := ⟨hd.line, hd.inject⟩
    exact hd'.setInject hk (by simp)
  | @snapshot count ℓ val b' hk he =>
    have hsnap : (takeSnapshot d ℓ val).FaultFree := hd.setLine ⟨ha.2.1, (hd.line ℓ).work⟩
    refine hsnap.setInject hk ?_
    rintro _ ⟨⟩
    exact dispatch_faultFree ℓ ha.2.2
  | apply hk hstep hpc =>
    obtain ⟨-, hd', hpc'⟩ := hstep.faultFree hd (hd.inject k _ hk)
    rw [← hstep.frame.inject?] at hk
    refine hd'.setInject hk ?_
    rintro _ ⟨⟩
    exact hpc'
  | applied hk hstep =>
    obtain ⟨-, hd', -⟩ := hstep.faultFree hd (hd.inject k _ hk)
    rw [← hstep.frame.inject?] at hk
    exact hd'.setInject hk (by simp)
  | draw hk | draw2 hk => exact (hd.inject k _ hk).elim
  | @arm count ℓ delayNs hk =>
    have hset : (d.setLine ℓ { d.lines ℓ with delayTimer := some delayNs }).FaultFree :=
      hd.setLine ⟨(hd.line ℓ).snap, (hd.line ℓ).work⟩
    exact hset.setInject hk (by simp)

theorem stepInject_bus {k : ℕ} {hiFirst : Bool} (h : stepInject b d k hiFirst = some (b', d', o))
    (ha : d.attrs.FaultFree) (hd : d.FaultFree) : b' = b := by
  unfold stepInject at h
  split at h
  · cases h
  · split at h <;> cases h <;> rfl
  · rw [ha.1] at h
    split at h
    · cases h
      rfl
    · simp only [ne_eq, not_true, decide_false, Bool.false_and, Bool.false_eq_true, if_true, if_false] at h
      cases h
      rfl
  · rename_i hk
    split at h
    · cases h
    · rename_i hs
      cases h
      exact ((stepApply_cases hs).faultFree hd (hd.inject k _ hk)).1
    · rename_i hs
      cases h
      exact ((stepApply_cases hs).faultFree hd (hd.inject k _ hk)).1
  · rename_i hk
    exact (hd.inject k _ hk).elim
  · rename_i hk
    exact (hd.inject k _ hk).elim
  · cases h
    rfl

theorem WorkStep.faultFree (h : WorkStep b d ℓ b' d' o) (hd : d.FaultFree) : b' = b ∧ d'.FaultFree := by
  cases h with
  | apply ha =>
    obtain ⟨hb, he, hpc⟩ := ha.faultFree hd (hd.line ℓ).work
    exact ⟨hb, he.setLine ⟨(he.line ℓ).snap, hpc⟩⟩

theorem setValue_each {p : Line → Prop} {line : Line} (value : Bool)
    (hp : ∀ v, p { line with value := v }) (h : p line) : p (setValue line value) := by
  unfold setValue
  split
  · exact hp _
  · exact h

theorem DevStep.faultFree (h : DevStep d a d' o) (hd : d.FaultFree) : d'.FaultFree := by
  cases h with
  | refused => exact hd
  | rejected => exact hd.call (by simp)
  | parsed hp =>
    refine hd.call ?_
    rintro _ ⟨⟩
    trivial
  | @timerExpire ℓ | @directionInput ℓ | @directionOutput ℓ => exact hd.setLine ⟨(hd.line ℓ).snap, (hd.line ℓ).work⟩
  | @workStart ℓ => exact hd.setLine ⟨(hd.line ℓ).snap, trivial⟩
  | @set ℓ value => exact hd.setLine (setValue_each _ (fun _ => ⟨(hd.line ℓ).snap, (hd.line ℓ).work⟩) (hd.line ℓ))
  | setMultiple =>
    refine ⟨fun ℓ => ?_, hd.inject⟩
    dsimp only
    split
    · exact setValue_each _ (fun _ => ⟨(hd.line ℓ).snap, (hd.line ℓ).work⟩) (hd.line ℓ)
    · exact hd.line ℓ
  | attrStore | resetStore | reset => exact ⟨hd.line, hd.inject⟩
  | @cancelTimer ℓ =>
    have hset : (d.setLine ℓ { d.lines ℓ with delayTimer := none }).FaultFree :=
      hd.setLine ⟨(hd.line ℓ).snap, (hd.line ℓ).work⟩
    exact ⟨hset.line, hset.inject⟩
  | @cancelWork ℓ =>
    have hset : (d.setLine ℓ { d.lines ℓ with workQueued := false }).FaultFree :=
      hd.setLine ⟨(hd.line ℓ).snap, (hd.line ℓ).work⟩
    exact ⟨hset.line, hset.inject⟩
  | critical => exact ⟨fun ℓ => ⟨(hd.line ℓ).snap, (hd.line ℓ).work⟩, hd.inject⟩

def Dev.AtRest (d : Dev) : Prop := ∀ ℓ, (d.lines ℓ).work = .idle

theorem Dev.AtRest.setLine (h : d.AtRest) {line : Line} (hl : line.work = .idle) : (d.setLine ℓ line).AtRest := by
  intro ℓ'
  by_cases he : ℓ' = ℓ
  · subst he
    simpa using hl
  · simpa [he] using h ℓ'

theorem setValue_work (line : Line) (value : Bool) : (setValue line value).work = line.work := by
  unfold setValue
  split <;> rfl

theorem DevStep.atRest (h : DevStep d a d' o) (ha : a.dataPath = false) (hd : d.AtRest) : d'.AtRest := by
  cases h with
  | workStart => cases ha
  | timerExpire => cases ha
  | rejected | parsed => cases ha
  | refused | attrStore | resetStore | reset | critical => exact hd
  | @directionInput ℓ | @directionOutput ℓ =>
    apply Dev.AtRest.setLine hd
    exact hd ℓ
  | @cancelTimer ℓ =>
    have hset : (d.setLine ℓ { d.lines ℓ with delayTimer := none }).AtRest := hd.setLine (hd ℓ)
    exact hset
  | @cancelWork ℓ =>
    have hset : (d.setLine ℓ { d.lines ℓ with workQueued := false }).AtRest := hd.setLine (hd ℓ)
    exact hset
  | @set ℓ value => exact hd.setLine ((setValue_work ..).trans (hd ℓ))
  | setMultiple =>
    intro ℓ
    dsimp only
    split
    · exact (setValue_work ..).trans (hd ℓ)
    · exact hd ℓ

theorem DevStep.own_notifier (h : DevStep d a d' o) (hn : a ≠ .notifier) (he : ∀ event, a ≠ .notify event) :
    d'.notifier = d.notifier := by
  cases h with
  | reset => exact absurd rfl (he _)
  | cancelTimer | cancelWork | critical => exact absurd rfl hn
  | _ => rfl

theorem InjectStep.notifier {k : ℕ} (h : InjectStep b d k b' d' o) : d'.notifier = d.notifier := by
  cases h with
  | apply hk ha | applied hk ha => exact ha.frame.notifier
  | _ => rfl

theorem WorkStep.notifier (h : WorkStep b d ℓ b' d' o) : d'.notifier = d.notifier := by
  cases h with
  | apply ha => exact ha.frame.notifier

def NotifierPc.after : NotifierPc → NotifierPc
  | .idle => .idle
  | .cancelTimer ℓ => .cancelWork ℓ
  | .cancelWork ℓ => .next ℓ
  | .critical => .idle

theorem DevStep.notifier_after (h : DevStep d .notifier d' o) :
    d'.notifier = d.notifier.after ∧ d.notifier ≠ .idle := by
  cases h with
  | refused ha => cases ha
  | cancelTimer hn | cancelWork hn | critical hn =>
    rw [hn]
    exact ⟨rfl, by simp⟩

structure Dev.Beside (d e : Dev) : Prop where
  free : d.FaultFree
  rest : e.AtRest
  notifier : e.notifier = d.notifier

theorem Dev.Beside.full (h : d.Beside e) (ha : d.attrs.FaultFree) (hn : a ≠ .notifier)
    (he : ∀ event, a ≠ .notify event) (hb : ∀ x, a ≠ .bus x) (hm : machine ⟨b, d⟩ a = some (⟨b', d'⟩, o)) :
    b' = b ∧ d'.Beside e := by
  obtain ⟨k, hiFirst, rfl, hi⟩ | ⟨ℓ, rfl, hw⟩ | ⟨x, ha, -⟩ | ⟨hbus, hd⟩ := machine_cases hm
  · obtain ⟨⟨b₁, d₁, o₁⟩, hs, hr⟩ := Option.map_eq_some_iff.mp hm
    cases hr
    exact ⟨stepInject_bus hs ha h.free, hi.faultFree ha h.free, h.rest, by rw [hi.notifier]; exact h.notifier⟩
  · obtain ⟨hbus, hfree⟩ := hw.faultFree h.free
    exact ⟨hbus, hfree, h.rest, by rw [hw.notifier]; exact h.notifier⟩
  · exact absurd ha (hb x)
  · exact ⟨hbus, hd.faultFree h.free, h.rest, by rw [hd.own_notifier hn he]; exact h.notifier⟩

theorem Dev.Beside.left {e' : Dev} (h : d.Beside e) (ha : a.dataPath = false) (hn : a ≠ .notifier)
    (he : ∀ event, a ≠ .notify event) (hb : ∀ x, a ≠ .bus x) (hm : machine ⟨b, e⟩ a = some (⟨b', e'⟩, o)) :
    b' = b ∧ d.Beside e' := by
  obtain ⟨k, hiFirst, rfl, -⟩ | ⟨ℓ, rfl, -⟩ | ⟨x, ha, -⟩ | ⟨hbus, hd⟩ := machine_cases hm
  · cases ha
  · cases ha
  · exact absurd ha (hb x)
  · exact ⟨hbus, h.free, hd.atRest ha h.rest, by rw [hd.own_notifier hn he]; exact h.notifier⟩

theorem Dev.Beside.notify {event : BusEvent} (h : d.Beside e)
    (hm : machine ⟨b, d⟩ (.notify event) = some (⟨b', d'⟩, o)) :
    b' = b ∧ ∃ e' o', machine ⟨b, e⟩ (.notify event) = some (⟨b, e'⟩, o') ∧ d'.Beside e' := by
  obtain ⟨hb, hd⟩ := notify_cases hm
  have hfree := hd.faultFree h.free
  have hidle : d.notifier = .idle := by
    cases event <;> simp only [machine, stepDev] at hm <;> split at hm <;> first | assumption | cases hm
  have hidle' : e.notifier = .idle := h.notifier.trans hidle
  cases event <;> simp only [machine, stepDev, hidle, hidle', if_true, Option.map_some] at hm ⊢ <;> cases hm
  · exact ⟨rfl, _, _, rfl, h⟩
  · exact ⟨rfl, _, _, rfl, h⟩
  · exact ⟨rfl, _, _, rfl, hfree, h.rest, rfl⟩

theorem Dev.Beside.callback (h : d.Beside e) (hm : machine ⟨b, d⟩ .notifier = some (⟨b', d'⟩, o)) :
    b' = b ∧ ∃ e' o', machine ⟨b, e⟩ .notifier = some (⟨b, e'⟩, o') ∧ d'.Beside e' := by
  obtain ⟨hb, hd⟩ := notifier_cases hm
  obtain ⟨hafter, hbusy⟩ := hd.notifier_after
  rw [← h.notifier] at hafter hbusy
  obtain ⟨⟨b'', e'⟩, o', hm'⟩ := notifier_enabled ⟨b, e⟩ hbusy (fun ℓ _ => h.rest ℓ)
  obtain ⟨rfl, he⟩ := notifier_cases hm'
  exact ⟨hb, e', o', hm', hd.faultFree h.free, he.atRest rfl h.rest, he.notifier_after.1.trans hafter.symm⟩

end

end VirtRtLab.Gpio
