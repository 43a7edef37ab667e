import VirtRtLab.Gpio.Machine

namespace VirtRtLab.Gpio

open Kernel VirtRtLab.Core

inductive ApplyStep (b : Bus) (d : Dev) (ℓ : Fin LINES) : ApplyPc → Bus → Dev → ApplyPc → List Obs → Prop
  | stale (hs : sameGen (d.lines ℓ).snapGen (d.lines ℓ).applyGen = true) : ApplyStep b d ℓ .enter b d .idle []
  | plain (hs : sameGen (d.lines ℓ).snapGen (d.lines ℓ).applyGen = false) (hp : (d.lines ℓ).snapBitflipPpm = 0) :
      ApplyStep b d ℓ .enter b d (.commit (d.lines ℓ).snapGen (d.lines ℓ).snapValue (d.lines ℓ).snapValue)
        [.read ℓ (d.lines ℓ).snapGen]
  | gate (hs : sameGen (d.lines ℓ).snapGen (d.lines ℓ).applyGen = false) (hp : (d.lines ℓ).snapBitflipPpm ≠ 0) :
      ApplyStep b d ℓ .enter b d (.flip (d.lines ℓ).snapGen (d.lines ℓ).snapValue (d.lines ℓ).snapBitflipPpm)
        [.read ℓ (d.lines ℓ).snapGen]
  | flip {gen snapVal bitflipPpm newVal}
      (hn : newVal = if Core.gate b.nextPrngU32 bitflipPpm then snapVal ^^^ 1 else snapVal) :
      ApplyStep b d ℓ (.flip gen snapVal bitflipPpm) b.drawn d (.commit gen snapVal newVal) []
  | giveUp {gen snapVal newVal} (hs : sameGen (d.lines ℓ).snapGen gen = false) :
      ApplyStep b d ℓ (.commit gen snapVal newVal) b d .idle []
  | commit {gen snapVal newVal flipped changed} (hs : sameGen (d.lines ℓ).snapGen gen = true)
      (hf : flipped = decide (newVal ≠ snapVal))
      (hc : changed = (!(d.lines ℓ).isOutput && decide (newVal ≠ (d.lines ℓ).value))) :
      ApplyStep b d ℓ (.commit gen snapVal newVal) b (commitLine d ℓ gen snapVal newVal) .idle
        [.commit ℓ gen flipped changed]

theorem stepApply_cases {b b' : Bus} {d d' : Dev} {ℓ : Fin LINES} {pc pc' : ApplyPc} {o : List Obs}
    (h : stepApply b d ℓ pc = some (b', d', pc', o)) : ApplyStep b d ℓ pc b' d' pc' o := by
  cases pc with
  | idle => cases h
  | enter =>
    simp only [stepApply] at h
    split at h
    · cases h
      exact .stale ‹_›
    · rename_i hs
      have hs' := eq_false_of_ne_true hs
      split at h <;> cases h
      · exact .plain hs' ‹_›
      · exact .gate hs' ‹_›
  | flip gen snapVal bitflipPpm =>
    cases h
    exact .flip rfl
  | commit gen snapVal newVal =>
    simp only [stepApply] at h
    cases hs : sameGen (d.lines ℓ).snapGen gen with
    | false =>
      rw [hs] at h
      cases h
      exact .giveUp hs
    | true =>
      rw [hs] at h
      cases h
      exact .commit hs rfl rfl

structure ApplyFrame (d d' : Dev) (ℓ : Fin LINES) : Prop where
  inject? : d'.inject? = d.inject?
  notifier : d'.notifier = d.notifier
  attrs : d'.attrs = d.attrs
  line : ∃ gen value, d'.lines ℓ = { d.lines ℓ with applyGen := gen, value := value }
  other : ∀ ℓ', ℓ' ≠ ℓ → d'.lines ℓ' = d.lines ℓ'

theorem ApplyStep.frame {b b' : Bus} {d d' : Dev} {ℓ : Fin LINES} {pc pc' : ApplyPc} {o : List Obs}
    (h : ApplyStep b d ℓ pc b' d' pc' o) : ApplyFrame d d' ℓ := by
  cases h with
  | @commit gen snapVal newVal flipped changed hs hf hc =>
    refine ⟨rfl, rfl, rfl, ⟨gen, _, Function.update_self ..⟩, ?_⟩
    intro ℓ' hl
    exact Function.update_of_ne hl ..
  | stale | plain | gate | flip | giveUp => exact ⟨rfl, rfl, rfl, ⟨_, _, rfl⟩, fun _ _ => rfl⟩

inductive InjectStep (b : Bus) (d : Dev) (k : ℕ) : Bus → Dev → List Obs → Prop
  | busUp {count ℓ val} (hk : d.inject? k = some ⟨count, .parsed ℓ val⟩) :
      InjectStep b d k b (d.setInject k (some ⟨count, .gated ℓ val⟩)) []
  | busDown {count ℓ val} (hk : d.inject? k = some ⟨count, .parsed ℓ val⟩) :
      InjectStep b d k b (d.setInject k none) [.returned k (.error .eio)]
  | disabled {count ℓ val} (hk : d.inject? k = some ⟨count, .gated ℓ val⟩) (he : d.attrs.enabled = false) :
      InjectStep b d k b (d.setInject k none) [.returned k (.ok count)]
  | drop {count ℓ val b'} (hk : d.inject? k = some ⟨count, .gated ℓ val⟩) (he : d.attrs.enabled = true) :
      InjectStep b d k b' ({ d with statDrops := d.statDrops + 1 }.setInject k none) [.returned k (.ok count)]
  | snapshot {count ℓ val b'} (hk : d.inject? k = some ⟨count, .gated ℓ val⟩) (he : d.attrs.enabled = true) :
      InjectStep b d k b'
        ((takeSnapshot d ℓ val).setInject k (some ⟨count, dispatch ℓ d.attrs.latencyNs d.attrs.jitterNs⟩))
        [.snapshot ℓ ((d.lines ℓ).snapGen + 1) val]
  | apply {count ℓ pc b' d' pc' o} (hk : d.inject? k = some ⟨count, .apply ℓ pc⟩)
      (ha : ApplyStep b d ℓ pc b' d' pc' o) (hpc : pc' ≠ .idle) :
      InjectStep b d k b' (d'.setInject k (some ⟨count, .apply ℓ pc'⟩)) o
  | applied {count ℓ pc b' d' o} (hk : d.inject? k = some ⟨count, .apply ℓ pc⟩)
      (ha : ApplyStep b d ℓ pc b' d' .idle o) :
      InjectStep b d k b' (d'.setInject k none) (o ++ [.returned k (.ok count)])
  | draw {count ℓ latencyNs jitterNs} (hk : d.inject? k = some ⟨count, .jitter ℓ latencyNs jitterNs⟩) :
      InjectStep b d k b.drawn (d.setInject k (some ⟨count, .jitter2 ℓ latencyNs jitterNs b.nextPrngU32⟩)) []
  | draw2 {count ℓ latencyNs jitterNs first delayNs}
      (hk : d.inject? k = some ⟨count, .jitter2 ℓ latencyNs jitterNs first⟩) :
      InjectStep b d k b.drawn (d.setInject k (some ⟨count, .arm ℓ delayNs⟩)) []
  | arm {count ℓ delayNs} (hk : d.inject? k = some ⟨count, .arm ℓ delayNs⟩) :
      InjectStep b d k b ((d.setLine ℓ { d.lines ℓ with delayTimer := some delayNs }).setInject k none)
        [.returned k (.ok count)]

theorem stepInject_cases {b b' : Bus} {d d' : Dev} {k : ℕ} {hiFirst : Bool} {o : List Obs}
    (h : stepInject b d k hiFirst = some (b', d', o)) : InjectStep b d k b' d' o := by
  unfold stepInject at h
  split at h
  · cases h
  · split at h <;> cases h
    · exact .busUp ‹_›
    · exact .busDown ‹_›
  · rename_i hk
    cases he : d.attrs.enabled with
    | false =>
      simp only [he, Bool.not_false, ↓reduceIte] at h
      cases h
      exact .disabled hk he
    | true =>
      simp only [he, Bool.not_true, Bool.false_eq_true, ↓reduceIte] at h
      split at h <;> cases h
      · exact .drop hk he
      · exact .snapshot hk he
  · rename_i hk
    split at h
    · cases h
    · cases h
      exact .applied hk (stepApply_cases ‹_›)
    · rename_i hpc ha
      cases h
      exact .apply hk (stepApply_cases ha) hpc
  · cases h
    exact .draw ‹_›
  · cases h
    exact .draw2 ‹_›
  · cases h
    exact .arm ‹_›

inductive WorkStep (b : Bus) (d : Dev) (ℓ : Fin LINES) : Bus → Dev → List Obs → Prop
  | apply {b' e pc' o} (ha : ApplyStep b d ℓ (d.lines ℓ).work b' e pc' o) :
      WorkStep b d ℓ b' (e.setLine ℓ { e.lines ℓ with work := pc' }) o

theorem stepWork_cases {b b' : Bus} {d d' : Dev} {ℓ : Fin LINES} {o : List Obs}
    (h : stepWork b d ℓ = some (b', d', o)) : WorkStep b d ℓ b' d' o := by
  unfold stepWork at h
  split at h
  · cases h
  · cases h
    exact .apply (stepApply_cases ‹_›)

-- a store can be refused, and a bus notification other than RESET does nothing
def Act.refusable : Act → Bool
  | .attrStore _ _ | .resetStore _ | .notify .up | .notify .down => true
  | _ => false

inductive DevStep (d : Dev) : Act → Dev → List Obs → Prop
  | refused {a} (ha : a.refusable = true) : DevStep d a d []
  | rejected {buf e} (hp : parseInject buf = .error e) :
      DevStep d (.injectStore buf) (d.call none) [.returned d.injects.length (.error e)]
  | parsed {buf ℓ val} (hp : parseInject buf = .ok (ℓ, val)) :
      DevStep d (.injectStore buf) (d.call (some ⟨buf.length, .parsed ℓ val⟩)) []
  | timerExpire {ℓ} (ht : (d.lines ℓ).delayTimer.isSome = true) :
      DevStep d (.timerExpire ℓ) (d.setLine ℓ { d.lines ℓ with delayTimer := none, workQueued := true }) []
  | workStart {ℓ} (hq : (d.lines ℓ).workQueued = true) (hw : (d.lines ℓ).work = .idle) :
      DevStep d (.workStart ℓ) (d.setLine ℓ { d.lines ℓ with workQueued := false, work := .enter }) []
  | directionInput {ℓ} : DevStep d (.directionInput ℓ) (d.setLine ℓ { d.lines ℓ with isOutput := false }) []
  | directionOutput {ℓ value} : DevStep d (.directionOutput ℓ value)
      (d.setLine ℓ { d.lines ℓ with isOutput := true, value := if value ≠ 0 then 1 else 0 }) []
  | set {ℓ value} : DevStep d (.set ℓ value) (d.setLine ℓ (setValue (d.lines ℓ) (value ≠ 0))) []
  | setMultiple {mask bits} : DevStep d (.setMultiple mask bits) { d with
      lines := fun ℓ => if mask.testBit ℓ then setValue (d.lines ℓ) (bits.testBit ℓ) else d.lines ℓ } []
  | attrStore {attr buf attrs} (hs : d.attrs.store MAX_LATENCY_NS MAX_PPM attr buf = .ok attrs) :
      DevStep d (.attrStore attr buf) { d with attrs } []
  | resetStore {buf} (hs : kstrtou32 buf 0 = .ok 0) :
      DevStep d (.resetStore buf) { d with statValueChanges := 0, statDrops := 0, statBitflips := 0 } []
  | reset (hn : d.notifier = .idle) : DevStep d (.notify .reset) { d with notifier := .cancelTimer 0 } []
  | cancelTimer {ℓ} (hn : d.notifier = .cancelTimer ℓ) : DevStep d .notifier
      { d.setLine ℓ { d.lines ℓ with delayTimer := none } with notifier := .cancelWork ℓ } []
  | cancelWork {ℓ} (hn : d.notifier = .cancelWork ℓ) (hw : (d.lines ℓ).work = .idle) : DevStep d .notifier
      { d.setLine ℓ { d.lines ℓ with workQueued := false } with notifier := .next ℓ } []
  | critical (hn : d.notifier = .critical) : DevStep d .notifier (resetDev d) [.reset]

theorem stepNotifier_cases {d d' : Dev} {o : List Obs} (h : stepNotifier d = some (d', o)) :
    DevStep d .notifier d' o := by
  unfold stepNotifier at h
  split at h
  · cases h
  · cases h
    exact .cancelTimer ‹_›
  · split at h <;> cases h
    rename_i hn hw
    exact .cancelWork hn (not_not.mp hw)
  · cases h
    exact .critical ‹_›

theorem stepDev_cases {d d' : Dev} {a : Act} {o : List Obs} (h : stepDev d a = some (d', o)) : DevStep d a d' o := by
  cases a with
  | notifier => exact stepNotifier_cases h
  | injectStore buf =>
    simp only [stepDev] at h
    split at h <;> cases h
    · exact .rejected ‹_›
    · exact .parsed ‹_›
  | timerExpire ℓ =>
    simp only [stepDev] at h
    split at h <;> cases h
    exact .timerExpire ‹_›
  | workStart ℓ =>
    simp only [stepDev] at h
    split at h <;> cases h
    rename_i hc
    exact .workStart hc.1 hc.2
  | directionInput ℓ =>
    cases h
    exact .directionInput
  | directionOutput ℓ value =>
    cases h
    exact .directionOutput
  | set ℓ value =>
    cases h
    exact .set
  | setMultiple mask bits =>
    cases h
    exact .setMultiple
  | attrStore attr buf =>
    simp only [stepDev] at h
    split at h <;> cases h
    · exact .refused rfl
    · exact .attrStore ‹_›
  | resetStore buf =>
    simp only [stepDev] at h
    split at h <;> cases h
    · exact .resetStore ‹_›
    · exact .refused rfl
  | notify event =>
    cases event <;> simp only [stepDev] at h <;> split at h <;> cases h
    · exact .refused rfl
    · exact .refused rfl
    · exact .reset ‹_›
  | inject | work | bus => cases h

theorem machine_cases {s t : Sys} {a : Act} {o : List Obs} (h : machine s a = some (t, o)) :
    (∃ k hiFirst, a = .inject k hiFirst ∧ InjectStep s.bus s.dev k t.bus t.dev o) ∨
    (∃ ℓ, a = .work ℓ ∧ WorkStep s.bus s.dev ℓ t.bus t.dev o) ∨
    (∃ b, a = .bus b ∧ s.bus.step b = some t.bus ∧ t.dev = s.dev ∧ o = []) ∨
    (t.bus = s.bus ∧ DevStep s.dev a t.dev o) := by
  unfold machine at h
  split at h
  · obtain ⟨⟨b', d', o'⟩, he, hr⟩ := Option.map_eq_some_iff.mp h
    cases hr
    exact .inl ⟨_, _, rfl, stepInject_cases he⟩
  · obtain ⟨⟨b', d', o'⟩, he, hr⟩ := Option.map_eq_some_iff.mp h
    cases hr
    exact .inr (.inl ⟨_, rfl, stepWork_cases he⟩)
  · obtain ⟨bus, he, hr⟩ := Option.map_eq_some_iff.mp h
    cases hr
    exact .inr (.inr (.inl ⟨_, rfl, he, rfl, rfl⟩))
  · obtain ⟨⟨d', o'⟩, he, hr⟩ := Option.map_eq_some_iff.mp h
    cases hr
    exact .inr (.inr (.inr ⟨rfl, stepDev_cases he⟩))

theorem setValue_line (line : Line) (value : Bool) :
    ∃ value' isOutput', setValue line value = { line with value := value', isOutput := isOutput' } := by
  unfold setValue
  split <;> exact ⟨_, _, rfl⟩

theorem setMultiple_line (line : Line) (masked value : Bool) : ∃ value' isOutput',
    (if masked then setValue line value else line) = { line with value := value', isOutput := isOutput' } := by
  cases masked with
  | true => exact setValue_line line value
  | false => exact ⟨_, _, rfl⟩

end VirtRtLab.Gpio
