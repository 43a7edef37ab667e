import VirtRtLab.Lib.Generation
import VirtRtLab.Gpio.Steps

namespace VirtRtLab.Gpio

open Kernel VirtRtLab.Core Transition Generation

/-- What the code sees of a generation. -/
def view (gen : ℕ) : ℕ := gen % 2 ^ 32

theorem sameGen_eq_true {m n : ℕ} : sameGen m n = true ↔ view m = view n := by
  simp [sameGen, view]

theorem sameGen_eq_false {m n : ℕ} : sameGen m n = false ↔ view m ≠ view n := by
  simp [sameGen, view]

/-- Who can be inside `virtrtlab_gpio_line_apply` for a line: `apply_work`, or an `inject_store` call. -/
abbrev Worker := Option ℕ

def ApplyPc.gen? : ApplyPc → Option ℕ
  | .flip gen _ _ | .commit gen _ _ => some gen
  | _ => none

def applyPc (ℓ : Fin LINES) : Option Inject → ApplyPc
  | some ⟨_, .apply ℓ' pc⟩ => if ℓ' = ℓ then pc else .idle
  | _ => .idle

def applyOf (d : Dev) (ℓ : Fin LINES) : Worker → ApplyPc
  | none => (d.lines ℓ).work
  | some k => applyPc ℓ (d.inject? k)

def cell (d : Dev) (ℓ : Fin LINES) : Cell Worker :=
  ⟨(d.lines ℓ).snapGen, (d.lines ℓ).applyGen, fun w => (applyOf d ℓ w).gen?⟩

def Obs.event (ℓ : Fin LINES) : Obs → Option Event
  | .snapshot ℓ' gen _ => if ℓ' = ℓ then some (.taken gen) else none
  | .read ℓ' gen => if ℓ' = ℓ then some (.read gen) else none
  | .commit ℓ' gen _ _ => if ℓ' = ℓ then some (.committed gen) else none
  | .reset => some .marked
  | .returned _ _ => none

def events (ℓ : Fin LINES) (os : List Obs) : List Event := os.filterMap (Obs.event ℓ)

@[simp] theorem events_append (ℓ : Fin LINES) (os os' : List Obs) : events ℓ (os ++ os') = events ℓ os ++ events ℓ os' := by
  simp [events]

@[simp] theorem events_returned (ℓ : Fin LINES) (k : ℕ) (r : Except Errno ℕ) : events ℓ [.returned k r] = [] := rfl

theorem applyOf_setInject {d : Dev} {k : ℕ} {inj' : Inject} (hk : d.inject? k = some inj') (inj : Option Inject)
    (ℓ : Fin LINES) : applyOf (d.setInject k inj) ℓ = Function.update (applyOf d ℓ) (some k) (applyPc ℓ inj) := by
  funext w
  cases w with
  | none => rfl
  | some j =>
    simp only [applyOf, setInject_inject? d k inj hk]
    by_cases hj : j = k
    · subst hj
      simp
    · have hs : some j ≠ some k := by simpa using hj
      rw [Function.update_of_ne hj, Function.update_of_ne hs]
      rfl

theorem applyOf_call (d : Dev) (inj : Option Inject) (ℓ : Fin LINES) :
    applyOf (d.call inj) ℓ = Function.update (applyOf d ℓ) (some d.injects.length) (applyPc ℓ inj) := by
  funext w
  cases w with
  | none => rfl
  | some j =>
    simp only [applyOf, call_inject?]
    by_cases hj : j = d.injects.length
    · subst hj
      simp
    · have hs : some j ≠ some d.injects.length := by simpa using hj
      rw [Function.update_of_ne hj, Function.update_of_ne hs]
      rfl

theorem applyOf_next_call (d : Dev) (ℓ : Fin LINES) : applyOf d ℓ (some d.injects.length) = .idle := by
  simp [applyOf, Dev.inject?, applyPc]

theorem applyOf_setLine (d : Dev) (ℓ ℓ' : Fin LINES) (line : Line) : applyOf (d.setLine ℓ' line) ℓ =
    if ℓ = ℓ' then Function.update (applyOf d ℓ) none line.work else applyOf d ℓ := by
  funext w
  by_cases hl : ℓ = ℓ'
  · subst hl
    cases w <;> simp [applyOf]
  · cases w <;> simp [applyOf, hl]

theorem cell_congr {d d' : Dev} {ℓ : Fin LINES} (hs : (d'.lines ℓ).snapGen = (d.lines ℓ).snapGen)
    (ha : (d'.lines ℓ).applyGen = (d.lines ℓ).applyGen) (hw : applyOf d' ℓ = applyOf d ℓ) : cell d' ℓ = cell d ℓ := by
  simp only [cell, hs, ha, hw]

theorem cell_setLine {d : Dev} {ℓ : Fin LINES} {line : Line} (hs : line.snapGen = (d.lines ℓ).snapGen)
    (ha : line.applyGen = (d.lines ℓ).applyGen) (hw : line.work.gen? = (d.lines ℓ).work.gen?) (ℓ' : Fin LINES) :
    cell (d.setLine ℓ line) ℓ' = cell d ℓ' := by
  by_cases hl : ℓ' = ℓ
  · subst hl
    simp only [cell, setLine_lines, Function.update_self, hs, ha]
    congr 1
    funext w
    cases w with
    | none => simpa [applyOf] using hw
    | some k => rfl
  · simp only [cell, setLine_lines, Function.update_of_ne hl, applyOf_setLine, if_neg hl]

theorem held_update (f : Worker → ApplyPc) (w : Worker) (pc : ApplyPc) :
    (fun v => (Function.update f w pc v).gen?) = Function.update (fun v => (f v).gen?) w pc.gen? := by
  funext v
  by_cases hv : v = w
  · subst hv
    simp
  · simp [hv]

def CellStep (d : Dev) (o : List Obs) (d' : Dev) (ℓ : Fin LINES) : Prop :=
  (cell d' ℓ = cell d ℓ ∧ events ℓ o = []) ∨ Step view (cell d ℓ) (events ℓ o) (cell d' ℓ)

theorem ApplyFrame.applyOf {d d' : Dev} {ℓ : Fin LINES} (h : ApplyFrame d d' ℓ) (ℓ' : Fin LINES) :
    applyOf d' ℓ' = applyOf d ℓ' := by
  have hwork : (d'.lines ℓ').work = (d.lines ℓ').work := by
    by_cases hl : ℓ' = ℓ
    · subst hl
      obtain ⟨gen, value, hline⟩ := h.line
      rw [hline]
    · rw [h.other ℓ' hl]
  funext w
  cases w with
  | none => exact hwork
  | some k => simp only [Gpio.applyOf, h.inject?]

theorem ApplyStep.events_other {b b' : Bus} {d d' : Dev} {ℓ ℓ' : Fin LINES} {pc pc' : ApplyPc} {o : List Obs}
    (h : ApplyStep b d ℓ pc b' d' pc' o) (hl : ℓ' ≠ ℓ) : events ℓ' o = [] := by
  cases h with
  | plain | gate | commit => simp [events, Obs.event, Ne.symm hl]
  | stale | flip | giveUp => rfl

theorem ApplyStep.cell {b b' : Bus} {d d' e : Dev} {ℓ : Fin LINES} {pc pc' : ApplyPc} {o : List Obs} {w : Worker}
    (h : ApplyStep b d ℓ pc b' d' pc' o) (hw : applyOf d ℓ w = pc)
    (hs : (e.lines ℓ).snapGen = (d'.lines ℓ).snapGen) (ha : (e.lines ℓ).applyGen = (d'.lines ℓ).applyGen)
    (he : applyOf e ℓ = Function.update (applyOf d ℓ) w pc') : CellStep d o e ℓ := by
  have hcell : Gpio.cell e ℓ = ⟨(d'.lines ℓ).snapGen, (d'.lines ℓ).applyGen,
      Function.update (Gpio.cell d ℓ).held w pc'.gen?⟩ := by
    simp only [Gpio.cell, hs, ha, he, held_update]
  have hheld : (Gpio.cell d ℓ).held w = pc.gen? := by simp only [Gpio.cell, hw]
  have hsame (hg : pc'.gen? = pc.gen?) : Function.update (Gpio.cell d ℓ).held w pc'.gen? = (Gpio.cell d ℓ).held := by
    rw [hg, ← hheld, Function.update_eq_self]
  unfold CellStep
  rw [hcell]
  cases h with
  | stale hg =>
    left
    rw [hsame rfl]
    exact ⟨rfl, rfl⟩
  | plain hg hp | gate hg hp =>
    right
    have hev : events ℓ [.read ℓ (d.lines ℓ).snapGen] = [.read (d.lines ℓ).snapGen] := by simp [events, Obs.event]
    rw [hev]
    exact Step.read (c := Gpio.cell d ℓ) (sameGen_eq_false.mp hg)
  | flip hn =>
    left
    rw [hsame rfl]
    exact ⟨rfl, rfl⟩
  | giveUp hg =>
    right
    exact Step.giveUp (c := Gpio.cell d ℓ) hheld (sameGen_eq_false.mp hg)
  | @commit gen snapVal newVal flipped changed hg hf hc =>
    right
    have hev : events ℓ [.commit ℓ gen flipped changed] = [.committed gen] := by
      simp [events, Obs.event]
    have hstep := Step.commit (c := Gpio.cell d ℓ) hheld (sameGen_eq_true.mp hg)
    rw [hev]
    simpa [Gpio.cell, commitLine, ApplyPc.gen?] using hstep

theorem WorkStep.cell {b b' : Bus} {d d' : Dev} {ℓ : Fin LINES} {o : List Obs} (h : WorkStep b d ℓ b' d' o)
    (ℓ' : Fin LINES) : CellStep d o d' ℓ' := by
  cases h with
  | @apply e pc' o ha =>
    have hset := applyOf_setLine e ℓ' ℓ { e.lines ℓ with work := pc' }
    rw [ha.frame.applyOf] at hset
    by_cases hl : ℓ' = ℓ
    · subst hl
      rw [if_pos rfl] at hset
      exact ha.cell (w := none) rfl (by simp) (by simp) hset
    · rw [if_neg hl] at hset
      have hline := ha.frame.other ℓ' hl
      left
      exact ⟨cell_congr (by simp [hl, hline]) (by simp [hl, hline]) hset, ha.events_other hl⟩

theorem cell_setInject {d : Dev} {k : ℕ} {inj : Inject} (hk : d.inject? k = some inj) {inj' : Option Inject}
    {ℓ : Fin LINES} (hpc : (applyPc ℓ inj').gen? = (applyPc ℓ (some inj)).gen?) :
    cell (d.setInject k inj') ℓ = cell d ℓ := by
  simp only [cell, applyOf_setInject hk, held_update, hpc, setInject_lines]
  congr 1
  rw [Function.update_eq_self_iff]
  simp [applyOf, hk]

theorem ApplyStep.cell_inject {b b' : Bus} {d d' : Dev} {ℓ : Fin LINES} {k count : ℕ} {pc pc' : ApplyPc}
    {o : List Obs} {inj' : Option Inject} (h : ApplyStep b d ℓ pc b' d' pc' o)
    (hk : d.inject? k = some ⟨count, .apply ℓ pc⟩) (hpc : applyPc ℓ inj' = pc')
    (hother : ∀ ℓ', ℓ' ≠ ℓ → applyPc ℓ' inj' = .idle) (ℓ' : Fin LINES) : CellStep d o (d'.setInject k inj') ℓ' := by
  have hk' : d'.inject? k = some ⟨count, .apply ℓ pc⟩ := by rw [h.frame.inject?, hk]
  have hset := applyOf_setInject hk' inj' ℓ'
  rw [h.frame.applyOf] at hset
  by_cases hl : ℓ' = ℓ
  · subst hl
    have hw : applyOf d ℓ' (some k) = pc := by simp [applyOf, hk, applyPc]
    rw [hpc] at hset
    exact h.cell hw rfl rfl hset
  · have hline := h.frame.other ℓ' hl
    left
    refine ⟨cell_congr (by simp [hline]) (by simp [hline]) (hset.trans ?_), h.events_other hl⟩
    rw [Function.update_eq_self_iff, hother ℓ' hl]
    simp [applyOf, hk, applyPc, Ne.symm hl]

theorem dispatch_gen? (count : ℕ) (ℓ ℓ' : Fin LINES) (latencyNs jitterNs : UInt64) :
    (applyPc ℓ' (some ⟨count, dispatch ℓ latencyNs jitterNs⟩)).gen? = none := by
  unfold dispatch
  repeat' split
  · simp only [applyPc]
    split <;> rfl
  · rfl
  · rfl

theorem InjectStep.cell {b b' : Bus} {d d' : Dev} {k : ℕ} {o : List Obs} (h : InjectStep b d k b' d' o)
    (ℓ' : Fin LINES) : CellStep d o d' ℓ' := by
  cases h with
  | busUp hk | busDown hk | disabled hk | draw hk | draw2 hk =>
    left
    exact ⟨cell_setInject hk rfl, rfl⟩
  | @drop count ℓ val b' hk he =>
    left
    have hk' : ({ d with statDrops := d.statDrops + 1 } : Dev).inject? k = some ⟨count, .gated ℓ val⟩ := hk
    exact ⟨cell_setInject hk' rfl, rfl⟩
  | @arm count ℓ delayNs hk =>
    left
    constructor
    · have hset := @cell_setLine d ℓ { d.lines ℓ with delayTimer := some delayNs } rfl rfl rfl ℓ'
      have hk' : (d.setLine ℓ { d.lines ℓ with delayTimer := some delayNs }).inject? k =
          some ⟨count, .arm ℓ delayNs⟩ := hk
      rw [← hset]
      apply cell_setInject hk'
      rfl
    · rfl
  | @snapshot count ℓ val b' hk he =>
    have hpc := dispatch_gen? count ℓ ℓ' d.attrs.latencyNs d.attrs.jitterNs
    have hcell := @cell_setInject (takeSnapshot d ℓ val) k ⟨count, .gated ℓ val⟩ hk _ ℓ' hpc
    unfold CellStep
    rw [hcell]
    by_cases hl : ℓ' = ℓ
    · subst hl
      right
      have hev : events ℓ' [.snapshot ℓ' ((d.lines ℓ').snapGen + 1) val] = [.taken ((d.lines ℓ').snapGen + 1)] := by
        simp [events, Obs.event]
      rw [hev]
      have htake : Gpio.cell (takeSnapshot d ℓ' val) ℓ' = { Gpio.cell d ℓ' with snap := (d.lines ℓ').snapGen + 1 } := by
        simp only [Gpio.cell, takeSnapshot, setLine_lines, Function.update_self, applyOf_setLine, if_true]
        congr 1
        rw [held_update]
        exact Function.update_eq_self none _
      rw [htake]
      exact Step.take
    · left
      constructor
      · refine cell_congr (by simp [takeSnapshot, hl]) (by simp [takeSnapshot, hl]) ?_
        rw [takeSnapshot, applyOf_setLine, if_neg hl]
      · simp [events, Obs.event, Ne.symm hl]
  | apply hk ha hpc =>
    apply ha.cell_inject hk
    · simp [applyPc]
    · intro ℓ'' hl
      simp [applyPc, Ne.symm hl]
  | applied hk ha =>
    have hstep := @ApplyStep.cell_inject _ _ _ _ _ _ _ _ _ _ none ha hk rfl (fun _ _ => rfl) ℓ'
    rwa [CellStep, events_append, events_returned, List.append_nil]

theorem cell_call {d : Dev} {inj : Option Inject} {ℓ : Fin LINES} (hi : applyPc ℓ inj = .idle) :
    cell (d.call inj) ℓ = cell d ℓ := by
  have hof : applyOf (d.call inj) ℓ = applyOf d ℓ := by
    rw [applyOf_call, hi, ← applyOf_next_call d ℓ]
    exact Function.update_eq_self ..
  exact cell_congr rfl rfl hof

theorem applyOf_lines {d d' : Dev} {ℓ : Fin LINES} (hi : d'.inject? = d.inject?) (hl : ∃ value isOutput,
    d'.lines ℓ = { d.lines ℓ with value := value, isOutput := isOutput }) : applyOf d' ℓ = applyOf d ℓ := by
  obtain ⟨value, isOutput, hline⟩ := hl
  funext w
  cases w with
  | none => simp only [applyOf, hline]
  | some k => simp only [applyOf, hi]

theorem cell_lines {d d' : Dev} {ℓ : Fin LINES} (hi : d'.inject? = d.inject?) (hl : ∃ value isOutput,
    d'.lines ℓ = { d.lines ℓ with value := value, isOutput := isOutput }) : cell d' ℓ = cell d ℓ := by
  have hof := applyOf_lines hi hl
  obtain ⟨value, isOutput, hline⟩ := hl
  apply cell_congr
  · rw [hline]
  · rw [hline]
  · exact hof

theorem DevStep.cell {d d' : Dev} {a : Act} {o : List Obs} (h : DevStep d a d' o) (ℓ : Fin LINES) :
    CellStep d o d' ℓ := by
  cases h with
  | critical => exact .inr Step.mark
  | rejected | parsed => exact .inl ⟨cell_call rfl, rfl⟩
  | timerExpire | directionInput | directionOutput =>
    left
    constructor
    · apply cell_setLine <;> rfl
    · rfl
  | @cancelTimer ℓ' => exact .inl ⟨@cell_setLine d ℓ' { d.lines ℓ' with delayTimer := none } rfl rfl rfl ℓ, rfl⟩
  | @cancelWork ℓ' => exact .inl ⟨@cell_setLine d ℓ' { d.lines ℓ' with workQueued := false } rfl rfl rfl ℓ, rfl⟩
  | workStart hq hw =>
    left
    constructor
    · apply cell_setLine
      · rfl
      · rfl
      · rw [hw]
        rfl
    · rfl
  | @set ℓ' value =>
    left
    obtain ⟨value', isOutput', hv⟩ := setValue_line (d.lines ℓ') (value ≠ 0)
    rw [hv]
    constructor
    · apply cell_setLine <;> rfl
    · rfl
  | setMultiple => exact .inl ⟨cell_lines rfl (setMultiple_line _ _ _), rfl⟩
  | refused | attrStore | resetStore | reset => exact .inl ⟨rfl, rfl⟩

/-- The device, seen line by line, is a family of generation-guarded cells. -/
theorem machine_cell {s t : Sys} {a : Act} {o : List Obs} (h : machine s a = some (t, o)) (ℓ : Fin LINES) :
    CellStep s.dev o t.dev ℓ := by
  obtain ⟨k, hiFirst, -, hi⟩ | ⟨ℓ', -, hw⟩ | ⟨b, -, -, hd, rfl⟩ | ⟨-, hd⟩ := machine_cases h
  · exact hi.cell ℓ
  · exact hw.cell ℓ
  · exact .inl ⟨by rw [hd], rfl⟩
  · exact hd.cell ℓ

end VirtRtLab.Gpio
