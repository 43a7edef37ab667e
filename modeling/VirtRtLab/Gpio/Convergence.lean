import VirtRtLab.Gpio.Dispatch

namespace VirtRtLab.Gpio

open Kernel VirtRtLab.Core Transition

def Obs.snapVal? (ℓ : Fin LINES) : Obs → Option UInt8
  | .snapshot ℓ' _ val => if ℓ' = ℓ then some val else none
  | _ => none

def injected (ℓ : Fin LINES) (os : List Obs) : List UInt8 := os.filterMap (Obs.snapVal? ℓ)

def disturbs (ℓ : Fin LINES) : Act → Bool
  | .notify .reset => true
  | .directionOutput ℓ' _ => ℓ' = ℓ
  | _ => false

def Calm (ℓ : Fin LINES) (s : Sys) (a : Act) : Prop := s.dev.attrs.bitflipRatePpm = 0 ∧ disturbs ℓ a = false

instance (ℓ : Fin LINES) (s : Sys) (a : Act) : Decidable (Calm ℓ s a) := inferInstanceAs (Decidable (_ ∧ _))

structure Settled (d : Dev) (ℓ : Fin LINES) : Prop where
  quiescent : ¬Outstanding d ℓ
  applied : (d.lines ℓ).applyGen = (d.lines ℓ).snapGen
  input : (d.lines ℓ).isOutput = false

/-- What an apply that holds a generation knows about the line, of which `n₀` snapshots are older than the run. -/
def InFlight (n₀ : ℕ) (line : Line) : ApplyPc → Prop
  | .flip _ _ _ => False
  | .commit gen snapVal newVal =>
    newVal = snapVal ∧ n₀ < gen ∧ gen ≤ line.snapGen ∧ (gen = line.snapGen → snapVal = line.snapValue)
  | _ => True

structure Converging (n₀ : ℕ) (v₀ : UInt8) (vals : List UInt8) (d : Dev) (ℓ : Fin LINES) : Prop where
  input : (d.lines ℓ).isOutput = false
  reset : d.notifier = .idle
  snap : (d.lines ℓ).snapGen = n₀ + vals.length
  applied_ge : n₀ ≤ (d.lines ℓ).applyGen
  applied_le : (d.lines ℓ).applyGen ≤ (d.lines ℓ).snapGen
  untouched : vals = [] → (d.lines ℓ).value = v₀
  newest : ∀ v, vals.getLast? = some v → (d.lines ℓ).snapValue = v ∧ (d.lines ℓ).snapBitflipPpm = 0
  value : vals ≠ [] → (d.lines ℓ).applyGen = (d.lines ℓ).snapGen → (d.lines ℓ).value = (d.lines ℓ).snapValue
  workers : ∀ w, InFlight n₀ (d.lines ℓ) (applyOf d ℓ w)

theorem inFlight_of_gen? {n₀ : ℕ} {line : Line} {pc : ApplyPc} (h : pc.gen? = none) : InFlight n₀ line pc := by
  cases pc with
  | flip | commit => simp [ApplyPc.gen?] at h
  | idle | enter => trivial

theorem InFlight.congr {n₀ : ℕ} {line line' : Line} {pc : ApplyPc} (h : InFlight n₀ line pc)
    (hs : line'.snapGen = line.snapGen) (hv : line'.snapValue = line.snapValue) : InFlight n₀ line' pc := by
  cases pc with
  | commit gen snapVal newVal =>
    unfold InFlight
    rw [hs, hv]
    exact h
  | idle | enter | flip => exact h

theorem Converging.frame {n₀ : ℕ} {v₀ : UInt8} {vals : List UInt8} {d d' : Dev} {ℓ : Fin LINES}
    (h : Converging n₀ v₀ vals d ℓ)
    (hline : ∃ t q p, d'.lines ℓ = { d.lines ℓ with delayTimer := t, workQueued := q, work := p })
    (hn : d'.notifier = d.notifier) (hof : ∀ w, applyOf d' ℓ w = applyOf d ℓ w ∨ InFlight n₀ (d.lines ℓ) (applyOf d' ℓ w)) :
    Converging n₀ v₀ vals d' ℓ := by
  obtain ⟨t, q, p, hline⟩ := hline
  constructor
  · rw [hline]; exact h.input
  · rw [hn]; exact h.reset
  · rw [hline]; exact h.snap
  · rw [hline]; exact h.applied_ge
  · rw [hline]; exact h.applied_le
  · rw [hline]; exact h.untouched
  · rw [hline]; exact h.newest
  · rw [hline]; exact h.value
  · intro w
    have hw : InFlight n₀ (d.lines ℓ) (applyOf d' ℓ w) := by
      rcases hof w with hw | hw
      · rw [hw]
        exact h.workers w
      · exact hw
    exact hw.congr (by rw [hline]) (by rw [hline])

theorem view_inj {m n n₀ : ℕ} (hm : n₀ ≤ m) (hmn : m ≤ n) (hn : n < n₀ + 2 ^ 32) (h : view n = view m) : m = n := by
  unfold view at h
  omega

theorem ApplyStep.converging {n₀ : ℕ} {v₀ : UInt8} {vals : List UInt8} {b b' : Bus} {d d' e : Dev} {ℓ : Fin LINES}
    {pc pc' : ApplyPc} {o : List Obs} {w : Worker} (h : ApplyStep b d ℓ pc b' d' pc' o)
    (hc : Converging n₀ v₀ vals d ℓ) (hb : vals.length < 2 ^ 32) (hw : applyOf d ℓ w = pc)
    (hline : ∃ p, e.lines ℓ = { d'.lines ℓ with work := p }) (hn : e.notifier = d.notifier)
    (he : applyOf e ℓ = Function.update (applyOf d ℓ) w pc') : Converging n₀ v₀ vals e ℓ := by
  have hself : applyOf e ℓ w = pc' := by rw [he, Function.update_self]
  have hother (v : Worker) (hv : v ≠ w) : applyOf e ℓ v = applyOf d ℓ v := by rw [he, Function.update_of_ne hv]
  have hpc := hc.workers w
  rw [hw] at hpc
  obtain ⟨p, hline⟩ := hline
  have hframe (hd : d'.lines ℓ = d.lines ℓ) (hp : InFlight n₀ (d.lines ℓ) pc') : Converging n₀ v₀ vals e ℓ := by
    apply hc.frame
    · exact ⟨_, _, p, by rw [hline, hd]⟩
    · exact hn
    · intro v
      by_cases hv : v = w
      · subst hv
        right
        rw [hself]
        exact hp
      · left
        exact hother v hv
  have hread (hs : sameGen (d.lines ℓ).snapGen (d.lines ℓ).applyGen = false) : n₀ < (d.lines ℓ).snapGen := by
    by_contra hle
    have h1 := hc.applied_ge
    have h2 := hc.applied_le
    have heq : (d.lines ℓ).snapGen = (d.lines ℓ).applyGen := by omega
    simp [sameGen, heq] at hs
  cases h with
  | stale hs | giveUp hs => exact hframe rfl trivial
  | plain hs hp => exact hframe rfl ⟨rfl, hread hs, Nat.le_refl _, fun _ => rfl⟩
  | gate hs hp =>
    have hlt := hread hs
    have hne : vals ≠ [] := by
      rintro rfl
      have := hc.snap
      simp at this
      omega
    have := (hc.newest _ (List.getLast?_eq_getLast_of_ne_nil hne)).2
    exact absurd this hp
  | flip hnew => exact hpc.elim
  | @commit gen snapVal newVal flipped changed hs hf hch =>
    obtain ⟨rfl, hgt, hle, hval⟩ := hpc
    have hsnap := hc.snap
    have hgen : gen = (d.lines ℓ).snapGen := by
      apply view_inj (Nat.le_of_lt hgt) hle
      · omega
      · exact sameGen_eq_true.mp hs
    have hlen : vals ≠ [] := by
      rintro rfl
      simp at hsnap
      omega
    have hline' : e.lines ℓ = { d.lines ℓ with applyGen := gen, value := newVal, work := p } := by
      rw [hline]
      simp [commitLine, hc.input]
    constructor
    · rw [hline']; exact hc.input
    · rw [hn]; exact hc.reset
    · rw [hline']; exact hc.snap
    · rw [hline']; exact Nat.le_of_lt hgt
    · rw [hline']; exact hle
    · intro hnil
      exact absurd hnil hlen
    · rw [hline']; exact hc.newest
    · rw [hline']
      intro _ _
      exact hval hgen
    · intro v
      by_cases hv : v = w
      · subst hv
        rw [hself]
        trivial
      · rw [hother v hv]
        exact (hc.workers v).congr (by rw [hline']) (by rw [hline'])

theorem Converging.setInject {n₀ : ℕ} {v₀ : UInt8} {vals : List UInt8} {d : Dev} {ℓ : Fin LINES} {k : ℕ}
    {inj : Inject} {inj' : Option Inject} (h : Converging n₀ v₀ vals d ℓ) (hk : d.inject? k = some inj)
    (hpc : (applyPc ℓ inj').gen? = none) : Converging n₀ v₀ vals (d.setInject k inj') ℓ := by
  apply h.frame
  · exact ⟨_, _, _, rfl⟩
  · rfl
  · intro w
    rw [applyOf_setInject hk]
    by_cases hw : w = some k
    · subst hw
      rw [Function.update_self]
      exact Or.inr (inFlight_of_gen? hpc)
    · rw [Function.update_of_ne hw]
      exact Or.inl rfl

theorem Converging.setLine {n₀ : ℕ} {v₀ : UInt8} {vals : List UInt8} {d : Dev} {ℓ ℓ' : Fin LINES} {line : Line}
    (h : Converging n₀ v₀ vals d ℓ) (hl : ℓ ≠ ℓ') : Converging n₀ v₀ vals (d.setLine ℓ' line) ℓ := by
  apply h.frame
  · exact ⟨(d.lines ℓ).delayTimer, (d.lines ℓ).workQueued, (d.lines ℓ).work, by simp [hl]⟩
  · rfl
  · intro w
    rw [applyOf_setLine, if_neg hl]
    exact Or.inl rfl

theorem Converging.setTimer {n₀ : ℕ} {v₀ : UInt8} {vals : List UInt8} {d : Dev} {ℓ : Fin LINES} (ℓ' : Fin LINES)
    (t : Option UInt64) (q : Bool) {p : ApplyPc} (h : Converging n₀ v₀ vals d ℓ)
    (hp : p = (d.lines ℓ').work ∨ p.gen? = none) :
    Converging n₀ v₀ vals (d.setLine ℓ' { d.lines ℓ' with delayTimer := t, workQueued := q, work := p }) ℓ := by
  by_cases hl : ℓ = ℓ'
  · subst hl
    apply h.frame
    · exact ⟨t, q, p, by simp⟩
    · rfl
    · intro w
      rw [applyOf_setLine, if_pos rfl]
      by_cases hw : w = none
      · subst hw
        rw [Function.update_self]
        rcases hp with hp | hp
        · exact Or.inl hp
        · exact Or.inr (inFlight_of_gen? hp)
      · rw [Function.update_of_ne hw]
        exact Or.inl rfl
  · exact h.setLine hl

theorem Converging.snapshot {n₀ : ℕ} {v₀ : UInt8} {vals : List UInt8} {d : Dev} {ℓ : Fin LINES} (val : UInt8)
    (h : Converging n₀ v₀ vals d ℓ) (hf : d.attrs.bitflipRatePpm = 0) :
    Converging n₀ v₀ (vals ++ [val]) (takeSnapshot d ℓ val) ℓ := by
  have hle := h.applied_le
  have hline : (takeSnapshot d ℓ val).lines ℓ = { d.lines ℓ with
      snapValue := val, snapBitflipPpm := d.attrs.bitflipRatePpm, snapGen := (d.lines ℓ).snapGen + 1 } := by
    simp [takeSnapshot]
  constructor
  · rw [hline]; exact h.input
  · exact h.reset
  · rw [hline]
    simp [h.snap]
    omega
  · rw [hline]; exact h.applied_ge
  · rw [hline]; exact Nat.le_succ_of_le hle
  · simp
  · intro v hv
    have hv' : val = v := by simpa using hv
    rw [hline]
    exact ⟨hv', hf⟩
  · rw [hline]
    intro _ heq
    dsimp only at heq
    omega
  · intro w
    have hof : applyOf (takeSnapshot d ℓ val) ℓ w = applyOf d ℓ w := by
      rw [takeSnapshot, applyOf_setLine, if_pos rfl]
      exact congrFun (Function.update_eq_self none (applyOf d ℓ)) w
    have hw := h.workers w
    rw [hof, hline]
    cases hpc : applyOf d ℓ w with
    | commit gen snapVal newVal =>
      rw [hpc] at hw
      obtain ⟨h1, h2, h3, -⟩ := hw
      refine ⟨h1, h2, Nat.le_succ_of_le h3, ?_⟩
      intro heq
      dsimp only at heq
      omega
    | flip =>
      rw [hpc] at hw
      exact hw
    | idle | enter => trivial

@[simp] theorem injected_append (ℓ : Fin LINES) (os os' : List Obs) :
    injected ℓ (os ++ os') = injected ℓ os ++ injected ℓ os' := by
  simp [injected]

@[simp] theorem injected_nil (ℓ : Fin LINES) : injected ℓ [] = [] := rfl

@[simp] theorem injected_returned (ℓ : Fin LINES) (k : ℕ) (r : Except Errno ℕ) : injected ℓ [.returned k r] = [] := rfl

theorem ApplyStep.injected {b b' : Bus} {d d' : Dev} {ℓ : Fin LINES} {pc pc' : ApplyPc} {o : List Obs}
    (h : ApplyStep b d ℓ pc b' d' pc' o) (ℓ' : Fin LINES) : Gpio.injected ℓ' o = [] := by
  cases h <;> rfl

section

variable {n₀ : ℕ} {v₀ : UInt8} {vals : List UInt8} {b b' : Bus} {d d' : Dev} {ℓ ℓ' : Fin LINES} {o : List Obs}

theorem ApplyStep.converging_other {pc pc' : ApplyPc} (h : ApplyStep b d ℓ' pc b' d' pc' o) (hl : ℓ ≠ ℓ')
    (hc : Converging n₀ v₀ vals d ℓ) : Converging n₀ v₀ vals d' ℓ := by
  apply hc.frame
  · exact ⟨_, _, _, h.frame.other ℓ hl⟩
  · exact h.frame.notifier
  · intro w
    left
    rw [h.frame.applyOf]

theorem ApplyStep.converging_inject {k count : ℕ} {pc pc' : ApplyPc} {inj' : Option Inject}
    (h : ApplyStep b d ℓ' pc b' d' pc' o) (hc : Converging n₀ v₀ vals d ℓ) (hb : vals.length < 2 ^ 32)
    (hk : d.inject? k = some ⟨count, .apply ℓ' pc⟩) (hpc : applyPc ℓ' inj' = pc')
    (hpc' : ℓ ≠ ℓ' → applyPc ℓ inj' = .idle) : Converging n₀ v₀ vals (d'.setInject k inj') ℓ := by
  have hk' : d'.inject? k = some ⟨count, .apply ℓ' pc⟩ := by rw [h.frame.inject?, hk]
  by_cases hl : ℓ = ℓ'
  · subst hl
    have hset := applyOf_setInject hk' inj' ℓ
    rw [h.frame.applyOf, hpc] at hset
    have hw : applyOf d ℓ (some k) = pc := by simp [applyOf, hk, applyPc]
    exact h.converging (e := d'.setInject k inj') hc hb hw ⟨_, rfl⟩ h.frame.notifier hset
  · apply (h.converging_other hl hc).setInject hk'
    rw [hpc' hl]
    rfl

theorem InjectStep.converging {k : ℕ} (h : InjectStep b d k b' d' o) (hc : Converging n₀ v₀ vals d ℓ)
    (hb : vals.length < 2 ^ 32) (hf : d.attrs.bitflipRatePpm = 0) :
    Converging n₀ v₀ (vals ++ injected ℓ o) d' ℓ := by
  cases h with
  | busUp hk | busDown hk | disabled hk | draw hk | draw2 hk =>
    simp only [injected_nil, injected_returned, List.append_nil]
    apply hc.setInject hk
    rfl
  | @drop count ℓ₀ val b' hk he =>
    have hc' : Converging n₀ v₀ vals { d with statDrops := d.statDrops + 1 } ℓ := by
      apply hc.frame
      · exact ⟨_, _, _, rfl⟩
      · rfl
      · exact fun w => Or.inl rfl
    rw [injected_returned, List.append_nil]
    exact @Converging.setInject n₀ v₀ vals _ ℓ k ⟨count, .gated ℓ₀ val⟩ none hc' hk rfl
  | @snapshot count ℓ₀ val b' hk he =>
    have hpc := dispatch_gen? count ℓ₀ ℓ d.attrs.latencyNs d.attrs.jitterNs
    by_cases hl : ℓ = ℓ₀
    · subst hl
      have hsnap := hc.snapshot val hf
      have hi : injected ℓ [.snapshot ℓ ((d.lines ℓ).snapGen + 1) val] = [val] := by simp [injected, Obs.snapVal?]
      rw [hi]
      exact @Converging.setInject n₀ v₀ _ _ ℓ k ⟨count, .gated ℓ val⟩ _ hsnap hk hpc
    · have hi : injected ℓ [.snapshot ℓ₀ ((d.lines ℓ₀).snapGen + 1) val] = [] := by
        simp [injected, Obs.snapVal?, Ne.symm hl]
      rw [hi, List.append_nil]
      have hc' : Converging n₀ v₀ vals (takeSnapshot d ℓ₀ val) ℓ := hc.setLine hl
      exact @Converging.setInject n₀ v₀ vals _ ℓ k ⟨count, .gated ℓ₀ val⟩ _ hc' hk hpc
  | @apply count ℓ₀ pc b' e pc' o hk ha hpc =>
    rw [ha.injected, List.append_nil]
    exact ha.converging_inject hc hb hk (by simp [applyPc]) (fun hl => by simp [applyPc, Ne.symm hl])
  | @applied count ℓ₀ pc b' e o hk ha =>
    have hi : injected ℓ (o ++ [.returned k (.ok count)]) = [] := by
      rw [injected_append, ha.injected]
      rfl
    rw [hi, List.append_nil]
    exact ha.converging_inject hc hb hk rfl (fun _ => rfl)
  | @arm count ℓ₀ delayNs hk =>
    have hc' := hc.setTimer ℓ₀ (some delayNs) (d.lines ℓ₀).workQueued (Or.inl rfl)
    rw [injected_returned, List.append_nil]
    exact @Converging.setInject n₀ v₀ vals _ ℓ k ⟨count, .arm ℓ₀ delayNs⟩ none hc' hk rfl

theorem WorkStep.converging (h : WorkStep b d ℓ' b' d' o) (hc : Converging n₀ v₀ vals d ℓ)
    (hb : vals.length < 2 ^ 32) : Converging n₀ v₀ (vals ++ injected ℓ o) d' ℓ := by
  cases h with
  | @apply e pc' o ha =>
    rw [ha.injected, List.append_nil]
    by_cases hl : ℓ = ℓ'
    · subst hl
      have hset := applyOf_setLine e ℓ ℓ { e.lines ℓ with work := pc' }
      rw [if_pos rfl, ha.frame.applyOf] at hset
      exact ha.converging (e := e.setLine ℓ { e.lines ℓ with work := pc' }) (w := none) hc hb rfl ⟨pc', by simp⟩
        ha.frame.notifier hset
    · exact (ha.converging_other hl hc).setLine hl

theorem Converging.call {inj : Option Inject} (hc : Converging n₀ v₀ vals d ℓ) (hp : (applyPc ℓ inj).gen? = none) :
    Converging n₀ v₀ vals (d.call inj) ℓ := by
  apply hc.frame
  · exact ⟨_, _, _, rfl⟩
  · rfl
  · intro w
    rw [applyOf_call]
    by_cases hw : w = some d.injects.length
    · subst hw
      rw [Function.update_self]
      exact .inr (inFlight_of_gen? hp)
    · rw [Function.update_of_ne hw]
      exact .inl rfl

theorem setValue_input {line : Line} (hi : line.isOutput = false) (value : Bool) : setValue line value = line := by
  simp [setValue, hi]

theorem Converging.same (hc : Converging n₀ v₀ vals d ℓ) {line : Line} (hline : ℓ = ℓ' → line = d.lines ℓ) :
    Converging n₀ v₀ vals (d.setLine ℓ' line) ℓ := by
  by_cases hl : ℓ = ℓ'
  · subst hl
    rw [hline rfl]
    exact hc.setTimer ℓ (d.lines ℓ).delayTimer (d.lines ℓ).workQueued (.inl rfl)
  · exact hc.setLine hl

theorem DevStep.converging {a : Act} (h : DevStep d a d' o) (hc : Converging n₀ v₀ vals d ℓ)
    (ha : disturbs ℓ a = false) : Converging n₀ v₀ (vals ++ injected ℓ o) d' ℓ := by
  have hsilent : injected ℓ o = [] := by cases h <;> rfl
  rw [hsilent, List.append_nil]
  cases h with
  | cancelTimer hn | cancelWork hn | critical hn =>
    rw [hc.reset] at hn
    cases hn
  | rejected | parsed =>
    apply hc.call
    rfl
  | @timerExpire ℓ₀ => exact hc.setTimer ℓ₀ none true (.inl rfl)
  | @workStart ℓ₀ => exact hc.setTimer ℓ₀ (d.lines ℓ₀).delayTimer false (.inr rfl)
  | directionInput =>
    apply hc.same
    rintro rfl
    rw [← hc.input]
  | @directionOutput ℓ₀ value =>
    have hl : ℓ ≠ ℓ₀ := by
      rintro rfl
      simp [disturbs] at ha
    exact hc.setLine hl
  | set =>
    apply hc.same
    rintro rfl
    exact setValue_input hc.input _
  | @setMultiple mask bits =>
    have hline : (if mask.testBit ℓ then setValue (d.lines ℓ) (bits.testBit ℓ) else d.lines ℓ) = d.lines ℓ := by
      rw [setValue_input hc.input, ite_self]
    apply hc.frame
    · exact ⟨_, _, _, hline⟩
    · rfl
    · intro w
      left
      cases w with
      | none => exact congrArg Line.work hline
      | some k => rfl
  | attrStore | resetStore => exact hc.frame ⟨_, _, _, rfl⟩ rfl (fun w => .inl rfl)
  | reset => simp [disturbs] at ha
  | refused => exact hc

end

theorem machine_converging {n₀ : ℕ} {v₀ : UInt8} {vals : List UInt8} {s t : Sys} {a : Act} {o : List Obs}
    {ℓ : Fin LINES} (h : machine s a = some (t, o)) (ha : Calm ℓ s a) (hc : Converging n₀ v₀ vals s.dev ℓ)
    (hb : vals.length < 2 ^ 32) : Converging n₀ v₀ (vals ++ injected ℓ o) t.dev ℓ := by
  obtain ⟨k, hiFirst, -, hi⟩ | ⟨ℓ', -, hw⟩ | ⟨b, -, -, hd, rfl⟩ | ⟨-, hd⟩ := machine_cases h
  · exact hi.converging hc hb ha.1
  · exact hw.converging hc hb
  · simpa [hd] using hc
  · exact hd.converging hc ha.2

theorem converging_run {s₀ s : Sys} {os : List Obs} {ℓ : Fin LINES} (h₀ : Settled s₀.dev ℓ)
    (h : Run machine (Calm ℓ) s₀ os s) (hb : (injected ℓ os).length < 2 ^ 32) :
    Converging (s₀.dev.lines ℓ).snapGen (s₀.dev.lines ℓ).value (injected ℓ os) s.dev ℓ := by
  have hinv : (injected ℓ os).length < 2 ^ 32 →
      Converging (s₀.dev.lines ℓ).snapGen (s₀.dev.lines ℓ).value (injected ℓ os) s.dev ℓ := by
    apply h.history (fun os s => (injected ℓ os).length < 2 ^ 32 →
      Converging (s₀.dev.lines ℓ).snapGen (s₀.dev.lines ℓ).value (injected ℓ os) s.dev ℓ)
    · intro _
      have hq := quiescent_of_not_outstanding h₀.quiescent
      constructor
      · exact h₀.input
      · exact hq.reset
      · simp
      · exact Nat.le_of_eq h₀.applied.symm
      · exact Nat.le_of_eq h₀.applied
      · exact fun _ => rfl
      · simp
      · simp
      · intro w
        rw [hq.applyOf w]
        trivial
    · intro os t a u o hi ha hm hlen
      rw [injected_append, List.length_append] at hlen
      rw [injected_append]
      exact machine_converging hm ha (hi (by omega)) (by omega)
  exact hinv hb

theorem no_lost_dispatch :
    (∀ os s ℓ, Run machine Always start os s →
      sameGen (s.dev.lines ℓ).snapGen (s.dev.lines ℓ).applyGen = false → Outstanding s.dev ℓ) ∧
    (∀ s₀ os s ℓ, Settled s₀.dev ℓ → Run machine (Calm ℓ) s₀ os s → (injected ℓ os).length < 2 ^ 32 →
      ¬Outstanding s.dev ℓ → (s.dev.lines ℓ).value = ((injected ℓ os).getLast?).getD (s₀.dev.lines ℓ).value) := by
  constructor
  · intro os s ℓ h hs
    by_contra hout
    have hlive : Live s.dev ℓ := live_run h (.applied rfl)
    have := hlive.sameGen_of_quiescent (quiescent_of_not_outstanding hout)
    simp [hs] at this
  · intro s₀ os s ℓ h₀ h hb hout
    have hq := quiescent_of_not_outstanding hout
    have hc := converging_run h₀ h hb
    have hlive : Live s.dev ℓ := live_run h (.applied (by rw [h₀.applied]; simp [sameGen]))
    have hview := sameGen_eq_true.mp (hlive.sameGen_of_quiescent hq)
    have hsnap := hc.snap
    have heq : (s.dev.lines ℓ).applyGen = (s.dev.lines ℓ).snapGen := by
      apply view_inj hc.applied_ge hc.applied_le
      · omega
      · exact hview
    cases hlast : (injected ℓ os).getLast? with
    | none =>
      rw [List.getLast?_eq_none_iff] at hlast
      exact hc.untouched hlast
    | some v =>
      have hne : injected ℓ os ≠ [] := by
        intro hnil
        simp [hnil] at hlast
      rw [hc.value hne heq, (hc.newest v hlast).1]
      rfl

theorem no_lost_dispatch_two_injects : ∃ os s, Run machine (Calm 0) start os s ∧ injected 0 os = [1, 0] ∧
    (s.dev.lines 0).value = 0 := by
  obtain ⟨os, s, hrun, hi, hq⟩ := Run.exists_of_exec (M := machine) (P := Calm 0) (s := start)
    [.attrStore .latencyNs [53], .injectStore [48, 58, 49], .inject 0 true, .inject 0 true, .inject 0 true,
      .timerExpire 0, .injectStore [48, 58, 48], .inject 1 true, .inject 1 true, .workStart 0, .work 0, .inject 1 true,
      .work 0, .timerExpire 0, .workStart 0, .work 0]
    (fun os s => injected 0 os = [1, 0] ∧ ¬Outstanding s.dev 0) (by decide +kernel)
  have hvalue := no_lost_dispatch.2 start os s 0 ⟨by decide, rfl, rfl⟩ hrun (by simp [hi]) hq
  rw [hi] at hvalue
  exact ⟨os, s, hrun, hi, hvalue⟩

end VirtRtLab.Gpio
