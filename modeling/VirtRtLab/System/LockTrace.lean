import VirtRtLab.Gpio.Effort
import VirtRtLab.Gpio.FaultFree
import VirtRtLab.System.Locking
import VirtRtLab.Uart.Steps

/-!
What the calls of the device models do to the locks, access by access, is a path of the function in the lock model.
-/

namespace VirtRtLab.Locking

open LockOrder Transition

section Uart

variable {b b' : Core.Bus} {d d' : Uart.Dev} {o : List Uart.Obs}

def txAccess (i : ℕ) (d : Uart.Dev) : Ops :=
  match d.txWork with
  | .entered => locked (.tx i) []
  | .counted _ => locked (.uart i) []
  | .gates _ snap => if snap.attrs.enabled && snap.attrs.dropRatePpm ≠ 0 then nextPrngU32 else []
  | .flip _ snap => if snap.attrs.bitflipRatePpm = 0 then [] else nextPrngU32
  | .flipBit _ _ _ | .jitter _ _ | .jitter2 _ _ _ => nextPrngU32
  | .deliver burst _ => locked (.rx i) [] ++ if d.rxFifo.room burst = 0 then [] else wakeUp i
  | _ => []

def txDeliver (i : ℕ) (p : TxPath) : Ops := locked (.rx i) [] ++ if p.written then wakeUp i else []

def txRearm (p : TxPath) : Ops := if p.more && p.jitter then nextPrngU32 ++ nextPrngU32 else []

def txRest (i : ℕ) (p : TxPath) : Uart.TxPc → Ops
  | .entered => locked (.tx i) [] ++
      if !p.burst then [] else locked (.uart i) [] ++ (txFaults p (txDeliver i p) ++ txRearm p)
  | .dequeued _ | .counted _ => locked (.uart i) [] ++ (txFaults p (txDeliver i p) ++ txRearm p)
  | .gates _ _ => txFaults p (txDeliver i p) ++ txRearm p
  | .flip _ _ =>
    (if p.flipRate then nextPrngU32 ++ (if p.flipped then nextPrngU32 else []) else []) ++ txDeliver i p ++ txRearm p
  | .flipBit _ _ _ => nextPrngU32 ++ txDeliver i p ++ txRearm p
  | .deliver _ _ => txDeliver i p ++ txRearm p
  | .drop _ _ | .overrun _ _ _ | .rearm _ _ => txRearm p
  | .jitter _ _ => nextPrngU32 ++ nextPrngU32
  | .jitter2 _ _ _ => nextPrngU32
  | .arm _ | .idle => []

theorem txAccess_rest (i : ℕ) (p : TxPath) (h : Uart.WorkStep b d b' d' o) :
    ∃ q, txAccess i d ++ txRest i p d'.txWork = txRest i q d.txWork := by
  cases h with
  | nothing hpc => exact ⟨{ p with burst := false }, by simp [txAccess, txRest, hpc]⟩
  | dequeue hpc => exact ⟨{ p with burst := true }, by simp [txAccess, txRest, txFaults, txDeliver, txRearm, hpc]⟩
  | count hpc | snap hpc | drop hpc | overrun hpc | draw hpc | draw2 hpc | arm hpc | flipBit hpc =>
    exact ⟨p, by simp [txAccess, txRest, hpc]⟩
  | disabled hpc he => exact ⟨{ p with enabled := false }, by simp [txAccess, txRest, txFaults, txRearm, hpc, he]⟩
  | noDropRate hpc he hr =>
    refine ⟨{ p with enabled := true, dropRate := false }, ?_⟩
    simp [txAccess, txRest, txFaults, txDeliver, txRearm, hpc, hr]
  | dropFires hpc he hr =>
    refine ⟨{ p with enabled := true, dropRate := true, dropped := true }, ?_⟩
    simp [txAccess, txRest, txFaults, txRearm, hpc, he, hr]
  | dropSpares hpc he hr =>
    refine ⟨{ p with enabled := true, dropRate := true, dropped := false }, ?_⟩
    simp [txAccess, txRest, txFaults, txDeliver, txRearm, hpc, he, hr]
  | noFlipRate hpc hr =>
    refine ⟨{ p with flipRate := false }, ?_⟩
    simp [txAccess, txRest, txDeliver, txRearm, hpc, hr]
  | flipFires hpc hr =>
    refine ⟨{ p with flipRate := true, flipped := true }, ?_⟩
    simp [txAccess, txRest, txDeliver, txRearm, hpc, hr]
  | flipSpares hpc hr =>
    refine ⟨{ p with flipRate := true, flipped := false }, ?_⟩
    simp [txAccess, txRest, txDeliver, txRearm, hpc, hr]
  | @deliver burst snap hpc | @deliverPart burst snap hpc =>
    refine ⟨{ p with written := d.rxFifo.room burst ≠ 0 }, ?_⟩
    simp [txAccess, txRest, txDeliver, txRearm, hpc]
  | done hpc => exact ⟨{ p with more := false }, by simp [txAccess, txRest, txRearm, hpc]⟩
  | noJitter hpc => exact ⟨{ p with jitter := false }, by simp [txAccess, txRest, txRearm, hpc]⟩
  | jitter hpc => exact ⟨{ p with more := true, jitter := true }, by simp [txAccess, txRest, txRearm, hpc]⟩

theorem devStep_txWork {a : Uart.Act} (h : Uart.DevStep b d a d' o) (ha : a ≠ .workStart) : d'.txWork = d.txWork := by
  cases h with
  | workStart => exact absurd rfl ha
  | @resetStat k st | @resetZero st => cases st <;> rfl
  | _ => rfl

def txObserver (i : ℕ) : Observer Uart.Sys Uart.Act Uart.Obs Unit (Op Lock) where
  next _ _ _ _ := ()
  shows _ s a _ :=
    match a with
    | .work _ => txAccess i s.dev
    | _ => []

/-- A run of `tx_work`, whatever else happens meanwhile, takes the locks of one path of `txWork`. -/
theorem tx_work_follows {i : ℕ} {s t : Uart.Sys × Unit} {ops : Ops}
    (h : Run (observed Uart.machine (txObserver i)) (fun _ a => a ≠ .workStart) s ops t)
    (he : s.1.dev.txWork = .entered) (hi : t.1.dev.txWork = .idle) :
    ∃ p, locked (.txWork i) ops = txWork i p := by
  have hrest : ∃ p, ops ++ [] = txRest i p s.1.dev.txWork := by
    apply h.follows (fun s r => ∃ p, r = txRest i p s.1.dev.txWork)
    · exact ⟨⟨false, false, false, false, false, false, false, false, false⟩, by rw [hi]; rfl⟩
    · rintro s a t o r ha hm ⟨p, rfl⟩
      obtain ⟨o', hm', -, rfl⟩ := observed_eq_some hm
      rcases Uart.machine_cases hm' with ⟨hiFirst, rfl, hw⟩ | ⟨b, rfl, -, hd, -⟩ | ⟨-, hd⟩
      · obtain ⟨q, hq⟩ := txAccess_rest i p hw
        exact ⟨q, hq⟩
      · exact ⟨p, by rw [hd]; rfl⟩
      · refine ⟨p, ?_⟩
        rw [devStep_txWork hd ha]
        cases a with
        | work hiFirst => exact absurd hd Uart.DevStep.not_work
        | _ => rfl
  obtain ⟨p, hp⟩ := hrest
  refine ⟨p, ?_⟩
  rw [List.append_nil, he] at hp
  rw [hp]
  rfl

end Uart

section Gpio

open Gpio (LINES ApplyPc InjectPc Inject)

variable {b b' : Core.Bus} {d d' : Gpio.Dev} {ℓ : Fin LINES} {pc pc' : ApplyPc} {o : List Gpio.Obs} {j k k' : ℕ} {r : Ops}

def applyAccess (j : ℕ) : ApplyPc → Ops
  | .idle => []
  | .enter | .commit _ _ _ => locked (.gpio j) []
  | .flip _ _ _ => nextPrngU32

def ApplyRest (j : ℕ) : ApplyPc → Ops → Prop
  | .idle, r => r = []
  | .enter, r => ∃ stale flipRate, r = lineApply j stale flipRate
  | .flip _ _ _, r => r = nextPrngU32 ++ locked (.gpio j) []
  | .commit _ _ _, r => r = locked (.gpio j) []

theorem applyAccess_rest (h : Gpio.ApplyStep b d ℓ pc b' d' pc' o) (hr : ApplyRest j pc' r) :
    ApplyRest j pc (applyAccess j pc ++ r) := by
  cases h with
  | stale =>
    cases hr
    exact ⟨true, false, rfl⟩
  | plain =>
    cases hr
    exact ⟨false, false, rfl⟩
  | gate =>
    cases hr
    exact ⟨false, true, rfl⟩
  | flip | giveUp | commit =>
    cases hr
    rfl

def injectAccess (j : ℕ) (d : Gpio.Dev) : InjectPc → Ops
  | .parsed _ _ | .arm _ _ => []
  | .gated _ _ => locked (.gpio j) (if d.attrs.enabled && d.attrs.dropRatePpm ≠ 0 then nextPrngU32 else [])
  | .apply _ pc => applyAccess j pc
  | .jitter _ _ _ | .jitter2 _ _ _ _ => nextPrngU32

def InjectRest (j : ℕ) : InjectPc → Ops → Prop
  | .parsed _ _, r | .gated _ _, r => ∃ p, r = injectStore j p
  | .apply _ pc, r => ApplyRest j pc r
  | .jitter _ _ _, r => r = nextPrngU32 ++ nextPrngU32
  | .jitter2 _ _ _ _, r => r = nextPrngU32
  | .arm _ _, r => r = []

def CallRest (j k : ℕ) (d : Gpio.Dev) (r : Ops) : Prop :=
  match d.injects[k]? with
  | none => ∃ p, r = injectStore j p
  | some none => r = []
  | some (some inj) => InjectRest j inj.pc r

theorem callRest_setInject {e : Gpio.Dev} {inj : Inject} {x : Option Inject} (hk : d.inject? k = some inj)
    (he : e.injects = d.injects) (hr : CallRest j k (e.setInject k x) r) :
    match x with
      | none => r = []
      | some inj => InjectRest j inj.pc r := by
  have hlt : k < e.injects.length := by
    by_contra hge
    rw [he] at hge
    simp [Gpio.Dev.inject?, List.getElem?_eq_none (Nat.not_lt.mp hge)] at hk
  simp only [CallRest, Gpio.Dev.setInject, List.getElem?_set_self hlt] at hr
  cases x <;> exact hr

theorem callRest_of_injects (h : d'.injects[k]? = d.injects[k]?) (hr : CallRest j k d' r) : CallRest j k d r := by
  rw [CallRest, h] at hr
  exact hr

theorem dispatch_rest {latencyNs jitterNs : UInt64} (dropRate : Bool)
    (hr : InjectRest j (Gpio.dispatch ℓ latencyNs jitterNs) r) :
    ∃ p, locked (.gpio j) (if dropRate then nextPrngU32 else []) ++ r = injectStore j p := by
  unfold Gpio.dispatch at hr
  split at hr
  · obtain ⟨stale, flipRate, rfl⟩ := hr
    exact ⟨.immediate dropRate stale flipRate, rfl⟩
  · split at hr <;> cases hr
    · exact ⟨.delayed dropRate false, rfl⟩
    · exact ⟨.delayed dropRate true, rfl⟩

theorem gated_rest {count : ℕ} {val : UInt8} {hiFirst : Bool} (hk : d.inject? k = some ⟨count, .gated ℓ val⟩)
    (h : Gpio.stepInject b d k hiFirst = some (b', d', o)) (hr : CallRest j k d' r) :
    ∃ p, injectAccess j d (.gated ℓ val) ++ r = injectStore j p := by
  simp only [Gpio.stepInject, hk] at h
  cases he : d.attrs.enabled with
  | false =>
    simp only [he, Bool.not_false, ↓reduceIte] at h
    cases h
    cases callRest_setInject hk rfl hr
    exact ⟨.disabled, by simp [injectAccess, injectStore, he]⟩
  | true =>
    simp only [he, Bool.not_true, Bool.false_eq_true, ↓reduceIte] at h
    split at h <;> cases h
    · rename_i hdrop
      cases callRest_setInject hk rfl hr
      simp only [ne_eq, Bool.and_eq_true, decide_eq_true_eq] at hdrop
      exact ⟨.dropped, by simp [injectAccess, injectStore, he, hdrop.1]⟩
    · simp only [injectAccess, he, Bool.true_and]
      exact dispatch_rest _ (callRest_setInject hk rfl hr)

theorem injectAccess_rest {inj : Inject} {hiFirst : Bool} (hk : d.inject? k = some inj)
    (h : Gpio.stepInject b d k hiFirst = some (b', d', o)) (hr : CallRest j k d' r) :
    InjectRest j inj.pc (injectAccess j d inj.pc ++ r) := by
  obtain ⟨count, pc⟩ := inj
  cases pc with
  | parsed ℓ val =>
    simp only [Gpio.stepInject, hk] at h
    split at h <;> cases h
    · exact callRest_setInject hk rfl hr
    · cases callRest_setInject hk rfl hr
      exact ⟨.refused, rfl⟩
  | gated ℓ val => exact gated_rest hk h hr
  | apply ℓ pc =>
    simp only [Gpio.stepInject, hk] at h
    split at h
    · cases h
    · rename_i ha
      cases h
      have hstep := Gpio.stepApply_cases ha
      apply applyAccess_rest hstep
      exact callRest_setInject hk hstep.injects hr
    · rename_i ha
      cases h
      have hstep := Gpio.stepApply_cases ha
      apply applyAccess_rest hstep
      exact callRest_setInject hk hstep.injects hr
  | jitter ℓ latencyNs jitterNs =>
    simp only [Gpio.stepInject, hk] at h
    cases h
    cases callRest_setInject hk rfl hr
    rfl
  | jitter2 ℓ latencyNs jitterNs first =>
    simp only [Gpio.stepInject, hk] at h
    cases h
    cases callRest_setInject hk rfl hr
    rfl
  | arm ℓ delayNs =>
    simp only [Gpio.stepInject, hk] at h
    cases h
    cases callRest_setInject hk rfl hr
    rfl

theorem injectStep_other (h : Gpio.InjectStep b d k' b' d' o) (hk : k' ≠ k) : d'.injects[k]? = d.injects[k]? := by
  have hset : ∀ (e : Gpio.Dev) x, e.injects = d.injects → (e.setInject k' x).injects[k]? = d.injects[k]? := by
    intro e x he
    rw [← he]
    exact List.getElem?_set_ne hk
  cases h with
  | apply hk' ha | applied hk' ha => exact hset _ _ ha.injects
  | _ => exact hset _ _ rfl

theorem workStep_injects (h : Gpio.WorkStep b d ℓ b' d' o) : d'.injects = d.injects := by
  obtain ⟨ha⟩ := h
  have hsame := ha.injects
  exact hsame

theorem devStep_not_inject {hiFirst : Bool} : ¬ Gpio.DevStep d (.inject k hiFirst) d' o := by
  intro h
  cases h with
  | refused ha => cases ha

theorem devStep_not_work : ¬ Gpio.DevStep d (.work ℓ) d' o := by
  intro h
  cases h with
  | refused ha => cases ha

theorem devStep_injects {a : Gpio.Act} (h : Gpio.DevStep d a d' o) :
    d'.injects = d.injects ∨ d'.injects = d.injects ++ [none] ∨
      ∃ count ℓ val, d'.injects = d.injects ++ [some ⟨count, .parsed ℓ val⟩] := by
  cases h with
  | rejected => exact .inr (.inl rfl)
  | parsed => exact .inr (.inr ⟨_, _, _, rfl⟩)
  | _ => exact .inl rfl

theorem callRest_append {x : Option Inject} (h : d'.injects = d.injects ++ [x]) (hr : CallRest j k d' r)
    (hx : (match x with
      | none => r = []
      | some inj => InjectRest j inj.pc r) → ∃ p, r = injectStore j p) : CallRest j k d r := by
  rcases lt_trichotomy k d.injects.length with hlt | rfl | hgt
  · apply callRest_of_injects _ hr
    rw [h, List.getElem?_append_left hlt]
  · simp only [CallRest, h, List.getElem?_concat_length] at hr
    simp only [CallRest, List.getElem?_eq_none (Nat.le_refl _)]
    apply hx
    cases x <;> exact hr
  · apply callRest_of_injects _ hr
    rw [h, List.getElem?_eq_none (by simp; omega), List.getElem?_eq_none (by omega)]

def injectObserver (j k : ℕ) : Observer Gpio.Sys Gpio.Act Gpio.Obs Unit (Op Lock) where
  next _ _ _ _ := ()
  shows _ s a _ :=
    match a with
    | .inject k' _ => if k' = k then (s.dev.inject? k).elim [] (fun inj => injectAccess j s.dev inj.pc) else []
    | _ => []

theorem inject_rest {s t : Gpio.Sys × Unit} {o : List Gpio.Obs} {hiFirst : Bool}
    (hm : Gpio.machine s.1 (.inject k hiFirst) = some (t.1, o)) (hr : CallRest j k t.1.dev r) :
    CallRest j k s.1.dev ((injectObserver j k).shows s.2 s.1 (.inject k hiFirst) (t.1, o) ++ r) := by
  obtain ⟨⟨b', d', o'⟩, hstep, ht⟩ := Option.map_eq_some_iff.mp hm
  simp only [Prod.mk.injEq] at ht
  obtain ⟨ht, -⟩ := ht
  rw [← ht] at hr
  simp only [injectObserver, if_true]
  cases hk : s.1.dev.inject? k with
  | none => simp [Gpio.stepInject, hk] at hstep
  | some inj =>
    rw [CallRest, Option.join_eq_some_iff.mp hk]
    exact injectAccess_rest hk hstep hr

theorem inject_store_follows {s t : Gpio.Sys × Unit} {ops : Ops}
    (h : Run (observed Gpio.machine (injectObserver j k)) Always s ops t) (hs : s.1.dev.injects.length ≤ k)
    (ht : t.1.dev.injects[k]? = some none) : ∃ p, ops = injectStore j p := by
  have hrest : CallRest j k s.1.dev (ops ++ []) := by
    apply h.follows (fun s r => CallRest j k s.1.dev r)
    · rw [CallRest, ht]
    · rintro s a t o r - hm hr
      obtain ⟨o', hm', -, rfl⟩ := observed_eq_some hm
      rcases Gpio.machine_cases hm' with ⟨k', hiFirst, rfl, hi⟩ | ⟨ℓ, rfl, hw⟩ | ⟨b, rfl, -, hd, -⟩ | ⟨-, hd⟩
      · by_cases hk : k' = k
        · subst hk
          exact inject_rest hm' hr
        · simp only [injectObserver, if_neg hk]
          exact callRest_of_injects (injectStep_other hi hk) hr
      · apply callRest_of_injects _ hr
        rw [workStep_injects hw]
      · rw [hd] at hr
        exact hr
      · have hshows : (injectObserver j k).shows s.2 s.1 a (t.1, o') = [] := by
          cases a with
          | inject k' hiFirst => exact absurd hd devStep_not_inject
          | _ => rfl
        rw [hshows]
        rcases devStep_injects hd with hsame | hcall | ⟨count, ℓ, val, hcall⟩
        · apply callRest_of_injects _ hr
          rw [hsame]
        · exact callRest_append hcall hr (fun h => ⟨.refused, h⟩)
        · exact callRest_append hcall hr id
  rw [List.append_nil, CallRest, List.getElem?_eq_none hs] at hrest
  exact hrest

theorem applyStep_work {ℓ' : Fin LINES} (h : Gpio.ApplyStep b d ℓ' pc b' d' pc' o) :
    (d'.lines ℓ).work = (d.lines ℓ).work := by
  have hf := h.frame
  by_cases hl : ℓ = ℓ'
  · obtain ⟨gen, value, he⟩ := hf.line
    rw [hl, he]
  · rw [hf.other ℓ hl]

theorem setLine_work {ℓ' : Fin LINES} {line : Gpio.Line} (h : line.work = (d.lines ℓ').work) :
    ((d.setLine ℓ' line).lines ℓ).work = (d.lines ℓ).work := by
  by_cases hl : ℓ = ℓ'
  · subst hl
    simpa using h
  · simp [hl]

theorem injectStep_work (h : Gpio.InjectStep b d k b' d' o) : (d'.lines ℓ).work = (d.lines ℓ).work := by
  cases h with
  | apply _ ha | applied _ ha =>
    rw [Gpio.setInject_lines]
    exact applyStep_work ha
  | snapshot | arm => exact setLine_work rfl
  | _ => rfl

theorem devStep_work {a : Gpio.Act} (h : Gpio.DevStep d a d' o) (ha : a ≠ .workStart ℓ) :
    (d'.lines ℓ).work = (d.lines ℓ).work := by
  cases h with
  | @workStart ℓ' =>
    have hl : ℓ ≠ ℓ' := fun he => ha (by rw [he])
    simp [hl]
  | timerExpire | directionInput | directionOutput | cancelTimer | cancelWork => exact setLine_work rfl
  | set => exact setLine_work (Gpio.setValue_work _ _)
  | setMultiple =>
    dsimp only
    split
    · exact Gpio.setValue_work _ _
    · rfl
  | _ => rfl

theorem work_rest (h : Gpio.WorkStep b d ℓ b' d' o) (hr : ApplyRest j (d'.lines ℓ).work r) :
    ApplyRest j (d.lines ℓ).work (applyAccess j (d.lines ℓ).work ++ r) := by
  obtain ⟨ha⟩ := h
  rw [Gpio.setLine_lines, Function.update_self] at hr
  exact applyAccess_rest ha hr

theorem workStep_other {ℓ' : Fin LINES} (h : Gpio.WorkStep b d ℓ' b' d' o) (hl : ℓ ≠ ℓ') :
    (d'.lines ℓ).work = (d.lines ℓ).work := by
  obtain ⟨ha⟩ := h
  rw [Gpio.setLine_lines, Function.update_of_ne hl]
  exact applyStep_work ha

def applyObserver (j : ℕ) (ℓ : Fin LINES) : Observer Gpio.Sys Gpio.Act Gpio.Obs Unit (Op Lock) where
  next _ _ _ _ := ()
  shows _ s a _ :=
    match a with
    | .work ℓ' => if ℓ' = ℓ then applyAccess j (s.dev.lines ℓ).work else []
    | _ => []

theorem apply_work_follows {s t : Gpio.Sys × Unit} {ops : Ops}
    (h : Run (observed Gpio.machine (applyObserver j ℓ)) (fun _ a => a ≠ .workStart ℓ) s ops t)
    (he : (s.1.dev.lines ℓ).work = .enter) (hi : (t.1.dev.lines ℓ).work = .idle) :
    ∃ stale flipRate, locked (.applyWork j ℓ) ops = applyWork j ℓ stale flipRate := by
  have hrest : ApplyRest j (s.1.dev.lines ℓ).work (ops ++ []) := by
    apply h.follows (fun s r => ApplyRest j (s.1.dev.lines ℓ).work r)
    · rw [hi]
      rfl
    · rintro s a t o r ha hm hr
      obtain ⟨o', hm', -, rfl⟩ := observed_eq_some hm
      rcases Gpio.machine_cases hm' with ⟨k', hiFirst, rfl, hj⟩ | ⟨ℓ', rfl, hw⟩ | ⟨b, rfl, -, hd, -⟩ | ⟨-, hd⟩
      · rw [injectStep_work hj] at hr
        exact hr
      · by_cases hl : ℓ' = ℓ
        · subst hl
          simp only [applyObserver, if_true]
          exact work_rest hw hr
        · simp only [applyObserver, if_neg hl]
          rw [workStep_other hw (Ne.symm hl)] at hr
          exact hr
      · rw [hd] at hr
        exact hr
      · rw [devStep_work hd ha] at hr
        have hshows : (applyObserver j ℓ).shows s.2 s.1 a (t.1, o') = [] := by
          cases a with
          | work ℓ' => exact absurd hd devStep_not_work
          | _ => rfl
        rw [hshows]
        exact hr
  rw [List.append_nil, he] at hrest
  obtain ⟨stale, flipRate, rfl⟩ := hrest
  exact ⟨stale, flipRate, rfl⟩

end Gpio

end VirtRtLab.Locking
