import VirtRtLab.Lib.Effort
import VirtRtLab.Gpio.Baseline
import VirtRtLab.Gpio.Dispatch

/-!
How long a GPIO device can be busy with what was injected.
-/

namespace VirtRtLab.Gpio

open Kernel VirtRtLab.Core Transition Effort

def Act.engine : Act → Bool
  | .inject _ _ | .timerExpire _ | .workStart _ | .work _ => true
  | _ => false

def Line.owed (l : Line) : ℕ := l.work.cost + 4 * l.workQueued.toNat + 5 * l.delayTimer.isSome.toNat

def InjectPc.owed : InjectPc → ℕ
  | .parsed _ _ => 10
  | .gated _ _ => 9
  | .jitter _ _ _ => 8
  | .jitter2 _ _ _ _ => 7
  | .arm _ _ => 6
  | .apply _ pc => pc.cost

def Inject.owed : Option Inject → ℕ
  | none => 0
  | some inj => inj.pc.owed

def Dev.owed (d : Dev) : ℕ := (∑ ℓ, (d.lines ℓ).owed) + (d.injects.map Inject.owed).sum

def Sys.owed (s : Sys) : ℕ := s.dev.owed

def wellFormed : Act → Bool
  | .injectStore buf => (parseInject buf).isOk
  | _ => false

def prices : Prices Act Obs where
  counts := Act.engine
  asks a := if wellFormed a then 10 else 0
  shows _ := 0

section

variable {b b' : Bus} {d d' : Dev} {a : Act} {o : List Obs} {ℓ : Fin LINES} {k : ℕ}

theorem owed_setLine (d : Dev) (ℓ : Fin LINES) (line : Line) :
    (d.setLine ℓ line).owed + (d.lines ℓ).owed = d.owed + line.owed := by
  have hsum := sum_update (f := Line.owed) d.lines ℓ line
  have hinjects : (d.setLine ℓ line).injects = d.injects := rfl
  simp only [Dev.owed, setLine_lines, hinjects]
  omega

theorem owed_setLine_lt {line : Line} (h : line.owed < (d.lines ℓ).owed) : (d.setLine ℓ line).owed < d.owed := by
  have hset := owed_setLine d ℓ line
  omega

theorem owed_setLine_le {line : Line} (h : line.owed ≤ (d.lines ℓ).owed) : (d.setLine ℓ line).owed ≤ d.owed := by
  have hset := owed_setLine d ℓ line
  omega

theorem owed_setInject_lt {e : Dev} {inj : Option Inject} {inj' : Inject} (hk : d.inject? k = some inj')
    (he : e.injects = d.injects) (hlt : e.owed + Inject.owed inj < d.owed + inj'.pc.owed) :
    (e.setInject k inj).owed < d.owed := by
  have hget : e.injects[k]? = some (some inj') := by
    rw [he]
    cases hj : d.injects[k]? with
    | none => simp [Dev.inject?, hj] at hk
    | some x => simpa [Dev.inject?, hj] using hk
  have hsum := sum_map_set (f := Inject.owed) hget inj
  have hinjects : (e.setInject k inj).injects = e.injects.set k inj := rfl
  have hsome : Inject.owed (some inj') = inj'.pc.owed := rfl
  simp only [Dev.owed, setInject_lines, hinjects] at hlt ⊢
  omega

theorem owed_call (d : Dev) (inj : Option Inject) : (d.call inj).owed = d.owed + Inject.owed inj := by
  have hlines : (d.call inj).lines = d.lines := rfl
  have hinjects : (d.call inj).injects = d.injects ++ [inj] := rfl
  simp only [Dev.owed, hlines, hinjects, List.map_append, List.map_cons, List.map_nil, List.sum_append, List.sum_cons,
    List.sum_nil]
  omega

theorem owed_congr (hl : ∀ ℓ, (d'.lines ℓ).owed = (d.lines ℓ).owed) (hi : d'.injects = d.injects) :
    d'.owed = d.owed := by
  have hsum : (∑ ℓ, (d'.lines ℓ).owed) = ∑ ℓ, (d.lines ℓ).owed := Finset.sum_congr rfl (fun ℓ _ => hl ℓ)
  simp only [Dev.owed, hsum, hi]

theorem ApplyStep.injects {pc pc' : ApplyPc} (h : ApplyStep b d ℓ pc b' d' pc' o) : d'.injects = d.injects := by
  cases h <;> rfl

theorem ApplyStep.owed {pc pc' : ApplyPc} (h : ApplyStep b d ℓ pc b' d' pc' o) :
    d'.owed = d.owed ∧ (d'.lines ℓ).owed = (d.lines ℓ).owed ∧ (d'.lines ℓ).work = (d.lines ℓ).work := by
  cases h with
  | @commit gen snapVal newVal flipped changed hs hf hc =>
    have hline : (commitLine d ℓ gen snapVal newVal).lines ℓ = { d.lines ℓ with
        applyGen := gen, value := if (d.lines ℓ).isOutput then (d.lines ℓ).value else newVal } :=
      Function.update_self ..
    refine ⟨owed_congr ?_ rfl, by rw [hline]; rfl, by rw [hline]⟩
    intro ℓ'
    by_cases hl : ℓ' = ℓ
    · subst hl
      rw [hline]
      rfl
    · have hother : (commitLine d ℓ gen snapVal newVal).lines ℓ' = d.lines ℓ' := Function.update_of_ne hl ..
      rw [hother]
  | stale | plain | gate | flip | giveUp => exact ⟨rfl, rfl, rfl⟩

theorem owed_takeSnapshot (d : Dev) (ℓ : Fin LINES) (val : UInt8) : (takeSnapshot d ℓ val).owed ≤ d.owed := by
  apply owed_setLine_le
  exact Nat.le_refl _

theorem owed_armed (d : Dev) (ℓ : Fin LINES) (delayNs : UInt64) :
    (d.setLine ℓ { d.lines ℓ with delayTimer := some delayNs }).owed ≤ d.owed + 5 := by
  have hset := owed_setLine d ℓ { d.lines ℓ with delayTimer := some delayNs }
  have hline : ({ d.lines ℓ with delayTimer := some delayNs } : Line).owed ≤ (d.lines ℓ).owed + 5 := by
    simp only [Line.owed, Option.isSome_some, Bool.toNat_true]
    omega
  omega

theorem owed_dispatch (ℓ : Fin LINES) (latencyNs jitterNs : UInt64) : (dispatch ℓ latencyNs jitterNs).owed ≤ 8 := by
  unfold dispatch
  split
  · exact Nat.le_add_left 3 5
  · split
    · exact Nat.le_add_left 6 2
    · exact Nat.le_refl 8

theorem InjectStep.owed (h : InjectStep b d k b' d' o) : d'.owed < d.owed := by
  cases h with
  | busUp hk =>
    apply owed_setInject_lt hk rfl
    exact Nat.lt_succ_self (d.owed + 9)
  | busDown hk | disabled hk =>
    apply owed_setInject_lt hk rfl
    simp only [Inject.owed, InjectPc.owed]
    omega
  | drop hk he =>
    have hsame : ({ d with statDrops := d.statDrops + 1 } : Dev).owed = d.owed := owed_congr (fun _ => rfl) rfl
    apply owed_setInject_lt (e := { d with statDrops := d.statDrops + 1 }) hk rfl
    rw [hsame]
    exact Nat.lt_add_of_pos_right (Nat.succ_pos 8)
  | @snapshot count ℓ val b' hk he =>
    have hnew := owed_dispatch ℓ d.attrs.latencyNs d.attrs.jitterNs
    have hsnap := owed_takeSnapshot d ℓ val
    apply owed_setInject_lt (e := takeSnapshot d ℓ val) hk rfl
    have hold : (InjectPc.gated ℓ val).owed = 9 := rfl
    simp only [Inject.owed, hold]
    omega
  | apply hk ha hpc =>
    have hcost := ha.cost
    have hsame := ha.owed.1
    apply owed_setInject_lt hk ha.injects
    simp only [Inject.owed, InjectPc.owed]
    omega
  | applied hk ha =>
    have hcost := ha.cost
    have hsame := ha.owed.1
    apply owed_setInject_lt hk ha.injects
    simp only [Inject.owed, InjectPc.owed]
    omega
  | draw hk =>
    apply owed_setInject_lt hk rfl
    exact Nat.lt_succ_self (d.owed + 7)
  | draw2 hk =>
    apply owed_setInject_lt hk rfl
    exact Nat.lt_succ_self (d.owed + 6)
  | @arm count ℓ delayNs hk =>
    have harmed := owed_armed d ℓ delayNs
    apply owed_setInject_lt (e := d.setLine ℓ { d.lines ℓ with delayTimer := some delayNs }) hk rfl
    have hold : (InjectPc.arm ℓ delayNs).owed = 6 := rfl
    have hnone : Inject.owed none = 0 := rfl
    rw [hold, hnone]
    exact Nat.lt_succ_of_le harmed

theorem WorkStep.owed (h : WorkStep b d ℓ b' d' o) : d'.owed < d.owed := by
  cases h with
  | @apply e pc' o ha =>
    obtain ⟨hsame, hline, hwork⟩ := ha.owed
    have hcost := ha.cost
    rw [← hsame]
    apply owed_setLine_lt
    simp only [Line.owed, hwork]
    omega

theorem paid_of_lt {s t : Sys} (hlt : t.owed < s.owed) : Paid prices Sys.owed s a t o := by
  have hone := Bool.toNat_le (prices.counts a)
  unfold Paid
  omega

theorem DevStep.paid (h : DevStep d a d' o) : Paid prices Sys.owed ⟨b, d⟩ a ⟨b', d'⟩ o := by
  have hless (hle : d'.owed ≤ d.owed) (ha : a.engine = false) : Paid prices Sys.owed ⟨b, d⟩ a ⟨b', d'⟩ o := by
    unfold Paid Sys.owed
    simp only [prices, ha, Bool.toNat_false]
    omega
  cases h with
  | refused ha => exact .of_eq rfl (by cases a <;> first | rfl | cases ha)
  | @rejected buf e hp =>
    apply hless _ rfl
    exact (owed_call d none).le
  | @parsed buf ℓ val hp =>
    have hcall : (d.call (some ⟨buf.length, .parsed ℓ val⟩)).owed = d.owed + 10 := owed_call d _
    have hwell : wellFormed (.injectStore buf) = true := by simp [wellFormed, hp, Except.isOk, Except.toBool]
    simp only [Paid, Sys.owed, prices, hwell, hcall, Act.engine, Bool.toNat_false, ↓reduceIte]
    omega
  | timerExpire ht =>
    apply paid_of_lt
    apply owed_setLine_lt
    simp only [Line.owed, ht, Option.isSome_none, Bool.toNat_true, Bool.toNat_false]
    omega
  | workStart hq hw =>
    apply paid_of_lt
    apply owed_setLine_lt
    simp only [Line.owed, hq, hw, ApplyPc.cost, Bool.toNat_true, Bool.toNat_false]
    omega
  | directionInput | directionOutput =>
    apply hless _ rfl
    apply owed_setLine_le
    exact Nat.le_refl _
  | @set ℓ value =>
    apply hless _ rfl
    apply owed_setLine_le
    obtain ⟨value', isOutput', hv⟩ := setValue_line (d.lines ℓ) (value ≠ 0)
    rw [hv]
    exact Nat.le_refl _
  | @setMultiple mask bits =>
    apply hless _ rfl
    apply Nat.le_of_eq
    refine owed_congr (fun ℓ => ?_) rfl
    obtain ⟨value', isOutput', hv⟩ := setMultiple_line (d.lines ℓ) (mask.testBit ℓ) (bits.testBit ℓ)
    dsimp only
    rw [hv]
    rfl
  | attrStore | resetStore | reset => exact .of_eq rfl rfl
  | cancelTimer hn =>
    apply hless _ rfl
    apply owed_setLine_le
    simp only [Line.owed, Option.isSome_none, Bool.toNat_false]
    omega
  | cancelWork hn hw =>
    apply hless _ rfl
    apply owed_setLine_le
    simp only [Line.owed, Bool.toNat_false]
    omega
  | critical hn =>
    apply hless _ rfl
    apply Nat.le_of_eq
    exact owed_congr (fun _ => rfl) rfl

end

theorem machine_paid {s t : Sys} {a : Act} {o : List Obs} (h : machine s a = some (t, o)) :
    Paid prices Sys.owed s a t o := by
  obtain ⟨k, hiFirst, -, hi⟩ | ⟨ℓ, -, hw⟩ | ⟨x, rfl, -, hd, -⟩ | ⟨-, hd⟩ := machine_cases h
  · exact paid_of_lt hi.owed
  · exact paid_of_lt hw.owed
  · refine .of_eq ?_ rfl
    simp only [Sys.owed, hd]
  · exact hd.paid

theorem asks_eq (as : List Act) : (as.map prices.asks).sum = 10 * as.countP wellFormed := by
  induction as with
  | nil => rfl
  | cons a as ih =>
    have hcons : prices.asks a = if wellFormed a then 10 else 0 := rfl
    rw [List.map_cons, List.sum_cons, ih, List.countP_cons, hcons]
    split
    · omega
    · omega

theorem stepApply_enabled (b : Bus) (d : Dev) (ℓ : Fin LINES) {pc : ApplyPc} (h : pc ≠ .idle) :
    ∃ r, stepApply b d ℓ pc = some r := by
  cases pc with
  | idle => exact absurd rfl h
  | enter =>
    simp only [stepApply]
    split
    · exact ⟨_, rfl⟩
    · split
      · exact ⟨_, rfl⟩
      · exact ⟨_, rfl⟩
  | flip gen snapVal bitflipPpm => exact ⟨_, rfl⟩
  | commit gen snapVal newVal =>
    simp only [stepApply]
    split
    · exact ⟨_, rfl⟩
    · exact ⟨_, rfl⟩

theorem stepInject_enabled (b : Bus) (d : Dev) (k : ℕ) {ℓ : Fin LINES} (h : injecting ℓ (d.inject? k) = true)
    (hpc : ∀ inj, d.inject? k = some inj → ∀ ℓ', inj.pc ≠ .apply ℓ' .idle) :
    ∃ r, stepInject b d k true = some r := by
  unfold stepInject
  split
  · rename_i hk
    rw [hk] at h
    cases h
  · split
    · exact ⟨_, rfl⟩
    · exact ⟨_, rfl⟩
  · split
    · exact ⟨_, rfl⟩
    · dsimp only
      split
      · exact ⟨_, rfl⟩
      · exact ⟨_, rfl⟩
  · rename_i count ℓ' pc hk
    have hne : pc ≠ .idle := by
      rintro rfl
      exact hpc _ hk ℓ' rfl
    obtain ⟨⟨b', d', pc', o⟩, hr⟩ := stepApply_enabled b d ℓ' hne
    rw [hr]
    cases pc' with
    | idle => exact ⟨_, rfl⟩
    | _ => exact ⟨_, rfl⟩
  · exact ⟨_, rfl⟩
  · exact ⟨_, rfl⟩
  · exact ⟨_, rfl⟩

-- an `inject_store` that applies at once ends with its `virtrtlab_gpio_line_apply`
def InjectPc.Running (pc : InjectPc) : Prop := ∀ ℓ, pc ≠ .apply ℓ .idle

theorem machine_running {s t : Sys} {a : Act} {o : List Obs} (h : machine s a = some (t, o))
    (hs : s.dev.Each (fun _ => True) InjectPc.Running) : t.dev.Each (fun _ => True) InjectPc.Running := by
  obtain ⟨k, hiFirst, -, hi⟩ | ⟨ℓ, -, hw⟩ | ⟨x, -, -, hd, -⟩ | ⟨-, hd⟩ := machine_cases h
  · generalize t.bus = b' at hi
    generalize t.dev = d' at hi ⊢
    cases hi with
    | busUp hk | draw hk | draw2 hk => exact hs.setInject hk (by rintro i hi ℓ; cases hi; simp)
    | busDown hk | disabled hk | drop hk => exact Dev.Each.setInject ⟨hs.line, hs.inject⟩ hk (by simp)
    | @snapshot count ℓ val b' hk =>
      refine Dev.Each.setInject ⟨fun _ => trivial, hs.inject⟩ hk ?_
      rintro i hi ℓ'
      cases hi
      unfold dispatch
      split
      · simp
      · split
        · simp
        · simp
    | apply hk ha hpc =>
      have hk' := hk
      rw [← ha.frame.inject?] at hk'
      refine Dev.Each.setInject ⟨fun _ => trivial, ?_⟩ hk' ?_
      · rw [ha.frame.inject?]
        exact hs.inject
      · rintro i hi ℓ'
        cases hi
        intro he
        exact hpc (InjectPc.apply.inj he).2
    | applied hk ha =>
      have hk' := hk
      rw [← ha.frame.inject?] at hk'
      refine Dev.Each.setInject ⟨fun _ => trivial, ?_⟩ hk' (by simp)
      rw [ha.frame.inject?]
      exact hs.inject
    | arm hk => exact Dev.Each.setInject (hs.setLine trivial) hk (by simp)
  · generalize t.bus = b' at hw
    generalize t.dev = d' at hw ⊢
    cases hw with
    | apply ha =>
      apply Dev.Each.setLine _ trivial
      refine ⟨fun _ => trivial, ?_⟩
      rw [ha.frame.inject?]
      exact hs.inject
  · rw [hd]
    exact hs
  · generalize t.dev = d' at hd ⊢
    cases hd with
    | rejected => exact hs.call (by simp)
    | parsed => exact hs.call (by rintro i hi ℓ; cases hi; simp)
    | _ => exact ⟨fun _ => trivial, hs.inject⟩

theorem applied_at_rest {os : List Obs} {s : Sys} (h : Run machine Always start os s)
    (hrest : ∀ a, a.engine = true → machine s a = none) (hn : s.dev.notifier = .idle) (ℓ : Fin LINES) :
    sameGen (s.dev.lines ℓ).snapGen (s.dev.lines ℓ).applyGen = true := by
  have hrunning : s.dev.Each (fun _ => True) InjectPc.Running := by
    apply h.invariant (fun s => s.dev.Each (fun _ => True) InjectPc.Running)
    · refine ⟨fun _ => trivial, fun k inj hk => ?_⟩
      simp [start, Dev.init, Dev.inject?] at hk
    · intro t a u o hs _ hm
      exact machine_running hm hs
  have hlive : Live s.dev ℓ := by
    apply live_run h
    exact .applied rfl
  have hwork : (s.dev.lines ℓ).work = .idle := by
    by_contra hne
    obtain ⟨r, hr⟩ := stepApply_enabled s.bus s.dev ℓ hne
    have hnone := hrest (.work ℓ) rfl
    simp [machine, stepWork, hr] at hnone
  apply hlive.sameGen_of_quiescent
  constructor
  · by_contra htimer
    have hnone := hrest (.timerExpire ℓ) rfl
    simp [machine, stepDev, Option.isSome_iff_ne_none.mpr htimer] at hnone
  · by_contra hqueued
    have hnone := hrest (.workStart ℓ) rfl
    simp [machine, stepDev, Bool.eq_true_of_not_eq_false hqueued, hwork] at hnone
  · exact hwork
  · intro k
    by_contra hk
    obtain ⟨r, hr⟩ := stepInject_enabled s.bus s.dev k (Bool.eq_true_of_not_eq_false hk) (hrunning.inject k)
    have hnone := hrest (.inject k true) rfl
    simp [machine, hr] at hnone
  · exact hn

/-- Whatever else happens and in whatever order, an injection that parses costs at most `10` further steps, and where
they are made, outside of a RESET, every line has its last snapshot applied. -/
theorem injects_come_to_rest {as : List Act} {os : List Obs} {s : Sys}
    (h : exec machine Always start as = some (s, os)) :
    as.countP Act.engine + s.dev.owed ≤ 10 * as.countP wellFormed ∧
      ((∀ a, a.engine = true → machine s a = none) → s.dev.notifier = .idle →
        ∀ ℓ, sameGen (s.dev.lines ℓ).snapGen (s.dev.lines ℓ).applyGen = true) := by
  constructor
  · have hpaid := exec_paid prices Sys.owed (fun t a u o _ hm => machine_paid hm) h
    have hstart : start.owed = 0 := by decide
    have hshows : (os.map prices.shows).sum = 0 := by
      apply List.sum_eq_zero
      intro x hx
      obtain ⟨ob, -, rfl⟩ := List.mem_map.mp hx
      rfl
    rw [asks_eq, hshows, hstart, Nat.zero_add, Nat.add_zero] at hpaid
    exact hpaid
  · exact applied_at_rest (Run.of_exec as h)

def jitteredInject (ℓ : Fin LINES) : List Act :=
  [.attrStore .latencyNs [53], .attrStore .jitterNs [53], .injectStore [50, 58, 49], .injectStore [57, 58, 49],
    .inject 0 true, .inject 0 true, .inject 0 true, .inject 0 true, .inject 0 true, .timerExpire ℓ]

theorem injects_come_to_rest_delayed : ∃ os s, exec machine Always start (jitteredInject 2) = some (s, os) ∧
    (jitteredInject 2).countP Act.engine = 6 ∧ s.dev.owed = 4 ∧ (jitteredInject 2).countP wellFormed = 1 ∧
    (jitteredInject 2).countP Act.engine + s.dev.owed ≤ 10 * (jitteredInject 2).countP wellFormed := by
  have hrun : (exec machine Always start (jitteredInject 2)).any (fun r => r.1.dev.owed = 4) = true := by decide +kernel
  obtain ⟨⟨s, os⟩, he, ho⟩ := (Option.any_eq_true _ _).mp hrun
  exact ⟨os, s, he, by decide, of_decide_eq_true ho, by decide, (injects_come_to_rest he).1⟩

end VirtRtLab.Gpio
