import VirtRtLab.Lib.Blind
import VirtRtLab.Gpio.Steps

namespace VirtRtLab.Gpio

open Kernel VirtRtLab.Core Transition

def Act.attrWrite : Act → Bool
  | .attrStore _ _ => true
  | _ => false

def accepting (d : Dev) : Act → Bool
  | .inject k _ =>
    match d.inject? k with
    | some ⟨_, .gated _ _⟩ => true
    | _ => false
  | _ => false

def delivers (d : Dev) : Act → Bool
  | .inject k hiFirst => !accepting d (.inject k hiFirst)
  | .timerExpire _ | .workStart _ | .work _ => true
  | _ => false

abbrev Dev.withAttrs (d : Dev) (attrs : FaultAttrs) : Dev := { d with attrs }

def Sys.withAttrs (s : Sys) (attrs : FaultAttrs) : Sys := ⟨s.bus, s.dev.withAttrs attrs⟩

def ApplyPc.draws : ApplyPc → ℕ
  | .flip _ _ _ => 1
  | _ => 0

def InjectPc.draws (attrs : FaultAttrs) : InjectPc → ℕ
  | .gated _ _ => if attrs.enabled ∧ attrs.dropRatePpm ≠ 0 then 1 else 0
  | .apply _ pc => pc.draws
  | .jitter _ _ _ | .jitter2 _ _ _ _ => 1
  | _ => 0

def draws (d : Dev) : Act → ℕ
  | .inject k _ =>
    match d.inject? k with
    | some inj => inj.pc.draws d.attrs
    | none => 0
  | .work ℓ => (d.lines ℓ).work.draws
  | .bus .draw => 1
  | _ => 0

section

variable (b : Bus) (d : Dev) (attrs : FaultAttrs) (ℓ : Fin LINES)

theorem stepApply_withAttrs (pc : ApplyPc) : stepApply b (d.withAttrs attrs) ℓ pc =
    (stepApply b d ℓ pc).map (fun r => (r.1, r.2.1.withAttrs attrs, r.2.2)) := by
  cases pc with
  | idle => rfl
  | enter =>
    simp only [stepApply]
    by_cases hs : sameGen (d.lines ℓ).snapGen (d.lines ℓ).applyGen = true
    · rw [if_pos hs, if_pos hs]
      rfl
    · rw [if_neg hs, if_neg hs]
      by_cases hf : (d.lines ℓ).snapBitflipPpm = 0
      · rw [if_pos hf, if_pos hf]
        rfl
      · rw [if_neg hf, if_neg hf]
        rfl
  | flip gen snapVal bitflipPpm => rfl
  | commit gen snapVal newVal =>
    simp only [stepApply]
    by_cases hs : (!sameGen (d.lines ℓ).snapGen gen) = true
    · rw [if_pos hs, if_pos hs]
      rfl
    · rw [if_neg hs, if_neg hs]
      rfl

theorem stepWork_withAttrs : stepWork b (d.withAttrs attrs) ℓ =
    (stepWork b d ℓ).map (fun r => (r.1, r.2.1.withAttrs attrs, r.2.2)) := by
  unfold stepWork
  rw [stepApply_withAttrs]
  cases stepApply b d ℓ (d.lines ℓ).work with
  | none => rfl
  | some r => rfl

theorem stepInject_withAttrs (k : ℕ) (hiFirst : Bool) (ha : accepting d (.inject k hiFirst) = false) :
    stepInject b (d.withAttrs attrs) k hiFirst =
      (stepInject b d k hiFirst).map (fun r => (r.1, r.2.1.withAttrs attrs, r.2.2)) := by
  have hk : (d.withAttrs attrs).inject? k = d.inject? k := rfl
  unfold stepInject
  rw [hk]
  cases hinj : d.inject? k with
  | none => rfl
  | some inj =>
    obtain ⟨count, pc⟩ := inj
    cases pc with
    | parsed ℓ val =>
      cases hup : b.isUp with
      | true => rfl
      | false => rfl
    | gated ℓ val => simp [accepting, hinj] at ha
    | apply ℓ pc =>
      dsimp only
      rw [stepApply_withAttrs]
      cases stepApply b d ℓ pc with
      | none => rfl
      | some r =>
        obtain ⟨b', d', pc', o⟩ := r
        cases pc' <;> rfl
    | jitter | jitter2 | arm => rfl

theorem stepNotifier_withAttrs (hc : d.notifier ≠ .critical) : stepNotifier (d.withAttrs attrs) =
    (stepNotifier d).map (fun r => (r.1.withAttrs attrs, r.2)) := by
  simp only [stepNotifier]
  cases hn : d.notifier with
  | idle => rfl
  | cancelTimer ℓ => rfl
  | cancelWork ℓ =>
    dsimp only
    by_cases hw : (d.lines ℓ).work ≠ .idle
    · rw [if_pos hw, if_pos hw]
      rfl
    · rw [if_neg hw, if_neg hw]
      rfl
  | critical => exact absurd hn hc

theorem stepDev_withAttrs {a : Act} (ha : a.attrWrite = false) (hc : a = .notifier → d.notifier ≠ .critical) :
    stepDev (d.withAttrs attrs) a = (stepDev d a).map (fun r => (r.1.withAttrs attrs, r.2)) := by
  cases a with
  | attrStore => cases ha
  | injectStore buf =>
    simp only [stepDev]
    cases parseInject buf with
    | error e => rfl
    | ok r => rfl
  | timerExpire ℓ =>
    simp only [stepDev]
    cases (d.lines ℓ).delayTimer.isSome with
    | true => rfl
    | false => rfl
  | workStart ℓ =>
    simp only [stepDev]
    by_cases hw : (d.lines ℓ).workQueued = true ∧ (d.lines ℓ).work = .idle
    · rw [if_pos hw, if_pos hw]
      rfl
    · rw [if_neg hw, if_neg hw]
      rfl
  | directionInput | directionOutput | set | setMultiple | inject | work | bus => rfl
  | resetStore buf =>
    simp only [stepDev]
    split <;> rfl
  | notify event =>
    have hidle (e : Dev) : (if d.notifier = .idle then some (e.withAttrs attrs, ([] : List Obs)) else none) =
        (if d.notifier = .idle then some (e, []) else none).map (fun r => (r.1.withAttrs attrs, r.2)) := by
      by_cases hn : d.notifier = .idle
      · rw [if_pos hn, if_pos hn]
        rfl
      · rw [if_neg hn, if_neg hn]
        rfl
    cases event with
    | up | down => exact hidle d
    | reset => exact hidle { d with notifier := .cancelTimer 0 }
  | notifier => exact stepNotifier_withAttrs d attrs (hc rfl)

end

section

variable {s s' t : Sys} {a : Act}

theorem machine_withAttrs (attrs : FaultAttrs) (ha : accepting s.dev a = false) (hw : a.attrWrite = false)
    (hc : a = .notifier → s.dev.notifier ≠ .critical) :
    machine (s.withAttrs attrs) a = (machine s a).map (fun r => (r.1.withAttrs attrs, r.2)) := by
  cases a with
  | inject k hiFirst =>
    simp only [machine, Sys.withAttrs, stepInject_withAttrs s.bus s.dev attrs k hiFirst ha, Option.map_map]
    rfl
  | work ℓ =>
    simp only [machine, Sys.withAttrs, stepWork_withAttrs, Option.map_map]
    rfl
  | bus b =>
    simp only [machine, Sys.withAttrs, Option.map_map]
    rfl
  | _ =>
    simp only [machine, Sys.withAttrs, stepDev_withAttrs s.dev attrs hw hc, Option.map_map]
    rfl

theorem draws_withAttrs (attrs : FaultAttrs) (ha : accepting s.dev a = false) :
    draws (s.withAttrs attrs).dev a = draws s.dev a := by
  cases a with
  | inject k hiFirst =>
    have hk : (s.withAttrs attrs).dev.inject? k = s.dev.inject? k := rfl
    simp only [draws, hk]
    cases hinj : s.dev.inject? k with
    | none => rfl
    | some inj =>
      obtain ⟨count, pc⟩ := inj
      cases pc with
      | gated ℓ val => simp [accepting, hinj] at ha
      | _ => rfl
  | bus b => cases b <;> rfl
  | _ => rfl

theorem ApplyStep.draws {b b' : Bus} {d d' : Dev} {ℓ : Fin LINES} {pc pc' : ApplyPc} {o : List Obs}
    (h : ApplyStep b d ℓ pc b' d' pc' o) : b' = Bus.drawn^[pc.draws] b := by
  cases h <;> rfl

theorem stepInject_draws {b b' : Bus} {d d' : Dev} {k : ℕ} {hiFirst : Bool} {o : List Obs}
    (h : stepInject b d k hiFirst = some (b', d', o)) : b' = Bus.drawn^[draws d (.inject k hiFirst)] b := by
  unfold stepInject at h
  simp only [draws]
  split at h
  · cases h
  · rename_i hk
    rw [hk]
    split at h <;> cases h <;> rfl
  · rename_i count ℓ val hk
    rw [hk]
    simp only [InjectPc.draws]
    cases he : d.attrs.enabled with
    | false =>
      rw [he] at h
      cases h
      rfl
    | true =>
      have hbus : (if d.attrs.dropRatePpm = 0 then b else b.drawn) =
          Bus.drawn^[if true = true ∧ d.attrs.dropRatePpm ≠ 0 then 1 else 0] b := by
        by_cases hr : d.attrs.dropRatePpm = 0 <;> simp [hr]
      rw [← hbus]
      simp only [he, Bool.not_true, Bool.false_eq_true, if_false] at h
      split at h <;> cases h <;> rfl
  · rename_i hk
    rw [hk]
    split at h
    · cases h
    · cases h
      exact (stepApply_cases ‹_›).draws
    · rename_i ha
      cases h
      exact (stepApply_cases ha).draws
  · rename_i hk
    rw [hk]
    cases h
    rfl
  · rename_i hk
    rw [hk]
    cases h
    rfl
  · rename_i hk
    rw [hk]
    cases h
    rfl

theorem machine_draws {o : List Obs} (h : machine s a = some (t, o)) (hb : ∀ b, a ≠ .bus b) :
    t.bus = Bus.drawn^[draws s.dev a] s.bus := by
  cases a with
  | inject k hiFirst =>
    obtain ⟨r, hr, he⟩ := Option.map_eq_some_iff.mp h
    cases he
    exact stepInject_draws hr
  | work ℓ =>
    obtain ⟨⟨b', d', o'⟩, hr, he⟩ := Option.map_eq_some_iff.mp h
    cases he
    cases stepWork_cases hr with
    | apply ha => exact ha.draws
  | bus b => exact absurd rfl (hb b)
  | _ =>
    simp only [machine] at h
    obtain ⟨r, hr, he⟩ := Option.map_eq_some_iff.mp h
    cases he
    rfl

def Sys.deaf (s : Sys) : Sys := s.withAttrs .default

theorem withAttrs_of_deaf (h : s.deaf = s'.deaf) : s' = s.withAttrs s'.dev.attrs := by
  have hbus : s.bus = s'.bus := (congrArg Sys.bus h :)
  have hdev : s.dev.withAttrs .default = s'.dev.withAttrs .default := (congrArg Sys.dev h :)
  have hsame := congrArg (fun d : Dev => d.withAttrs s'.dev.attrs) hdev
  show s' = ⟨s.bus, s.dev.withAttrs s'.dev.attrs⟩
  rw [hbus]
  exact congrArg (Sys.mk s'.bus) hsame.symm

def stored (attr : Attr) (buf : Bytes) (attrs : FaultAttrs) : FaultAttrs :=
  match attrs.store MAX_LATENCY_NS MAX_PPM attr buf with
  | .error _ => attrs
  | .ok attrs => attrs

theorem machine_attrStore (s : Sys) (attr : Attr) (buf : Bytes) :
    machine s (.attrStore attr buf) = some (s.withAttrs (stored attr buf s.dev.attrs), []) := by
  simp only [machine, stepDev, stored, Sys.withAttrs]
  cases s.dev.attrs.store MAX_LATENCY_NS MAX_PPM attr buf with
  | error e => rfl
  | ok attrs => rfl

theorem delivers_accepting {d : Dev} (h : delivers d a = true) :
    accepting d a = false ∧ a.attrWrite = false ∧ a ≠ .notifier := by
  cases a with
  | inject k hiFirst => exact ⟨by simpa [delivers] using h, rfl, by simp⟩
  | timerExpire | workStart | work => exact ⟨rfl, rfl, by simp⟩
  | _ => cases h

theorem delivers_attrs {o : List Obs} (h : delivers s.dev a = true) (hm : machine s a = some (t, o)) :
    t.dev.attrs = s.dev.attrs := by
  obtain ⟨ha, hw, hn⟩ := delivers_accepting h
  have hself := machine_withAttrs s.dev.attrs ha hw (fun he => absurd he hn)
  have hsame : s.withAttrs s.dev.attrs = s := rfl
  rw [hsame, hm, Option.map_some] at hself
  exact congrArg (fun r => r.1.dev.attrs) (Option.some.inj hself)

theorem write_commutes {w : Act} (hw : w.attrWrite = true) (h : delivers s.dev a = true) :
    exec machine Always s [w, a] = exec machine Always s [a, w] := by
  obtain ⟨ha, haw, hn⟩ := delivers_accepting h
  cases w with
  | attrStore attr buf =>
    have hwa := machine_withAttrs (stored attr buf s.dev.attrs) ha haw (fun he => absurd he hn)
    simp only [exec, machine_attrStore, hwa, if_true]
    cases hm : machine s a with
    | none => rfl
    | some r => simp [delivers_attrs h hm]
  | _ => cases hw

end

def delivering : Machine Sys Act Obs := fun s a => if accepting s.dev a then none else machine s a

structure Seen where
  act : Act
  draws : ℕ
  after : Sys
  shown : List Obs

def watching : Observer Sys Act Obs Unit Seen where
  next _ _ _ _ := ()
  shows _ s a r := if a.attrWrite then [] else [⟨a, draws s.dev a, r.1.deaf, r.2⟩]

theorem deaf_same {s s' t : Sys} {a : Act} {o : List Obs} (hs : s.deaf = s'.deaf) (hw : a.attrWrite = false)
    (ha : accepting s.dev a = false) (hm : machine s a = some (t, o)) :
    ∃ t', machine s' a = some (t', o) ∧ t'.deaf = t.deaf := by
  rw [withAttrs_of_deaf hs]
  by_cases hc : a = .notifier ∧ s.dev.notifier = .critical
  · obtain ⟨rfl, hc⟩ := hc
    have hreset {r : Sys} (hr : r.dev.notifier = .critical) :
        machine r .notifier = some (⟨r.bus, resetDev r.dev⟩, [.reset]) := by
      simp [machine, stepDev, stepNotifier, hr]
    rw [hreset hc] at hm
    cases hm
    exact ⟨_, hreset hc, rfl⟩
  · have hsame := machine_withAttrs s'.dev.attrs ha hw (fun he hn => hc ⟨he, hn⟩)
    rw [hm] at hsame
    exact ⟨_, hsame, rfl⟩

theorem delivering_blind :
    Blind (observed delivering watching) Act.attrWrite (fun x : Sys × Unit => x.1.deaf) (fun e : Seen => e) := by
  constructor
  · rintro ⟨s, ⟨⟩⟩ w hw
    cases w with
    | attrStore attr buf =>
      refine ⟨(s.withAttrs (stored attr buf s.dev.attrs), ()), ?_, rfl⟩
      simp [observed, delivering, accepting, machine_attrStore, watching, Act.attrWrite]
    | _ => cases hw
  · rintro ⟨s, ⟨⟩⟩ ⟨s', ⟨⟩⟩ a ⟨t, ⟨⟩⟩ o (hs : s.deaf = s'.deaf) hw hm
    obtain ⟨o', hd, -, rfl⟩ := observed_eq_some hm
    unfold delivering at hd
    split at hd
    · cases hd
    · rename_i ha
      obtain ⟨t', hm', ht⟩ := deaf_same hs hw (eq_false_of_ne_true ha) hd
      have hsame := withAttrs_of_deaf hs
      have ha' : accepting s'.dev a = accepting s.dev a := by
        rw [hsame]
        cases a <;> rfl
      have hdraws : draws s'.dev a = draws s.dev a := by
        rw [hsame]
        exact draws_withAttrs _ (eq_false_of_ne_true ha)
      refine ⟨(t', ()), [⟨a, draws s.dev a, t.deaf, o'⟩], ?_, ht, ?_⟩
      · simp [observed, delivering, watching, ha', ha, hm', hw, hdraws, ht]
      · simp [watching, hw]

/-- Attributes written after an inject was accepted do not reach it: without the writes, every other step draws as
often, shows the same and leaves the same timers, line states and counters, as the writes commute with the delivery.
The draws are those of the stream. -/
theorem snapshot_rule {s t : Sys} {as : List Act} {es : List Seen}
    (h : exec (observed delivering watching) Always (s, ()) as = some ((t, ()), es)) :
    (∃ t', exec (observed delivering watching) Always (s, ()) (as.filter (fun a => !a.attrWrite)) =
      some ((t', ()), es) ∧ t'.deaf = t.deaf) ∧
    (∀ (s : Sys) (w a : Act), w.attrWrite = true → delivers s.dev a = true →
      exec machine Always s [w, a] = exec machine Always s [a, w]) ∧
    ∀ (s t : Sys) (a : Act) (o : List Obs), machine s a = some (t, o) → (∀ b, a ≠ .bus b) →
      t.bus = Bus.drawn^[draws s.dev a] s.bus := by
  obtain ⟨⟨t', ⟨⟩⟩, es', he, ht, hes⟩ := delivering_blind.leave_out rfl h
  obtain rfl : es' = es := by simpa using hes
  exact ⟨⟨t', he, ht⟩, fun s w a => write_commutes, fun s t a o => machine_draws⟩

def acceptedInject : List Act :=
  [.attrStore .latencyNs [53], .attrStore .bitflipRatePpm [49, 48, 48, 48, 48, 48, 48], .injectStore [48, 58, 49],
    .inject 0 true, .inject 0 true]

def rewritten (ℓ : Fin LINES) : List Act :=
  [.attrStore .bitflipRatePpm [48], .inject 0 true, .attrStore .enabled [48], .timerExpire ℓ, .workStart ℓ, .work ℓ,
    .attrStore .latencyNs [48], .work ℓ, .work ℓ]

theorem snapshot_rule_bitflip : ∃ s t os es, exec machine Always start acceptedInject = some (s, os) ∧
    exec (observed delivering watching) Always (s, ()) (rewritten 0) = some ((t, ()), es) ∧
    (∃ t', exec (observed delivering watching) Always (s, ()) ((rewritten 0).filter (fun a => !a.attrWrite)) =
      some ((t', ()), es) ∧ t'.deaf = t.deaf) ∧ t.dev.statBitflips = 1 := by
  have h : (exec machine Always start acceptedInject).any (fun r =>
      (exec (observed delivering watching) Always (r.1, ()) (rewritten 0)).any
        (fun x => x.1.1.dev.statBitflips = 1)) = true := by decide +kernel
  obtain ⟨⟨s, os⟩, hs, h⟩ := (Option.any_eq_true _ _).mp h
  obtain ⟨⟨⟨t, ⟨⟩⟩, es⟩, ht, hflips⟩ := (Option.any_eq_true _ _).mp h
  exact ⟨s, t, os, es, hs, ht, (snapshot_rule ht).1, of_decide_eq_true hflips⟩

end VirtRtLab.Gpio
