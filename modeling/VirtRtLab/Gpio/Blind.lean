import VirtRtLab.Lib.Blind
import VirtRtLab.Gpio.Steps

namespace VirtRtLab.Gpio

open Kernel VirtRtLab.Core Transition

def Act.aut : Act → Bool
  | .directionInput _ | .directionOutput _ _ | .set _ _ | .setMultiple _ _ => true
  | _ => false

def Line.blind (line : Line) : Line := { line with value := 0, isOutput := false }

def Dev.blind (d : Dev) : Dev := { d with lines := fun ℓ => (d.lines ℓ).blind, statValueChanges := 0 }

def Sys.blind (s : Sys) : Sys := ⟨s.bus, s.dev.blind⟩

def Obs.blind : Obs → Obs
  | .commit ℓ gen flipped _ => .commit ℓ gen flipped false
  | o => o

section

variable {b : Bus} {d : Dev} {ℓ : Fin LINES}

@[simp] theorem blind_blind (d : Dev) : d.blind.blind = d.blind := rfl

theorem update_blind (f : Fin LINES → Line) (ℓ : Fin LINES) (line : Line) :
    (fun ℓ' => (Function.update f ℓ line ℓ').blind) = Function.update (fun ℓ' => (f ℓ').blind) ℓ line.blind := by
  funext ℓ'
  by_cases hl : ℓ' = ℓ
  · subst hl
    simp
  · simp [hl]

theorem setLine_blind (d : Dev) (ℓ : Fin LINES) (line : Line) :
    (d.setLine ℓ line).blind = d.blind.setLine ℓ line.blind := by
  simp only [Dev.blind, Dev.setLine, update_blind]

theorem setInject_blind (d : Dev) (k : ℕ) (inj : Option Inject) : (d.setInject k inj).blind = d.blind.setInject k inj :=
  rfl

theorem setNotifier_blind (d : Dev) (pc : NotifierPc) :
    ({ d with notifier := pc } : Dev).blind = { d.blind with notifier := pc } := rfl

theorem commitLine_blind (d : Dev) (ℓ : Fin LINES) (gen : ℕ) (snapVal newVal : UInt8) :
    (commitLine d ℓ gen snapVal newVal).blind = (commitLine d.blind ℓ gen snapVal newVal).blind := by
  simp only [Dev.blind, commitLine, update_blind]
  rfl

theorem stepApply_blind (b : Bus) (d : Dev) (ℓ : Fin LINES) (pc : ApplyPc) :
    (stepApply b d ℓ pc = none ∧ stepApply b d.blind ℓ pc = none) ∨
    ∃ b' e e' pc' o o', stepApply b d ℓ pc = some (b', e, pc', o) ∧ stepApply b d.blind ℓ pc = some (b', e', pc', o') ∧
      e.blind = e'.blind ∧ o.map Obs.blind = o'.map Obs.blind := by
  have hline : d.blind.lines ℓ = (d.lines ℓ).blind := rfl
  cases pc with
  | idle => exact .inl ⟨rfl, rfl⟩
  | enter =>
    right
    simp only [stepApply, hline, Line.blind]
    split
    · exact ⟨_, _, _, _, _, _, rfl, rfl, rfl, rfl⟩
    · split <;> exact ⟨_, _, _, _, _, _, rfl, rfl, rfl, rfl⟩
  | flip gen snapVal bitflipPpm => exact .inr ⟨_, _, _, _, _, _, rfl, rfl, rfl, rfl⟩
  | commit gen snapVal newVal =>
    right
    simp only [stepApply, hline, Line.blind]
    split
    · exact ⟨_, _, _, _, _, _, rfl, rfl, rfl, rfl⟩
    · exact ⟨_, _, _, _, _, _, rfl, rfl, commitLine_blind d ℓ gen snapVal newVal, rfl⟩

theorem stepInject_blind (b : Bus) (d : Dev) (k : ℕ) (hiFirst : Bool) :
    (stepInject b d k hiFirst).map (fun r => (r.1, r.2.1.blind, r.2.2.map Obs.blind)) =
      (stepInject b d.blind k hiFirst).map (fun r => (r.1, r.2.1.blind, r.2.2.map Obs.blind)) := by
  have hk : d.blind.inject? k = d.inject? k := rfl
  unfold stepInject
  rw [hk]
  split
  · rfl
  · split <;> rfl
  · have ha : d.blind.attrs = d.attrs := rfl
    rw [ha]
    split
    · rfl
    · dsimp only
      split
      · rfl
      · simp only [Option.map_some, takeSnapshot, setInject_blind, setLine_blind]
        rfl
  · rename_i count ℓ pc hk
    obtain ⟨h, h'⟩ | ⟨b', e, e', pc', o, o', h, h', he, ho⟩ := stepApply_blind b d ℓ pc
    · rw [h, h']
    · rw [h, h']
      cases pc' <;> simp [setInject_blind, he, ho]
  · rfl
  · rfl
  · simp only [Option.map_some, setInject_blind, setLine_blind]
    rfl

theorem stepWork_blind (b : Bus) (d : Dev) (ℓ : Fin LINES) :
    (stepWork b d ℓ).map (fun r => (r.1, r.2.1.blind, r.2.2.map Obs.blind)) =
      (stepWork b d.blind ℓ).map (fun r => (r.1, r.2.1.blind, r.2.2.map Obs.blind)) := by
  have hw : (d.blind.lines ℓ).work = (d.lines ℓ).work := rfl
  unfold stepWork
  rw [hw]
  obtain ⟨h, h'⟩ | ⟨b', e, e', pc', o, o', h, h', he, ho⟩ := stepApply_blind b d ℓ (d.lines ℓ).work
  · rw [h, h']
  · have hline : (e.lines ℓ).blind = (e'.lines ℓ).blind := congrFun (congrArg Dev.lines he) ℓ
    have hset : ({ e.lines ℓ with work := pc' } : Line).blind = ({ e'.lines ℓ with work := pc' } : Line).blind := by
      show ({ (e.lines ℓ).blind with work := pc' } : Line) = { (e'.lines ℓ).blind with work := pc' }
      rw [hline]
    simp only [h, h', Option.map_some, setLine_blind, he, hset, ho]

theorem stepDev_blind (d : Dev) (a : Act) (ha : a.aut = false) :
    (stepDev d a).map (fun r => (r.1.blind, r.2.map Obs.blind)) =
      (stepDev d.blind a).map (fun r => (r.1.blind, r.2.map Obs.blind)) := by
  cases a with
  | directionInput | directionOutput | set | setMultiple => cases ha
  | injectStore buf =>
    simp only [stepDev]
    split <;> rfl
  | timerExpire ℓ | workStart ℓ =>
    have hline : d.blind.lines ℓ = (d.lines ℓ).blind := rfl
    simp only [stepDev, hline, Line.blind]
    split
    · simp only [Option.map_some, setLine_blind]
      rfl
    · rfl
  | attrStore attr buf =>
    have hattrs : d.blind.attrs = d.attrs := rfl
    simp only [stepDev, hattrs]
    split <;> rfl
  | resetStore buf =>
    simp only [stepDev]
    split <;> rfl
  | notify event =>
    have hn : d.blind.notifier = d.notifier := rfl
    cases event <;> simp only [stepDev, hn] <;> split <;> rfl
  | notifier =>
    have hn : d.blind.notifier = d.notifier := rfl
    simp only [stepDev, stepNotifier, hn]
    split
    · rfl
    · simp only [Option.map_some, setNotifier_blind, setLine_blind]
      rfl
    · rename_i ℓ _
      have hw : (d.blind.lines ℓ).work = (d.lines ℓ).work := rfl
      rw [hw]
      split
      · rfl
      · simp only [Option.map_some, setNotifier_blind, setLine_blind]
        rfl
    · rfl
  | inject | work | bus => rfl

theorem machine_blind (s : Sys) (a : Act) (ha : a.aut = false) :
    (machine s a).map (fun r => (r.1.blind, r.2.map Obs.blind)) =
      (machine s.blind a).map (fun r => (r.1.blind, r.2.map Obs.blind)) := by
  have onBus {x y : Option (Bus × Dev × List Obs)} (h : x.map (fun r => (r.1, r.2.1.blind, r.2.2.map Obs.blind)) =
      y.map (fun r => (r.1, r.2.1.blind, r.2.2.map Obs.blind))) :
      x.map (fun r => ((⟨r.1, r.2.1.blind⟩ : Sys), r.2.2.map Obs.blind)) =
        y.map (fun r => ((⟨r.1, r.2.1.blind⟩ : Sys), r.2.2.map Obs.blind)) := by
    have hmap := congrArg (Option.map (fun q => ((⟨q.1, q.2.1⟩ : Sys), q.2.2))) h
    simpa only [Option.map_map, Function.comp_def] using hmap
  have offBus {x y : Option (Dev × List Obs)} (h : x.map (fun r => (r.1.blind, r.2.map Obs.blind)) =
      y.map (fun r => (r.1.blind, r.2.map Obs.blind))) :
      x.map (fun r => ((⟨s.bus, r.1.blind⟩ : Sys), r.2.map Obs.blind)) =
        y.map (fun r => ((⟨s.bus, r.1.blind⟩ : Sys), r.2.map Obs.blind)) := by
    have hmap := congrArg (Option.map (fun q => ((⟨s.bus, q.1⟩ : Sys), q.2))) h
    simpa only [Option.map_map, Function.comp_def] using hmap
  cases a with
  | inject k hiFirst =>
    simp only [machine, Option.map_map, Function.comp_def]
    exact onBus (stepInject_blind s.bus s.dev k hiFirst)
  | work ℓ =>
    simp only [machine, Option.map_map, Function.comp_def]
    exact onBus (stepWork_blind s.bus s.dev ℓ)
  | bus b =>
    simp only [machine, Option.map_map, Function.comp_def]
    rfl
  | _ =>
    simp only [machine, Option.map_map, Function.comp_def]
    exact offBus (stepDev_blind s.dev _ ha)

theorem aut_unnoticed (s : Sys) (a : Act) (ha : a.aut = true) : ∃ t, machine s a = some (t, []) ∧ t.blind = s.blind := by
  have hset (line : Line) (value : Bool) : (setValue line value).blind = line.blind := by
    unfold setValue
    split <;> rfl
  have hline {ℓ : Fin LINES} {line : Line} (h : line.blind = (s.dev.lines ℓ).blind) :
      (s.dev.setLine ℓ line).blind = s.dev.blind := by
    have hsame : (s.dev.lines ℓ).blind = s.dev.blind.lines ℓ := rfl
    rw [setLine_blind, h, hsame, Dev.setLine, Function.update_eq_self]
  cases a with
  | directionInput ℓ | directionOutput ℓ value => exact ⟨_, rfl, congrArg (Sys.mk s.bus) (hline rfl)⟩
  | set ℓ value => exact ⟨_, rfl, congrArg (Sys.mk s.bus) (hline (hset _ _))⟩
  | setMultiple mask bits =>
    refine ⟨_, rfl, ?_⟩
    have hlines : (fun ℓ : Fin LINES => (if mask.testBit ℓ then setValue (s.dev.lines ℓ) (bits.testBit ℓ)
        else s.dev.lines ℓ).blind) = fun ℓ => (s.dev.lines ℓ).blind := by
      funext ℓ
      split
      · exact hset _ _
      · rfl
    simp only [Sys.blind, Dev.blind, hlines]
  | _ => cases ha

theorem machine_obliviously : Blind machine Act.aut Sys.blind Obs.blind := by
  constructor
  · exact aut_unnoticed
  · intro s s' a t o hs ha hm
    have h := machine_blind s a ha
    have h' := machine_blind s' a ha
    rw [← hs, ← h, hm] at h'
    obtain ⟨⟨t', o'⟩, hm', hr⟩ := Option.map_eq_some_iff.mp h'
    simp only [Prod.mk.injEq] at hr
    exact ⟨t', o', hm', hr.1, hr.2⟩

/-- Whatever the AUT does with its lines, and whatever their values and directions were, the same schedule of
everything else makes the same draws, drops, bit flips, generations, delays and return values. -/
theorem faults_independent_of_aut {s s' t : Sys} {as as' : List Act} {os : List Obs} (hs : s.blind = s'.blind)
    (hf : as.filter (fun a => !a.aut) = as'.filter (fun a => !a.aut)) (h : exec machine Always s as = some (t, os)) :
    ∃ t' os', exec machine Always s' as' = some (t', os') ∧ t'.blind = t.blind ∧
      os'.map Obs.blind = os.map Obs.blind :=
  machine_obliviously.exec hs hf h

def injectCall : List Act := .injectStore [48, 58, 49] :: List.replicate 4 (.inject 0 true)

theorem faults_independent_of_aut_output : ∃ t os t' os', exec machine Always start injectCall = some (t, os) ∧
    exec machine Always start (.directionOutput 0 0 :: injectCall) = some (t', os') ∧
    (t.dev.lines 0).value = 1 ∧ (t'.dev.lines 0).value = 0 ∧ t'.blind = t.blind := by
  have h : (exec machine Always start injectCall).any (fun r => (r.1.dev.lines 0).value = 1) = true := by decide
  have h' : (exec machine Always start (.directionOutput 0 0 :: injectCall)).any
      (fun r => (r.1.dev.lines 0).value = 0) = true := by decide
  obtain ⟨⟨t, os⟩, he, hv⟩ := (Option.any_eq_true _ _).mp h
  obtain ⟨t', os', he', hb, -⟩ := faults_independent_of_aut (rfl : start.blind = start.blind)
    (show injectCall.filter (fun a => !a.aut) =
      (Act.directionOutput 0 0 :: injectCall).filter (fun a => !a.aut) from rfl) he
  rw [he', Option.any_some] at h'
  exact ⟨t, os, t', os', he, he', of_decide_eq_true hv, of_decide_eq_true h', hb⟩

end

end VirtRtLab.Gpio
