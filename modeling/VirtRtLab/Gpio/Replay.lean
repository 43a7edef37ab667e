import VirtRtLab.Lib.Replay
import VirtRtLab.Gpio.Baseline
import VirtRtLab.Gpio.Dispatch

/-!
Two GPIO devices with different pasts. Numbered from some moment on, calls and generations do not tell them apart, and
the snapshots taken before it are never read again.
-/

namespace VirtRtLab.Gpio

open Kernel VirtRtLab.Core Transition

/-- How many calls of `inject_store` there have been, and how many snapshots of each line. -/
structure Past where
  calls : ℕ
  gens : Fin LINES → ℕ

def Dev.past (d : Dev) : Past := ⟨d.injects.length, fun ℓ => (d.lines ℓ).snapGen⟩

def Act.after (p : Past) : Act → Act
  | .inject k hiFirst => .inject (p.calls + k) hiFirst
  | a => a

def Obs.since (p : Past) : Obs → Obs
  | .snapshot ℓ gen val => .snapshot ℓ (gen - p.gens ℓ) val
  | .read ℓ gen => .read ℓ (gen - p.gens ℓ)
  | .commit ℓ gen flipped changed => .commit ℓ (gen - p.gens ℓ) flipped changed
  | .reset => .reset
  | .returned k r => .returned (k - p.calls) r

variable (p p' : Past)

def SameAge (ℓ : Fin LINES) (gen gen' : ℕ) : Prop := gen + p'.gens ℓ = gen' + p.gens ℓ

def SeenAge (ℓ : Fin LINES) (gen gen' : ℕ) : Prop := sameGen (gen + p'.gens ℓ) (gen' + p.gens ℓ) = true

inductive ApplyPc.Like (ℓ : Fin LINES) : ApplyPc → ApplyPc → Prop
  | idle : Like ℓ .idle .idle
  | enter : Like ℓ .enter .enter
  | flip {gen gen' snapVal bitflipPpm} (h : SameAge p p' ℓ gen gen') :
      Like ℓ (.flip gen snapVal bitflipPpm) (.flip gen' snapVal bitflipPpm)
  | commit {gen gen' snapVal newVal} (h : SameAge p p' ℓ gen gen') :
      Like ℓ (.commit gen snapVal newVal) (.commit gen' snapVal newVal)

inductive InjectPc.Like : InjectPc → InjectPc → Prop
  | parsed {ℓ val} : Like (.parsed ℓ val) (.parsed ℓ val)
  | gated {ℓ val} : Like (.gated ℓ val) (.gated ℓ val)
  | apply {ℓ pc pc'} (h : ApplyPc.Like p p' ℓ pc pc') : Like (.apply ℓ pc) (.apply ℓ pc')
  | jitter {ℓ latencyNs jitterNs} : Like (.jitter ℓ latencyNs jitterNs) (.jitter ℓ latencyNs jitterNs)
  | jitter2 {ℓ latencyNs jitterNs first} :
      Like (.jitter2 ℓ latencyNs jitterNs first) (.jitter2 ℓ latencyNs jitterNs first)
  | arm {ℓ delayNs} : Like (.arm ℓ delayNs) (.arm ℓ delayNs)

structure Inject.Like (inj inj' : Inject) : Prop where
  count : inj.count = inj'.count
  pc : InjectPc.Like p p' inj.pc inj'.pc

structure Line.Like (ℓ : Fin LINES) (line line' : Line) : Prop where
  value : line'.value = line.value
  isOutput : line'.isOutput = line.isOutput
  snapGen : SameAge p p' ℓ line.snapGen line'.snapGen
  applyGen : SeenAge p p' ℓ line.applyGen line'.applyGen
  delayTimer : line'.delayTimer = line.delayTimer
  workQueued : line'.workQueued = line.workQueued
  work : ApplyPc.Like p p' ℓ line.work line'.work
  -- an applied snapshot may be one of the past
  snap : sameGen line.snapGen line.applyGen = false →
    line'.snapValue = line.snapValue ∧ line'.snapBitflipPpm = line.snapBitflipPpm

structure Dev.Like (d d' : Dev) : Prop where
  attrs : d'.attrs = d.attrs
  valueChanges : d'.statValueChanges = d.statValueChanges
  drops : d'.statDrops = d.statDrops
  bitflips : d'.statBitflips = d.statBitflips
  notifier : d'.notifier = d.notifier
  lines : ∀ ℓ, Line.Like p p' ℓ (d.lines ℓ) (d'.lines ℓ)
  begun : p.calls ≤ d.injects.length
  length : d.injects.length + p'.calls = d'.injects.length + p.calls
  injects : ∀ k, Option.Rel (Inject.Like p p') (d.inject? (p.calls + k)) (d'.inject? (p'.calls + k))

structure Sys.Like (s s' : Sys) : Prop where
  bus : s.bus = s'.bus
  dev : Dev.Like p p' s.dev s'.dev

section

variable {p p' : Past} {d d' : Dev} {ℓ : Fin LINES} {line line' : Line} {k : ℕ} {inj inj' : Option Inject} {b : Bus}

theorem SameAge.seen {gen gen' : ℕ} (h : SameAge p p' ℓ gen gen') : SeenAge p p' ℓ gen gen' := by
  rw [SeenAge, h]
  exact beq_self_eq_true _

theorem SeenAge.sameGen {m m' n n' : ℕ} (hm : SeenAge p p' ℓ m m') (hn : SeenAge p p' ℓ n n') :
    sameGen m n = sameGen m' n' := by
  simp only [SeenAge, Gpio.sameGen, beq_iff_eq] at hm hn
  rw [Bool.eq_iff_iff]
  simp only [Gpio.sameGen, beq_iff_eq]
  omega

theorem SameAge.sub {gen gen' : ℕ} (h : SameAge p p' ℓ gen gen') : gen - p.gens ℓ = gen' - p'.gens ℓ := by
  unfold SameAge at h
  omega

theorem Dev.Like.setLine (h : Dev.Like p p' d d') (hl : Line.Like p p' ℓ line line') :
    Dev.Like p p' (d.setLine ℓ line) (d'.setLine ℓ line') := by
  refine { h with lines := fun ℓ' => ?_ }
  by_cases he : ℓ' = ℓ
  · subst he
    simpa using hl
  · simpa [he] using h.lines ℓ'

theorem setInject_eq (d : Dev) (k j : ℕ) (inj : Option Inject) :
    (d.setInject k inj).inject? j = if j = k ∧ k < d.injects.length then inj else d.inject? j := by
  simp only [Dev.inject?, Dev.setInject, List.getElem?_set]
  by_cases hj : k = j
  · subst hj
    by_cases hk : k < d.injects.length
    · simp [hk]
    · simp [hk]
  · simp [hj, Ne.symm hj]

theorem Dev.Like.setInject (h : Dev.Like p p' d d') (hi : Option.Rel (Inject.Like p p') inj inj') :
    Dev.Like p p' (d.setInject (p.calls + k) inj) (d'.setInject (p'.calls + k) inj') := by
  refine { h with begun := ?_, length := ?_, injects := fun j => ?_ }
  · rw [Dev.setInject, List.length_set]
    exact h.begun
  · rw [Dev.setInject, Dev.setInject, List.length_set, List.length_set]
    exact h.length
  · have hlen := h.length
    have hcond : (p'.calls + j = p'.calls + k ∧ p'.calls + k < d'.injects.length) ↔
        (p.calls + j = p.calls + k ∧ p.calls + k < d.injects.length) := by omega
    rw [setInject_eq, setInject_eq]
    simp only [hcond]
    split
    · exact hi
    · exact h.injects j

theorem Dev.Like.call (h : Dev.Like p p' d d') (hi : Option.Rel (Inject.Like p p') inj inj') :
    Dev.Like p p' (d.call inj) (d'.call inj') := by
  have hlen := h.length
  have hbegun := h.begun
  refine { h with begun := ?_, length := ?_, injects := fun j => ?_ }
  · rw [Dev.call, List.length_append]
    omega
  · simp only [Dev.call, List.length_append, List.length_singleton]
    omega
  · rw [call_inject?, call_inject?]
    by_cases hj : p.calls + j = d.injects.length
    · have hj' : p'.calls + j = d'.injects.length := by omega
      rw [hj, hj', Function.update_self, Function.update_self]
      exact hi
    · have hj' : p'.calls + j ≠ d'.injects.length := by omega
      rw [Function.update_of_ne hj, Function.update_of_ne hj']
      exact h.injects j

structure AppliedLike (p p' : Past) (ℓ : Fin LINES) (r r' : Bus × Dev × ApplyPc × List Obs) : Prop where
  bus : r.1 = r'.1
  dev : Dev.Like p p' r.2.1 r'.2.1
  pc : ApplyPc.Like p p' ℓ r.2.2.1 r'.2.2.1
  obs : r.2.2.2.map (Obs.since p) = r'.2.2.2.map (Obs.since p')

theorem commitLine_like (h : Dev.Like p p' d d') {gen gen' : ℕ} (hg : SameAge p p' ℓ gen gen')
    (hcurrent : sameGen (d.lines ℓ).snapGen gen = true) (snapVal newVal : UInt8) :
    Dev.Like p p' (commitLine d ℓ gen snapVal newVal) (commitLine d' ℓ gen' snapVal newVal) := by
  have hline := h.lines ℓ
  refine { h with valueChanges := ?_, bitflips := ?_, lines := fun ℓ' => ?_ }
  · simp only [commitLine, h.valueChanges, hline.isOutput, hline.value]
  · simp only [commitLine, h.bitflips]
  · by_cases he : ℓ' = ℓ
    · subst he
      simp only [commitLine, Function.update_self]
      refine { hline with value := ?_, applyGen := hg.seen, snap := fun hs => ?_ }
      · simp only [hline.isOutput, hline.value]
      · rw [hcurrent] at hs
        cases hs
    · simp only [commitLine, Function.update_of_ne he]
      exact h.lines ℓ'

theorem stepApply_like (h : Dev.Like p p' d d') {pc pc' : ApplyPc} (hpc : ApplyPc.Like p p' ℓ pc pc') :
    Option.Rel (AppliedLike p p' ℓ) (stepApply b d ℓ pc) (stepApply b d' ℓ pc') := by
  have hline := h.lines ℓ
  cases hpc with
  | idle => exact .none
  | enter =>
    have hsame := hline.snapGen.seen.sameGen hline.applyGen
    simp only [stepApply]
    rw [← hsame]
    split
    · exact .some ⟨rfl, h, .idle, rfl⟩
    · rename_i hne
      obtain ⟨hval, hppm⟩ := hline.snap (eq_false_of_ne_true hne)
      rw [hval, hppm]
      have hread : [Obs.read ℓ (d.lines ℓ).snapGen].map (Obs.since p) =
          [Obs.read ℓ (d'.lines ℓ).snapGen].map (Obs.since p') := by
        simp only [List.map_cons, List.map_nil, Obs.since, hline.snapGen.sub]
      split
      · exact .some ⟨rfl, h, .commit hline.snapGen, hread⟩
      · exact .some ⟨rfl, h, .flip hline.snapGen, hread⟩
  | flip hg => exact .some ⟨rfl, h, .commit hg, rfl⟩
  | @commit gen gen' snapVal newVal hg =>
    have hsame := hline.snapGen.seen.sameGen hg.seen
    simp only [stepApply]
    rw [← hsame]
    split
    · exact .some ⟨rfl, h, .idle, rfl⟩
    · rename_i hcurrent
      have hcurrent : sameGen (d.lines ℓ).snapGen gen = true := by simpa using hcurrent
      refine .some ⟨rfl, commitLine_like h hg hcurrent snapVal newVal, .idle, ?_⟩
      simp only [List.map_cons, List.map_nil, Obs.since, hline.isOutput, hline.value, hg.sub]

abbrev Outcome (p p' : Past) : Option (Sys × List Obs) → Option (Sys × List Obs) → Prop :=
  Alike (Sys.Like p p') (Obs.since p) (Obs.since p')

theorem returned_like (k : ℕ) (r : Except Errno ℕ) :
    [Obs.returned (p.calls + k) r].map (Obs.since p) = [Obs.returned (p'.calls + k) r].map (Obs.since p') := by
  simp only [List.map_cons, List.map_nil, Obs.since, Nat.add_sub_cancel_left]

theorem takeSnapshot_like (h : Dev.Like p p' d d') (ℓ : Fin LINES) (val : UInt8) :
    Dev.Like p p' (takeSnapshot d ℓ val) (takeSnapshot d' ℓ val) := by
  have hline := h.lines ℓ
  apply h.setLine
  refine { hline with snapGen := ?_, snap := fun _ => ⟨rfl, congrArg FaultAttrs.bitflipRatePpm h.attrs⟩ }
  have hgen := hline.snapGen
  unfold SameAge at hgen ⊢
  dsimp only
  omega

theorem dispatch_like (latencyNs jitterNs : UInt64) :
    InjectPc.Like p p' (dispatch ℓ latencyNs jitterNs) (dispatch ℓ latencyNs jitterNs) := by
  unfold dispatch
  split
  · exact .apply .enter
  · split
    · exact .arm
    · exact .jitter

theorem inject_like {s s' : Sys} (h : Sys.Like p p' s s') (k : ℕ) (hiFirst : Bool) :
    Outcome p p' (machine s (.inject (p.calls + k) hiFirst)) (machine s' (.inject (p'.calls + k) hiFirst)) := by
  obtain ⟨b, d⟩ := s
  obtain ⟨b', d'⟩ := s'
  obtain ⟨hb, h⟩ := h
  dsimp only at hb h
  subst hb
  have hinj := h.injects k
  generalize hk : d.inject? (p.calls + k) = inj at hinj
  generalize hk' : d'.inject? (p'.calls + k) = inj' at hinj
  cases hinj with
  | none =>
    simp only [machine, stepInject, hk, hk', Option.map_none]
    exact .none
  | @some inj inj' hlike =>
    obtain ⟨count, pc⟩ := inj
    obtain ⟨count', pc'⟩ := inj'
    obtain ⟨hcount, hpc⟩ := hlike
    dsimp only at hcount hpc
    subst hcount
    cases hpc with
    | parsed =>
      simp only [machine, stepInject, hk, hk']
      split
      · exact .some ⟨⟨rfl, h.setInject (.some ⟨rfl, .gated⟩)⟩, rfl⟩
      · exact .some ⟨⟨rfl, h.setInject .none⟩, returned_like k _⟩
    | @gated ℓ val =>
      simp only [machine, stepInject, hk, hk', h.attrs]
      split
      · exact .some ⟨⟨rfl, h.setInject .none⟩, returned_like k _⟩
      · split
        · refine .some ⟨⟨rfl, Dev.Like.setInject ?_ .none⟩, returned_like k _⟩
          exact { h with attrs := rfl, drops := by simp only [h.drops] }
        · refine .some ⟨⟨rfl, (takeSnapshot_like h ℓ val).setInject (.some ⟨rfl, dispatch_like _ _⟩)⟩, ?_⟩
          have hgen : SameAge p p' ℓ ((d.lines ℓ).snapGen + 1) ((d'.lines ℓ).snapGen + 1) := by
            have hgen := (h.lines ℓ).snapGen
            unfold SameAge at hgen ⊢
            omega
          simp only [List.map_cons, List.map_nil, Obs.since, hgen.sub]
    | @apply ℓ pc pc' hpc =>
      have happly := stepApply_like (b := b) h hpc
      simp only [machine, stepInject, hk, hk']
      generalize stepApply b d ℓ pc = r at happly ⊢
      generalize stepApply b d' ℓ pc' = r' at happly ⊢
      cases happly with
      | none => exact .none
      | @some r r' happly =>
        obtain ⟨b₁, d₁, pc₁, o₁⟩ := r
        obtain ⟨b₂, d₂, pc₂, o₂⟩ := r'
        obtain ⟨hb, hd, hpc, ho⟩ := happly
        dsimp only at hb hd hpc ho
        subst hb
        cases hpc with
        | idle =>
          refine .some ⟨⟨rfl, hd.setInject .none⟩, ?_⟩
          rw [List.map_append, List.map_append, ho, returned_like]
        | enter => exact .some ⟨⟨rfl, hd.setInject (.some ⟨rfl, .apply .enter⟩)⟩, ho⟩
        | flip hg => exact .some ⟨⟨rfl, hd.setInject (.some ⟨rfl, .apply (.flip hg)⟩)⟩, ho⟩
        | commit hg => exact .some ⟨⟨rfl, hd.setInject (.some ⟨rfl, .apply (.commit hg)⟩)⟩, ho⟩
    | jitter =>
      simp only [machine, stepInject, hk, hk']
      exact .some ⟨⟨rfl, h.setInject (.some ⟨rfl, .jitter2⟩)⟩, rfl⟩
    | jitter2 =>
      simp only [machine, stepInject, hk, hk']
      exact .some ⟨⟨rfl, h.setInject (.some ⟨rfl, .arm⟩)⟩, rfl⟩
    | @arm ℓ delayNs =>
      simp only [machine, stepInject, hk, hk']
      refine .some ⟨⟨rfl, Dev.Like.setInject (h.setLine ?_) .none⟩, returned_like k _⟩
      exact { h.lines ℓ with delayTimer := rfl }

theorem work_like {s s' : Sys} (h : Sys.Like p p' s s') (ℓ : Fin LINES) :
    Outcome p p' (machine s (.work ℓ)) (machine s' (.work ℓ)) := by
  obtain ⟨b, d⟩ := s
  obtain ⟨b', d'⟩ := s'
  obtain ⟨hb, h⟩ := h
  dsimp only at hb h
  subst hb
  have happly := stepApply_like (b := b) h (h.lines ℓ).work
  simp only [machine, stepWork]
  generalize stepApply b d ℓ (d.lines ℓ).work = r at happly ⊢
  generalize stepApply b d' ℓ (d'.lines ℓ).work = r' at happly ⊢
  cases happly with
  | none => exact .none
  | @some r r' happly =>
    obtain ⟨b₁, d₁, pc₁, o₁⟩ := r
    obtain ⟨b₂, d₂, pc₂, o₂⟩ := r'
    obtain ⟨hb, hd, hpc, ho⟩ := happly
    dsimp only at hb hd hpc ho
    subst hb
    refine .some ⟨⟨rfl, hd.setLine ?_⟩, ho⟩
    exact { hd.lines ℓ with work := hpc }

theorem setValue_like (h : Line.Like p p' ℓ line line') (value : Bool) :
    Line.Like p p' ℓ (setValue line value) (setValue line' value) := by
  simp only [setValue, h.isOutput]
  split
  · exact { h with value := rfl, isOutput := rfl }
  · exact h

theorem resetDev_like (h : Dev.Like p p' d d') : Dev.Like p p' (resetDev d) (resetDev d') := by
  refine { h with attrs := rfl, valueChanges := rfl, drops := rfl, bitflips := rfl, notifier := rfl, lines := ?_ }
  intro ℓ
  have hline := h.lines ℓ
  refine { hline with applyGen := hline.snapGen.seen, snap := fun hs => ?_ }
  simp [sameGen, resetDev] at hs

theorem ApplyPc.Like.idle_iff {pc pc' : ApplyPc} (h : ApplyPc.Like p p' ℓ pc pc') : pc' = .idle ↔ pc = .idle := by
  cases h <;> simp

theorem notifier_like (h : Dev.Like p p' d d') :
    Alike (Dev.Like p p') (Obs.since p) (Obs.since p') (stepNotifier d) (stepNotifier d') := by
  simp only [stepNotifier, h.notifier]
  split
  · exact .none
  · rename_i ℓ _
    have hline : Line.Like p p' ℓ { d.lines ℓ with delayTimer := none } { d'.lines ℓ with delayTimer := none } :=
      { h.lines ℓ with delayTimer := rfl }
    exact .some ⟨{ h.setLine hline with notifier := rfl }, rfl⟩
  · rename_i ℓ _
    have hwork : (d'.lines ℓ).work = .idle ↔ (d.lines ℓ).work = .idle := (h.lines ℓ).work.idle_iff
    simp only [ne_eq, hwork]
    split
    · exact .none
    · have hline : Line.Like p p' ℓ { d.lines ℓ with workQueued := false } { d'.lines ℓ with workQueued := false } :=
        { h.lines ℓ with workQueued := rfl }
      exact .some ⟨{ h.setLine hline with notifier := rfl }, rfl⟩
  · exact .some ⟨resetDev_like h, rfl⟩

theorem call_returned_like (h : Dev.Like p p' d d') (r : Except Errno ℕ) :
    [Obs.returned d.injects.length r].map (Obs.since p) = [Obs.returned d'.injects.length r].map (Obs.since p') := by
  have hlen := h.length
  have hbegun := h.begun
  have hsub : d.injects.length - p.calls = d'.injects.length - p'.calls := by omega
  simp only [List.map_cons, List.map_nil, Obs.since, hsub]

theorem stepDev_like (h : Dev.Like p p' d d') (a : Act) :
    Alike (Dev.Like p p') (Obs.since p) (Obs.since p') (stepDev d a) (stepDev d' a) := by
  cases a with
  | injectStore buf =>
    simp only [stepDev]
    split
    · exact .some ⟨h.call .none, call_returned_like h _⟩
    · exact .some ⟨h.call (.some ⟨rfl, .parsed⟩), rfl⟩
  | timerExpire ℓ =>
    simp only [stepDev, (h.lines ℓ).delayTimer]
    split
    · exact .some ⟨h.setLine { h.lines ℓ with delayTimer := rfl, workQueued := rfl }, rfl⟩
    · exact .none
  | workStart ℓ =>
    have hwork : (d'.lines ℓ).work = .idle ↔ (d.lines ℓ).work = .idle := (h.lines ℓ).work.idle_iff
    simp only [stepDev, (h.lines ℓ).workQueued, hwork]
    split
    · exact .some ⟨h.setLine { h.lines ℓ with workQueued := rfl, work := .enter }, rfl⟩
    · exact .none
  | directionInput ℓ => exact .some ⟨h.setLine { h.lines ℓ with isOutput := rfl }, rfl⟩
  | directionOutput ℓ value => exact .some ⟨h.setLine { h.lines ℓ with isOutput := rfl, value := rfl }, rfl⟩
  | set ℓ value => exact .some ⟨h.setLine (setValue_like (h.lines ℓ) _), rfl⟩
  | setMultiple mask bits =>
    refine .some ⟨{ h with lines := fun ℓ => ?_ }, rfl⟩
    dsimp only
    split
    · exact setValue_like (h.lines ℓ) _
    · exact h.lines ℓ
  | attrStore attr buf =>
    simp only [stepDev, h.attrs]
    split
    · exact .some ⟨h, rfl⟩
    · exact .some ⟨{ h with attrs := rfl }, rfl⟩
  | resetStore buf =>
    simp only [stepDev]
    split
    · exact .some ⟨{ h with valueChanges := rfl, drops := rfl, bitflips := rfl }, rfl⟩
    · exact .some ⟨h, rfl⟩
  | notify event =>
    cases event with
    | reset =>
      simp only [stepDev, h.notifier]
      split
      · exact .some ⟨{ h with notifier := rfl }, rfl⟩
      · exact .none
    | up | down =>
      simp only [stepDev, h.notifier]
      split
      · exact .some ⟨h, rfl⟩
      · exact .none
  | notifier => exact notifier_like h
  | inject | work | bus => exact .none

theorem machine_like {s s' : Sys} (h : Sys.Like p p' s s') (a : Act) :
    Outcome p p' (machine s (a.after p)) (machine s' (a.after p')) := by
  have hdev : Outcome p p' ((stepDev s.dev a).map (fun r => (⟨s.bus, r.1⟩, r.2)))
      ((stepDev s'.dev a).map (fun r => (⟨s'.bus, r.1⟩, r.2))) :=
    (stepDev_like h.dev a).map (fun r r' hr ho => ⟨⟨h.bus, hr⟩, ho⟩)
  cases a with
  | inject k hiFirst => exact inject_like h k hiFirst
  | work ℓ => exact work_like h ℓ
  | bus a =>
    simp only [Act.after, machine, h.bus]
    cases s'.bus.step a with
    | none => exact .none
    | some b => exact .some ⟨⟨rfl, h.dev⟩, rfl⟩
  | _ => exact hdev

theorem like_of_rest (h : ∀ ℓ, Quiescent d ℓ) (h' : ∀ ℓ, Quiescent d' ℓ) (hl : ∀ ℓ, Live d ℓ) (hl' : ∀ ℓ, Live d' ℓ)
    (hf : d'.face = d.face) (ha : d'.attrs = d.attrs) (hv : d'.statValueChanges = d.statValueChanges)
    (hd : d'.statDrops = d.statDrops) (hb : d'.statBitflips = d.statBitflips) : Dev.Like d.past d'.past d d' := by
  refine ⟨ha, hv, hd, hb, ?_, fun ℓ => ?_, Nat.le_refl _, Nat.add_comm _ _, fun k => ?_⟩
  · rw [(h 0).reset, (h' 0).reset]
  · have hface := congrFun hf ℓ
    have hsame := (hl ℓ).sameGen_of_quiescent (h ℓ)
    have hsame' := (hl' ℓ).sameGen_of_quiescent (h' ℓ)
    constructor
    · exact congrArg Prod.fst hface
    · exact congrArg Prod.snd hface
    · exact Nat.add_comm _ _
    · simp only [SeenAge, sameGen, beq_iff_eq, Dev.past] at hsame hsame' ⊢
      omega
    · rw [(h ℓ).timer, (h' ℓ).timer]
    · rw [(h ℓ).queued, (h' ℓ).queued]
    · rw [(h ℓ).work, (h' ℓ).work]
      exact .idle
    · intro hne
      rw [hsame] at hne
      cases hne
  · have hnone (e : Dev) : e.inject? (e.past.calls + k) = none := by
      have hlen : e.injects.length ≤ e.past.calls + k := Nat.le_add_right _ _
      rw [Dev.inject?, List.getElem?_eq_none hlen]
      rfl
    rw [hnone, hnone]
    exact .none

end

end VirtRtLab.Gpio
