import VirtRtLab.Gpio.Commit

namespace VirtRtLab.Gpio

open Kernel VirtRtLab.Core Transition

/-- The generation each call of `inject_store` took, and the generations that the last arming of a line's
`delay_timer`, its queued work and its running work are for. A snapshot is prompt if its inject computed no delay;
it is expired once an arming made by its own inject has expired. -/
structure Delays where
  took : ℕ → ℕ
  armedFor : Fin LINES → ℕ
  queuedFor : Fin LINES → ℕ
  runsFor : Fin LINES → ℕ
  prompt : List (Fin LINES × ℕ)
  expired : List (Fin LINES × ℕ)

structure Delivery where
  line : Fin LINES
  gen : ℕ
  due : Bool
  deriving DecidableEq

namespace Delays

def none : Delays := ⟨fun _ => 0, fun _ => 0, fun _ => 0, fun _ => 0, [], []⟩

def Due (n : Delays) (ℓ : Fin LINES) (gen : ℕ) : Prop := (ℓ, gen) ∈ n.prompt ∨ (ℓ, gen) ∈ n.expired

instance (n : Delays) (ℓ : Fin LINES) (gen : ℕ) : Decidable (n.Due ℓ gen) := inferInstanceAs (Decidable (_ ∨ _))

def snapshot (n : Delays) (attrs : FaultAttrs) (k : ℕ) (ℓ : Fin LINES) (gen : ℕ) : Delays :=
  { n with
    took := Function.update n.took k gen
    prompt := if attrs.latencyNs = 0 ∧ attrs.jitterNs = 0 then (ℓ, gen) :: n.prompt else n.prompt }

def next (n : Delays) (d : Dev) (a : Act) (o : List Obs) : Delays :=
  match a, o with
  | .inject k _, [.snapshot ℓ gen _] => n.snapshot d.attrs k ℓ gen
  | .inject k _, _ =>
    match d.inject? k with
    | some ⟨_, .arm ℓ _⟩ => { n with armedFor := Function.update n.armedFor ℓ (n.took k) }
    | _ => n
  | .timerExpire ℓ, _ =>
    { n with queuedFor := Function.update n.queuedFor ℓ (n.armedFor ℓ), expired := (ℓ, n.armedFor ℓ) :: n.expired }
  | .workStart ℓ, _ => { n with runsFor := Function.update n.runsFor ℓ (n.queuedFor ℓ) }
  | _, _ => n

def delivery (n : Delays) : Obs → Option Delivery
  | .commit ℓ gen _ _ => some ⟨ℓ, gen, n.Due ℓ gen⟩
  | _ => Option.none

def target (n : Delays) (ℓ : Fin LINES) : Worker → ℕ
  | .none => n.runsFor ℓ
  | .some k => n.took k

end Delays

def delaying : Observer Sys Act Obs Delays Delivery where
  next n s a r := n.next s.dev a r.2
  shows n _ _ r := r.2.filterMap n.delivery

def entering (d : Dev) : Act → Option (Fin LINES × Worker)
  | .inject k _ =>
    match d.inject? k with
    | some ⟨_, .apply ℓ .enter⟩ => some (ℓ, some k)
    | _ => none
  | .work ℓ => if (d.lines ℓ).work = .enter then some (ℓ, none) else none
  | _ => none

/-- A `virtrtlab_gpio_line_apply` that starts on a line finds the snapshot it was dispatched for, or none that is not
committed, or one that is due anyway. -/
def finds (n : Delays) (d : Dev) (ℓ : Fin LINES) (w : Worker) : Prop :=
  (d.lines ℓ).snapGen = n.target ℓ w ∨ sameGen (d.lines ℓ).snapGen (d.lines ℓ).applyGen = true ∨
    n.Due ℓ (d.lines ℓ).snapGen

instance (n : Delays) (d : Dev) (ℓ : Fin LINES) (w : Worker) : Decidable (finds n d ℓ w) :=
  inferInstanceAs (Decidable (_ ∨ _))

def OwnDispatch (x : Sys × Delays) (a : Act) : Prop :=
  (entering x.1.dev a).all (fun p => decide (finds x.2 x.1.dev p.1 p.2)) = true

instance (x : Sys × Delays) (a : Act) : Decidable (OwnDispatch x a) := inferInstanceAs (Decidable (_ = true))

def NoEarlyCommit (es : List Delivery) : Prop := ∀ e ∈ es, e.due = true

namespace Delays

def Fine (n : Delays) (ℓ : Fin LINES) (w : Worker) : ApplyPc → Prop
  | .idle => True
  | .enter => n.Due ℓ (n.target ℓ w)
  | .flip gen _ _ | .commit gen _ _ => n.Due ℓ gen

structure Grows (n n' : Delays) : Prop where
  prompt : ∀ p ∈ n.prompt, p ∈ n'.prompt
  expired : ∀ p ∈ n.expired, p ∈ n'.expired

theorem Grows.due {n n' : Delays} {ℓ : Fin LINES} {gen : ℕ} (h : n.Grows n') (hd : n.Due ℓ gen) : n'.Due ℓ gen := by
  rcases hd with hd | hd
  · exact .inl (h.prompt _ hd)
  · exact .inr (h.expired _ hd)

theorem Grows.fine {n n' : Delays} {ℓ : Fin LINES} {w : Worker} {pc : ApplyPc} (h : n.Grows n')
    (ht : n'.target ℓ w = n.target ℓ w) (hf : n.Fine ℓ w pc) : n'.Fine ℓ w pc := by
  cases pc with
  | idle => trivial
  | enter =>
    show n'.Due ℓ (n'.target ℓ w)
    rw [ht]
    exact h.due hf
  | flip | commit => exact h.due hf

theorem grows_snapshot (n : Delays) (attrs : FaultAttrs) (k : ℕ) (ℓ : Fin LINES) (gen : ℕ) :
    n.Grows (n.snapshot attrs k ℓ gen) := by
  constructor
  · intro p hp
    unfold snapshot
    dsimp only
    split
    · exact List.mem_cons_of_mem _ hp
    · exact hp
  · exact fun _ hp => hp

end Delays

structure Timed (n : Delays) (d : Dev) : Prop where
  applies : ∀ ℓ w, n.Fine ℓ w (applyOf d ℓ w)
  queued : ∀ ℓ, (d.lines ℓ).workQueued = true → n.Due ℓ (n.queuedFor ℓ)

section

variable {n n' : Delays} {b b' : Bus} {d d' : Dev} {ℓ : Fin LINES} {o : List Obs}

theorem Timed.frame (h : Timed n d) (ha : ∀ ℓ, applyOf d' ℓ = applyOf d ℓ)
    (hq : ∀ ℓ, (d'.lines ℓ).workQueued = true → (d.lines ℓ).workQueued = true) : Timed n d' := by
  constructor
  · intro ℓ w
    rw [ha]
    exact h.applies ℓ w
  · intro ℓ hw
    exact h.queued ℓ (hq ℓ hw)

theorem Timed.armed (h : Timed n d) (armedFor : Fin LINES → ℕ) : Timed { n with armedFor } d :=
  ⟨fun ℓ w => Delays.Grows.fine ⟨fun _ hp => hp, fun _ hp => hp⟩ (by cases w <;> rfl) (h.applies ℓ w), h.queued⟩

theorem ApplyStep.fine {pc pc' : ApplyPc} {w : Worker} (h : ApplyStep b d ℓ pc b' d' pc' o) (hpc : n.Fine ℓ w pc)
    (hown : pc = .enter → finds n d ℓ w) : n.Fine ℓ w pc' ∧ NoEarlyCommit (o.filterMap n.delivery) := by
  cases h with
  | stale | giveUp => exact ⟨trivial, by simp [NoEarlyCommit]⟩
  | plain hs | gate hs =>
    refine ⟨?_, by simp [NoEarlyCommit, Delays.delivery]⟩
    show n.Due ℓ (d.lines ℓ).snapGen
    rcases hown rfl with htarget | happlied | hdue
    · rw [htarget]
      exact hpc
    · rw [hs] at happlied
      cases happlied
    · exact hdue
  | flip => exact ⟨hpc, by simp [NoEarlyCommit]⟩
  | commit =>
    have hdue : n.Due ℓ _ := hpc
    exact ⟨trivial, by simp [NoEarlyCommit, Delays.delivery, hdue]⟩

theorem Timed.setInject {k : ℕ} {inj : Inject} {inj' : Option Inject} (h : Timed n d) (hk : d.inject? k = some inj)
    (hf : ∀ ℓ, n.Fine ℓ (some k) (applyPc ℓ inj')) : Timed n (d.setInject k inj') := by
  constructor
  · intro ℓ w
    rw [applyOf_setInject hk]
    by_cases hw : w = some k
    · rw [hw, Function.update_self]
      exact hf ℓ
    · rw [Function.update_of_ne hw]
      exact h.applies ℓ w
  · exact h.queued

theorem Timed.setInject_idle {k : ℕ} {inj : Inject} {inj' : Option Inject} (h : Timed n d)
    (hk : d.inject? k = some inj) (hi : ∀ ℓ, applyPc ℓ inj' = .idle) : Timed n (d.setInject k inj') := by
  apply h.setInject hk
  intro ℓ
  rw [hi]
  trivial

theorem Timed.setLine {line : Line} (h : Timed n d) (hw : n.Fine ℓ none line.work)
    (hq : line.workQueued = true → n.Due ℓ (n.queuedFor ℓ)) : Timed n (d.setLine ℓ line) := by
  constructor
  · intro ℓ' w
    rw [applyOf_setLine]
    split
    · rename_i hl
      subst hl
      cases w with
      | none =>
        rw [Function.update_self]
        exact hw
      | some k =>
        rw [Function.update_of_ne (by simp)]
        exact h.applies ℓ' (some k)
    · exact h.applies ℓ' w
  · intro ℓ' hq'
    by_cases hl : ℓ' = ℓ
    · subst hl
      exact hq (by simpa using hq')
    · exact h.queued ℓ' (by simpa [hl] using hq')

theorem Timed.setValue {line : Line} (h : Timed n d) (hline : ∃ value isOutput,
    line = { d.lines ℓ with value := value, isOutput := isOutput }) : Timed n (d.setLine ℓ line) := by
  obtain ⟨value, isOutput, rfl⟩ := hline
  exact h.setLine (h.applies ℓ none) (h.queued ℓ)

theorem ApplyFrame.timed (h : ApplyFrame d d' ℓ) (ht : Timed n d) : Timed n d' := by
  apply ht.frame h.applyOf
  intro ℓ' hq
  by_cases hl : ℓ' = ℓ
  · obtain ⟨gen, value, hline⟩ := h.line
    rw [hl, hline] at hq
    rw [hl]
    exact hq
  · rw [h.other ℓ' hl] at hq
    exact hq

theorem Timed.snapshot {k count : ℕ} {val : UInt8} (h : Timed n d) (hk : d.inject? k = some ⟨count, .gated ℓ val⟩) :
    Timed (n.snapshot d.attrs k ℓ ((d.lines ℓ).snapGen + 1)) ((takeSnapshot d ℓ val).setInject k
      (some ⟨count, dispatch ℓ d.attrs.latencyNs d.attrs.jitterNs⟩)) := by
  have hgrows := n.grows_snapshot d.attrs k ℓ ((d.lines ℓ).snapGen + 1)
  have hk' : (takeSnapshot d ℓ val).inject? k = some ⟨count, .gated ℓ val⟩ := hk
  have hof (ℓ' : Fin LINES) : applyOf (takeSnapshot d ℓ val) ℓ' = applyOf d ℓ' := by
    rw [takeSnapshot, applyOf_setLine]
    split
    · rename_i hl
      rw [← hl]
      exact Function.update_eq_self none _
    · rfl
  constructor
  · intro ℓ' w
    rw [applyOf_setInject hk', hof]
    by_cases hw : w = some k
    · rw [hw, Function.update_self]
      unfold dispatch
      split
      · rename_i hprompt
        unfold applyPc
        dsimp only
        split
        · rename_i hl
          subst hl
          left
          simp [Delays.snapshot, Delays.target, hprompt]
        · trivial
      · split <;> trivial
    · rw [Function.update_of_ne hw]
      apply hgrows.fine _ (h.applies ℓ' w)
      cases w with
      | none => rfl
      | some j =>
        have hj : j ≠ k := fun hj => hw (by rw [hj])
        exact Function.update_of_ne hj ..
  · intro ℓ' hq
    apply hgrows.due
    apply h.queued
    by_cases hl : ℓ' = ℓ
    · subst hl
      simpa [takeSnapshot] using hq
    · simpa [takeSnapshot, hl] using hq

theorem ApplyStep.timed {k count : ℕ} {pc pc' : ApplyPc} {inj' : Option Inject} (ha : ApplyStep b d ℓ pc b' d' pc' o)
    (ht : Timed n d) (hk : d.inject? k = some ⟨count, .apply ℓ pc⟩)
    (hf : ∀ ℓ', n.Fine ℓ' (some k) (applyPc ℓ' inj')) : Timed n (d'.setInject k inj') := by
  have hk' : d'.inject? k = some ⟨count, .apply ℓ pc⟩ := by rw [ha.frame.inject?, hk]
  exact (ha.frame.timed ht).setInject hk' hf

theorem InjectStep.timed {k : ℕ} {hiFirst : Bool} (h : InjectStep b d k b' d' o) (ht : Timed n d)
    (hg : ∀ p, entering d (.inject k hiFirst) = some p → finds n d p.1 p.2) :
    Timed (n.next d (.inject k hiFirst) o) d' ∧ NoEarlyCommit (o.filterMap n.delivery) := by
  have happly {count : ℕ} {ℓ : Fin LINES} {pc : ApplyPc} (hk : d.inject? k = some ⟨count, .apply ℓ pc⟩) :
      n.Fine ℓ (some k) pc ∧ (pc = .enter → finds n d ℓ (some k)) := by
    constructor
    · have hf := ht.applies ℓ (some k)
      simpa [applyOf, applyPc, hk] using hf
    · intro hpc
      exact hg (ℓ, some k) (by simp [entering, hk, hpc])
  cases h with
  | busUp hk | busDown hk | disabled hk | draw hk | draw2 hk =>
    simp only [Delays.next, hk]
    exact ⟨ht.setInject_idle hk (fun _ => rfl), by simp [NoEarlyCommit, Delays.delivery]⟩
  | @drop count ℓ val b' hk he =>
    simp only [Delays.next, hk]
    have ht' : Timed n { d with statDrops := d.statDrops + 1 } := ht.frame (fun _ => rfl) (fun _ hq => hq)
    exact ⟨ht'.setInject_idle hk (fun _ => rfl), by simp [NoEarlyCommit, Delays.delivery]⟩
  | snapshot hk he => exact ⟨ht.snapshot hk, by simp [NoEarlyCommit, Delays.delivery]⟩
  | @arm count ℓ delayNs hk =>
    simp only [Delays.next, hk]
    refine ⟨Timed.armed ?_ _, by simp [NoEarlyCommit, Delays.delivery]⟩
    have ht' : Timed n (d.setLine ℓ { d.lines ℓ with delayTimer := some delayNs }) :=
      ht.setLine (ht.applies ℓ none) (ht.queued ℓ)
    exact ht'.setInject_idle hk (fun _ => rfl)
  | @apply count ℓ pc b' e pc' o hk ha hpc =>
    obtain ⟨hf, hfind⟩ := happly hk
    obtain ⟨hf', hno⟩ := ha.fine hf hfind
    have hnext : n.next d (.inject k hiFirst) o = n := by cases ha <;> simp [Delays.next, hk]
    rw [hnext]
    refine ⟨ha.timed ht hk ?_, hno⟩
    intro ℓ'
    unfold applyPc
    dsimp only
    split
    · rename_i hl
      rw [← hl]
      exact hf'
    · trivial
  | @applied count ℓ pc b' e o hk ha =>
    obtain ⟨hf, hfind⟩ := happly hk
    obtain ⟨hf', hno⟩ := ha.fine hf hfind
    have hnext : n.next d (.inject k hiFirst) (o ++ [.returned k (.ok count)]) = n := by
      cases ha <;> simp [Delays.next, hk]
    rw [hnext]
    refine ⟨ha.timed ht hk (fun _ => trivial), ?_⟩
    have hret : List.filterMap n.delivery [.returned k (.ok count)] = [] := rfl
    rw [List.filterMap_append, hret, List.append_nil]
    exact hno

theorem WorkStep.timed (h : WorkStep b d ℓ b' d' o) (ht : Timed n d)
    (hg : ∀ p, entering d (.work ℓ) = some p → finds n d p.1 p.2) :
    Timed n d' ∧ NoEarlyCommit (o.filterMap n.delivery) := by
  cases h with
  | @apply e pc' o ha =>
    obtain ⟨hf, hno⟩ := ha.fine (w := none) (ht.applies ℓ none)
      (fun hpc => hg (ℓ, none) (by simp [entering, hpc]))
    have ht' := ha.frame.timed ht
    exact ⟨ht'.setLine hf (ht'.queued ℓ), hno⟩

theorem DevStep.timed {a : Act} (h : DevStep d a d' o) (ht : Timed n d) :
    Timed (n.next d a o) d' ∧ NoEarlyCommit (o.filterMap n.delivery) := by
  cases h with
  | rejected | parsed =>
    refine ⟨?_, by simp [NoEarlyCommit, Delays.delivery]⟩
    apply ht.frame
    · intro ℓ
      rw [applyOf_call]
      refine Function.update_eq_self_iff.mpr ?_
      rw [applyOf_next_call]
      rfl
    · exact fun _ hq => hq
  | @timerExpire ℓ hsome =>
    refine ⟨?_, by simp [NoEarlyCommit]⟩
    have hgrows : n.Grows (n.next d (.timerExpire ℓ) []) := by
      constructor
      · exact fun _ hp => hp
      · exact fun _ hp => List.mem_cons_of_mem _ hp
    have hnow : (n.next d (.timerExpire ℓ) []).Due ℓ ((n.next d (.timerExpire ℓ) []).queuedFor ℓ) := by
      right
      simp [Delays.next]
    have ht' : Timed (n.next d (.timerExpire ℓ) []) d := by
      constructor
      · intro ℓ' w
        exact hgrows.fine (by cases w <;> rfl) (ht.applies ℓ' w)
      · intro ℓ' hq
        by_cases hl : ℓ' = ℓ
        · rw [hl]
          exact hnow
        · have hsame : (n.next d (.timerExpire ℓ) []).queuedFor ℓ' = n.queuedFor ℓ' := Function.update_of_ne hl ..
          rw [hsame]
          exact hgrows.due (ht.queued ℓ' hq)
    exact ht'.setLine (ht'.applies ℓ none) (fun _ => hnow)
  | @workStart ℓ hq hw =>
    refine ⟨?_, by simp [NoEarlyCommit]⟩
    have hgrows : n.Grows (n.next d (.workStart ℓ) []) := ⟨fun _ hp => hp, fun _ hp => hp⟩
    have ht' : Timed (n.next d (.workStart ℓ) []) d := by
      constructor
      · intro ℓ' w
        cases w with
        | some k => exact hgrows.fine rfl (ht.applies ℓ' (some k))
        | none =>
          by_cases hl : ℓ' = ℓ
          · rw [hl]
            simp only [applyOf, hw]
            trivial
          · have hsame : (n.next d (.workStart ℓ) []).target ℓ' none = n.target ℓ' none := Function.update_of_ne hl ..
            exact hgrows.fine hsame (ht.applies ℓ' none)
      · exact ht.queued
    apply ht'.setLine
    · show n.Due ℓ (Function.update n.runsFor ℓ (n.queuedFor ℓ) ℓ)
      rw [Function.update_self]
      exact ht.queued ℓ hq
    · intro hfalse
      cases hfalse
  | directionInput | directionOutput => exact ⟨ht.setValue ⟨_, _, rfl⟩, by simp [NoEarlyCommit]⟩
  | set => exact ⟨ht.setValue (setValue_line _ _), by simp [NoEarlyCommit]⟩
  | setMultiple =>
    refine ⟨?_, by simp [NoEarlyCommit]⟩
    apply ht.frame
    · exact fun ℓ => applyOf_lines rfl (setMultiple_line _ _ _)
    · intro ℓ hq
      obtain ⟨value, isOutput, hline⟩ := setMultiple_line (d.lines ℓ) _ _
      dsimp only at hq
      rw [hline] at hq
      exact hq
  | attrStore | resetStore | reset => exact ⟨ht.frame (fun _ => rfl) (fun _ hq => hq), by simp [NoEarlyCommit]⟩
  | @cancelTimer ℓ =>
    have ht' : Timed n (d.setLine ℓ { d.lines ℓ with delayTimer := none }) := ht.setLine (ht.applies ℓ none) (ht.queued ℓ)
    exact ⟨ht'.frame (fun _ => rfl) (fun _ hq => hq), by simp [NoEarlyCommit]⟩
  | @cancelWork ℓ =>
    have ht' : Timed n (d.setLine ℓ { d.lines ℓ with workQueued := false }) :=
      ht.setLine (ht.applies ℓ none) (fun hfalse => by cases hfalse)
    exact ⟨ht'.frame (fun _ => rfl) (fun _ hq => hq), by simp [NoEarlyCommit]⟩
  | critical => exact ⟨ht.frame (fun _ => rfl) (fun _ hq => hq), by simp [NoEarlyCommit, Delays.delivery]⟩
  | refused ha =>
    refine ⟨?_, by simp [NoEarlyCommit]⟩
    cases a <;> first | exact ht | cases ha

end

theorem Timed.step {x y : Sys × Delays} {a : Act} {e : List Delivery} (h : Timed x.2 x.1.dev) (hg : OwnDispatch x a)
    (hm : observed machine delaying x a = some (y, e)) : Timed y.2 y.1.dev ∧ NoEarlyCommit e := by
  obtain ⟨o, hmo, hn, rfl⟩ := observed_eq_some hm
  have hn' : y.2 = x.2.next x.1.dev a o := hn
  have hfinds (p) (hp : entering x.1.dev a = some p) : finds x.2 x.1.dev p.1 p.2 := by
    rw [OwnDispatch, hp] at hg
    exact of_decide_eq_true hg
  rw [hn']
  obtain ⟨k, hiFirst, rfl, hi⟩ | ⟨ℓ, rfl, hw⟩ | ⟨b, rfl, -, hd, rfl⟩ | ⟨-, hd⟩ := machine_cases hmo
  · exact hi.timed h hfinds
  · exact hw.timed h hfinds
  · rw [hd]
    exact ⟨h, by simp [NoEarlyCommit, delaying]⟩
  · exact hd.timed h

theorem timed_start : Timed .none Dev.init := by
  constructor
  · intro ℓ w
    cases w <;> trivial
  · intro ℓ hq
    cases hq

theorem no_early_commit {es : List Delivery} {x : Sys × Delays}
    (h : Run (observed machine delaying) OwnDispatch (start, .none) es x) : NoEarlyCommit es := by
  have hinv : Timed x.2 x.1.dev ∧ ∀ e ∈ es, e.due = true := by
    apply h.shown (fun x => Timed x.2 x.1.dev) (fun e => e.due = true) timed_start
    intro x a y e hi hg hm
    exact hi.step hg hm
  exact hinv.2

theorem no_early_commit_rearmed : ∃ es x,
    Run (observed machine delaying) OwnDispatch (start, .none) es x ∧ es = [⟨0, 2, true⟩, ⟨0, 3, true⟩] ∧
    NoEarlyCommit es := by
  obtain ⟨es, x, hrun, hes⟩ := Run.exists_of_exec (M := observed machine delaying) (P := OwnDispatch)
    (s := (start, .none))
    ([.attrStore .latencyNs [53], .injectStore injectHigh, .inject 0 true, .inject 0 true, .inject 0 true,
      .injectStore injectHigh, .inject 1 true, .inject 1 true, .inject 1 true, .timerExpire 0, .workStart 0, .work 0,
      .work 0, .attrStore .latencyNs [48], .injectStore injectHigh, .inject 2 true, .inject 2 true, .inject 2 true,
      .inject 2 true])
    (fun es _ => es = [⟨0, 2, true⟩, ⟨0, 3, true⟩]) (by decide +kernel)
  exact ⟨es, x, hrun, hes, no_early_commit hrun⟩

theorem late_work_commits_early : ¬ ∀ es x, Run (observed machine delaying) Always (start, .none) es x →
    NoEarlyCommit es := by
  intro hall
  -- the work queued for the first inject runs while the timer that the second one armed is pending
  obtain ⟨es, x, hrun, hes⟩ := Run.exists_of_exec (M := observed machine delaying) (P := Always) (s := (start, .none))
    ([.attrStore .latencyNs [53], .injectStore injectHigh, .inject 0 true, .inject 0 true, .inject 0 true,
      .timerExpire 0, .injectStore injectHigh, .inject 1 true, .inject 1 true, .inject 1 true, .workStart 0, .work 0,
      .work 0])
    (fun es _ => es = [⟨0, 2, false⟩]) (by decide +kernel)
  have h := hall es x hrun ⟨0, 2, false⟩ (by rw [hes]; exact List.mem_singleton_self _)
  cases h

end VirtRtLab.Gpio
