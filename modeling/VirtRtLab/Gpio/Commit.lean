import Mathlib.Algebra.BigOperators.Fin
import Mathlib.Algebra.Order.BigOperators.Group.Finset
import VirtRtLab.Gpio.Cells

namespace VirtRtLab.Gpio

open Kernel VirtRtLab.Core Transition Generation

def owners (d : Dev) : List Worker := none :: (List.range d.injects.length).map some

theorem gen?_of_not_mem_owners {d : Dev} {ℓ : Fin LINES} {w : Worker} (hw : w ∉ owners d) :
    (applyOf d ℓ w).gen? = none := by
  cases w with
  | none => simp [owners] at hw
  | some k =>
    have hk : d.injects.length ≤ k := by simpa [owners] using hw
    simp [applyOf, Dev.inject?, List.getElem?_eq_none hk, applyPc, ApplyPc.gen?]

def noneHolds (d : Dev) (ℓ : Fin LINES) (p : ℕ → Bool) : Bool :=
  (owners d).all (fun w => ((applyOf d ℓ w).gen?).all (fun gen => !p gen))

theorem noneHolds_iff {d : Dev} {ℓ : Fin LINES} {p : ℕ → Bool} :
    noneHolds d ℓ p = true ↔ ∀ w gen, (cell d ℓ).held w = some gen → p gen = false := by
  constructor
  · intro h w gen hw
    have hw' : (applyOf d ℓ w).gen? = some gen := hw
    have hmem : w ∈ owners d := by
      by_contra hn
      simp [gen?_of_not_mem_owners hn] at hw'
    have := List.all_eq_true.mp h w hmem
    simpa [hw'] using this
  · intro h
    apply List.all_eq_true.mpr
    intro w _
    cases hw : (applyOf d ℓ w).gen? with
    | none => rfl
    | some gen => simp [h w gen hw]

def readsAlone (d : Dev) : Obs → Bool
  | .read ℓ gen => noneHolds d ℓ (· == gen)
  | _ => true

def Alone (s : Sys) (a : Act) : Prop := (machine s a).all (fun r => r.2.all (readsAlone s.dev)) = true

instance (s : Sys) (a : Act) : Decidable (Alone s a) := inferInstanceAs (Decidable (_ = true))

theorem mem_events {ℓ : Fin LINES} {os : List Obs} {e : Event} (h : e ∈ events ℓ os) : ∃ x ∈ os, x.event ℓ = some e :=
  List.mem_filterMap.mp h

theorem event_read {ℓ : Fin LINES} {x : Obs} {gen : ℕ} (h : x.event ℓ = some (.read gen)) : x = .read ℓ gen := by
  cases x with
  | read ℓ' gen' =>
    simp only [Obs.event] at h
    split at h <;> cases h
    rename_i hl
    rw [hl]
  | snapshot | commit =>
    simp only [Obs.event] at h
    split at h <;> cases h
  | reset | returned => cases h

theorem Alone.exclusive {s t : Sys} {a : Act} {o : List Obs} (h : Alone s a) (hm : machine s a = some (t, o))
    (ℓ : Fin LINES) : Exclusive (cell s.dev ℓ) (events ℓ o) := by
  intro gen hg w hw
  obtain ⟨x, hx, he⟩ := mem_events hg
  rw [Alone, hm] at h
  have hx' := List.all_eq_true.mp h x hx
  rw [event_read he] at hx'
  have := noneHolds_iff.mp hx' w gen hw
  simp at this

theorem once_run {os : List Obs} {s : Sys} (h : Run machine Alone start os s) (ℓ : Fin LINES) :
    Once view (takes (events ℓ os)) (commits (events ℓ os)) (cell s.dev ℓ) := by
  apply h.history (fun os s => Once view (takes (events ℓ os)) (commits (events ℓ os)) (cell s.dev ℓ))
  · apply once_initial
    · intro w
      cases w <;> rfl
    · rfl
  · intro os t a u o hi ha hm
    rw [events_append]
    rcases machine_cell hm ℓ with ⟨hc, he⟩ | hstep
    · rw [hc, he, List.append_nil]
      exact hi
    · exact hi.step hstep (ha.exclusive hm ℓ)

def Obs.snapLine : Obs → Option (Fin LINES)
  | .snapshot ℓ _ _ => some ℓ
  | _ => none

def Obs.commitLine : Obs → Option (Fin LINES)
  | .commit ℓ _ _ _ => some ℓ
  | _ => none

def Obs.isFlip : Obs → Bool
  | .commit _ _ flipped _ => flipped
  | _ => false

def Obs.flip? (ℓ : Fin LINES) : Obs → Option ℕ
  | .commit ℓ' gen true _ => if ℓ' = ℓ then some gen else none
  | _ => none

def flips (ℓ : Fin LINES) (os : List Obs) : List ℕ := os.filterMap (Obs.flip? ℓ)

def snapshots (os : List Obs) : ℕ := os.countP (fun x => x.snapLine.isSome)

theorem countP_lines (f : Obs → Option (Fin LINES)) (os : List Obs) :
    ∑ ℓ, os.countP (fun x => f x == some ℓ) = os.countP (fun x => (f x).isSome) := by
  induction os with
  | nil => simp
  | cons x os ih =>
    simp only [List.countP_cons, Finset.sum_add_distrib, ih]
    congr 1
    cases hf : f x with
    | none => simp
    | some ℓ => simp

theorem length_takes (ℓ : Fin LINES) (os : List Obs) :
    (takes (events ℓ os)).length = os.countP (fun x => x.snapLine == some ℓ) := by
  induction os with
  | nil => rfl
  | cons x os ih =>
    rw [List.countP_cons, ← ih, ← List.singleton_append, events_append, takes_append, List.length_append, add_comm]
    congr 1
    cases x with
    | snapshot ℓ' gen val =>
      by_cases hl : ℓ' = ℓ <;> simp [events, takes, Obs.event, Obs.snapLine, Event.taken?, hl]
    | read ℓ' gen =>
      by_cases hl : ℓ' = ℓ <;> simp [events, takes, Obs.event, Obs.snapLine, Event.taken?, hl]
    | commit ℓ' gen flipped changed =>
      by_cases hl : ℓ' = ℓ <;> simp [events, takes, Obs.event, Obs.snapLine, Event.taken?, hl]
    | reset | returned => rfl

theorem length_commits (ℓ : Fin LINES) (os : List Obs) :
    (commits (events ℓ os)).length = os.countP (fun x => x.commitLine == some ℓ) := by
  induction os with
  | nil => rfl
  | cons x os ih =>
    rw [List.countP_cons, ← ih, ← List.singleton_append, events_append, commits_append, List.length_append, add_comm]
    congr 1
    cases x with
    | snapshot ℓ' gen val =>
      by_cases hl : ℓ' = ℓ <;> simp [events, commits, Obs.event, Obs.commitLine, Event.committed?, hl]
    | read ℓ' gen =>
      by_cases hl : ℓ' = ℓ <;> simp [events, commits, Obs.event, Obs.commitLine, Event.committed?, hl]
    | commit ℓ' gen flipped changed =>
      by_cases hl : ℓ' = ℓ <;> simp [events, commits, Obs.event, Obs.commitLine, Event.committed?, hl]
    | reset | returned => rfl

theorem flips_sublist (ℓ : Fin LINES) (os : List Obs) : (flips ℓ os).Sublist (commits (events ℓ os)) := by
  induction os with
  | nil => exact .slnil
  | cons x os ih =>
    rw [← List.singleton_append, events_append, commits_append]
    have hx : (flips ℓ [x]).Sublist (commits (events ℓ [x])) := by
      cases x with
      | commit ℓ' gen flipped changed =>
        by_cases hl : ℓ' = ℓ <;> cases flipped <;> simp [flips, events, commits, Obs.event, Obs.flip?, Event.committed?, hl]
      | snapshot | read | reset | returned => exact List.nil_sublist _
    have : flips ℓ ([x] ++ os) = flips ℓ [x] ++ flips ℓ os := List.filterMap_append ..
    rw [this]
    exact hx.append ih

theorem toNat_succ_le (n : UInt64) : (n + 1).toNat ≤ n.toNat + 1 := by
  rw [UInt64.toNat_add]
  exact Nat.mod_le _ _

theorem ApplyStep.bitflips {b b' : Bus} {d d' : Dev} {ℓ : Fin LINES} {pc pc' : ApplyPc} {o : List Obs}
    (h : ApplyStep b d ℓ pc b' d' pc' o) : d'.statBitflips.toNat ≤ d.statBitflips.toNat + o.countP Obs.isFlip := by
  cases h with
  | @commit gen snapVal newVal flipped changed hs hf hc =>
    have := toNat_succ_le d.statBitflips
    by_cases hn : newVal = snapVal
    · simp [commitLine, hf, Obs.isFlip, hn]
    · simpa [commitLine, hf, Obs.isFlip, hn] using this
  | stale | plain | gate | flip | giveUp => exact Nat.le_add_right _ _

theorem InjectStep.bitflips {b b' : Bus} {d d' : Dev} {k : ℕ} {o : List Obs} (h : InjectStep b d k b' d' o) :
    d'.statBitflips.toNat ≤ d.statBitflips.toNat + o.countP Obs.isFlip := by
  cases h with
  | apply hk ha hpc => exact ha.bitflips
  | applied hk ha =>
    rw [List.countP_append]
    exact ha.bitflips.trans (by omega)
  | busUp | busDown | disabled | drop | snapshot | draw | draw2 | arm => exact Nat.le_add_right _ _

theorem DevStep.bitflips {d d' : Dev} {a : Act} {o : List Obs} (h : DevStep d a d' o) :
    d'.statBitflips.toNat ≤ d.statBitflips.toNat + o.countP Obs.isFlip := by
  cases h with
  | critical | resetStore => exact Nat.zero_le _
  | _ => exact Nat.le_add_right _ _

theorem machine_bitflips {s t : Sys} {a : Act} {o : List Obs} (h : machine s a = some (t, o)) :
    t.dev.statBitflips.toNat ≤ s.dev.statBitflips.toNat + o.countP Obs.isFlip := by
  obtain ⟨k, hiFirst, -, hi⟩ | ⟨ℓ', -, hw⟩ | ⟨b, -, -, hd, rfl⟩ | ⟨-, hd⟩ := machine_cases h
  · exact hi.bitflips
  · generalize t.dev = d' at hw ⊢
    cases hw with
    | apply ha => exact ha.bitflips
  · rw [hd]
    exact Nat.le_add_right _ _
  · exact hd.bitflips

structure CommitOnce (os : List Obs) (s : Sys) : Prop where
  commits : ∀ ℓ, (commits (events ℓ os)).Nodup
  flips : ∀ ℓ, (flips ℓ os).Nodup
  bitflips : s.dev.statBitflips.toNat ≤ snapshots os

theorem countP_isFlip_le (os : List Obs) : os.countP Obs.isFlip ≤ os.countP (fun x => x.commitLine.isSome) := by
  apply List.countP_mono_left
  intro x _ hx
  cases x <;> simp_all [Obs.isFlip, Obs.commitLine]

theorem commit_at_most_once {os : List Obs} {s : Sys} (h : Run machine Alone start os s) : CommitOnce os s := by
  have hflips : s.dev.statBitflips.toNat ≤ os.countP Obs.isFlip := by
    apply h.history (fun os s => s.dev.statBitflips.toNat ≤ os.countP Obs.isFlip)
    · exact Nat.le_refl 0
    · intro os t a u o hi _ hm
      have := machine_bitflips hm
      rw [List.countP_append]
      omega
  constructor
  · intro ℓ
    exact (once_run h ℓ).nodup
  · intro ℓ
    exact (once_run h ℓ).nodup.sublist (flips_sublist ℓ os)
  · calc s.dev.statBitflips.toNat
        ≤ os.countP Obs.isFlip := hflips
      _ ≤ os.countP (fun x => x.commitLine.isSome) := countP_isFlip_le os
      _ = ∑ ℓ, (Generation.commits (events ℓ os)).length := by
          simp only [length_commits]
          exact (countP_lines Obs.commitLine os).symm
      _ ≤ ∑ ℓ, (takes (events ℓ os)).length := Finset.sum_le_sum (fun ℓ _ => (once_run h ℓ).commits_le_takes)
      _ = snapshots os := by
          simp only [length_takes]
          exact countP_lines Obs.snapLine os

def injectHigh : Bytes := [48, 58, 49]

theorem commit_at_most_once_two_injects : ∃ os s, Run machine Alone start os s ∧
    commits (events 0 os) = [1, 2] ∧ CommitOnce os s := by
  obtain ⟨os, s, hrun, hc⟩ := Run.exists_of_exec (M := machine) (P := Alone) (s := start)
    [.injectStore injectHigh, .injectStore injectHigh, .inject 0 true, .inject 1 true, .inject 0 true, .inject 0 true,
      .inject 0 true, .inject 1 true, .inject 1 true, .inject 1 true]
    (fun os _ => commits (events 0 os) = [1, 2]) (by decide +kernel)
  exact ⟨os, s, hrun, hc, commit_at_most_once hrun⟩

theorem generation_committed_twice : ¬ ∀ os s, Run machine Always start os s → CommitOnce os s := by
  intro hall
  -- both snapshots are taken before either apply enters its first critical section
  obtain ⟨os, s, hrun, hc⟩ := Run.exists_of_exec (M := machine) (P := Always) (s := start)
    [.attrStore .bitflipRatePpm [49, 48, 48, 48, 48, 48, 48], .injectStore injectHigh, .injectStore injectHigh,
      .inject 0 true, .inject 1 true, .inject 0 true, .inject 1 true, .inject 0 true, .inject 1 true, .inject 0 true,
      .inject 1 true, .inject 0 true, .inject 1 true]
    (fun os _ => commits (events 0 os) = [2, 2] ∧ flips 0 os = [2, 2]) (by decide +kernel)
  have hnodup := (hall os s hrun).commits 0
  rw [hc.1] at hnodup
  simp at hnodup

end VirtRtLab.Gpio
