import VirtRtLab.Lib.Generation

/-!
A single slot for published values: taking a new generation while the last one is not committed supersedes it.
-/

namespace VirtRtLab.Generation

structure Slot where
  pending : Option ℕ
  done : List ℕ
  superseded : List ℕ
  deriving DecidableEq

namespace Slot

def next (s : Slot) : Event → Slot
  | .taken g => { s with pending := some g, superseded := s.superseded ++ s.pending.toList }
  | .committed g => if s.pending = some g then { s with pending := none, done := s.done ++ [g] } else s
  | .read _ | .marked => s

def after (es : List Event) : Slot := es.foldl next ⟨none, [], []⟩

theorem after_append (es es' : List Event) : after (es ++ es') = es'.foldl next (after es) := List.foldl_append

theorem after_snoc (es : List Event) (e : Event) : after (es ++ [e]) = (after es).next e := after_append es [e]

theorem mem_takes_after (es : List Event) (g : ℕ) : g ∈ takes es ↔
    g ∈ (after es).done ∨ g ∈ (after es).superseded ∨ (after es).pending = some g := by
  induction es using List.reverseRecOn with
  | nil => simp [takes, after]
  | append_singleton es e ih =>
    rw [takes_append, List.mem_append, ih, after_snoc]
    cases e with
    | taken g' =>
      simp [next, takes, Event.taken?, eq_comm, or_assoc]
    | committed g' =>
      simp only [next]
      split
      · rename_i hp
        simp [takes, Event.taken?, List.filterMap_cons, hp, eq_comm, or_assoc, or_comm, or_left_comm]
      · simp [takes, Event.taken?, List.filterMap_cons]
    | read | marked => simp [next, takes, Event.taken?, List.filterMap_cons]

theorem length_takes_after (es : List Event) : (takes es).length =
    (after es).done.length + (after es).superseded.length + (after es).pending.toList.length := by
  induction es using List.reverseRecOn with
  | nil => rfl
  | append_singleton es e ih =>
    rw [takes_append, List.length_append, ih, after_snoc]
    cases e with
    | taken g' =>
      simp [next, takes, Event.taken?]
      omega
    | committed g' =>
      simp only [next]
      split
      · rename_i hp
        simp [takes, Event.taken?, List.filterMap_cons, hp]
        omega
      · simp [takes, Event.taken?, List.filterMap_cons]
    | read | marked => simp [next, takes, Event.taken?, List.filterMap_cons]

end Slot

def superseded (es : List Event) : List ℕ := (Slot.after es).superseded

structure Delivered (es : List Event) : Prop where
  committed : ∀ g, g ∈ commits es ↔ g ∈ takes es ∧ g ∉ superseded es
  count : (commits es).Nodup → (commits es).length + (superseded es).length = (takes es).length

section

variable {W V : Type} (view : ℕ → V)

/-- The step does not mark, and a generation it takes shows neither as the applied one nor as one that is held. -/
def Apart (c : Cell W) (e : List Event) : Prop :=
  .marked ∉ e ∧ ∀ gen, .taken gen ∈ e → view gen ≠ view c.applied ∧ ∀ w g, c.held w = some g → view g ≠ view gen

structure Slotted (es : List Event) (c : Cell W) : Prop where
  done_le : ∀ g ∈ (Slot.after es).done, g ≤ c.snap
  superseded_lt : ∀ g ∈ (Slot.after es).superseded, g < c.snap
  disjoint : ∀ g ∈ (Slot.after es).done, g ∉ (Slot.after es).superseded
  waiting : ∀ g, (Slot.after es).pending = some g → g = c.snap ∧ g ∉ (Slot.after es).done
  pending : (Slot.after es).pending = none ↔ view c.snap = view c.applied
  held_taken : ∀ w g, c.held w = some g → g ∈ takes es
  held_snap : ∀ w g, c.held w = some g → view g = view c.snap → g = c.snap
  commits : ∀ g, g ∈ commits es ↔ g ∈ (Slot.after es).done
  done : (Generation.commits es).Nodup → (Slot.after es).done = Generation.commits es

variable {view} {es e : List Event} {c c' : Cell W}

theorem slotted_initial (hh : ∀ w, c.held w = none) (ha : view c.snap = view c.applied) : Slotted view [] c := by
  constructor <;> simp_all [Slot.after, Generation.commits]

theorem Slotted.delivered (h : Slotted view es c) (hs : view c.snap = view c.applied) : Delivered es := by
  have hnone := h.pending.mpr hs
  constructor
  · intro g
    rw [h.commits, Slot.mem_takes_after, hnone]
    constructor
    · intro hg
      exact ⟨.inl hg, h.disjoint g hg⟩
    · rintro ⟨hg | hg | hg, hn⟩
      · exact hg
      · exact absurd hg hn
      · cases hg
  · intro hnodup
    rw [Slot.length_takes_after, hnone, h.done hnodup]
    rfl

theorem Slotted.drop [DecidableEq W] {w : W} (h : Slotted view es c) :
    Slotted view es { c with held := Function.update c.held w none } := by
  constructor
  · exact h.done_le
  · exact h.superseded_lt
  · exact h.disjoint
  · exact h.waiting
  · exact h.pending
  · intro v g hv
    exact h.held_taken v g (update_none_eq hv).2
  · intro v g hv
    exact h.held_snap v g (update_none_eq hv).2
  · exact h.commits
  · exact h.done

theorem Slotted.take (h : Slotted view es c) (ha : view (c.snap + 1) ≠ view c.applied)
    (hh : ∀ w g, c.held w = some g → view g ≠ view (c.snap + 1)) :
    Slotted view (es ++ [.taken (c.snap + 1)]) { c with snap := c.snap + 1 } := by
  have hafter := Slot.after_snoc es (.taken (c.snap + 1))
  have hcommits : Generation.commits (es ++ [.taken (c.snap + 1)]) = Generation.commits es := by
    simp [Generation.commits, Event.committed?]
  have hsuper : ∀ g ∈ (Slot.after es).superseded ++ (Slot.after es).pending.toList,
      g ≤ c.snap ∧ g ∉ (Slot.after es).done := by
    intro g hg
    rw [List.mem_append, Option.mem_toList] at hg
    rcases hg with hg | hg
    · exact ⟨Nat.le_of_lt (h.superseded_lt g hg), fun hd => h.disjoint g hd hg⟩
    · obtain ⟨rfl, hn⟩ := h.waiting g hg
      exact ⟨Nat.le_refl _, hn⟩
  have hdone : ∀ g ∈ (Slot.after es).done, g < c.snap + 1 := fun g hg => Nat.lt_succ_of_le (h.done_le g hg)
  constructor
  · rw [hafter]
    exact fun g hg => Nat.le_of_lt (hdone g hg)
  · rw [hafter]
    exact fun g hg => Nat.lt_succ_of_le (hsuper g hg).1
  · rw [hafter]
    exact fun g hg hs => (hsuper g hs).2 hg
  · rw [hafter]
    intro g hg
    cases hg
    exact ⟨rfl, fun hd => Nat.lt_irrefl _ (hdone _ hd)⟩
  · rw [hafter]
    constructor
    · intro hn
      cases hn
    · exact fun hs => absurd hs ha
  · intro w g hw
    rw [takes_append]
    exact List.mem_append_left _ (h.held_taken w g hw)
  · intro w g hw hv
    exact absurd hv (hh w g hw)
  · rw [hafter, hcommits]
    exact h.commits
  · rw [hafter, hcommits]
    exact h.done

variable [DecidableEq W] {w : W}

theorem Slotted.read (h : Slotted view es c) (hs : view c.snap ≠ view c.applied) :
    Slotted view (es ++ [.read c.snap]) { c with held := Function.update c.held w (some c.snap) } := by
  have hafter : Slot.after (es ++ [.read c.snap]) = Slot.after es := Slot.after_snoc es (.read c.snap)
  have htakes : takes (es ++ [.read c.snap]) = takes es := by simp [takes, Event.taken?]
  have hcommits : Generation.commits (es ++ [.read c.snap]) = Generation.commits es := by
    simp [Generation.commits, Event.committed?]
  have hsnap : c.snap ∈ takes es := by
    rw [Slot.mem_takes_after]
    cases hp : (Slot.after es).pending with
    | none => exact absurd (h.pending.mp hp) hs
    | some g =>
      rw [(h.waiting g hp).1]
      exact .inr (.inr rfl)
  constructor
  · rw [hafter]; exact h.done_le
  · rw [hafter]; exact h.superseded_lt
  · rw [hafter]; exact h.disjoint
  · rw [hafter]; exact h.waiting
  · rw [hafter]; exact h.pending
  · intro v g hv
    rw [htakes]
    rcases update_some_eq hv with ⟨-, rfl⟩ | ⟨-, hvg⟩
    · exact hsnap
    · exact h.held_taken v g hvg
  · intro v g hv
    rcases update_some_eq hv with ⟨-, rfl⟩ | ⟨-, hvg⟩
    · exact fun _ => rfl
    · exact h.held_snap v g hvg
  · rw [hafter, hcommits]; exact h.commits
  · rw [hafter, hcommits]; exact h.done

theorem takes_committed (es : List Event) (g : ℕ) : takes (es ++ [.committed g]) = takes es := by
  simp [takes, Event.taken?]

theorem commits_committed (es : List Event) (g : ℕ) :
    Generation.commits (es ++ [.committed g]) = Generation.commits es ++ [g] := by
  simp [Generation.commits, Event.committed?]

theorem Slotted.commit_pending {g : ℕ} (h : Slotted view es c) (hg : g = c.snap)
    (hp : (Slot.after es).pending = some g) :
    Slotted view (es ++ [.committed g]) { c with applied := g, held := Function.update c.held w none } := by
  have hd := h.drop (w := w)
  have hafter : Slot.after (es ++ [.committed g]) =
      { Slot.after es with pending := none, done := (Slot.after es).done ++ [g] } := by
    rw [Slot.after_snoc, Slot.next, if_pos hp]
  have hmem (x : ℕ) : x ∈ (Slot.after es).done ++ [g] ↔ x ∈ (Slot.after es).done ∨ x = g := by simp
  constructor
  · rw [hafter]
    intro x hx
    rcases (hmem x).mp hx with hx | rfl
    · exact h.done_le x hx
    · exact Nat.le_of_eq hg
  · rw [hafter]; exact h.superseded_lt
  · rw [hafter]
    intro x hx
    rcases (hmem x).mp hx with hx | rfl
    · exact h.disjoint x hx
    · intro hlost
      exact Nat.ne_of_lt (h.superseded_lt x hlost) hg
  · rw [hafter]
    intro x hx
    cases hx
  · rw [hafter]
    exact ⟨fun _ => by rw [hg], fun _ => rfl⟩
  · rw [takes_committed]; exact hd.held_taken
  · exact hd.held_snap
  · rw [hafter, commits_committed]
    intro x
    rw [hmem, List.mem_append, List.mem_singleton, h.commits]
  · rw [hafter, commits_committed]
    intro hnodup
    show (Slot.after es).done ++ [g] = Generation.commits es ++ [g]
    rw [h.done (List.nodup_append.mp hnodup).1]

theorem Slotted.commit_again {g : ℕ} (h : Slotted view es c) (hw : c.held w = some g) (hg : g = c.snap)
    (hp : (Slot.after es).pending ≠ some g) :
    Slotted view (es ++ [.committed g]) { c with applied := g, held := Function.update c.held w none } := by
  have hd := h.drop (w := w)
  have hafter : Slot.after (es ++ [.committed g]) = Slot.after es := by rw [Slot.after_snoc, Slot.next, if_neg hp]
  have hdone : g ∈ (Slot.after es).done := by
    rcases (Slot.mem_takes_after es g).mp (h.held_taken w g hw) with hg' | hg' | hg'
    · exact hg'
    · exact absurd hg (Nat.ne_of_lt (h.superseded_lt g hg'))
    · exact absurd hg' hp
  have hnone : (Slot.after es).pending = none := by
    cases hq : (Slot.after es).pending with
    | none => rfl
    | some g' =>
      rw [hq, hg, (h.waiting g' hq).1] at hp
      exact absurd rfl hp
  constructor
  · rw [hafter]; exact h.done_le
  · rw [hafter]; exact h.superseded_lt
  · rw [hafter]; exact h.disjoint
  · rw [hafter]; exact h.waiting
  · rw [hafter, hnone]
    exact ⟨fun _ => by rw [hg], fun _ => rfl⟩
  · rw [takes_committed]; exact hd.held_taken
  · exact hd.held_snap
  · rw [hafter, commits_committed]
    intro x
    rw [List.mem_append, List.mem_singleton, h.commits]
    constructor
    · rintro (hx | rfl)
      · exact hx
      · exact hdone
    · exact .inl
  · rw [hafter, commits_committed]
    intro hnodup
    have hdisj := (List.nodup_append.mp hnodup).2.2
    exact absurd rfl (hdisj g ((h.commits g).mpr hdone) g (List.mem_singleton_self g))

theorem Slotted.step (h : Slotted view es c) (hs : Step view c e c') (ha : Apart view c e) :
    Slotted view (es ++ e) c' := by
  cases hs with
  | take =>
    obtain ⟨happlied, hheld⟩ := ha.2 (c.snap + 1) (by simp)
    exact h.take happlied hheld
  | read hs => exact h.read hs
  | @commit w g hw hs =>
    have hg : g = c.snap := h.held_snap w g hw hs.symm
    by_cases hp : (Slot.after es).pending = some g
    · exact h.commit_pending hg hp
    · exact h.commit_again hw hg hp
  | giveUp =>
    rw [List.append_nil]
    exact h.drop
  | mark => exact absurd (List.mem_singleton_self _) ha.1

end

end VirtRtLab.Generation
