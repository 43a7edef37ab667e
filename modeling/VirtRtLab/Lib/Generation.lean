import Mathlib.Logic.Function.Basic
import Mathlib.Data.List.Induction
import Mathlib.Data.List.Perm.Subperm

/-!
Commits guarded by a generation counter. Every published value gets a new generation; a worker reads the
newest one if it is not yet applied, and later commits it if it is still the newest. Generations are compared
through `view`, which stands for a counter of bounded width.
-/

namespace VirtRtLab.Generation

structure Cell (W : Type) where
  snap : ℕ
  applied : ℕ
  held : W → Option ℕ

inductive Event where
  | taken (gen : ℕ)
  | read (gen : ℕ)
  | committed (gen : ℕ)
  | marked
  deriving DecidableEq

def Event.taken? : Event → Option ℕ
  | .taken gen => some gen
  | _ => none

def Event.committed? : Event → Option ℕ
  | .committed gen => some gen
  | _ => none

def takes (es : List Event) : List ℕ := es.filterMap Event.taken?

def commits (es : List Event) : List ℕ := es.filterMap Event.committed?

@[simp] theorem takes_append (es es' : List Event) : takes (es ++ es') = takes es ++ takes es' := by
  simp [takes]

@[simp] theorem commits_append (es es' : List Event) : commits (es ++ es') = commits es ++ commits es' := by
  simp [commits]

theorem mem_takes {es : List Event} {g : ℕ} : g ∈ takes es ↔ .taken g ∈ es := by
  constructor
  · intro h
    obtain ⟨e, he, hg⟩ := List.mem_filterMap.mp h
    cases e <;> simp_all [Event.taken?]
  · intro h
    exact List.mem_filterMap.mpr ⟨_, h, rfl⟩

section

variable {W V : Type} [DecidableEq W] (view : ℕ → V)

inductive Step (c : Cell W) : List Event → Cell W → Prop
  | take : Step c [.taken (c.snap + 1)] { c with snap := c.snap + 1 }
  | read {w} (hs : view c.snap ≠ view c.applied) :
      Step c [.read c.snap] { c with held := Function.update c.held w (some c.snap) }
  | commit {w g} (hw : c.held w = some g) (hs : view c.snap = view g) :
      Step c [.committed g] { c with applied := g, held := Function.update c.held w none }
  | giveUp {w g} (hw : c.held w = some g) (hs : view c.snap ≠ view g) :
      Step c [] { c with held := Function.update c.held w none }
  | mark : Step c [.marked] { c with applied := c.snap }

def Exclusive (c : Cell W) (e : List Event) : Prop := ∀ gen, .read gen ∈ e → ∀ w, c.held w ≠ some gen

/-- `ts` are the generations taken so far, `cs` those committed. -/
structure Once (ts cs : List ℕ) (c : Cell W) : Prop where
  nodup : cs.Nodup
  taken_le : ∀ g ∈ ts, g ≤ c.snap
  commits_taken : ∀ g ∈ cs, g ∈ ts
  held_taken : ∀ w g, c.held w = some g → g ∈ ts
  held_open : ∀ w g, c.held w = some g → g ∉ cs
  held_inj : ∀ w w' g, c.held w = some g → c.held w' = some g → w = w'
  unread : c.snap ∉ ts → view c.snap = view c.applied
  applied : c.snap ∈ cs → view c.snap = view c.applied

variable {view} {ts cs : List ℕ} {c c' : Cell W} {w : W}

omit [DecidableEq W] in
theorem once_initial (hh : ∀ w, c.held w = none) (ha : view c.snap = view c.applied) : Once view [] [] c := by
  constructor <;> simp_all

omit [DecidableEq W] in
theorem Once.take (h : Once view ts cs c) : Once view (ts ++ [c.snap + 1]) cs { c with snap := c.snap + 1 } := by
  have hnew : c.snap + 1 ∉ ts := by
    intro hm
    have := h.taken_le _ hm
    omega
  constructor
  · exact h.nodup
  · intro g hg
    rw [List.mem_append, List.mem_singleton] at hg
    show g ≤ c.snap + 1
    rcases hg with hg | hg
    · have := h.taken_le g hg
      omega
    · omega
  · intro g hg
    exact List.mem_append_left _ (h.commits_taken g hg)
  · intro w g hw
    exact List.mem_append_left _ (h.held_taken w g hw)
  · exact h.held_open
  · exact h.held_inj
  · intro hm
    exact absurd (List.mem_append_right _ (List.mem_singleton_self _)) hm
  · intro hm
    exact absurd (h.commits_taken _ hm) hnew

theorem update_some_eq {held : W → Option ℕ} {v : W} {s g : ℕ} (h : Function.update held w (some s) v = some g) :
    (v = w ∧ g = s) ∨ (v ≠ w ∧ held v = some g) := by
  by_cases hv : v = w
  · subst hv
    rw [Function.update_self, Option.some.injEq] at h
    exact Or.inl ⟨rfl, h.symm⟩
  · rw [Function.update_of_ne hv] at h
    exact Or.inr ⟨hv, h⟩

theorem update_none_eq {held : W → Option ℕ} {v : W} {g : ℕ} (h : Function.update held w none v = some g) :
    v ≠ w ∧ held v = some g := by
  by_cases hv : v = w
  · subst hv
    simp at h
  · rw [Function.update_of_ne hv] at h
    exact ⟨hv, h⟩

theorem Once.read (h : Once view ts cs c) (hs : view c.snap ≠ view c.applied)
    (hx : ∀ v, v ≠ w → c.held v ≠ some c.snap) :
    Once view ts cs { c with held := Function.update c.held w (some c.snap) } := by
  constructor
  · exact h.nodup
  · exact h.taken_le
  · exact h.commits_taken
  · intro v g hv
    rcases update_some_eq hv with ⟨-, rfl⟩ | ⟨-, hvg⟩
    · by_contra hm
      exact hs (h.unread hm)
    · exact h.held_taken v g hvg
  · intro v g hv
    rcases update_some_eq hv with ⟨-, rfl⟩ | ⟨-, hvg⟩
    · exact fun hm => hs (h.applied hm)
    · exact h.held_open v g hvg
  · intro v v' g hv hv'
    rcases update_some_eq hv with ⟨rfl, rfl⟩ | ⟨hvw, hvg⟩
    · rcases update_some_eq hv' with ⟨rfl, -⟩ | ⟨hvw', hvg'⟩
      · rfl
      · exact absurd hvg' (hx v' hvw')
    · rcases update_some_eq hv' with ⟨rfl, rfl⟩ | ⟨-, hvg'⟩
      · exact absurd hvg (hx v hvw)
      · exact h.held_inj v v' g hvg hvg'
  · exact h.unread
  · exact h.applied

theorem Once.drop (h : Once view ts cs c) : Once view ts cs { c with held := Function.update c.held w none } := by
  constructor
  · exact h.nodup
  · exact h.taken_le
  · exact h.commits_taken
  · intro v g hv
    exact h.held_taken v g (update_none_eq hv).2
  · intro v g hv
    exact h.held_open v g (update_none_eq hv).2
  · intro v v' g hv hv'
    exact h.held_inj v v' g (update_none_eq hv).2 (update_none_eq hv').2
  · exact h.unread
  · exact h.applied

theorem Once.commit {g : ℕ} (h : Once view ts cs c) (hw : c.held w = some g) (hs : view c.snap = view g) :
    Once view ts (cs ++ [g]) { c with applied := g, held := Function.update c.held w none } := by
  have hd := h.drop (w := w)
  have hg : g ∉ cs := h.held_open w g hw
  constructor
  · rw [List.nodup_append]
    refine ⟨h.nodup, by simp, ?_⟩
    intro a ha b hb hab
    rw [List.mem_singleton] at hb
    exact hg (hb ▸ hab ▸ ha)
  · exact h.taken_le
  · intro a ha
    rw [List.mem_append, List.mem_singleton] at ha
    rcases ha with ha | rfl
    · exact h.commits_taken a ha
    · exact h.held_taken w a hw
  · exact hd.held_taken
  · intro v a hv
    obtain ⟨hvw, hva⟩ := update_none_eq hv
    rw [List.mem_append, List.mem_singleton]
    rintro (hm | rfl)
    · exact h.held_open v a hva hm
    · exact hvw (h.held_inj v w a hva hw)
  · exact hd.held_inj
  · exact fun _ => hs
  · exact fun _ => hs

omit [DecidableEq W] in
theorem Once.mark (h : Once view ts cs c) : Once view ts cs { c with applied := c.snap } := by
  constructor
  · exact h.nodup
  · exact h.taken_le
  · exact h.commits_taken
  · exact h.held_taken
  · exact h.held_open
  · exact h.held_inj
  · exact fun _ => rfl
  · exact fun _ => rfl

theorem Once.step {es e : List Event} (h : Once view (takes es) (commits es) c) (hs : Step view c e c')
    (hx : Exclusive c e) : Once view (takes (es ++ e)) (commits (es ++ e)) c' := by
  rw [takes_append, commits_append]
  cases hs with
  | take => simpa [takes, commits, Event.taken?, Event.committed?, List.filterMap_cons] using h.take
  | @read w hs =>
    have hr : Once view (takes es) (commits es) { c with held := Function.update c.held w (some c.snap) } := by
      apply h.read hs
      intro v _
      exact hx c.snap (by simp) v
    simpa [takes, commits, Event.taken?, Event.committed?, List.filterMap_cons] using hr
  | commit hw hs => simpa [takes, commits, Event.taken?, Event.committed?, List.filterMap_cons] using h.commit hw hs
  | giveUp hw hs => simpa [takes, commits] using h.drop
  | mark => simpa [takes, commits, Event.taken?, Event.committed?, List.filterMap_cons] using h.mark

variable (view) in
structure Known (ts : List ℕ) (c : Cell W) : Prop where
  held : ∀ w g, c.held w = some g → g ∈ ts
  unread : c.snap ∉ ts → view c.snap = view c.applied

omit [DecidableEq W] in
theorem known_initial (hh : ∀ w, c.held w = none) (ha : view c.snap = view c.applied) : Known view [] c := by
  constructor
  · intro w g hw
    rw [hh] at hw
    cases hw
  · exact fun _ => ha

theorem Known.step {e : List Event} (h : Known view ts c) (hs : Step view c e c') :
    Known view (ts ++ takes e) c' ∧ ∀ g, .committed g ∈ e → g ∈ ts := by
  cases hs with
  | take =>
    refine ⟨⟨fun w g hw => List.mem_append_left _ (h.held w g hw), fun hm => ?_⟩, by simp⟩
    simp [takes, Event.taken?] at hm
  | read hs =>
    refine ⟨⟨fun w g hw => List.mem_append_left _ ?_, ?_⟩, by simp⟩
    · rcases update_some_eq hw with ⟨-, rfl⟩ | ⟨-, hwg⟩
      · by_contra hm
        exact hs (h.unread hm)
      · exact h.held w g hwg
    · simpa [takes, Event.taken?, List.filterMap_cons] using h.unread
  | @commit w g hw hs =>
    refine ⟨⟨fun v g' hv => List.mem_append_left _ (h.held v g' (update_none_eq hv).2), fun _ => hs⟩, fun g' hg' => ?_⟩
    have : g' = g := by simpa using hg'
    rw [this]
    exact h.held w g hw
  | giveUp hw hs =>
    refine ⟨⟨fun v g' hv => List.mem_append_left _ (h.held v g' (update_none_eq hv).2), ?_⟩, by simp⟩
    simpa [takes] using h.unread
  | mark => exact ⟨⟨fun w g hw => List.mem_append_left _ (h.held w g hw), fun _ => rfl⟩, by simp⟩

omit [DecidableEq W] in
theorem Once.commits_le_takes (h : Once view ts cs c) : cs.length ≤ ts.length :=
  (List.Nodup.subperm h.nodup h.commits_taken).length_le

def Isolated (es : List Event) : Prop :=
  ∀ pre post, es = pre ++ .marked :: post → ∀ g, .taken g ∈ pre → .committed g ∉ post

def Barred (es : List Event) (g : ℕ) : Prop := ∃ pre post, es = pre ++ .marked :: post ∧ .taken g ∈ pre

theorem split_snoc {es pre post : List Event} {x : Event} (h : es ++ [x] = pre ++ .marked :: post) :
    (x = .marked ∧ es = pre ∧ post = []) ∨ ∃ post', post = post' ++ [x] ∧ es = pre ++ .marked :: post' := by
  cases post using List.reverseRecOn with
  | nil =>
    have hinj := List.append_inj' h rfl
    exact Or.inl ⟨List.head_eq_of_cons_eq hinj.2, hinj.1, rfl⟩
  | append_singleton post' y =>
    have hinj : es = pre ++ .marked :: post' ∧ [x] = [y] := List.append_inj' (h.trans (by simp)) rfl
    exact Or.inr ⟨post', by rw [hinj.2], hinj.1⟩

theorem Barred.of_snoc {es : List Event} {x : Event} {g : ℕ} (hx : x ≠ .marked) (h : Barred (es ++ [x]) g) :
    Barred es g := by
  obtain ⟨pre, post, he, hg⟩ := h
  rcases split_snoc he with ⟨hm, -, -⟩ | ⟨post', -, he'⟩
  · exact absurd hm hx
  · exact ⟨pre, post', he', hg⟩

theorem Barred.taken {es : List Event} {g : ℕ} (h : Barred es g) : g ∈ takes es := by
  obtain ⟨pre, post, rfl, hg⟩ := h
  rw [takes_append]
  exact List.mem_append_left _ (mem_takes.mpr hg)

theorem Isolated.snoc {es : List Event} {x : Event} (h : Isolated es) (hx : ∀ g, x = .committed g → ¬Barred es g) :
    Isolated (es ++ [x]) := by
  intro pre post he g hg hc
  rcases split_snoc he with ⟨-, -, rfl⟩ | ⟨post', rfl, he'⟩
  · simp at hc
  · rw [List.mem_append, List.mem_singleton] at hc
    rcases hc with hc | hc
    · exact h pre post' he' g hg hc
    · exact hx g hc.symm ⟨pre, post', he', hg⟩

variable (view) in
/-- The step leaves no worker with a generation that a mark is to stop, or that a wrapped counter shows again. -/
def Clear (c : Cell W) (e : List Event) : Prop :=
  (.marked ∈ e → ∀ w g, c.held w = some g → view g ≠ view c.snap) ∧
    ∀ gen, .taken gen ∈ e → ∀ w g, c.held w = some g → view g ≠ view gen

variable (view) in
structure Kept (es : List Event) (c : Cell W) : Prop where
  isolated : Isolated es
  taken_le : ∀ g ∈ takes es, g ≤ c.snap
  held : ∀ w g, c.held w = some g → Barred es g → view g ≠ view c.snap
  applied : Barred es c.snap → view c.snap = view c.applied

omit [DecidableEq W] in
theorem kept_initial : Kept view [] c := by
  have hb : ∀ g, ¬Barred [] g := by
    rintro g ⟨pre, post, he, -⟩
    simp at he
  constructor
  · intro pre post he
    simp at he
  · simp [takes]
  · intro w g _ hg
    exact absurd hg (hb g)
  · intro hg
    exact absurd hg (hb _)

theorem Kept.step {es e : List Event} (h : Kept view es c) (hs : Step view c e c') (hc : Clear view c e) :
    Kept view (es ++ e) c' := by
  cases hs with
  | take =>
    have hb {g} (hg : Barred (es ++ [.taken (c.snap + 1)]) g) : Barred es g := hg.of_snoc (by simp)
    have hle {g} (hg : Barred es g) : g ≤ c.snap := h.taken_le g hg.taken
    constructor
    · exact h.isolated.snoc (by simp)
    · intro g hg
      show g ≤ c.snap + 1
      rw [takes_append, List.mem_append] at hg
      rcases hg with hg | hg
      · have := h.taken_le g hg
        omega
      · have : g = c.snap + 1 := by simpa [takes, Event.taken?, List.filterMap_cons] using hg
        omega
    · intro w g hw hg
      exact hc.2 (c.snap + 1) (by simp) w g hw
    · intro hg
      have := hle (hb hg)
      dsimp only at this
      omega
  | read hs =>
    have hb {g} (hg : Barred (es ++ [.read c.snap]) g) : Barred es g := hg.of_snoc (by simp)
    constructor
    · exact h.isolated.snoc (by simp)
    · intro g hg
      apply h.taken_le
      simpa [takes, Event.taken?, List.filterMap_cons] using hg
    · intro v g hv hg
      rcases update_some_eq hv with ⟨-, rfl⟩ | ⟨-, hvg⟩
      · exact absurd (h.applied (hb hg)) hs
      · exact h.held v g hvg (hb hg)
    · intro hg
      exact h.applied (hb hg)
  | @commit w g hw hs =>
    have hb {g'} (hg : Barred (es ++ [.committed g]) g') : Barred es g' := hg.of_snoc (by simp)
    constructor
    · apply h.isolated.snoc
      intro g' hg' hbar
      cases hg'
      exact h.held w g hw hbar hs.symm
    · intro g' hg'
      apply h.taken_le
      simpa [takes, Event.taken?, List.filterMap_cons] using hg'
    · intro v g' hv hg'
      exact h.held v g' (update_none_eq hv).2 (hb hg')
    · exact fun _ => hs
  | giveUp hw hs =>
    rw [List.append_nil]
    constructor
    · exact h.isolated
    · exact h.taken_le
    · intro v g hv hg
      exact h.held v g (update_none_eq hv).2 hg
    · exact h.applied
  | mark =>
    constructor
    · exact h.isolated.snoc (by simp)
    · intro g hg
      apply h.taken_le
      simpa [takes, Event.taken?, List.filterMap_cons] using hg
    · intro w g hw _
      exact hc.1 (by simp) w g hw
    · exact fun _ => rfl

end

end VirtRtLab.Generation
