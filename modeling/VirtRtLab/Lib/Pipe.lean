import Mathlib.Data.List.Basic
import Mathlib.Data.List.NodupEquivFin
import Mathlib.Order.Fin.Basic

namespace VirtRtLab

namespace Pipe

structure Burst (α : Type) where
  data : List α
  noisy : Bool
  deriving DecidableEq, Repr

/-- What the mover between the two queues holds: nothing, a burst it has not looked at yet, or the
last recorded burst, as taken (`touched = false`) or with one element altered. -/
inductive Hand (α : Type) where
  | empty
  | raw (data : List α)
  | marked (data : List α) (touched : Bool)

end Pipe

structure Pipe (α : Type) where
  source : List α
  bursts : List (Pipe.Burst α)
  queue : List α
  hand : Pipe.Hand α
  line : List α
  sink : List α

namespace Pipe

variable {α : Type} {C : α → α → Prop}

/-- `C a b`: an element `a` may turn into `b` in a noisy burst. -/
inductive Step (C : α → α → Prop) : Pipe α → Pipe α → Prop
  | accept (p : Pipe α) (xs : List α) :
      Step C p { p with source := p.source ++ xs, queue := p.queue ++ xs }
  | take (p : Pipe α) (n : ℕ) (h : p.hand = .empty) :
      Step C p { p with queue := p.queue.drop n, hand := .raw (p.queue.take n) }
  | mark (p : Pipe α) (xs : List α) (noisy : Bool) (h : p.hand = .raw xs) :
      Step C p { p with bursts := p.bursts ++ [⟨xs, noisy⟩], hand := .marked xs false }
  | spoil (p : Pipe α) (bs : List (Burst α)) (l : List α) (a b : α) (r : List α)
      (h : p.hand = .marked (l ++ a :: r) false) (hb : p.bursts = bs ++ [⟨l ++ a :: r, true⟩]) (hc : C a b) :
      Step C p { p with hand := .marked (l ++ b :: r) true }
  | settle (p : Pipe α) (xs : List α) (touched : Bool) (h : p.hand = .marked xs touched) :
      Step C p { p with hand := .marked xs true }
  | put (p : Pipe α) (xs : List α) (touched : Bool) (n : ℕ) (h : p.hand = .marked xs touched) :
      Step C p { p with line := p.line ++ xs.take n, hand := .empty }
  | discard (p : Pipe α) : Step C p { p with hand := .empty }
  | flushQueue (p : Pipe α) : Step C p { p with queue := [] }
  | flushLine (p : Pipe α) : Step C p { p with line := [] }
  | read (p : Pipe α) (n : ℕ) :
      Step C p { p with line := p.line.drop n, sink := p.sink ++ p.line.take n }

/-- Each element of `sink` comes from its own place in `source`, in order. The bursts are disjoint
stretches of `source`, and per burst at most one element of `sink` was altered, only if the burst is noisy. -/
def Faithful (C : α → α → Prop) (source : List α) (bursts : List (Burst α)) (sink : List α) : Prop :=
  ∃ (pos : Fin sink.length → Fin source.length) (burst : Fin sink.length → Fin bursts.length)
    (start : Fin bursts.length → ℕ),
    StrictMono pos ∧
    (∀ k, (source.drop (start k)).take (bursts.get k).data.length = (bursts.get k).data) ∧
    (∀ k l, k < l → start k + (bursts.get k).data.length ≤ start l) ∧
    (∀ i, start (burst i) ≤ pos i ∧ pos i < start (burst i) + (bursts.get (burst i)).data.length) ∧
    (∀ i, sink.get i ≠ source.get (pos i) →
      (bursts.get (burst i)).noisy = true ∧ C (source.get (pos i)) (sink.get i)) ∧
    (∀ i j, sink.get i ≠ source.get (pos i) → sink.get j ≠ source.get (pos j) →
      burst i = burst j → i = j)

theorem Faithful.sublist {source sink sink' : List α} {bursts : List (Burst α)} (h : Faithful C source bursts sink)
    (hs : List.Sublist sink' sink) : Faithful C source bursts sink' := by
  obtain ⟨pos, burst, start, hmono, hdata, hspaced, hinside, haltered, hone⟩ := h
  obtain ⟨f, hf⟩ := List.sublist_iff_exists_fin_orderEmbedding_get_eq.mp hs
  refine ⟨pos ∘ f, burst ∘ f, start, hmono.comp f.strictMono, hdata, hspaced, fun i => hinside (f i), ?_, ?_⟩
  · intro i hi
    rw [hf] at hi ⊢
    exact haltered (f i) hi
  · intro i j hi hj hb
    rw [hf] at hi hj
    exact f.injective (hone (f i) (f j) hi hj hb)

def At (source : List α) (start : ℕ) (xs : List α) : Prop :=
  ∃ l r, source = l ++ xs ++ r ∧ l.length = start

theorem At.append {source xs : List α} {start : ℕ} (h : At source start xs) (ys : List α) :
    At (source ++ ys) start xs := by
  obtain ⟨l, r, rfl, hl⟩ := h
  exact ⟨l, r ++ ys, by simp, hl⟩

structure Cell (α : Type) where
  pos : ℕ
  burst : ℕ
  was : α
  now : α

def Cell.Valid (C : α → α → Prop) (source : List α) (placed : List (ℕ × Burst α)) (c : Cell α) : Prop :=
  source[c.pos]? = some c.was ∧
    ∃ p, placed[c.burst]? = some p ∧ p.1 ≤ c.pos ∧ c.pos < p.1 + p.2.data.length ∧
      (c.now = c.was ∨ p.2.noisy = true ∧ C c.was c.now)

def Cell.Before (c d : Cell α) : Prop :=
  c.pos < d.pos ∧ (c.burst = d.burst → c.now = c.was ∨ d.now = d.was)

def cells (start burst : ℕ) : List α → List α → List (Cell α)
  | y :: ys, x :: xs => ⟨start, burst, y, x⟩ :: cells (start + 1) burst ys xs
  | _, _ => []

theorem cells_now (start burst : ℕ) (ys xs : List α) (h : xs.length ≤ ys.length) :
    (cells start burst ys xs).map Cell.now = xs := by
  induction ys generalizing start xs with
  | nil => simp only [List.length_nil, Nat.le_zero, List.length_eq_zero_iff] at h; simp [cells, h]
  | cons y ys ih =>
    cases xs with
    | nil => rfl
    | cons x xs =>
      have hle : xs.length ≤ ys.length := by simpa using h
      simp [cells, ih (start + 1) xs hle]

theorem mem_cells {start burst : ℕ} {ys xs : List α} {c : Cell α} (h : c ∈ cells start burst ys xs) :
    c.burst = burst ∧ ∃ i < ys.length, c.pos = start + i ∧ ys[i]? = some c.was ∧ xs[i]? = some c.now := by
  induction ys generalizing start xs with
  | nil => simp [cells] at h
  | cons y ys ih =>
    cases xs with
    | nil => simp [cells] at h
    | cons x xs =>
      rcases List.mem_cons.mp h with rfl | h
      · exact ⟨rfl, 0, by simp, by simp, by simp, by simp⟩
      · obtain ⟨hb, i, hi, hp, hy, hx⟩ := ih h
        exact ⟨hb, i + 1, by simpa using hi, by omega, by simpa using hy, by simpa using hx⟩

def Altered (C : α → α → Prop) (noisy : Bool) (ys xs : List α) : Prop :=
  xs = ys ∨ noisy = true ∧ ∃ l a b r, ys = l ++ a :: r ∧ xs = l ++ b :: r ∧ C a b

theorem cells_same {start burst : ℕ} {ys : List α} {c : Cell α} (h : c ∈ cells start burst ys ys) :
    c.now = c.was := by
  obtain ⟨-, i, -, -, hy, hx⟩ := mem_cells h
  exact Option.some.inj (hx.symm.trans hy)

theorem cells_pos_le {start burst : ℕ} {ys xs : List α} {c : Cell α} (h : c ∈ cells start burst ys xs) :
    start ≤ c.pos := by
  obtain ⟨-, i, -, hp, -, -⟩ := mem_cells h
  omega

theorem cells_pairwise_same (start burst : ℕ) (ys : List α) :
    (cells start burst ys ys).Pairwise Cell.Before := by
  induction ys generalizing start with
  | nil => exact .nil
  | cons y ys ih =>
    refine List.pairwise_cons.mpr ⟨?_, ih (start + 1)⟩
    intro d hd
    exact ⟨Nat.lt_of_lt_of_le (Nat.lt_succ_self start) (cells_pos_le hd), fun _ => Or.inl rfl⟩

theorem cells_pairwise {noisy : Bool} {ys xs : List α} (h : Altered C noisy ys xs) (start burst : ℕ) :
    (cells start burst ys xs).Pairwise Cell.Before := by
  rcases h with rfl | ⟨-, l, a, b, r, rfl, rfl, -⟩
  · exact cells_pairwise_same start burst xs
  · induction l generalizing start with
    | nil =>
      refine List.pairwise_cons.mpr ⟨?_, cells_pairwise_same (start + 1) burst r⟩
      intro d hd
      exact ⟨Nat.lt_of_lt_of_le (Nat.lt_succ_self start) (cells_pos_le hd), fun _ => Or.inr (cells_same hd)⟩
    | cons x l ih =>
      refine List.pairwise_cons.mpr ⟨?_, ih (start + 1)⟩
      intro d hd
      exact ⟨Nat.lt_of_lt_of_le (Nat.lt_succ_self start) (cells_pos_le hd), fun _ => Or.inl rfl⟩

def Spaced (placed : List (ℕ × Burst α)) : Prop :=
  placed.Pairwise (fun p q => p.1 + p.2.data.length ≤ q.1)

def Below (bound : ℕ) (placed : List (ℕ × Burst α)) (cs : List (Cell α)) : Prop :=
  (∀ p ∈ placed, p.1 + p.2.data.length ≤ bound) ∧ ∀ c ∈ cs, c.pos < bound

theorem Below.mono {m n : ℕ} {placed : List (ℕ × Burst α)} {cs : List (Cell α)}
    (h : Below m placed cs) (hmn : m ≤ n) : Below n placed cs :=
  ⟨fun p hp => (h.1 p hp).trans hmn, fun c hc => (h.2 c hc).trans_le hmn⟩

def HandOk (C : α → α → Prop) (source : List α) (base : ℕ) (placed : List (ℕ × Burst α))
    (cs : List (Cell α)) : Hand α → Prop
  | .empty => Below base placed cs
  | .raw xs => ∃ st, At source st xs ∧ st + xs.length ≤ base ∧ Below st placed cs
  | .marked xs touched => ∃ st b before, placed = before ++ [(st, b)] ∧ st + b.data.length ≤ base ∧
      Below st before cs ∧ Altered C b.noisy b.data xs ∧ (touched = false → xs = b.data)

/-- A cell for every element delivered so far, a place for every burst; `dealt` is the part of the
source that has left the queue. -/
structure InvAt (C : α → α → Prop) (p : Pipe α) (placed : List (ℕ × Burst α)) (cs : List (Cell α))
    (dealt : List α) : Prop where
  bursts : placed.map Prod.snd = p.bursts
  spaced : Spaced placed
  located : ∀ q ∈ placed, At p.source q.1 q.2.data
  now : cs.map Cell.now = p.sink ++ p.line
  ordered : cs.Pairwise Cell.Before
  valid : ∀ c ∈ cs, c.Valid C p.source placed
  source : p.source = dealt ++ p.queue
  hand : HandOk C p.source dealt.length placed cs p.hand

def Inv (C : α → α → Prop) (p : Pipe α) : Prop :=
  ∃ placed cs dealt, InvAt C p placed cs dealt

theorem At.getElem? {source xs : List α} {start i : ℕ} (h : At source start xs) (hi : i < xs.length) :
    source[start + i]? = xs[i]? := by
  obtain ⟨l, r, rfl, rfl⟩ := h
  rw [List.append_assoc, List.getElem?_append_right (Nat.le_add_right _ _), Nat.add_sub_cancel_left,
    List.getElem?_append_left hi]

theorem Altered.length_eq {noisy : Bool} {ys xs : List α} (h : Altered C noisy ys xs) :
    xs.length = ys.length := by
  rcases h with rfl | ⟨-, l, a, b, r, rfl, rfl, -⟩
  · rfl
  · simp

theorem Altered.getElem? {noisy : Bool} {ys xs : List α} (h : Altered C noisy ys xs) {i : ℕ} {y x : α}
    (hy : ys[i]? = some y) (hx : xs[i]? = some x) : x = y ∨ noisy = true ∧ C y x := by
  rcases h with rfl | ⟨hn, l, a, b, r, rfl, rfl, hc⟩
  · exact Or.inl (Option.some.inj (hx.symm.trans hy))
  · rcases Nat.lt_trichotomy i l.length with hi | rfl | hi
    · rw [List.getElem?_append_left hi] at hy hx
      exact Or.inl (Option.some.inj (hx.symm.trans hy))
    · simp only [List.getElem?_append_right (Nat.le_refl _), Nat.sub_self, List.getElem?_cons_zero,
        Option.some.injEq] at hy hx
      subst hy hx
      exact Or.inr ⟨hn, hc⟩
    · obtain ⟨j, hj⟩ : ∃ j, i - l.length = j + 1 := ⟨i - l.length - 1, by omega⟩
      rw [List.getElem?_append_right (by omega), hj, List.getElem?_cons_succ] at hy hx
      exact Or.inl (Option.some.inj (hx.symm.trans hy))

theorem cells_take (start burst n : ℕ) (ys xs : List α) :
    cells start burst ys (xs.take n) = (cells start burst ys xs).take n := by
  induction ys generalizing start xs n with
  | nil => simp [cells]
  | cons y ys ih =>
    cases xs with
    | nil => simp [cells]
    | cons x xs =>
      cases n with
      | zero => simp [cells]
      | succ n => simp [cells, ih]

theorem Cell.Valid.append_source {source : List α} {placed : List (ℕ × Burst α)} {c : Cell α}
    (h : c.Valid C source placed) (xs : List α) : c.Valid C (source ++ xs) placed := by
  refine ⟨?_, h.2⟩
  have hlt : c.pos < source.length := (List.getElem?_eq_some_iff.mp h.1).1
  rw [List.getElem?_append_left hlt, h.1]

theorem Cell.Valid.append_placed {source : List α} {placed : List (ℕ × Burst α)} {c : Cell α}
    (h : c.Valid C source placed) (more : List (ℕ × Burst α)) : c.Valid C source (placed ++ more) := by
  obtain ⟨hs, p, hp, hrest⟩ := h
  have hlt : c.burst < placed.length := (List.getElem?_eq_some_iff.mp hp).1
  exact ⟨hs, p, by rw [List.getElem?_append_left hlt, hp], hrest⟩

theorem HandOk.append_source {source : List α} {base : ℕ} {placed : List (ℕ × Burst α)}
    {cs : List (Cell α)} {hand : Hand α} (h : HandOk C source base placed cs hand) (xs : List α) :
    HandOk C (source ++ xs) base placed cs hand := by
  cases hand with
  | empty => exact h
  | raw ys =>
    obtain ⟨st, hat, hrest⟩ := h
    exact ⟨st, hat.append xs, hrest⟩
  | marked ys touched => exact h

theorem HandOk.mono {source : List α} {m n : ℕ} {placed : List (ℕ × Burst α)}
    {cs : List (Cell α)} {hand : Hand α} (h : HandOk C source m placed cs hand) (hmn : m ≤ n) :
    HandOk C source n placed cs hand := by
  cases hand with
  | empty => exact Below.mono h hmn
  | raw ys =>
    obtain ⟨st, hat, hle, hb⟩ := h
    exact ⟨st, hat, hle.trans hmn, hb⟩
  | marked ys touched =>
    obtain ⟨st, b, before, hp, hle, hrest⟩ := h
    exact ⟨st, b, before, hp, hle.trans hmn, hrest⟩

theorem HandOk.sub {source : List α} {base : ℕ} {placed : List (ℕ × Burst α)} {cs ds : List (Cell α)}
    {hand : Hand α} (h : HandOk C source base placed cs hand) (hsub : ∀ d ∈ ds, d ∈ cs) :
    HandOk C source base placed ds hand := by
  cases hand with
  | empty => exact ⟨h.1, fun d hd => h.2 d (hsub d hd)⟩
  | raw ys =>
    obtain ⟨st, hat, hle, hb⟩ := h
    exact ⟨st, hat, hle, hb.1, fun d hd => hb.2 d (hsub d hd)⟩
  | marked ys touched =>
    obtain ⟨st, b, before, hp, hle, hb, hrest⟩ := h
    exact ⟨st, b, before, hp, hle, ⟨hb.1, fun d hd => hb.2 d (hsub d hd)⟩, hrest⟩

theorem HandOk.below {source : List α} {base : ℕ} {placed : List (ℕ × Burst α)}
    {cs : List (Cell α)} {hand : Hand α} (h : HandOk C source base placed cs hand) :
    Below base placed cs := by
  cases hand with
  | empty => exact h
  | raw ys =>
    obtain ⟨st, -, hle, hb⟩ := h
    exact hb.mono (by omega)
  | marked ys touched =>
    obtain ⟨st, b, before, rfl, hle, hb, -⟩ := h
    refine ⟨?_, fun c hc => (hb.2 c hc).trans_le (by omega)⟩
    intro p hp
    rcases List.mem_append.mp hp with hp | hp
    · exact (hb.1 p hp).trans (by omega)
    · rw [List.mem_singleton.mp hp]; exact hle

theorem inv_initial : Inv C (⟨[], [], [], .empty, [], []⟩ : Pipe α) :=
  ⟨[], [], [], ⟨rfl, .nil, by simp, rfl, .nil, by simp, rfl, by simp [HandOk, Below]⟩⟩

theorem InvAt.put {p : Pipe α} {placed : List (ℕ × Burst α)} {cs : List (Cell α)} {dealt xs : List α}
    {touched : Bool} (h : InvAt C p placed cs dealt) (hh : p.hand = .marked xs touched) (n : ℕ) :
    Inv C { p with line := p.line ++ xs.take n, hand := .empty } := by
  have hhand := h.hand
  rw [hh] at hhand
  obtain ⟨st, b, before, rfl, hle, hbelow, halt, -⟩ := hhand
  have hlast : (before ++ [(st, b)])[before.length]? = some (st, b) := by simp
  have hat : At p.source st b.data := h.located (st, b) (by simp)
  let new := cells st before.length b.data (xs.take n)
  have hnew : ∀ c ∈ new, c ∈ cells st before.length b.data xs := by
    intro c hc
    rw [show new = _ from cells_take _ _ _ _ _] at hc
    exact List.mem_of_mem_take hc
  -- a new cell is the only kind that may name the last burst
  have hcross : ∀ c ∈ cs, ∀ d ∈ new, c.Before d := by
    intro c hc d hd
    have hlt := hbelow.2 c hc
    refine ⟨hlt.trans_le (cells_pos_le hd), ?_⟩
    intro he
    obtain ⟨-, q, hq, hge, -⟩ := h.valid c hc
    rw [he, (mem_cells hd).1, hlast] at hq
    cases hq
    exact absurd hge (Nat.not_le.mpr hlt)
  refine ⟨before ++ [(st, b)], cs ++ new, dealt, ?_⟩
  refine { h with now := ?_, ordered := ?_, valid := ?_, hand := ?_ }
  · have hlen : (xs.take n).length ≤ b.data.length :=
      (List.length_take_le' n xs).trans halt.length_eq.le
    simp [h.now, new, cells_now _ _ _ _ hlen]
  · refine List.pairwise_append.mpr ⟨h.ordered, ?_, hcross⟩
    rw [show new = _ from cells_take _ _ _ _ _]
    exact (cells_pairwise halt st before.length).sublist (List.take_sublist _ _)
  · intro c hc
    rcases List.mem_append.mp hc with hc | hc
    · exact h.valid c hc
    · obtain ⟨hb, i, hi, hpos, hy, hx⟩ := mem_cells (hnew c hc)
      refine ⟨by rw [hpos, hat.getElem? hi, hy], (st, b), by rw [hb, hlast], ?_, ?_, halt.getElem? hy hx⟩
      · exact hpos ▸ Nat.le_add_right st i
      · exact hpos ▸ Nat.add_lt_add_left hi st
  · have hb := h.hand.below
    refine ⟨hb.1, ?_⟩
    intro c hc
    rcases List.mem_append.mp hc with hc | hc
    · exact hb.2 c hc
    · obtain ⟨-, i, hi, hpos, -⟩ := mem_cells (hnew c hc)
      omega

theorem Step.inv {p q : Pipe α} (hstep : Step C p q) (hinv : Inv C p) : Inv C q := by
  obtain ⟨placed, cs, dealt, h⟩ := hinv
  cases hstep with
  | accept xs =>
    refine ⟨placed, cs, dealt, { h with located := ?_, valid := ?_, source := ?_, hand := ?_ }⟩
    · exact fun q hq => (h.located q hq).append xs
    · exact fun c hc => (h.valid c hc).append_source xs
    · simp [h.source]
    · exact h.hand.append_source xs
  | take n hh =>
    refine ⟨placed, cs, dealt ++ p.queue.take n, { h with source := ?_, hand := ?_ }⟩
    · simp [h.source]
    · have hbelow := h.hand.below
      refine ⟨dealt.length, ⟨dealt, p.queue.drop n, ?_, rfl⟩, by simp, hbelow⟩
      rw [List.append_assoc, List.take_append_drop]
      exact h.source
  | mark xs noisy hh =>
    have hhand := h.hand
    rw [hh] at hhand
    obtain ⟨st, hat, hle, hbelow⟩ := hhand
    refine ⟨placed ++ [(st, ⟨xs, noisy⟩)], cs, dealt,
      { h with bursts := ?_, spaced := ?_, located := ?_, valid := ?_, hand := ?_ }⟩
    · simp [h.bursts]
    · refine List.pairwise_append.mpr ⟨h.spaced, List.pairwise_singleton _ _, ?_⟩
      intro q hq q' hq'
      rw [List.mem_singleton.mp hq']
      exact hbelow.1 q hq
    · intro q hq
      rcases List.mem_append.mp hq with hq | hq
      · exact h.located q hq
      · rw [List.mem_singleton.mp hq]; exact hat
    · exact fun c hc => (h.valid c hc).append_placed _
    · exact ⟨st, ⟨xs, noisy⟩, placed, rfl, hle, hbelow, Or.inl rfl, fun _ => rfl⟩
  | spoil bs l a b r hh hb hc =>
    have hhand := h.hand
    rw [hh] at hhand
    obtain ⟨st, b', before, rfl, hle, hbelow, -, hsame⟩ := hhand
    have hb' : b' = ⟨l ++ a :: r, true⟩ := by
      have hbs := h.bursts
      simp only [List.map_append, List.map_cons, List.map_nil, hb] at hbs
      exact (List.append_inj' hbs rfl).2 |> List.head_eq_of_cons_eq
    subst hb'
    refine ⟨before ++ [(st, ⟨l ++ a :: r, true⟩)], cs, dealt, { h with hand := ?_ }⟩
    exact ⟨st, ⟨l ++ a :: r, true⟩, before, rfl, hle, hbelow, Or.inr ⟨rfl, l, a, b, r, rfl, rfl, hc⟩, nofun⟩
  | settle xs touched hh =>
    have hhand := h.hand
    rw [hh] at hhand
    obtain ⟨st, b, before, hp, hle, hbelow, halt, -⟩ := hhand
    exact ⟨placed, cs, dealt, { h with hand := ⟨st, b, before, hp, hle, hbelow, halt, nofun⟩ }⟩
  | put xs touched n hh => exact h.put hh n
  | discard => exact ⟨placed, cs, dealt, { h with hand := h.hand.below }⟩
  | flushQueue =>
    refine ⟨placed, cs, p.source, { h with source := (List.append_nil _).symm, hand := ?_ }⟩
    exact h.hand.mono (by simp [h.source])
  | flushLine =>
    have hsub : (cs.take p.sink.length).Sublist cs := List.take_sublist _ _
    refine ⟨placed, cs.take p.sink.length, dealt, { h with now := ?_, ordered := ?_, valid := ?_, hand := ?_ }⟩
    · rw [List.map_take, h.now, List.take_left, List.append_nil]
    · exact h.ordered.sublist hsub
    · exact fun c hc => h.valid c (hsub.subset hc)
    · exact h.hand.sub (fun d hd => hsub.subset hd)
  | read n =>
    refine ⟨placed, cs, dealt, { h with now := ?_ }⟩
    rw [h.now, List.append_assoc, List.take_append_drop]

theorem inv_steps {p q : Pipe α} (hsteps : Relation.ReflTransGen (Step C) p q) (hinv : Inv C p) : Inv C q := by
  induction hsteps with
  | refl => exact hinv
  | tail _ hstep ih => exact hstep.inv ih

theorem Inv.faithful {p : Pipe α} (hinv : Inv C p) : Faithful C p.source p.bursts p.sink := by
  obtain ⟨placed, cs, dealt, h⟩ := hinv
  have hlen : placed.length = p.bursts.length := by rw [← h.bursts, List.length_map]
  have hcs : p.sink.length ≤ cs.length := by
    have := congrArg List.length h.now
    simp only [List.length_map, List.length_append] at this
    omega
  let cell (i : Fin p.sink.length) : Cell α := cs.get ⟨i, i.2.trans_le hcs⟩
  have hcell (i) : (cell i).Valid C p.source placed := h.valid _ (List.get_mem _ _)
  have hpos (i) : (cell i).pos < p.source.length := (List.getElem?_eq_some_iff.mp (hcell i).1).1
  have hburst (i) : (cell i).burst < p.bursts.length := by
    obtain ⟨-, q, hq, -⟩ := hcell i
    exact (List.getElem?_eq_some_iff.mp hq).1.trans_eq hlen
  have hplace (k : Fin p.bursts.length) : (placed.get ⟨k, k.2.trans_eq hlen.symm⟩).2 = p.bursts.get k := by
    simp [← h.bursts]
  have hwas (i) : p.source.get ⟨(cell i).pos, hpos i⟩ = (cell i).was := by
    obtain ⟨hs, -⟩ := hcell i
    exact (List.getElem?_eq_some_iff.mp hs).2
  have hnow (i) : p.sink.get i = (cell i).now := by
    have hi : (cs.map Cell.now)[i.1]? = (p.sink ++ p.line)[i.1]? := by rw [h.now]
    rw [List.getElem?_append_left i.2, List.getElem?_map, List.getElem?_eq_getElem (i.2.trans_le hcs),
      List.getElem?_eq_getElem i.2] at hi
    exact (Option.some.inj hi).symm
  have hbefore (i j : Fin p.sink.length) (hij : i < j) : (cell i).Before (cell j) :=
    List.pairwise_iff_getElem.mp h.ordered i j (i.2.trans_le hcs) (j.2.trans_le hcs) hij
  refine ⟨fun i => ⟨(cell i).pos, hpos i⟩, fun i => ⟨(cell i).burst, hburst i⟩,
    fun k => (placed.get ⟨k, k.2.trans_eq hlen.symm⟩).1, fun i j hij => (hbefore i j hij).1, ?_, ?_, ?_, ?_, ?_⟩
  · intro k
    obtain ⟨l, r, he, hl⟩ := h.located _ (List.get_mem placed ⟨k, k.2.trans_eq hlen.symm⟩)
    rw [hplace, List.append_assoc] at he
    dsimp only
    rw [he, ← hl, List.drop_left, List.take_left]
  · intro k l hkl
    have hle := List.pairwise_iff_getElem.mp h.spaced k l (k.2.trans_eq hlen.symm) (l.2.trans_eq hlen.symm) hkl
    rw [← hplace]
    exact hle
  · intro i
    obtain ⟨-, q, hq, hge, hlt, -⟩ := hcell i
    obtain ⟨hk, rfl⟩ := List.getElem?_eq_some_iff.mp hq
    rw [← hplace ⟨(cell i).burst, hburst i⟩]
    exact ⟨hge, hlt⟩
  · intro i hne
    rw [hwas, hnow] at hne ⊢
    obtain ⟨-, q, hq, -, -, hsame | ⟨hn, hc⟩⟩ := hcell i
    · exact absurd hsame hne
    · obtain ⟨hk, rfl⟩ := List.getElem?_eq_some_iff.mp hq
      rw [← hplace ⟨(cell i).burst, hburst i⟩]
      exact ⟨hn, hc⟩
  · intro i j hi hj hb
    rw [hwas, hnow] at hi hj
    have hb' : (cell i).burst = (cell j).burst := by simpa using hb
    rcases lt_trichotomy i j with hij | hij | hij
    · rcases (hbefore i j hij).2 hb' with he | he
      · exact absurd he hi
      · exact absurd he hj
    · exact hij
    · rcases (hbefore j i hij).2 hb'.symm with he | he
      · exact absurd he hj
      · exact absurd he hi

end Pipe

end VirtRtLab
