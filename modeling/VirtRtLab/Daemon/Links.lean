import VirtRtLab.Daemon.Machine

namespace VirtRtLab.Daemon

open Kernel

variable {n : ℕ}

structure Owned (p : Proc n) : Prop where
  file_of_fd : ∀ i r f, p.fd i r = some f → ∃ b, p.files f = some ⟨i, r, b⟩
  fd_of_file : ∀ f i r b, p.files f = some ⟨i, r, b⟩ → p.fd i r = some f
  fd_of_watched : ∀ f i r, p.watched f = some (i, r) → p.fd i r = some f

inductive Link where
  | closed | opened | watched
  deriving DecidableEq, Repr

def Proc.link (p : Proc n) (i : Fin n) (r : Role) : Link :=
  match p.fd i r with
  | none => .closed
  | some f => if p.watched f = some (i, r) then .watched else .opened

structure Untouched (p q : Proc n) (j : Fin n) : Prop where
  inst : q.insts j = p.insts j
  watched : ∀ f r, q.watched f = some (j, r) ↔ p.watched f = some (j, r)
  files : ∀ f r b, q.files f = some ⟨j, r, b⟩ ↔ p.files f = some ⟨j, r, b⟩
  path : q.paths j = p.paths j

theorem Untouched.refl (p : Proc n) (j : Fin n) : Untouched p p j :=
  ⟨rfl, fun _ _ => Iff.rfl, fun _ _ _ => Iff.rfl, rfl⟩

theorem Untouched.trans {p q r : Proc n} {j : Fin n} (h : Untouched p q j) (h' : Untouched q r j) :
    Untouched p r j := by
  constructor
  · rw [h'.inst, h.inst]
  · intro f s
    rw [h'.watched, h.watched]
  · intro f s b
    rw [h'.files, h.files]
  · rw [h'.path, h.path]

theorem Untouched.link {p q : Proc n} {j : Fin n} (h : Untouched p q j) (r : Role) : q.link j r = p.link j r := by
  simp only [Proc.link, Proc.fd, h.inst, h.watched]

structure Look where
  state : InstState
  wire : Link
  server : Link
  client : Link
  deriving DecidableEq, Repr

def Look.get (l : Look) : Role → Link
  | .wire => l.wire
  | .server => l.server
  | .client => l.client

def Look.set (l : Look) (r : Role) (x : Link) : Look :=
  match r with
  | .wire => { l with wire := x }
  | .server => { l with server := x }
  | .client => { l with client := x }

def Proc.look (p : Proc n) (i : Fin n) : Look :=
  ⟨(p.insts i).state, p.link i .wire, p.link i .server, p.link i .client⟩

theorem get_look (p : Proc n) (i : Fin n) (r : Role) : (p.look i).get r = p.link i r := by
  cases r <;> rfl

theorem Untouched.look {p q : Proc n} {j : Fin n} (h : Untouched p q j) : q.look j = p.look j := by
  simp only [Proc.look, h.inst, h.link]

structure Effect (p q : Proc n) (i : Fin n) (l : Look) : Prop where
  owned : Owned q
  look : q.look i = l
  other : ∀ j, j ≠ i → Untouched p q j
  path : q.paths i = p.paths i
  batch : q.batch = p.batch
  status : q.status = p.status

theorem Effect.trans {p q r : Proc n} {i : Fin n} {l l' : Look} (h : Effect p q i l) (h' : Effect q r i l') :
    Effect p r i l' := by
  constructor
  · exact h'.owned
  · exact h'.look
  · intro j hj
    exact (h.other j hj).trans (h'.other j hj)
  · rw [h'.path, h.path]
  · rw [h'.batch, h.batch]
  · rw [h'.status, h.status]

theorem Owned.fd_inj {p : Proc n} (h : Owned p) {i j : Fin n} {r s : Role} {f : ℕ} (hi : p.fd i r = some f)
    (hj : p.fd j s = some f) : i = j ∧ r = s := by
  obtain ⟨b, hb⟩ := h.file_of_fd i r f hi
  obtain ⟨b', hb'⟩ := h.file_of_fd j s f hj
  rw [hb, Option.some.injEq, File.mk.injEq] at hb'
  exact ⟨hb'.1, hb'.2.1⟩

def Slot (p : Proc n) (i : Fin n) (r : Role) (f : ℕ) : Prop :=
  p.fd i r = some f ∨ p.fd i r = none ∧ p.files f = none

theorem Slot.fd {p : Proc n} (h : Owned p) {i j : Fin n} {r s : Role} {f : ℕ} (hs : Slot p i r f)
    (hj : p.fd j s = some f) : j = i ∧ s = r := by
  rcases hs with hi | ⟨-, hf⟩
  · exact h.fd_inj hj hi
  · obtain ⟨b, hb⟩ := h.file_of_fd j s f hj
    rw [hf] at hb
    exact absurd hb (by simp)

structure Point (p q : Proc n) (i : Fin n) (r : Role) (f : ℕ) (x : Link) : Prop where
  slot : Slot p i r f
  files : ∀ g, g ≠ f → q.files g = p.files g
  watched : ∀ g, g ≠ f → q.watched g = p.watched g
  fd : ∀ j s, ¬ (j = i ∧ s = r) → q.fd j s = p.fd j s
  state : ∀ j, (q.insts j).state = (p.insts j).state
  paths : q.paths = p.paths
  batch : q.batch = p.batch
  status : q.status = p.status
  file : q.files f = none ∧ x = .closed ∨ (∃ b, q.files f = some ⟨i, r, b⟩) ∧ x ≠ .closed
  own : q.fd i r = if x = .closed then none else some f
  watch : q.watched f = if x = .watched then some (i, r) else none

theorem Point.fd_iff {p q : Proc n} {i : Fin n} {r : Role} {f : ℕ} {x : Link} (h : Owned p) (hp : Point p q i r f x)
    {j : Fin n} {s : Role} {g : ℕ} : q.fd j s = some g ↔
      if g = f then j = i ∧ s = r ∧ x ≠ .closed else p.fd j s = some g := by
  by_cases hj : j = i ∧ s = r
  · obtain ⟨rfl, rfl⟩ := hj
    rw [hp.own]
    by_cases hg : g = f
    · subst hg
      simp
    · have hne : p.fd j s ≠ some g := by
        intro h'
        rcases hp.slot with hs | ⟨hs, -⟩
        · rw [hs, Option.some.injEq] at h'
          exact hg h'.symm
        · rw [hs] at h'
          exact absurd h' (by simp)
      simp [hg, hne, Ne.symm hg]
  · rw [hp.fd j s hj]
    by_cases hg : g = f
    · subst hg
      have hne : p.fd j s ≠ some g := fun h' => hj (hp.slot.fd h h')
      simp only [hne, ↓reduceIte, false_iff]
      exact fun h' => hj ⟨h'.1, h'.2.1⟩
    · simp [hg]

theorem Point.files_iff {p q : Proc n} {i : Fin n} {r : Role} {f : ℕ} {x : Link} (hp : Point p q i r f x) {g : ℕ}
    {j : Fin n} {s : Role} (hg : ∃ b, q.files g = some ⟨j, s, b⟩) :
    if g = f then j = i ∧ s = r ∧ x ≠ .closed else q.files g = p.files g := by
  obtain ⟨b, hb⟩ := hg
  by_cases hf : g = f
  · subst hf
    rcases hp.file with ⟨hn, -⟩ | ⟨⟨b', hb'⟩, hx⟩
    · rw [hn] at hb
      exact absurd hb (by simp)
    · rw [hb', Option.some.injEq, File.mk.injEq] at hb
      simp [hb.1.symm, hb.2.1.symm, hx]
  · simp only [hf, ↓reduceIte]
    exact hp.files g hf

theorem Point.owned {p q : Proc n} {i : Fin n} {r : Role} {f : ℕ} {x : Link} (h : Owned p)
    (hp : Point p q i r f x) : Owned q := by
  constructor
  · intro j s g hg
    rw [hp.fd_iff h] at hg
    by_cases hf : g = f
    · subst hf
      simp only [↓reduceIte] at hg
      obtain ⟨rfl, rfl, hx⟩ := hg
      rcases hp.file with ⟨-, hc⟩ | ⟨hb, -⟩
      · exact absurd hc hx
      · exact hb
    · simp only [hf, ↓reduceIte] at hg
      rw [hp.files g hf]
      exact h.file_of_fd j s g hg
  · intro g j s b hb
    have hg := hp.files_iff ⟨b, hb⟩
    rw [hp.fd_iff h]
    by_cases hf : g = f
    · subst hf
      simpa using hg
    · simp only [hf, ↓reduceIte] at hg ⊢
      exact h.fd_of_file g j s b (hg ▸ hb)
  · intro g j s hw
    rw [hp.fd_iff h]
    by_cases hf : g = f
    · subst hf
      rw [hp.watch] at hw
      by_cases hx : x = .watched
      · simp only [hx, ↓reduceIte, Option.some.injEq, Prod.mk.injEq] at hw
        simp [hw.1, hw.2, hx]
      · simp [hx] at hw
    · simp only [hf, ↓reduceIte]
      rw [hp.watched g hf] at hw
      exact h.fd_of_watched g j s hw

theorem Point.link {p q : Proc n} {i : Fin n} {r : Role} {f : ℕ} {x : Link} (hp : Point p q i r f x) :
    q.link i r = x := by
  unfold Proc.link
  rw [hp.own]
  cases x with
  | closed => rfl
  | opened => simp [hp.watch]
  | watched => simp [hp.watch]

theorem Point.link_of_ne {p q : Proc n} {i : Fin n} {r : Role} {f : ℕ} {x : Link} (h : Owned p)
    (hp : Point p q i r f x) {j : Fin n} {s : Role} (hj : ¬ (j = i ∧ s = r)) : q.link j s = p.link j s := by
  unfold Proc.link
  rw [hp.fd j s hj]
  cases hg : p.fd j s with
  | none => rfl
  | some g =>
    have hf : g ≠ f := by
      rintro rfl
      exact hj (hp.slot.fd h hg)
    simp only [hp.watched g hf]

theorem Point.untouched {p q : Proc n} {i : Fin n} {r : Role} {f : ℕ} {x : Link} (h : Owned p)
    (hp : Point p q i r f x) {j : Fin n} (hj : j ≠ i) : Untouched p q j := by
  constructor
  · have hfd : (q.insts j).fd = (p.insts j).fd := by
      funext s
      exact hp.fd j s (fun h' => hj h'.1)
    cases hq : q.insts j
    cases hp' : p.insts j
    have hs := hp.state j
    rw [hq, hp'] at hs hfd
    simp_all
  · intro g s
    by_cases hf : g = f
    · subst hf
      have hw : p.watched g ≠ some (j, s) := fun hw => hj (hp.slot.fd h (h.fd_of_watched g j s hw)).1
      rw [hp.watch]
      by_cases hx : x = .watched
      · simp [hx, hw, Ne.symm hj]
      · simp [hx, hw]
    · rw [hp.watched g hf]
  · intro g s b
    by_cases hf : g = f
    · subst hf
      have hq : q.files g ≠ some ⟨j, s, b⟩ := by
        intro hb
        have hji := hp.files_iff ⟨b, hb⟩
        simp only [↓reduceIte] at hji
        exact hj hji.1
      have hn : p.files g ≠ some ⟨j, s, b⟩ := fun hb => hj (hp.slot.fd h (h.fd_of_file g j s b hb)).1
      simp [hq, hn]
    · rw [hp.files g hf]
  · rw [hp.paths]

theorem Point.effect {p q : Proc n} {i : Fin n} {r : Role} {f : ℕ} {x : Link} (h : Owned p)
    (hp : Point p q i r f x) : Effect p q i ((p.look i).set r x) := by
  constructor
  · exact hp.owned h
  · have hl := hp.link
    have hne {s : Role} (hs : s ≠ r) : q.link i s = p.link i s := hp.link_of_ne h (fun h' => hs h'.2)
    cases r <;> simp [Proc.look, Look.set, hp.state, hl, hne]
  · intro j hj
    exact hp.untouched h hj
  · rw [hp.paths]
  · exact hp.batch
  · exact hp.status

theorem fd_setFd (p : Proc n) (i j : Fin n) (r s : Role) (v : Option ℕ) :
    (p.setFd i r v).fd j s = if j = i ∧ s = r then v else p.fd j s := by
  by_cases hj : j = i
  · subst hj
    by_cases hs : s = r
    · subst hs
      simp [Proc.fd, Proc.setFd]
    · simp [Proc.fd, Proc.setFd, hs]
  · simp [Proc.fd, Proc.setFd, hj]

theorem state_setFd (p : Proc n) (i j : Fin n) (r : Role) (v : Option ℕ) :
    ((p.setFd i r v).insts j).state = (p.insts j).state := by
  by_cases hj : j = i
  · subst hj
    simp [Proc.setFd]
  · simp [Proc.setFd, hj]

theorem fd_of_link {p : Proc n} {i : Fin n} {r : Role} (h : p.link i r ≠ .closed) : ∃ f, p.fd i r = some f := by
  cases hf : p.fd i r with
  | none => simp [Proc.link, hf] at h
  | some f => exact ⟨f, rfl⟩

theorem fd_eq_none_iff {p : Proc n} {i : Fin n} {r : Role} : p.fd i r = none ↔ p.link i r = .closed := by
  cases hf : p.fd i r with
  | none => simp [Proc.link, hf]
  | some f =>
    by_cases hw : p.watched f = some (i, r)
    · simp [Proc.link, hf, hw]
    · simp [Proc.link, hf, hw]

theorem Owned.watched_of_fd {p : Proc n} (h : Owned p) {i : Fin n} {r : Role} {f : ℕ} (hf : p.fd i r = some f) :
    p.watched f = if p.link i r = .watched then some (i, r) else none := by
  by_cases hw : p.watched f = some (i, r)
  · simp [Proc.link, hf, hw]
  · have hl : p.link i r ≠ .watched := by simp [Proc.link, hf, hw]
    simp only [hl, ↓reduceIte]
    cases hc : p.watched f with
    | none => rfl
    | some c =>
      obtain ⟨rfl, rfl⟩ := h.fd_inj hf (h.fd_of_watched f c.1 c.2 hc)
      exact absurd hc hw

theorem effect_self {p : Proc n} (h : Owned p) (i : Fin n) : Effect p p i (p.look i) :=
  ⟨h, rfl, fun j _ => .refl p j, rfl, rfl, rfl⟩

theorem effect_pc {p : Proc n} (h : Owned p) (i : Fin n) (pc : Pc n) : Effect p { p with pc } i (p.look i) := by
  constructor
  · exact ⟨h.file_of_fd, h.fd_of_file, h.fd_of_watched⟩
  · rfl
  · intro j _
    exact ⟨rfl, fun _ _ => Iff.rfl, fun _ _ _ => Iff.rfl, rfl⟩
  · rfl
  · rfl
  · rfl

theorem Effect.pc {p q : Proc n} {i : Fin n} {l : Look} (h : Effect p q i l) (pc : Pc n) :
    Effect p { q with pc } i l := by
  have he := effect_pc h.owned i pc
  rw [h.look] at he
  exact h.trans he

theorem set_of_get {l : Look} {r : Role} {x : Link} (h : l.get r = x) : l.set r x = l := by
  subst h
  cases r <;> rfl

theorem effect_close {p : Proc n} (h : Owned p) (i : Fin n) (r : Role) :
    Effect p (p.close i r) i ((p.look i).set r .closed) := by
  cases hf : p.fd i r with
  | none =>
    have hl : (p.look i).get r = .closed := by
      rw [get_look]
      exact fd_eq_none_iff.mp hf
    have hc : p.close i r = p := by simp [Proc.close, hf]
    rw [hc, set_of_get hl]
    exact effect_self h i
  | some f =>
    have hc : p.close i r = ({ p with files := Function.update p.files f none,
                                       watched := Function.update p.watched f none } : Proc n).setFd i r none := by
      simp only [Proc.close, hf]
    apply Point.effect (f := f) h
    rw [hc]
    constructor
    · exact .inl hf
    · intro g hg
      simp [Proc.setFd, hg]
    · intro g hg
      simp [Proc.setFd, hg]
    · intro j s hj
      rw [fd_setFd, if_neg hj]
      rfl
    · intro j
      rw [state_setFd]
    · rfl
    · rfl
    · rfl
    · simp [Proc.setFd]
    · simp [fd_setFd]
    · simp [Proc.setFd]

theorem effect_epollDel {p : Proc n} (h : Owned p) {i : Fin n} {r : Role} (hl : (p.look i).get r ≠ .closed) :
    Effect p (p.epollDel i r) i ((p.look i).set r .opened) := by
  rw [get_look] at hl
  obtain ⟨f, hf⟩ := fd_of_link hl
  have hq : p.epollDel i r = { p with watched := Function.update p.watched f none } := by simp [Proc.epollDel, hf]
  apply Point.effect (f := f) h
  rw [hq]
  constructor
  · exact .inl hf
  · exact fun _ _ => rfl
  · intro g hg
    simp [hg]
  · exact fun _ _ _ => rfl
  · exact fun _ => rfl
  · rfl
  · rfl
  · rfl
  · exact .inr ⟨h.file_of_fd i r f hf, by simp⟩
  · exact hf
  · simp

theorem epollDel_of_closed {p : Proc n} {i : Fin n} {r : Role} (hl : (p.look i).get r = .closed) :
    p.epollDel i r = p := by
  rw [get_look] at hl
  simp [Proc.epollDel, fd_eq_none_iff.mpr hl]

theorem effect_epollAdd {p : Proc n} (h : Owned p) {i : Fin n} {r : Role} (hl : (p.look i).get r = .opened) :
    ∃ q, p.epollAdd i r = some q ∧ Effect p q i ((p.look i).set r .watched) := by
  rw [get_look] at hl
  obtain ⟨f, hf⟩ := fd_of_link (p := p) (i := i) (r := r) (by simp [hl])
  obtain ⟨b, hb⟩ := h.file_of_fd i r f hf
  have hw : p.watched f = none := by simp [h.watched_of_fd hf, hl]
  refine ⟨{ p with watched := Function.update p.watched f (some (i, r)) }, by simp [Proc.epollAdd, hf, hb, hw], ?_⟩
  apply Point.effect (f := f) h
  constructor
  · exact .inl hf
  · exact fun _ _ => rfl
  · intro g hg
    simp [hg]
  · exact fun _ _ _ => rfl
  · exact fun _ => rfl
  · rfl
  · rfl
  · rfl
  · exact .inr ⟨⟨b, hb⟩, by simp⟩
  · exact hf
  · simp

theorem epollAdd_eq_none {p : Proc n} {i : Fin n} {r : Role} (hl : (p.look i).get r ≠ .opened) :
    p.epollAdd i r = none := by
  rw [get_look] at hl
  cases hf : p.fd i r with
  | none => simp [Proc.epollAdd, hf]
  | some f =>
    have hw : p.watched f = some (i, r) := by
      by_contra hw
      simp [Proc.link, hf, hw] at hl
    simp [Proc.epollAdd, hf, hw]

theorem effect_store {p : Proc n} (h : Owned p) {i : Fin n} {r : Role} {f : ℕ} (hl : (p.look i).get r = .closed)
    (hf : p.files f = none) : Effect p (p.store i r f) i ((p.look i).set r .opened) := by
  rw [get_look] at hl
  have hw : p.watched f = none := by
    cases hc : p.watched f with
    | none => rfl
    | some c =>
      obtain ⟨b, hb⟩ := h.file_of_fd _ _ _ (h.fd_of_watched f c.1 c.2 hc)
      rw [hf] at hb
      exact absurd hb (by simp)
  apply Point.effect (f := f) h
  unfold Proc.store
  constructor
  · exact .inr ⟨fd_eq_none_iff.mpr hl, hf⟩
  · intro g hg
    simp [Proc.setFd, hg]
  · exact fun _ _ => rfl
  · intro j s hj
    rw [fd_setFd, if_neg hj]
    rfl
  · intro j
    rw [state_setFd]
  · rfl
  · rfl
  · rfl
  · exact .inr ⟨⟨false, by simp [Proc.setFd]⟩, by simp⟩
  · simp [fd_setFd]
  · exact hw

theorem effect_setNonblock {p : Proc n} (h : Owned p) (i : Fin n) (v : Bool) :
    Effect p (p.setNonblock i v) i (p.look i) := by
  cases hf : p.fd i .wire with
  | none =>
    have hq : p.setNonblock i v = p := by simp [Proc.setNonblock, hf]
    rw [hq]
    exact effect_self h i
  | some f =>
    obtain ⟨b, hb⟩ := h.file_of_fd i .wire f hf
    have hl : p.link i .wire ≠ .closed := by simp [← fd_eq_none_iff, hf]
    have he : Effect p (p.setNonblock i v) i ((p.look i).set .wire (p.link i .wire)) := by
      apply Point.effect (f := f) h
      simp only [Proc.setNonblock, hf]
      constructor
      · exact .inl hf
      · intro g hg
        simp [hg]
      · exact fun _ _ => rfl
      · exact fun _ _ _ => rfl
      · exact fun _ => rfl
      · rfl
      · rfl
      · rfl
      · exact .inr ⟨⟨v, by simp [hb]⟩, hl⟩
      · rw [if_neg hl]
        exact hf
      · exact h.watched_of_fd hf
    exact he

theorem effect_setState {p : Proc n} (h : Owned p) (i : Fin n) (state : InstState) :
    Effect p (p.setState i state) i { p.look i with state } := by
  have hfd : (p.setState i state).fd = p.fd := by
    funext j s
    by_cases hj : j = i
    · subst hj
      simp [Proc.fd, Proc.setState]
    · simp [Proc.fd, Proc.setState, hj]
  constructor
  · constructor
    · rw [hfd]
      exact h.file_of_fd
    · rw [hfd]
      exact h.fd_of_file
    · rw [hfd]
      exact h.fd_of_watched
  · have hl : (p.setState i state).link i = p.link i := by
      funext s
      simp only [Proc.link, hfd]
      rfl
    have hs : ((p.setState i state).insts i).state = state := by simp [Proc.setState]
    simp only [Proc.look, hl, hs]
  · intro j hj
    refine ⟨?_, fun _ _ => Iff.rfl, fun _ _ _ => Iff.rfl, rfl⟩
    simp [Proc.setState, hj]
  · rfl
  · rfl
  · rfl

end VirtRtLab.Daemon
