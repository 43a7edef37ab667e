import VirtRtLab.Daemon.Steps

namespace VirtRtLab.Daemon

open Kernel Transition

variable {n : ℕ} {z c : Prop} {p q : Proc n} {i : Fin n}

def Pc.inst : Pc n → Option (Fin n)
  | .idle => none
  | .accept i | .wireRead i | .wireClose i | .wireReopen i | .send i _ | .clientRecv i | .wireWrite i _ => some i
  | .drainGetfl i | .drainSetfl i _ | .drainRead i _ | .drainClose i _ | .drainReopen i _ => some i
  | .drainRestore i _ => some i

def Pc.reopening : Pc n → Option (Fin n)
  | .wireReopen i | .drainReopen i _ => some i
  | _ => none

/-- The looks of an instance, by what is done to it next. `z`: a drain may fail to reopen the wire. `c`: an open
may fail while an event of the client is left in the batch. -/
def Fits (z c : Prop) : Pc n → Look → Prop
  | .idle, l => l = .wait ∨ l = .relay ∨ l = .offline ∨ z ∧ (l = .noWire ∨ c ∧ l = .lost)
  | .accept _, l => l = .wait ∨ z ∧ c ∧ l = .lost
  | .wireRead _, l => l = .relay ∨ l = .offline ∨ z ∧ l = .noWire
  | .wireClose _, l => l = .unwatched
  | .wireReopen _, l => l = .reopen
  | .send _ _, l | .wireWrite _ _, l => l = .relay
  | .clientRecv _, l => l = .relay ∨ c ∧ (l = .offline ∨ z ∧ l = .noWire)
  | .drainGetfl _, l => l = .drain ∨ c ∧ (l = .offline ∨ z ∧ l = .noWire)
  | .drainSetfl _ _, l | .drainRead _ _, l | .drainClose _ _, l | .drainRestore _ _, l => l = .drain
  | .drainReopen _ _, l => l = .noWire

section Fits

variable {l : Look}

theorem Fits.accept (h : Fits z c (n := n) .idle l) (hs : l.state = .waitClient) : Fits z c (.accept i) l := by
  rcases h with rfl | rfl | rfl | ⟨hz, rfl | ⟨hc, rfl⟩⟩
  · exact .inl rfl
  · cases hs
  · cases hs
  · cases hs
  · exact .inr ⟨hz, hc, rfl⟩

theorem Fits.wireRead (h : Fits z c (n := n) .idle l) (hs : l.state = .relaying) : Fits z c (.wireRead i) l := by
  rcases h with rfl | rfl | rfl | ⟨hz, rfl | ⟨-, rfl⟩⟩
  · cases hs
  · exact .inl rfl
  · exact .inr (.inl rfl)
  · exact .inr (.inr ⟨hz, rfl⟩)
  · cases hs

theorem Fits.clientRecv (h : Fits z c (n := n) .idle l) (hs : l.state = .relaying) (hw : l.wire = .closed → c) :
    Fits z c (.clientRecv i) l := by
  rcases h with rfl | rfl | rfl | ⟨hz, rfl | ⟨-, rfl⟩⟩
  · cases hs
  · exact .inl rfl
  · exact .inr ⟨hw rfl, .inl rfl⟩
  · exact .inr ⟨hw rfl, .inr ⟨hz, rfl⟩⟩
  · cases hs

theorem Fits.relay_of_wire (h : Fits z c (.wireRead i) l) (hw : l.wire ≠ .closed) : l = .relay := by
  rcases h with hl | rfl | ⟨-, rfl⟩
  · exact hl
  · exact absurd rfl hw
  · exact absurd rfl hw

theorem Fits.relay_of_client (h : Fits z c (.clientRecv i) l) (hc : l.client ≠ .closed) : l = .relay := by
  rcases h with hl | ⟨-, rfl | ⟨-, rfl⟩⟩
  · exact hl
  · exact absurd rfl hc
  · exact absurd rfl hc

theorem Fits.drain_of_wire (h : Fits z c (.drainGetfl i) l) (hw : l.wire ≠ .closed) : l = .drain := by
  rcases h with hl | ⟨-, rfl | ⟨-, rfl⟩⟩
  · exact hl
  · exact absurd rfl hw
  · exact absurd rfl hw

end Fits

structure Sound (z c : Prop) (p : Proc n) : Prop where
  owned : Owned p
  rest : ∀ i, p.pc.inst ≠ some i → Fits z c (n := n) .idle (p.look i)
  busy : ∀ i, p.pc.inst = some i → Fits z c p.pc (p.look i)
  path : ∀ i, p.paths i = true ↔ (p.look i).server ≠ .closed
  stale : ¬ c → ∀ i, p.pc.reopening ≠ some i → (p.look i).wire = .closed → .ready i .client ∉ p.batch

theorem reopening_ne (h : p.pc.inst ≠ some i) : p.pc.reopening ≠ some i := by
  intro hr
  apply h
  cases hp : p.pc <;> simp_all [Pc.reopening, Pc.inst]

theorem Sound.of_effect (h : Sound z c p) (hi : p.pc.inst = some i) {l : Look} (he : Effect p q i l)
    (hpc : q.pc.inst = none ∨ q.pc.inst = some i) (hl : Fits z c q.pc l)
    (hs : l.server = .closed ↔ (p.look i).server = .closed)
    (hb : ¬ c → q.pc.reopening ≠ some i → l.wire = .closed → .ready i .client ∉ p.batch) : Sound z c q := by
  have hne (j : Fin n) (hj : j ≠ i) : p.pc.inst ≠ some j := by
    rw [hi]
    simpa using Ne.symm hj
  constructor
  · exact he.owned
  · intro j hj
    by_cases hji : j = i
    · subst hji
      have hn : q.pc.inst = none := hpc.resolve_right hj
      have hidle : q.pc = .idle := by
        cases hq : q.pc with
        | idle => rfl
        | _ => simp [hq, Pc.inst] at hn
      rw [he.look]
      rwa [hidle] at hl
    · rw [(he.other j hji).look]
      exact h.rest j (hne j hji)
  · intro j hj
    have hji : j = i := by
      rcases hpc with hn | hn
      · rw [hn] at hj
        exact absurd hj (by simp)
      · rw [hn, Option.some.injEq] at hj
        exact hj.symm
    rw [hji, he.look]
    exact hl
  · intro j
    by_cases hji : j = i
    · rw [hji, he.path, he.look, h.path i, ne_eq, ne_eq, hs]
    · rw [(he.other j hji).path, (he.other j hji).look]
      exact h.path j
  · intro hc j hj hw
    rw [he.batch]
    by_cases hji : j = i
    · rw [hji, he.look] at hw
      rw [hji] at hj ⊢
      exact hb hc hj hw
    · rw [(he.other j hji).look] at hw
      exact h.stale hc j (reopening_ne (hne j hji)) hw

theorem Sound.of_destroyed (h : Sound z c p) (hi : p.pc.inst = some i) (hd : Destroyed p q i)
    (hs : (p.insts i).state = .relaying) (hpc : q.pc = .idle) (hb : ¬ c → .ready i .client ∉ p.batch) :
    Sound z c q := by
  have hne (j : Fin n) (hj : j ≠ i) : p.pc.inst ≠ some j := by
    rw [hi]
    simpa using Ne.symm hj
  have hlook : q.look i = .offline := by
    rw [hd.look, hs]
    rfl
  constructor
  · exact hd.owned
  · intro j _
    by_cases hji : j = i
    · rw [hji, hlook]
      exact .inr (.inr (.inl rfl))
    · rw [(hd.other j hji).look]
      exact h.rest j (hne j hji)
  · intro j hj
    rw [hpc] at hj
    exact absurd hj (by simp [Pc.inst])
  · intro j
    by_cases hji : j = i
    · rw [hji, hd.path, hlook]
      simp [Look.offline]
    · rw [(hd.other j hji).path, (hd.other j hji).look]
      exact h.path j
  · intro hc j _ hw
    rw [hd.batch]
    by_cases hji : j = i
    · rw [hji]
      exact hb hc
    · rw [(hd.other j hji).look] at hw
      exact h.stale hc j (reopening_ne (hne j hji)) hw

structure Ok (z c : Prop) (p : Proc n) : Prop where
  sound : p.status = .running → Sound z c p
  alive : ¬ c → p.status ≠ .aborted

theorem Ok.of_sound (h : Sound z c p) (hs : p.status = .running) : Ok z c p := by
  refine ⟨fun _ => h, fun _ => ?_⟩
  rw [hs]
  decide

structure Next (z c : Prop) (p q : Proc n) (i : Fin n) : Prop where
  ok : Ok z c q
  pc : q.pc.inst = none ∨ q.pc.inst = some i
  batch : q.batch = p.batch
  other : ∀ j, j ≠ i → Untouched p q j

theorem Next.of_abort (hc : c) (hi : p.pc.inst = some i) (o : List (Obs n)) : Next z c p (finish p none o).1 i := by
  refine ⟨?_, .inr hi, rfl, ?_⟩
  · exact ⟨fun h => absurd h (by simp [finish]), fun h => absurd hc h⟩
  · intro j _
    exact ⟨rfl, fun _ _ => Iff.rfl, fun _ _ _ => Iff.rfl, rfl⟩

theorem Next.of_effect (h : Sound z c p) (hs : p.status = .running) (hi : p.pc.inst = some i) {l : Look}
    (he : Effect p q i l) (hpc : q.pc.inst = none ∨ q.pc.inst = some i) (hl : Fits z c q.pc l)
    (hserver : l.server = .closed ↔ (p.look i).server = .closed)
    (hb : ¬ c → q.pc.reopening ≠ some i → l.wire = .closed → .ready i .client ∉ p.batch) : Next z c p q i :=
  ⟨.of_sound (h.of_effect hi he hpc hl hserver hb) (he.status.trans hs), hpc, he.batch, he.other⟩

theorem Next.of_pc (h : Sound z c p) (hs : p.status = .running) (hi : p.pc.inst = some i)
    (hr : p.pc.reopening = none) (pc : Pc n) (hpc : pc.inst = none ∨ pc.inst = some i)
    (hl : Fits z c pc (p.look i)) : Next z c p { p with pc } i := by
  apply Next.of_effect h hs hi (effect_pc h.owned i pc) hpc hl Iff.rfl
  intro hc _ hw
  exact h.stale hc i (by simp [hr]) hw

theorem Next.of_wait (h : Sound z c p) (hs : p.status = .running) (hi : p.pc.inst = some i) {l : Look}
    (he : Effect p q i l) (hl : l = .drain) (hserver : (p.look i).server = .opened) (o : List (Obs n)) :
    Next z c p (finish q (enterWaitClient q i) o).1 i := by
  subst hl
  obtain ⟨r, hr, hw⟩ := effect_enterWaitClient he.owned (i := i) (by rw [he.look]; rfl)
  rw [he.look] at hw
  rw [hr]
  apply Next.of_effect h hs hi ((he.trans hw).pc .idle) (.inl rfl)
  · exact .inl rfl
  · simp [hserver]
  · intro _ _ hc
    exact absurd hc (by decide)

theorem Next.of_reopenFail (h : Sound z c p) (hs : p.status = .running) (hpc : p.pc = .wireReopen i)
    (hl : p.look i = .reopen) (hb : ¬ c → .ready i .client ∉ p.batch) :
    Next z c p { instanceDestroy (clientClose p i).1 i with pc := .idle } i := by
  have hi : p.pc.inst = some i := by
    rw [hpc]
    rfl
  have he := effect_clientClose h.owned i
  have hd := destroyed_instanceDestroy he.owned i
  have hq : Destroyed p { instanceDestroy (clientClose p i).1 i with pc := .idle } i := by
    constructor
    · exact (effect_pc hd.owned i .idle).owned
    · have hstate : ((clientClose p i).1.insts i).state = (p.insts i).state := congrArg Look.state he.look
      rw [← hstate]
      exact hd.look
    · intro j hj
      exact ((he.other j hj).trans (hd.other j hj)).trans ((effect_pc hd.owned i .idle).other j hj)
    · exact hd.path
    · exact hd.batch.trans he.batch
    · exact hd.status.trans he.status
  refine ⟨Ok.of_sound (h.of_destroyed hi hq (congrArg Look.state hl) rfl hb) ?_, .inl rfl, hq.batch, hq.other⟩
  exact hq.status.trans hs

theorem Next.of_reopened (h : Sound z c p) (hs : p.status = .running) (hpc : p.pc = .wireReopen i)
    (hl : p.look i = .reopen) {f : ℕ} (hf : p.files f = none) {o : List (Obs n)}
    (hq : clientClose (p.store i .wire f) i = (q, o)) : Next z c p (finish q (enterWaitClient q i) o).1 i := by
  have h1 := effect_store h.owned (i := i) (r := .wire) (by rw [hl]; rfl) hf
  rw [hl] at h1
  have h2 := effect_clientClose h1.owned i
  rw [h1.look, hq] at h2
  exact .of_wait h hs (by rw [hpc]; rfl) (h1.trans h2) rfl (by rw [hl]; rfl) o

theorem Next.of_drain (h : Sound z c p) (hs : p.status = .running) (hi : p.pc.inst = some i)
    (hl : p.look i = .relay) : Next z c p (closeClientAndDrain p i).1 i := by
  apply Next.of_effect h hs hi (effect_closeClientAndDrain h.owned hl) (.inr rfl)
  · exact .inl rfl
  · rw [hl]
    decide
  · intro _ _ hw
    exact absurd hw (by decide)

theorem Next.of_drain_dead (hc : c) (h : Sound z c p) (hs : p.status = .running) (hi : p.pc.inst = some i)
    (hl : p.look i = .offline ∨ z ∧ p.look i = .noWire) : Next z c p (closeClientAndDrain p i).1 i := by
  have hclosed : (p.look i).wire = .closed ∧ (p.look i).client = .closed := by
    rcases hl with hl | ⟨-, hl⟩
    · rw [hl]
      decide
    · rw [hl]
      decide
  apply Next.of_effect h hs hi (effect_closeClientAndDrain_of_closed h.owned hclosed.1 hclosed.2) (.inr rfl)
  · exact .inr ⟨hc, hl⟩
  · exact Iff.rfl
  · exact fun hn => absurd hc hn

theorem Next.of_getflFail_dead (hc : c) (h : Sound z c p) (hs : p.status = .running) (hi : p.pc.inst = some i)
    (hl : p.look i = .offline ∨ z ∧ p.look i = .noWire) : Next z c p (finish p (enterWaitClient p i) []).1 i := by
  rcases hl with hl | ⟨hz, hl⟩
  · rw [enterWaitClient_eq_none (by rw [hl]; decide)]
    exact .of_abort hc hi []
  · obtain ⟨r, hr, he⟩ := effect_enterWaitClient h.owned (i := i) (by rw [hl]; rfl)
    rw [hl] at he
    rw [hr]
    apply Next.of_effect h hs hi (he.pc .idle) (.inl rfl)
    · exact .inr (.inr (.inr ⟨hz, .inr ⟨hc, rfl⟩⟩))
    · rw [hl]
      decide
    · exact fun hn => absurd hc hn

structure Allowed (z c : Prop) (p : Proc n) (a : Act n) : Prop where
  drain : ∀ i save, p.pc = .drainReopen i save → a = .open none → z
  stale : ∀ i, p.pc.reopening = some i → a = .open none → .ready i .client ∈ p.batch → c

theorem allowed_true {a : Act n} : Allowed True True p a := ⟨fun _ _ _ _ => trivial, fun _ _ _ _ => trivial⟩

theorem handled_next {a : Act n} {o : List (Obs n)} (h : Sound z c p) (hs : p.status = .running)
    (hi : p.pc.inst = some i) (ha : Allowed z c p a) (hst : Handled p p.pc a q o) : Next z c p q i := by
  have hbusy := h.busy i hi
  have hj := hi
  generalize hpc : p.pc = pc at hst hbusy hj
  cases hst with
  | acceptFail k =>
    cases hj
    apply Next.of_pc h hs hi (by rw [hpc]; rfl) .idle (.inl rfl)
    rcases hbusy with hl | ⟨hz, hc, hl⟩
    · exact .inl hl
    · exact .inr (.inr (.inr ⟨hz, .inr ⟨hc, hl⟩⟩))
  | accepted k f hf _ =>
    cases hj
    rcases hbusy with hl | ⟨hz, hc, hl⟩
    · obtain ⟨r, hr, he⟩ := effect_onAccepted h.owned hl hf
      rw [hr]
      apply Next.of_effect h hs hi (he.pc .idle) (.inl rfl)
      · exact .inr (.inl rfl)
      · rw [hl]
        decide
      · intro _ _ hw
        exact absurd hw (by decide)
    · rw [onAccepted_eq_none h.owned hl hf]
      exact .of_abort hc hi _
  | readFail k e =>
    cases hj
    apply Next.of_pc h hs hi (by rw [hpc]; rfl) .idle (.inl rfl)
    rcases hbusy with hl | hl | ⟨hz, hl⟩
    · exact .inr (.inl hl)
    · exact .inr (.inr (.inl hl))
    · exact .inr (.inr (.inr ⟨hz, .inl hl⟩))
  | readEof k hw =>
    cases hj
    have hl := hbusy.relay_of_wire hw
    have he := effect_epollDel h.owned (i := i) (r := .wire) hw
    rw [hl] at he
    apply Next.of_effect h hs hi (he.pc (.wireClose i)) (.inr rfl) rfl
    · rw [hl]
      decide
    · intro _ _ hc
      exact absurd hc (by decide)
  | readBytes k bs hw hb =>
    cases hj
    exact .of_pc h hs hi (by rw [hpc]; rfl) (.send i bs) (.inr rfl) (hbusy.relay_of_wire hw)
  | wireClose k =>
    cases hj
    have hl : p.look i = .unwatched := hbusy
    have he := effect_close h.owned i .wire
    rw [hl] at he
    apply Next.of_effect h hs hi (he.pc (.wireReopen i)) (.inr rfl) rfl
    · rw [hl]
      decide
    · intro _ hr _
      exact absurd rfl hr
  | reopenFail k =>
    cases hj
    apply Next.of_reopenFail h hs hpc hbusy
    exact fun hc hm => hc (ha.stale i (by rw [hpc]; rfl) rfl hm)
  | reopened k f hf q' o' hq =>
    cases hj
    exact .of_reopened h hs hpc hbusy hf hq
  | sendAll k buf =>
    cases hj
    exact .of_pc h hs hi (by rw [hpc]; rfl) .idle (.inl rfl) (.inr (.inl hbusy))
  | sendShort k buf r sent hc hr =>
    cases hj
    exact .of_drain h hs hi hbusy
  | recvEnd k r hr =>
    cases hj
    rcases hbusy with hl | ⟨hc, hl⟩
    · exact .of_drain h hs hi hl
    · exact .of_drain_dead hc h hs hi hl
  | recvBytes k bs hc =>
    cases hj
    exact .of_pc h hs hi (by rw [hpc]; rfl) (.wireWrite i bs) (.inr rfl) (hbusy.relay_of_client hc)
  | written k buf r =>
    cases hj
    exact .of_pc h hs hi (by rw [hpc]; rfl) .idle (.inl rfl) (.inr (.inl hbusy))
  | getfl k hw =>
    cases hj
    exact .of_pc h hs hi (by rw [hpc]; rfl) (.drainSetfl i (p.nonblock i)) (.inr rfl) (hbusy.drain_of_wire hw)
  | getflFail k =>
    cases hj
    rcases hbusy with hl | ⟨hc, hl⟩
    · exact .of_wait h hs hi (effect_self h.owned i) hl (by rw [hl]; rfl) []
    · exact .of_getflFail_dead hc h hs hi hl
  | setfl k save =>
    cases hj
    have hl : p.look i = .drain := hbusy
    have he := effect_setNonblock h.owned i true
    apply Next.of_effect h hs hi (he.pc (.drainRead i save)) (.inr rfl) hl Iff.rfl
    intro _ _ hw
    rw [hl] at hw
    exact absurd hw (by decide)
  | setflFail k save =>
    cases hj
    have hl : p.look i = .drain := hbusy
    exact .of_wait h hs hi (effect_self h.owned i) hl (by rw [hl]; rfl) []
  | drainEnd k save e =>
    cases hj
    exact .of_pc h hs hi (by rw [hpc]; rfl) (.drainRestore i save) (.inr rfl) hbusy
  | drainEof k save =>
    cases hj
    exact .of_pc h hs hi (by rw [hpc]; rfl) (.drainClose i save) (.inr rfl) hbusy
  | drained k save bs hb =>
    cases hj
    exact ⟨.of_sound h hs, .inr hi, rfl, fun j _ => .refl p j⟩
  | drainClose k save =>
    cases hj
    have hl : p.look i = .drain := hbusy
    have he := effect_close h.owned i .wire
    rw [hl] at he
    apply Next.of_effect h hs hi (he.pc (.drainReopen i save)) (.inr rfl) rfl
    · rw [hl]
      decide
    · intro _ hr _
      exact absurd rfl hr
  | drainReopenFail k save =>
    cases hj
    have hl : p.look i = .noWire := hbusy
    apply Next.of_effect h hs hi (effect_pc h.owned i .idle) (.inl rfl)
    · exact .inr (.inr (.inr ⟨ha.drain i save hpc rfl, .inl hl⟩))
    · exact Iff.rfl
    · intro hc _ _ hm
      exact hc (ha.stale i (by rw [hpc]; rfl) rfl hm)
  | drainReopened k save f hf =>
    cases hj
    have hl : p.look i = .noWire := hbusy
    have he := effect_store h.owned (i := i) (r := .wire) (by rw [hl]; rfl) hf
    rw [hl] at he
    apply Next.of_effect h hs hi (he.pc (.drainRestore i save)) (.inr rfl) rfl
    · rw [hl]
      decide
    · intro _ _ hw
      exact absurd hw (by decide)
  | restored k save ok q' hq =>
    cases hj
    have hl : p.look i = .drain := hbusy
    have he : Effect p q' i .drain := by
      rw [hq, ← hl]
      cases ok with
      | true => exact effect_setNonblock h.owned i save
      | false => exact effect_self h.owned i
    exact .of_wait h hs hi he rfl (by rw [hl]; rfl) []

theorem Sound.of_batch (h : Sound z c p) (batch : List (Event n))
    (hb : ¬ c → ∀ i, (p.look i).wire = .closed → .ready i .client ∉ batch) : Sound z c { p with batch } :=
  ⟨⟨h.owned.file_of_fd, h.owned.fd_of_file, h.owned.fd_of_watched⟩, h.rest, h.busy, h.path, fun hc i _ => hb hc i⟩

theorem Sound.look_idle (h : Sound z c p) (hpc : p.pc = .idle) (i : Fin n) : Fits z c (n := n) .idle (p.look i) :=
  h.rest i (by simp [hpc, Pc.inst])

theorem Sound.of_wait (h : Sound z c p) (hpc : p.pc = .idle) {sources : List Source} {batch : List (Event n)}
    (hm : sources.mapM (event p) = some batch) : Sound z c { p with batch } := by
  apply h.of_batch batch
  intro hc i hw he
  have hl := watched_of_mem h.owned hm he
  rcases h.look_idle hpc i with h' | h' | h' | ⟨-, h' | ⟨hc', -⟩⟩
  · rw [h'] at hw
    exact absurd hw (by decide)
  · rw [h'] at hw
    exact absurd hw (by decide)
  · rw [h'] at hl
    exact absurd hl (by decide)
  · rw [h'] at hl
    exact absurd hl (by decide)
  · exact hc hc'

theorem Ok.of_start (h : Sound z c p) (hs : p.status = .running) (hpc : p.pc = .idle) (pc : Pc n)
    (hi : pc.inst = some i) (hl : Fits z c pc (p.look i)) : Ok z c { p with pc } := by
  refine Ok.of_sound ?_ hs
  constructor
  · exact ⟨h.owned.file_of_fd, h.owned.fd_of_file, h.owned.fd_of_watched⟩
  · intro j _
    exact h.look_idle hpc j
  · intro j hj
    obtain rfl : i = j := by
      rw [hi, Option.some.injEq] at hj
      exact hj
    exact hl
  · exact h.path
  · intro hc j _ hw
    exact h.stale hc j (by simp [hpc, Pc.reopening]) hw

theorem Ok.of_event (h : Sound z c p) (hs : p.status = .running) (hpc : p.pc = .idle) {e : Event n}
    (he : ∀ i, e = .ready i .client → (p.look i).wire = .closed → c) : Ok z c (dispatch p e) := by
  unfold dispatch
  split
  · rename_i i
    split
    · rename_i hst
      exact .of_start h hs hpc (.accept i) rfl ((h.look_idle hpc i).accept hst)
    · exact .of_sound h hs
  · rename_i i
    split
    · rename_i hst
      exact .of_start h hs hpc (.wireRead i) rfl ((h.look_idle hpc i).wireRead hst)
    · exact .of_sound h hs
  · rename_i i
    split
    · rename_i hst
      exact .of_start h hs hpc (.clientRecv i) rfl ((h.look_idle hpc i).clientRecv hst (he i rfl))
    · exact .of_sound h hs
  · exact ⟨fun hr => absurd hr (by simp [onSignal]), fun _ => by simp [onSignal]⟩

theorem Ok.of_dispatch (h : Sound z c p) (hs : p.status = .running) (hpc : p.pc = .idle) {e : Event n}
    {rest : List (Event n)} (hb : p.batch = e :: rest) : Ok z c (dispatch { p with batch := rest } e) := by
  have hstale (i : Fin n) (hw : (p.look i).wire = .closed) (hm : .ready i .client ∈ e :: rest) : c := by
    by_contra hc
    rw [← hb] at hm
    exact h.stale hc i (by simp [hpc, Pc.reopening]) hw hm
  have hq : Sound z c { p with batch := rest } := by
    apply h.of_batch rest
    intro hc i hw hm
    exact hc (hstale i hw (List.mem_cons_of_mem e hm))
  refine Ok.of_event hq hs hpc ?_
  rintro i rfl hw
  exact hstale i hw List.mem_cons_self

theorem pc_inst_of_handled {a : Act n} {o : List (Obs n)} (h : Handled p p.pc a q o) : ∃ i, p.pc.inst = some i := by
  cases hpc : p.pc with
  | idle =>
    rw [hpc] at h
    cases h
  | _ => exact ⟨_, rfl⟩

theorem machine_ok {a : Act n} {o : List (Obs n)} (h : Ok z c p) (ha : Allowed z c p a)
    (hm : machine p a = some (q, o)) : Ok z c q := by
  obtain ⟨hs, hst⟩ := machine_cases hm
  have hsound := h.sound hs
  cases hst with
  | wait sources batch hpc hn he => exact .of_sound (hsound.of_wait hpc he) hs
  | waitFail hpc hb => exact ⟨fun hr => absurd hr (by simp), fun _ => by simp⟩
  | dispatch e rest hpc hb => exact .of_dispatch hsound hs hpc hb
  | handler a q o hh =>
    obtain ⟨i, hi⟩ := pc_inst_of_handled hh
    exact (handled_next hsound hs hi ha hh).ok

structure Started (p : Proc n) : Prop where
  owned : Owned p
  look : ∀ i, p.look i = .wait
  path : ∀ i, p.paths i = true
  status : p.status = .running
  batch : p.batch = []
  pc : p.pc = .idle

def start (n : ℕ) : Proc n where
  insts i := ⟨fun | .wire => some (2 * i) | .server => some (2 * i + 1) | .client => none, .waitClient⟩
  files f := if h : f / 2 < n then some ⟨⟨f / 2, h⟩, if f % 2 = 0 then .wire else .server, false⟩ else none
  watched f := if h : f / 2 < n ∧ f % 2 = 1 then some (⟨f / 2, h.1⟩, .server) else none
  paths _ := true
  status := .running
  batch := []
  pc := .idle

theorem owned_start (n : ℕ) : Owned (start n) := by
  constructor
  · intro i r f hf
    refine ⟨false, ?_⟩
    cases r with
    | wire =>
      simp only [Proc.fd, start, Option.some.injEq] at hf
      have hi : f / 2 = i := by omega
      have hm : f % 2 = 0 := by omega
      simp [start, hi, hm]
    | server =>
      simp only [Proc.fd, start, Option.some.injEq] at hf
      have hi : f / 2 = i := by omega
      have hm : f % 2 ≠ 0 := by omega
      simp [start, hi, hm]
    | client => cases hf
  · intro f i r b hf
    simp only [start, Option.dite_none_right_eq_some, Option.some.injEq, File.mk.injEq] at hf
    obtain ⟨hn, rfl, rfl, rfl⟩ := hf
    by_cases hm : f % 2 = 0
    · simp only [Proc.fd, start, hm, ↓reduceIte, Option.some.injEq]
      omega
    · simp only [Proc.fd, start, hm, ↓reduceIte, Option.some.injEq]
      omega
  · intro f i r hf
    simp only [start, Option.dite_none_right_eq_some, Option.some.injEq, Prod.mk.injEq] at hf
    obtain ⟨⟨hn, hm⟩, rfl, rfl⟩ := hf
    simp only [Proc.fd, start, Option.some.injEq]
    omega

theorem started_start (n : ℕ) : Started (start n) := by
  refine ⟨owned_start n, fun i => ?_, fun _ => rfl, rfl, rfl, rfl⟩
  have hi : (2 * (i : ℕ) + 1) / 2 = i := by omega
  have hs : (2 * (i : ℕ) + 1) % 2 = 1 := by omega
  simp [Proc.look, Proc.link, Proc.fd, start, Look.wait, hi, hs]

theorem Started.ok (h : Started p) : Ok z c p := by
  refine .of_sound ?_ h.status
  constructor
  · exact h.owned
  · intro i _
    exact .inl (h.look i)
  · intro i hi
    rw [h.pc] at hi
    cases hi
  · intro i
    simp [h.path i, h.look i, Look.wait]
  · intro _ i _ _
    simp [h.batch]

theorem run_ok {p₀ : Proc n} {os : List (Obs n)} (h₀ : Started p₀) (h : Run machine (Allowed z c) p₀ os p) :
    Ok z c p :=
  h.invariant (Ok z c) h₀.ok (fun _ _ _ _ hp ha hm => machine_ok hp ha hm)

end VirtRtLab.Daemon
