import VirtRtLab.Daemon.Invariant

namespace VirtRtLab.Daemon

open Kernel Transition

variable {n : ℕ} {p q : Proc n} {i : Fin n}

inductive Shape where
  | wait | relay | offline
  deriving DecidableEq, Repr

def Open (p : Proc n) (i : Fin n) (r : Role) : Prop := ∃ f b, p.fd i r = some f ∧ p.files f = some ⟨i, r, b⟩

def Registered (p : Proc n) (i : Fin n) (roles : List Role) : Prop :=
  ∀ f r, p.watched f = some (i, r) ↔ r ∈ roles ∧ p.fd i r = some f

def HasShape (p : Proc n) (i : Fin n) : Shape → Prop
  | .wait => (p.insts i).state = .waitClient ∧ p.fd i .client = none ∧ Open p i .wire ∧ Open p i .server ∧
      Registered p i [.server]
  | .relay => (p.insts i).state = .relaying ∧ Open p i .wire ∧ Open p i .server ∧ Open p i .client ∧
      Registered p i [.wire, .client]
  | .offline => (∀ r, p.fd i r = none) ∧ Registered p i [] ∧ p.paths i = false

theorem open_iff (h : Owned p) {r : Role} : Open p i r ↔ (p.look i).get r ≠ .closed := by
  rw [get_look, ne_eq, ← fd_eq_none_iff]
  constructor
  · rintro ⟨f, b, hf, -⟩
    simp [hf]
  · intro hr
    obtain ⟨f, hf⟩ := Option.ne_none_iff_exists'.mp hr
    obtain ⟨b, hb⟩ := h.file_of_fd i r f hf
    exact ⟨f, b, hf, hb⟩

theorem registered_of_look (h : Owned p) {roles : List Role}
    (hr : ∀ r, (p.look i).get r = .watched ↔ r ∈ roles) : Registered p i roles := by
  intro f r
  rw [← hr, get_look]
  constructor
  · intro hw
    have hf := h.fd_of_watched f i r hw
    exact ⟨by simp [Proc.link, hf, hw], hf⟩
  · rintro ⟨hl, hf⟩
    rw [h.watched_of_fd hf, if_pos hl]

theorem hasShape_wait (h : Owned p) (hl : p.look i = .wait) : HasShape p i .wait := by
  refine ⟨congrArg Look.state hl, ?_, ?_, ?_, ?_⟩
  · rw [fd_eq_none_iff]
    exact congrArg Look.client hl
  · rw [open_iff h, hl]
    decide
  · rw [open_iff h, hl]
    decide
  · apply registered_of_look h
    intro r
    rw [hl]
    cases r <;> decide

theorem hasShape_relay (h : Owned p) (hl : p.look i = .relay) : HasShape p i .relay := by
  refine ⟨congrArg Look.state hl, ?_, ?_, ?_, ?_⟩
  · rw [open_iff h, hl]
    decide
  · rw [open_iff h, hl]
    decide
  · rw [open_iff h, hl]
    decide
  · apply registered_of_look h
    intro r
    rw [hl]
    cases r <;> decide

theorem hasShape_offline (h : Owned p) (hl : p.look i = .offline) (hp : p.paths i = false) :
    HasShape p i .offline := by
  refine ⟨?_, ?_, hp⟩
  · intro r
    rw [fd_eq_none_iff, ← get_look, hl]
    cases r <;> rfl
  · apply registered_of_look h
    intro r
    rw [hl]
    cases r <;> decide

theorem HasShape.unique {s s' : Shape} (h : HasShape p i s) (h' : HasShape p i s') : s = s' := by
  have hopen {r : Role} (ho : Open p i r) : p.fd i r ≠ none := by
    obtain ⟨f, b, hf, -⟩ := ho
    simp [hf]
  have hstate (hw : HasShape p i .wait) (hr : HasShape p i .relay) : False := by
    have he := hw.1.symm.trans hr.1
    cases he
  have hwait (hw : HasShape p i .wait) (ho : HasShape p i .offline) : False := hopen hw.2.2.1 (ho.1 .wire)
  have hrelay (hr : HasShape p i .relay) (ho : HasShape p i .offline) : False := hopen hr.2.1 (ho.1 .wire)
  cases s with
  | wait =>
    cases s' with
    | wait => rfl
    | relay => exact (hstate h h').elim
    | offline => exact (hwait h h').elim
  | relay =>
    cases s' with
    | wait => exact (hstate h' h).elim
    | relay => rfl
    | offline => exact (hrelay h h').elim
  | offline =>
    cases s' with
    | wait => exact (hwait h' h).elim
    | relay => exact (hrelay h' h).elim
    | offline => rfl

def Accepts (p : Proc n) (i : Fin n) : Prop :=
  ∀ f, p.files f = none → ∃ q o, machine { p with pc := .accept i } (.accept (some f)) = some (q, o) ∧
    q.status = .running ∧ HasShape q i .relay

def Pc.drainReopening : Pc n → Bool
  | .drainReopen _ _ => true
  | _ => false

def Act.failedOpen : Act n → Bool
  | .open none => true
  | _ => false

def DrainReopens (p : Proc n) (a : Act n) : Prop := ¬ (p.pc.drainReopening = true ∧ a.failedOpen = true)

instance (p : Proc n) (a : Act n) : Decidable (DrainReopens p a) :=
  inferInstanceAs (Decidable (¬ (_ ∧ _)))

theorem drainReopens_of_not_failedOpen {a : Act n} (h : a.failedOpen = false) : DrainReopens p a := by
  simp [DrainReopens, h]

def CanAccept (p : Proc n) (i : Fin n) : Prop :=
  HasShape p i .wait ∧ Accepts p i ∨
  HasShape p i .relay ∧ ∃ os q, Run machine DrainReopens { p with pc := .clientRecv i } os q ∧
    q.status = .running ∧ q.pc = .idle ∧ HasShape q i .wait ∧ Accepts q i

theorem machine_with_pc {pc : Pc n} (hs : p.status = .running) (hne : pc ≠ .idle) (a : Act n) :
    machine { p with pc } a = stepHandler { p with pc } pc a := by
  unfold machine
  cases pc with
  | idle => exact absurd rfl hne
  | _ => simp [hs]

theorem machine_handler {pc : Pc n} (hs : p.status = .running) (hpc : p.pc = pc) (hne : pc ≠ .idle) (a : Act n) :
    machine p a = stepHandler p pc a := by
  subst hpc
  exact machine_with_pc hs hne a

theorem fd_ne_none {l : Look} (hl : p.look i = l) {r : Role} (hr : l.get r ≠ .closed) : p.fd i r ≠ none := by
  rw [ne_eq, ← look_eq_closed_iff, hl]
  exact hr

theorem accept_step (h : Owned p) (hs : p.status = .running) (hl : p.look i = .wait) (hpc : p.pc = .accept i)
    {f : ℕ} (hf : p.files f = none) : ∃ q o, machine p (.accept (some f)) = some (q, o) ∧ q.status = .running ∧
      HasShape q i .relay := by
  obtain ⟨q, hq, he⟩ := effect_onAccepted h hl hf
  refine ⟨{ q with pc := .idle }, [.accepted i], ?_, he.status.trans hs, ?_⟩
  · rw [machine_handler hs hpc (by simp)]
    simp [stepHandler, fresh, hf, fd_ne_none hl (r := .server) (by decide), hq, finish]
  · have hi := he.pc .idle
    exact hasShape_relay hi.owned hi.look

theorem accepts_of_wait (h : Owned p) (hs : p.status = .running) (hl : p.look i = .wait) : Accepts p i := by
  intro f hf
  have he := effect_pc h i (.accept i)
  exact accept_step he.owned hs (he.look.trans hl) rfl hf

theorem drain_run (h : Owned p) (hs : p.status = .running) (hl : p.look i = .drain) {save : Bool}
    (hpc : p.pc = .drainSetfl i save) :
    ∃ os q, Run machine DrainReopens p os q ∧ q.status = .running ∧ q.pc = .idle ∧ Owned q ∧ q.look i = .wait := by
  have h2 := (effect_setNonblock h i true).pc (.drainRestore i save)
  have h3 := effect_setNonblock h2.owned i save
  obtain ⟨q, hq, h4⟩ := effect_enterWaitClient h3.owned (i := i) (by rw [h3.look, h2.look, hl]; rfl)
  rw [h3.look, h2.look, hl] at h4
  have he := ((h2.trans h3).trans h4).pc .idle
  refine ⟨[] ++ [] ++ [] ++ [], { q with pc := .idle }, ?_, he.status.trans hs, rfl, he.owned, he.look⟩
  apply Run.step (a := .fcntl true) (t := { p.setNonblock i true with pc := .drainRestore i save })
  · apply Run.step (a := .read (.error .eagain)) (t := { p.setNonblock i true with pc := .drainRead i save })
    · apply Run.step (a := .fcntl true) .refl
      · exact drainReopens_of_not_failedOpen rfl
      · rw [machine_handler hs hpc (by simp)]
        rfl
    · exact drainReopens_of_not_failedOpen rfl
    · rw [machine_with_pc (h2.status.trans hs) (by simp)]
      rfl
  · exact drainReopens_of_not_failedOpen rfl
  · rw [machine_with_pc (h2.status.trans hs) (by simp)]
    simp [stepHandler, hq, finish]

theorem recv_run (h : Owned p) (hs : p.status = .running) (hl : p.look i = .relay) (hpc : p.pc = .clientRecv i) :
    ∃ os q, Run machine DrainReopens p os q ∧ q.status = .running ∧ q.pc = .idle ∧ Owned q ∧ q.look i = .wait := by
  have h1 := effect_closeClientAndDrain h hl
  have h2 := h1.pc (.drainSetfl i ((closeClientAndDrain p i).1.nonblock i))
  obtain ⟨os, q, hr, hq⟩ := drain_run h2.owned (h2.status.trans hs) h2.look rfl
  have hrecv : machine p (.recv (.ok [])) = some ((closeClientAndDrain p i).1, (closeClientAndDrain p i).2) := by
    rw [machine_handler hs hpc (by simp)]
    simp [stepHandler, fd_ne_none hl (r := .client) (by decide)]
  have hgetfl : machine (closeClientAndDrain p i).1 (.fcntl true) = some ({ (closeClientAndDrain p i).1 with
      pc := .drainSetfl i ((closeClientAndDrain p i).1.nonblock i) }, []) := by
    rw [machine_handler (h1.status.trans hs) (pc_closeClientAndDrain p i) (by simp)]
    simp [stepHandler, fd_ne_none h1.look (r := .wire) (by decide)]
  have hp : Run machine DrainReopens p _ _ := .step (.step .refl (drainReopens_of_not_failedOpen rfl) hrecv)
    (drainReopens_of_not_failedOpen rfl) hgetfl
  exact ⟨_, q, hp.trans hr, hq⟩

theorem canAccept_of_relay (h : Owned p) (hs : p.status = .running) (hl : p.look i = .relay) : CanAccept p i := by
  have h0 := effect_pc h i (.clientRecv i)
  obtain ⟨os, q, hr, hq, hpc, ho, hw⟩ := recv_run h0.owned hs (h0.look.trans hl) rfl
  exact .inr ⟨hasShape_relay h hl, os, q, hr, hq, hpc, hasShape_wait ho hw, accepts_of_wait ho hq hw⟩

theorem DrainReopens.allowed {a : Act n} (h : DrainReopens p a) : Allowed False True p a :=
  ⟨fun i save hpc ha => h ⟨by rw [hpc]; rfl, by rw [ha]; rfl⟩, fun _ _ _ _ => trivial⟩

theorem one_client (h : Owned p) {f g : ℕ} {b b' : Bool} (hf : p.files f = some ⟨i, .client, b⟩)
    (hg : p.files g = some ⟨i, .client, b'⟩) : f = g := by
  have hf' := h.fd_of_file f i .client b hf
  have hg' := h.fd_of_file g i .client b' hg
  rw [hf', Option.some.injEq] at hg'
  exact hg'

theorem instance_shape {p₀ : Proc n} {os : List (Obs n)} (h₀ : Started p₀) (h : Run machine DrainReopens p₀ os p)
    (hs : p.status = .running) (i : Fin n) :
    (∀ f g b b', p.files f = some ⟨i, .client, b⟩ → p.files g = some ⟨i, .client, b'⟩ → f = g) ∧
    (p.pc = .idle → (∃! s, HasShape p i s) ∧ (p.paths i = true → CanAccept p i)) := by
  have hok := (run_ok h₀ (h.mono (fun _ _ hd => hd.allowed))).sound hs
  refine ⟨fun f g b b' hf hg => one_client hok.owned hf hg, fun hpc => ?_⟩
  have hunique {s : Shape} (hw : HasShape p i s) : ∃! s, HasShape p i s := ⟨s, hw, fun _ h' => h'.unique hw⟩
  have hpath := hok.path i
  rcases hok.look_idle hpc i with hl | hl | hl | ⟨hz, -⟩
  · have hw := hasShape_wait hok.owned hl
    exact ⟨hunique hw, fun _ => .inl ⟨hw, accepts_of_wait hok.owned hs hl⟩⟩
  · exact ⟨hunique (hasShape_relay hok.owned hl), fun _ => canAccept_of_relay hok.owned hs hl⟩
  · have hn : p.paths i = false := by
      rw [hl] at hpath
      simpa [Look.offline] using hpath
    refine ⟨hunique (hasShape_offline hok.owned hl hn), fun ht => ?_⟩
    rw [hn] at ht
    cases ht
  · exact hz.elim

def sessionWithReset (reopened : Option ℕ) : List (Act 1) :=
  [.wait [.fd 1], .dispatch, .accept (some 2), .wait [.fd 2], .dispatch, .recv (.ok []), .fcntl true, .fcntl true,
    .read (.ok []), .closeWire, .open reopened]

theorem instance_shape_reset_session : ∃ os p, Run machine DrainReopens (start 1) os p ∧
    (p.status = .running ∧ p.pc = .idle ∧ p.paths 0 = true ∧ p.fd 0 .wire = some 2) ∧
    (∃! s, HasShape p 0 s) ∧ CanAccept p 0 := by
  obtain ⟨os, p, hr, hp⟩ := Run.exists_of_exec (M := machine) (P := DrainReopens) (s := start 1)
    (sessionWithReset (some 2) ++ [.fcntl true])
    (fun _ p => p.status = .running ∧ p.pc = .idle ∧ p.paths 0 = true ∧ p.fd 0 .wire = some 2) (by decide +kernel)
  have h := (instance_shape (started_start 1) hr hp.1 0).2 hp.2.1
  exact ⟨os, p, hr, hp, h.1, h.2 hp.2.2.1⟩

theorem drain_reopen_fails : ¬ ∀ (os : List (Obs 1)) (p : Proc 1), Run machine Always (start 1) os p →
    p.status = .running → p.pc = .idle → ∀ i, ∃ s, HasShape p i s := by
  intro h
  obtain ⟨os, p, hr, hs, hpc, hstate, hwire, hserver⟩ := Run.exists_of_exec (M := machine) (P := Always)
    (s := start 1) (sessionWithReset none)
    (fun _ p => p.status = .running ∧ p.pc = .idle ∧ (p.insts 0).state = .relaying ∧ p.fd 0 .wire = none ∧
      p.fd 0 .server = some 1) (by decide +kernel)
  obtain ⟨s, hshape⟩ := h os p hr hs hpc 0
  cases s with
  | wait =>
    have hw := hshape.1
    rw [hstate] at hw
    cases hw
  | relay =>
    obtain ⟨-, ⟨f, b, hf, -⟩, -⟩ := hshape
    rw [hwire] at hf
    cases hf
  | offline =>
    have hn := hshape.1 .server
    rw [hserver] at hn
    cases hn

end VirtRtLab.Daemon
