import Mathlib.Data.Set.Finite.Basic
import Mathlib.Data.Set.Finite.Range
import VirtRtLab.Daemon.Shape

namespace VirtRtLab.Daemon

open Kernel Transition

variable {n : ℕ} {p q : Proc n} {i : Fin n} {mode : Bool}

structure Drain (n : ℕ) where
  proc : Proc n
  fifo : Bytes
  err : Option Errno

/-- What an answer makes of the FIFO, on a wire that is gone (its TTY closed, or a reset pending) or not. `fcntl` works.
A read may fail; else it ends where the wire is gone, takes bytes from the front where there are some, and on an empty
FIFO says EAGAIN on a non-blocking descriptor and sleeps on a blocking one. Closing the wire drops the bytes. -/
def Drain.answered (s : Drain n) (i : Fin n) (gone : Bool) : Act n → Option (Bytes × Option Errno)
  | .fcntl true => some (s.fifo, s.err)
  | .read (.ok []) => if gone then some (s.fifo, s.err) else none
  | .read (.ok bs) => if !gone ∧ bs <+: s.fifo then some (s.fifo.drop bs.length, s.err) else none
  | .read (.error e) =>
    if e = .eagain ∧ (gone ∨ s.fifo ≠ [] ∨ s.proc.nonblock i = false) then none else some (s.fifo, some e)
  | .closeWire => some ([], s.err)
  | .open _ => some (s.fifo, s.err)
  | _ => none

/-- The drain of instance `i`; the Boolean says whether its wire is gone at the call. -/
def draining (i : Fin n) : Machine (Drain n) (Bool × Act n) (Obs n) := fun s x =>
  match s.answered i x.1 x.2 with
  | none => none
  | some (fifo, err) => (machine s.proc x.2).map (fun r => (⟨r.1, fifo, err⟩, r.2))

def Act.fails : Act n → Bool
  | .read (.error e) => e ≠ .eagain
  | .fcntl ok => !ok
  | .open r => r.isNone
  | _ => false

def Drain.left (s : Drain n) : ℕ :=
  match s.proc.pc with
  | .drainGetfl _ => s.fifo.length + 6
  | .drainSetfl _ _ => s.fifo.length + 5
  | .drainRead _ _ => s.fifo.length + 4
  | .drainClose _ _ => 3
  | .drainReopen _ _ => 2
  | .drainRestore _ _ => 1
  | _ => 0

def Drain.Emptied (s : Drain n) : Prop := s.fifo = [] ∨ ∃ e, e ≠ .eagain ∧ s.err = some e

def Drain.At (i : Fin n) (mode : Bool) (s : Drain n) : Pc n → Prop
  | .drainGetfl j => j = i ∧ s.proc.look i = .drain ∧ s.proc.nonblock i = mode
  | .drainSetfl j save | .drainClose j save => j = i ∧ s.proc.look i = .drain ∧ save = mode
  | .drainRead j save => j = i ∧ s.proc.look i = .drain ∧ save = mode ∧ s.proc.nonblock i = true
  | .drainReopen j save => j = i ∧ s.proc.look i = .noWire ∧ save = mode ∧ s.fifo = []
  | .drainRestore j save => j = i ∧ s.proc.look i = .drain ∧ save = mode ∧ s.Emptied
  | .idle => s.proc.fd i .wire = none ∨ s.proc.look i = .wait ∧ s.proc.nonblock i = mode ∧ s.Emptied
  | _ => False

structure Drain.Good (i : Fin n) (mode : Bool) (s : Drain n) : Prop where
  owned : Owned s.proc
  status : s.proc.status = .running
  at_pc : s.At i mode s.proc.pc

theorem nonblock_setNonblock (h : Owned p) (hl : (p.look i).wire ≠ .closed) (v : Bool) :
    (p.setNonblock i v).nonblock i = v := by
  obtain ⟨f, hf⟩ := fd_of_link (p := p) (i := i) (r := .wire) hl
  obtain ⟨b, hb⟩ := h.file_of_fd i .wire f hf
  have hfd : (p.setNonblock i v).fd i .wire = some f := by
    rw [Proc.setNonblock, hf]
    exact hf
  have hfile : (p.setNonblock i v).files f = some ⟨i, .wire, v⟩ := by
    rw [Proc.setNonblock, hf]
    simp [hb]
  simp [Proc.nonblock, hfd, hfile]

theorem nonblock_enterWaitClient (h : enterWaitClient p i = some q) : q.nonblock i = p.nonblock i := by
  obtain ⟨r, hr, rfl⟩ := Option.map_eq_some_iff.mp h
  unfold Proc.epollAdd at hr
  split at hr
  · cases hr
  · split at hr
    · cases hr
    · cases hr
      simp [Proc.nonblock, Proc.fd, Proc.setState]

theorem finish_drain {fifo : Bytes} {err : Option Errno} (h : Owned p) (hs : p.status = .running)
    (hl : p.look i = .drain) (hm : p.nonblock i = mode) (he : (⟨p, fifo, err⟩ : Drain n).Emptied) :
    (⟨(finish p (enterWaitClient p i) []).1, fifo, err⟩ : Drain n).Good i mode ∧
      (finish p (enterWaitClient p i) []).1.pc = .idle := by
  obtain ⟨q, hq, hw⟩ := effect_enterWaitClient h (i := i) (by rw [hl]; rfl)
  rw [hl] at hw
  have hidle := hw.pc .idle
  have hmode := (nonblock_enterWaitClient hq).trans hm
  rw [hq]
  exact ⟨⟨hidle.owned, hidle.status.trans hs, .inr ⟨hidle.look, hmode, he⟩⟩, rfl⟩

theorem answered_bytes {s : Drain n} {gone : Bool} {bs : Bytes} {r : Bytes × Option Errno} (hb : bs ≠ [])
    (h : s.answered i gone (.read (.ok bs)) = some r) : bs <+: s.fifo ∧ r = (s.fifo.drop bs.length, s.err) := by
  cases bs with
  | nil => exact absurd rfl hb
  | cons b bs =>
    simp only [Drain.answered, Option.ite_none_right_eq_some, Option.some.injEq] at h
    exact ⟨h.1.2, h.2.symm⟩

theorem draining_step {s t : Drain n} {x : Bool × Act n} {o : List (Obs n)} (h : s.Good i mode)
    (hm : draining i s x = some (t, o)) : t.Good i mode ∧ t.left < s.left := by
  obtain ⟨p, fifo, err⟩ := s
  obtain ⟨gone, a⟩ := x
  obtain ⟨hown, hst, hat⟩ := h
  unfold draining at hm
  split at hm
  · cases hm
  · rename_i fifo' err' hans
    obtain ⟨⟨q, o'⟩, hr, hx⟩ := Option.map_eq_some_iff.mp hm
    cases hx
    obtain ⟨-, hstep⟩ := machine_cases hr
    cases hstep with
    | wait | waitFail | dispatch => cases hans
    | handler a q o hh =>
      obtain ⟨pc, hpc⟩ : ∃ pc, p.pc = pc := ⟨_, rfl⟩
      dsimp only at hown hst hat
      simp only [Drain.left, hpc]
      rw [hpc] at hh hat
      cases hh with
      | getfl j hw =>
        obtain ⟨rfl, hl, rfl⟩ := hat
        cases hans
        have he := effect_pc hown j (.drainSetfl j (p.nonblock j))
        exact ⟨⟨he.owned, hst, rfl, he.look.trans hl, rfl⟩, by simp⟩
      | setfl j save =>
        obtain ⟨rfl, hl, rfl⟩ := hat
        cases hans
        have he := (effect_setNonblock hown j true).pc (.drainRead j save)
        have hnon := nonblock_setNonblock hown (i := j) (by rw [hl]; decide) true
        exact ⟨⟨he.owned, he.status.trans hst, rfl, he.look.trans hl, rfl, hnon⟩, by simp⟩
      | drainEnd j save e =>
        obtain ⟨rfl, hl, rfl, hnon⟩ := hat
        simp only [Drain.answered, Option.ite_none_left_eq_some] at hans
        obtain ⟨hne, hx⟩ := hans
        cases hx
        have he := effect_pc hown j (.drainRestore j save)
        refine ⟨⟨he.owned, hst, rfl, he.look.trans hl, rfl, ?_⟩, by simp⟩
        by_cases hf : fifo = []
        · exact .inl hf
        · exact .inr ⟨e, fun h => hne ⟨h, .inr (.inl hf)⟩, rfl⟩
      | drainEof j save =>
        obtain ⟨rfl, hl, rfl, -⟩ := hat
        have he := effect_pc hown j (.drainClose j save)
        refine ⟨⟨he.owned, hst, rfl, he.look.trans hl, rfl⟩, ?_⟩
        dsimp only
        omega
      | drained j save bs hb =>
        obtain ⟨rfl, hl, rfl, hnon⟩ := hat
        obtain ⟨hbs, hx⟩ := answered_bytes hb hans
        cases hx
        refine ⟨⟨hown, hst, ?_⟩, ?_⟩
        · dsimp only
          rw [hpc]
          exact ⟨rfl, hl, rfl, hnon⟩
        · have hpos := List.length_pos_iff.mpr hb
          have hle : bs.length ≤ fifo.length := hbs.length_le
          simp only [hpc, List.length_drop]
          omega
      | drainClose j save =>
        obtain ⟨rfl, hl, rfl⟩ := hat
        cases hans
        have he := (effect_close hown j .wire).pc (.drainReopen j save)
        rw [hl] at he
        exact ⟨⟨he.owned, he.status.trans hst, rfl, he.look, rfl, rfl⟩, by simp⟩
      | drainReopenFail j save =>
        obtain ⟨rfl, hl, rfl, hf⟩ := hat
        cases hans
        have he := effect_pc hown j .idle
        have hwire : p.fd j .wire = none := by
          rw [← look_eq_closed_iff, hl]
          rfl
        exact ⟨⟨he.owned, hst, .inl hwire⟩, by simp⟩
      | drainReopened j save f hf =>
        obtain ⟨rfl, hl, rfl, hfifo⟩ := hat
        cases hans
        have he := (effect_store hown (i := j) (r := .wire) (by rw [hl]; rfl) hf).pc (.drainRestore j save)
        rw [hl] at he
        exact ⟨⟨he.owned, he.status.trans hst, rfl, he.look, rfl, .inl hfifo⟩, by simp⟩
      | restored j save ok q hq =>
        obtain ⟨rfl, hl, rfl, hf⟩ := hat
        cases ok with
        | false => cases hans
        | true =>
          cases hans
          rw [if_pos rfl] at hq
          subst hq
          have he := effect_setNonblock hown j save
          have hnon := nonblock_setNonblock hown (i := j) (by rw [hl]; decide) save
          obtain ⟨hgood, hidle⟩ := finish_drain he.owned (he.status.trans hst) (he.look.trans hl) hnon hf
          exact ⟨hgood, by rw [hidle]; simp⟩
      | getflFail | setflFail => cases hans
      | _ => exact hat.elim

theorem exists_free (h : Owned p) : ∃ f, p.files f = none := by
  have hfin (r : Role) : (Set.range fun i => (p.fd i r).getD 0).Finite := Set.finite_range _
  obtain ⟨f, hf⟩ := ((hfin .wire).union ((hfin .server).union (hfin .client))).infinite_compl.nonempty
  refine ⟨f, ?_⟩
  by_contra hne
  obtain ⟨⟨i, r, b⟩, hfile⟩ := Option.ne_none_iff_exists'.mp hne
  have hmem : f ∈ Set.range fun i => (p.fd i r).getD 0 := ⟨i, by simp [h.fd_of_file f i r b hfile]⟩
  apply hf
  cases r with
  | wire => exact .inl hmem
  | server => exact .inr (.inl hmem)
  | client => exact .inr (.inr hmem)

theorem draining_of_step {s : Drain n} {gone : Bool} {a : Act n} {fifo : Bytes} {err : Option Errno}
    {r : Proc n × List (Obs n)} {pc : Pc n} (hs : s.proc.status = .running) (hpc : s.proc.pc = pc) (hne : pc ≠ .idle)
    (hans : s.answered i gone a = some (fifo, err)) (hr : stepHandler s.proc pc a = some r) :
    ∃ t o, draining i s (gone, a) = some (t, o) := by
  refine ⟨⟨r.1, fifo, err⟩, r.2, ?_⟩
  rw [draining, hans]
  dsimp only
  rw [machine_handler hs hpc hne, hr]
  rfl

theorem draining_goes_on {s : Drain n} (h : s.Good i mode) (hpc : s.proc.pc ≠ .idle) (gone : Bool) :
    ∃ a t o, a.fails = false ∧ draining i s (gone, a) = some (t, o) := by
  obtain ⟨howned, hst, hat⟩ := h
  have hstep {pc : Pc n} {a : Act n} {fifo : Bytes} {err : Option Errno} {r : Proc n × List (Obs n)}
      (hp : s.proc.pc = pc) (ha : a.fails = false) (hans : s.answered i gone a = some (fifo, err))
      (hr : stepHandler s.proc pc a = some r) : ∃ a t o, a.fails = false ∧ draining i s (gone, a) = some (t, o) := by
    obtain ⟨t, o, hm⟩ := draining_of_step hst hp (hp ▸ hpc) hans hr
    exact ⟨a, t, o, ha, hm⟩
  cases hp : s.proc.pc with
  | idle => exact absurd hp hpc
  | drainGetfl j =>
    rw [hp] at hat
    obtain ⟨rfl, hl, -⟩ := hat
    have hw : s.proc.fd j .wire ≠ none := fd_ne_none hl (r := .wire) (by decide)
    have hr : stepHandler s.proc (.drainGetfl j) (.fcntl true) =
        some ({ s.proc with pc := .drainSetfl j (s.proc.nonblock j) }, []) := by simp [stepHandler, hw]
    exact hstep hp (a := .fcntl true) rfl rfl hr
  | drainSetfl j save => exact hstep hp (a := .fcntl true) rfl rfl rfl
  | drainRead j save =>
    rw [hp] at hat
    obtain ⟨rfl, -, -, hnon⟩ := hat
    cases gone with
    | true => exact hstep hp (a := .read (.ok [])) rfl rfl rfl
    | false =>
      cases hf : s.fifo with
      -- only `O_NONBLOCK` keeps the read from sleeping here
      | nil =>
        have hans : s.answered j false (.read (.error .eagain)) = some (s.fifo, some .eagain) := by
          simp [Drain.answered, hf, hnon]
        exact hstep hp rfl hans rfl
      | cons b bs =>
        have hans : s.answered j false (.read (.ok [b])) = some (s.fifo.drop 1, s.err) := by simp [Drain.answered, hf]
        have hr : stepHandler s.proc (.drainRead j save) (.read (.ok [b])) = some (s.proc, [.drained j [b]]) := by
          simp [stepHandler, WIRE_BUF_SIZE]
        exact hstep hp rfl hans hr
  | drainClose j save => exact hstep hp (a := .closeWire) rfl rfl rfl
  | drainReopen j save =>
    obtain ⟨f, hf⟩ := exists_free howned
    have hr : stepHandler s.proc (.drainReopen j save) (.open (some f)) =
        some ({ s.proc.store j .wire f with pc := .drainRestore j save }, []) := by simp [stepHandler, fresh, hf]
    exact hstep hp (a := .open (some f)) rfl rfl hr
  | drainRestore j save => exact hstep hp (a := .fcntl true) rfl rfl rfl
  | _ =>
    rw [hp] at hat
    exact hat.elim

/-- A drain of a wire that is open ends after a bounded number of calls and is never stuck before. If the wire is open
then, the instance waits for a client, with its wire in the mode it was in and nothing left in the FIFO. -/
theorem drain_cleans {p₀ : Proc n} {os₀ : List (Obs n)} (h₀ : Started p₀) (hrun : Run machine Always p₀ os₀ p)
    (hs : p.status = .running) (hpc : p.pc = .drainGetfl i) (hw : p.fd i .wire ≠ none) {fifo : Bytes}
    {as : List (Bool × Act n)} {s : Drain n} {os : List (Obs n)}
    (h : exec (draining i) Always ⟨p, fifo, none⟩ as = some (s, os)) : as.length ≤ fifo.length + 6 ∧
      (s.proc.pc ≠ .idle → ∀ gone, ∃ a t o, a.fails = false ∧ draining i s (gone, a) = some (t, o)) ∧
      (s.proc.pc = .idle → s.proc.fd i .wire ≠ none →
        s.proc.status = .running ∧ HasShape s.proc i .wait ∧ s.proc.nonblock i = p.nonblock i ∧ s.Emptied) := by
  have hok := (run_ok h₀ (hrun.mono fun _ _ _ => allowed_true)).sound hs
  have hfits := hok.busy i (by rw [hpc]; rfl)
  rw [hpc] at hfits
  have hl : p.look i = .drain := by
    apply hfits.drain_of_wire
    rwa [ne_eq, ← Look.get, look_eq_closed_iff]
  have hgood : (⟨p, fifo, none⟩ : Drain n).Good i (p.nonblock i) := by
    refine ⟨hok.owned, hs, ?_⟩
    rw [hpc]
    exact ⟨rfl, hl, rfl⟩
  obtain ⟨hend, hle⟩ := exec_bounded (fun s => s.Good i (p.nonblock i)) Drain.left hgood
    (fun _ _ _ _ hg _ hm => draining_step hg hm) h
  have hleft : (⟨p, fifo, none⟩ : Drain n).left = fifo.length + 6 := by simp [Drain.left, hpc]
  refine ⟨by omega, draining_goes_on hend, fun hidle hopen => ?_⟩
  have hat := hend.at_pc
  rw [hidle] at hat
  rcases hat with hnone | ⟨hwait, hmode, hempty⟩
  · exact absurd hnone hopen
  · exact ⟨hend.status, hasShape_wait hend.owned hwait, hmode, hempty⟩

def readTwice : List (Bool × Act n) :=
  [.fcntl true, .fcntl true, .read (.ok [97, 98]), .read (.ok [99]), .read (.error .eagain), .fcntl true].map
    (Prod.mk false)

theorem drain_cleans_three_bytes : ∃ os p s os', Run machine Always (start 1) os p ∧
    exec (draining 0) Always ⟨p, [97, 98, 99], none⟩ readTwice = some (s, os') ∧ s.proc.pc = .idle ∧
      HasShape s.proc 0 .wait ∧ s.Emptied := by
  obtain ⟨os, p, hrun, ⟨hs, hpc, hw⟩, hany⟩ := Run.exists_of_exec (M := machine) (P := Always) (s := start 1)
    [.wait [.fd 1], .dispatch, .accept (some 2), .wait [.fd 2], .dispatch, .recv (.ok [])]
    (fun _ p => (p.status = .running ∧ p.pc = .drainGetfl 0 ∧ p.fd 0 .wire ≠ none) ∧
      (exec (draining 0) Always ⟨p, [97, 98, 99], none⟩ readTwice).any
        (fun r => r.1.proc.pc = .idle ∧ r.1.proc.fd 0 .wire ≠ none) = true) (by decide +kernel)
  obtain ⟨⟨s, os'⟩, he, hend⟩ := (Option.any_eq_true _ _).mp hany
  obtain ⟨hidle, hopen⟩ := of_decide_eq_true hend
  obtain ⟨-, hshape, -, hempty⟩ := (drain_cleans (started_start 1) hrun hs hpc hw he).2.2 hidle hopen
  exact ⟨os, p, s, os', hrun, he, hidle, hshape, hempty⟩

end VirtRtLab.Daemon
