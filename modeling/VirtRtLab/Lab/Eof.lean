import VirtRtLab.Daemon.Batch
import VirtRtLab.Lab.Composition

namespace VirtRtLab.Lab

open Kernel VirtRtLab.Core Transition

variable {n : ℕ}

/-- For every UART: whether a RESET has set `wire_reset_pending` since its wire was opened, and whether one had when
`on_wire_readable` last read 0. -/
structure Resets (n : ℕ) where
  since : Fin n → Bool
  atEof : Fin n → Bool

inductive Cause where
  | wireEof | simulator | other
  deriving DecidableEq

def cause : Daemon.Act n → Cause
  | .open _ => .wireEof
  | .send _ | .recv _ => .simulator
  | _ => .other

structure Disconnect (n : ℕ) where
  inst : Fin n
  cause : Cause
  reset : Bool
  deriving DecidableEq

def Disconnect.Due (e : Disconnect n) : Prop := e.cause ≠ .other ∧ (e.cause = .wireEof → e.reset = true)

namespace Resets

def next (k : Resets n) (s : World n) : Act n → Resets n
  | .kernel i .notifier =>
    if (s.dev i).notifier = .resetStats [] then { k with since := Function.update k.since i true } else k
  | .kernel i .wireOpened => { k with since := Function.update k.since i false }
  | .daemon (.read (.ok [])) =>
    match s.proc.pc with
    | .wireRead i => { k with atEof := Function.update k.atEof i (k.since i) }
    | _ => k
  | _ => k

def shows (k : Resets n) (a : Act n) (o : List (Obs n)) : List (Disconnect n) :=
  match a with
  | .daemon a => o.filterMap (fun
    | .daemon (.clientClosed i) => some ⟨i, Lab.cause a, k.atEof i⟩
    | _ => none)
  | _ => []

def initial (s : World n) : Resets n := ⟨fun i => (s.dev i).wireResetPending, fun _ => false⟩

end Resets

def knowing : Observer (World n) (Act n) (Obs n) (Resets n) (Disconnect n) where
  next k s a _ := k.next s a
  shows k _ a r := k.shows a r.2

/-- The read of `on_wire_readable` takes `rx_lock` with the port active, or with a RESET pending. -/
def ReadsActive (s : World n) : Act n → Prop
  | .kernel i (.reader k _) =>
    match s.proc.pc, (s.dev i).readers[k]? with
    | .wireRead j, some (.locked _ _) => j = i → (s.dev i).portActive = true ∨ (s.dev i).wireResetPending = true
    | _, _ => True
  | _ => True

instance (s : World n) (a : Act n) : Decidable (ReadsActive s a) := by
  unfold ReadsActive
  split
  · split <;> infer_instance
  · infer_instance

structure Known (x : World n × Resets n) : Prop where
  synced : Synced x.1
  pending : ∀ i, (x.1.dev i).wireResetPending = true → x.2.since i = true
  read : x.1.proc.status = .running → ∀ i, x.1.proc.pc = .wireRead i →
    ∀ pc ∈ (x.1.dev i).readers, pc.Honest (x.2.since i)
  eof : x.1.proc.status = .running → ∀ i, x.1.proc.pc = .wireClose i ∨ x.1.proc.pc = .wireReopen i →
    x.2.atEof i = true

section

variable {k : Resets n} {s : World n} {i j : Fin n}

theorem since_of_ne (hji : j ≠ i) (a : Uart.Act) : (k.next s (.kernel i a)).since j = k.since j := by
  cases a with
  | notifier =>
    simp only [Resets.next]
    split
    · exact Function.update_of_ne hji _ _
    · rfl
  | wireOpened => exact Function.update_of_ne hji _ _
  | _ => rfl

theorem since_of_self {a : Uart.Act} (ha : a ≠ .wireOpened) (hs : k.since i = true) :
    (k.next s (.kernel i a)).since i = true := by
  cases a with
  | notifier =>
    simp only [Resets.next]
    split
    · exact Function.update_self ..
    · exact hs
  | wireOpened => exact absurd rfl ha
  | _ => exact hs

theorem atEof_kernel (a : Uart.Act) : (k.next s (.kernel i a)).atEof = k.atEof := by
  cases a with
  | notifier =>
    simp only [Resets.next]
    split <;> rfl
  | _ => rfl

end

theorem known_kernel {s : World n} {k : Resets n} {i : Fin n} {a : Uart.Act} {t : Uart.Sys} {o : List Uart.Obs}
    (h : Known (s, k)) (hg : ReadsActive s (.kernel i a)) (hp : permitted s i a = true)
    (hm : Uart.machine ⟨s.bus, s.dev i⟩ a = some (t, o)) :
    Known ({ s with bus := t.bus, dev := Function.update s.dev i t.dev }, k.next s (.kernel i a)) := by
  constructor
  · exact synced_kernel h.synced hp hm
  · intro j hj
    by_cases hji : j = i
    · subst hji
      simp only [Function.update_self] at hj
      rcases Uart.machine_pending hm hj with ⟨hpend, ha⟩ | ⟨rfl, hn⟩
      · exact since_of_self ha (h.pending j hpend)
      · have hn' : (s.dev j).notifier = .resetStats [] := hn
        simp [Resets.next, hn']
    · simp only [Function.update_of_ne hji] at hj
      rw [since_of_ne hji]
      exact h.pending j hj
  · intro hs j hpc
    by_cases hji : j = i
    · subst hji
      have ha : a ≠ .wireOpened := by
        rintro rfl
        have hpc' : s.proc.pc = .wireRead j := hpc
        simp [permitted, hpc', Daemon.Pc.reopening] at hp
      simp only [Function.update_self]
      intro pc hmem
      refine (Uart.machine_honest hm (h.read hs j hpc) (h.pending j) ?_ ?_ pc hmem).mono (since_of_self ha)
      · rintro count nonblock rfl
        simp only [permitted, Bool.and_eq_true, decide_eq_true_eq] at hp
        rw [hp.1.2]
        decide
      · rintro m ok rdSz nonblock rfl hk
        have hpc' : s.proc.pc = .wireRead j := hpc
        have hk' : (s.dev j).readers[m]? = some (.locked rdSz nonblock) := hk
        simp only [ReadsActive, hpc', hk', forall_const] at hg
        exact hg
    · simp only [Function.update_of_ne hji]
      rw [since_of_ne hji]
      exact h.read hs j hpc
  · intro hs j hpc
    rw [atEof_kernel]
    exact h.eof hs j hpc

section

variable {p q : Daemon.Proc n} {a : Daemon.Act n} {o : List (Daemon.Obs n)} {i : Fin n}

theorem handled_eof (h : Daemon.Handled p p.pc a q o) (hs : q.status = .running)
    (hpc : q.pc = .wireClose i ∨ q.pc = .wireReopen i) :
    p.pc = .wireRead i ∧ a = .read (.ok []) ∧ p.fd i .wire ≠ none ∨ p.pc = .wireClose i ∧ a = .closeWire := by
  have hfinish {q' : Daemon.Proc n} {r : Option (Daemon.Proc n)} {o : List (Daemon.Obs n)}
      (hs : (Daemon.finish q' r o).1.status = .running) :
      ¬ ((Daemon.finish q' r o).1.pc = .wireClose i ∨ (Daemon.finish q' r o).1.pc = .wireReopen i) := by
    rw [(Daemon.pc_finish hs).1]
    simp
  generalize hp : p.pc = pc at h
  cases h with
  | readEof j hw =>
    have hj : j = i := by simpa using hpc
    subst hj
    exact .inl ⟨rfl, rfl, fun hf => hw (Daemon.fd_eq_none_iff.mp hf)⟩
  | wireClose j =>
    have hj : j = i := by simpa using hpc
    rw [hj]
    exact .inr ⟨rfl, rfl⟩
  | accepted | reopened | getflFail | setflFail | restored => exact absurd hpc (hfinish hs)
  | drained => simp [hp] at hpc
  | sendShort | recvEnd => simp [Daemon.pc_closeClientAndDrain] at hpc
  | _ => simp at hpc

theorem mem_clientClose {p : Daemon.Proc n} {j : Fin n} (h : .clientClosed i ∈ (Daemon.clientClose p j).2) : i = j := by
  unfold Daemon.clientClose at h
  split at h
  · cases h
  · simpa using h

theorem mem_finish {p : Daemon.Proc n} {r : Option (Daemon.Proc n)} (h : .clientClosed i ∈ (Daemon.finish p r o).2) :
    .clientClosed i ∈ o := by
  cases r with
  | none => simpa [Daemon.finish] using h
  | some q => exact h

theorem handled_closed (h : Daemon.Handled p p.pc a q o) (hc : .clientClosed i ∈ o) :
    cause a = .simulator ∨ p.pc = .wireReopen i ∧ cause a = .wireEof := by
  generalize hp : p.pc = pc at h
  cases h with
  | reopenFail j =>
    have hm : .clientClosed i ∈ (Daemon.clientClose p j).2 := by simpa using hc
    rw [mem_clientClose hm]
    exact .inr ⟨rfl, rfl⟩
  | reopened j f hf q' o' hq =>
    have hm := mem_finish hc
    have heq : o' = (Daemon.clientClose (p.store j .wire f) j).2 := by rw [hq]
    rw [heq] at hm
    rw [mem_clientClose hm]
    exact .inr ⟨rfl, rfl⟩
  | sendShort | recvEnd => exact .inl rfl
  | accepted => simpa using mem_finish hc
  | getflFail | setflFail | restored => cases mem_finish hc
  | _ => simp at hc

end

theorem since_daemon (k : Resets n) (s : World n) (a : Daemon.Act n) : (k.next s (.daemon a)).since = k.since := by
  unfold Resets.next
  split
  · cases ‹Act.daemon _ = _›
  · cases ‹Act.daemon _ = _›
  · split <;> rfl
  · rfl

theorem readers_nil {s : World n} (h : Synced s) (hpc : s.proc.pc = .idle) (i : Fin n) : (s.dev i).readers = [] := by
  by_contra hne
  have hr := (h i hne).1
  rw [hpc] at hr
  cases hr

theorem pc_dispatch {p : Daemon.Proc n} (hpc : p.pc = .idle) {e : Daemon.Event n} {i : Fin n}
    (hs : (Daemon.dispatch p e).status = .running) :
    ¬ ((Daemon.dispatch p e).pc = .wireClose i ∨ (Daemon.dispatch p e).pc = .wireReopen i) := by
  cases e with
  | signal => cases hs
  | ready j role =>
    cases role <;> simp only [Daemon.dispatch] <;> split <;> simp [hpc]

theorem known_daemon {s : World n} {k : Resets n} {a : Daemon.Act n} {q : Daemon.Proc n} {o : List (Daemon.Obs n)}
    {dev : Fin n → Uart.Dev} (h : Known (s, k)) (hm : Daemon.machine s.proc a = some (q, o))
    (hsync : Synced { s with dev, proc := q })
    (hflag : ∀ i, (dev i).wireResetPending = (s.dev i).wireResetPending)
    (hread : ∀ i, a = .read (.ok []) → s.proc.pc = .wireRead i → s.proc.fd i .wire ≠ none →
      .ret (.ok []) ∈ (s.dev i).readers)
    (hidle : s.proc.pc = .idle → dev = s.dev) : Known ({ s with dev, proc := q }, k.next s (.daemon a)) := by
  obtain ⟨hs, hst⟩ := Daemon.machine_cases hm
  constructor
  · exact hsync
  · intro i hi
    rw [since_daemon]
    exact h.pending i ((hflag i).symm.trans hi)
  · intro ht i hpc
    have hpc' : s.proc.pc = .idle := by
      cases hst with
      | wait _ _ hpc' | waitFail hpc' | dispatch _ _ hpc' => exact hpc'
      | handler a q o hh =>
        have hnone := Daemon.handling_handled hh ht
        rw [hpc] at hnone
        cases hnone
    have hr : (dev i).readers = [] := by
      rw [hidle hpc']
      exact readers_nil h.synced hpc' i
    intro pc hmem
    simp [hr] at hmem
  · intro ht i hpc
    cases hst with
    | wait _ _ hpc' | waitFail hpc' => simp [hpc'] at hpc
    | dispatch e rest hpc' => exact absurd hpc (pc_dispatch (p := { s.proc with batch := rest }) hpc' ht)
    | handler a q o hh =>
      rcases handled_eof hh ht hpc with ⟨hpc', rfl, hfd⟩ | ⟨hpc', rfl⟩
      · have hret := hread i rfl hpc' hfd
        have hsince : k.since i = true := h.read hs i hpc' _ hret rfl
        simp [Resets.next, hpc', hsince]
      · exact h.eof hs i (.inl hpc')

theorem due_daemon {s : World n} {k : Resets n} {a : Daemon.Act n} {q : Daemon.Proc n} {o : List (Daemon.Obs n)}
    {os : List (Obs n)} (h : Known (s, k)) (hm : Daemon.machine s.proc a = some (q, o))
    (ho : ∀ i, .daemon (.clientClosed i) ∈ os → .clientClosed i ∈ o) {e : Disconnect n}
    (he : e ∈ k.shows (.daemon a) os) : e.Due := by
  obtain ⟨hs, hst⟩ := Daemon.machine_cases hm
  obtain ⟨x, hx, hxe⟩ := List.mem_filterMap.mp he
  obtain ⟨i, hi, rfl⟩ : ∃ i, .clientClosed i ∈ o ∧ e = ⟨i, cause a, k.atEof i⟩ := by
    split at hxe
    · rename_i i
      exact ⟨i, ho i hx, (Option.some.inj hxe).symm⟩
    · cases hxe
  cases hst with
  | wait | waitFail | dispatch => cases hi
  | handler a q o hh =>
    rcases handled_closed hh hi with hc | ⟨hpc, hc⟩
    · exact ⟨by simp [hc], by simp [hc]⟩
    · exact ⟨by simp [hc], fun _ => h.eof hs i (.inr hpc)⟩

theorem Known.step {x y : World n × Resets n} {a : Act n} {e : List (Disconnect n)} (h : Known x)
    (hg : ReadsActive x.1 a) (hobs : observed machine knowing x a = some (y, e)) : Known y ∧ ∀ p ∈ e, p.Due := by
  obtain ⟨s, k⟩ := x
  obtain ⟨t, k'⟩ := y
  obtain ⟨o, hm, hk, rfl⟩ := observed_eq_some hobs
  have hk' : k' = k.next s a := hk
  rw [hk']
  have hsync := machine_synced h.synced hm
  cases machine_cases hm with
  | kernel i a t o hp hd => exact ⟨known_kernel h hg hp hd, by simp [knowing, Resets.shows]⟩
  | read i r q o hi hr hd =>
    constructor
    · apply known_daemon h hd hsync
      · intro j
        by_cases hji : j = i
        · subst hji
          simp
        · simp [hji]
      · rintro j ⟨rfl⟩ hpc hfd
        have hij : i = j := by
          rw [hpc] at hi
          exact (Option.some.inj hi).symm
        rw [← hij, hr]
        exact List.mem_singleton_self _
      · intro hpc
        have hi' : reading s.proc.pc = some i := hi
        rw [hpc] at hi'
        cases hi'
    · intro p hp
      exact due_daemon h hd (by simp) hp
  | daemon a q o hi hw hd =>
    constructor
    · apply known_daemon h hd hsync
      · exact fun _ => rfl
      · intro j _ hpc hfd
        exact absurd (hi j (by rw [hpc]; rfl)) hfd
      · exact fun _ => rfl
    · intro p hp
      exact due_daemon h hd (by simp) hp

theorem Started.known {s : World n} (h : Started s) : Known (s, .initial s) := by
  constructor
  · exact h.synced
  · exact fun _ hi => hi
  · intro _ i hpc
    rw [h.proc.pc] at hpc
    cases hpc
  · intro _ i hpc
    rw [h.proc.pc] at hpc
    simp at hpc

/-- The daemon takes an end of file of the wire for a RESET, and only a RESET made it. -/
theorem eof_means_reset {s₀ : World n} (h₀ : Started s₀) {es : List (Disconnect n)} {x : World n × Resets n}
    (h : Run (observed machine knowing) (fun x a => ReadsActive x.1 a) (s₀, .initial s₀) es x) : ∀ e ∈ es, e.Due := by
  have hinv : Known x ∧ ∀ e ∈ es, e.Due := by
    apply h.shown Known Disconnect.Due h₀.known
    intro x a y e hi hg hm
    exact hi.step hg hm
  exact hinv.2

theorem eof_means_reset_bus_reset : ∃ es x,
    Run (observed machine knowing) (fun x a => ReadsActive x.1 a) (start 1, .initial (start 1)) es x ∧
    es = [⟨0, .wireEof, true⟩] ∧ ∀ e ∈ es, e.Due := by
  obtain ⟨es, x, hrun, hes⟩ := Run.exists_of_exec (M := observed machine knowing)
    (P := fun x a => ReadsActive x.1 a) (s := (start 1, .initial (start 1)))
    (ttyOpened ++ connected ++ Uart.busReset.map (.kernel 0) ++ wireReported ++ readCalled ++ eofHandled)
    (fun es _ => es = [⟨0, .wireEof, true⟩]) (by decide +kernel)
  exact ⟨es, x, hrun, hes, eof_means_reset (started_start 1) hrun⟩

/-- The AUT has not opened the TTY, and the simulator that connects is disconnected. -/
theorem closed_tty_disconnects : ¬ ∀ (es : List (Disconnect 1)) (x : World 1 × Resets 1),
    Run (observed machine knowing) Always (start 1, .initial (start 1)) es x → ∀ e ∈ es, e.Due := by
  intro hall
  obtain ⟨es, x, hrun, hes⟩ := Run.exists_of_exec (M := observed machine knowing) (P := Always)
    (s := (start 1, .initial (start 1)))
    (connected ++ wireReported ++ readCalled ++ [.kernel 0 (.reader 0 true), .kernel 0 (.reader 0 true),
      .kernel 0 (.reader 0 true)] ++ eofHandled)
    (fun es _ => ⟨0, .wireEof, false⟩ ∈ es) (by decide +kernel)
  have h := (hall es x hrun _ hes).2 rfl
  cases h

end VirtRtLab.Lab
