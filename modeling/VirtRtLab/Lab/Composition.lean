import VirtRtLab.Uart.WireSteps
import VirtRtLab.Daemon.Invariant

/-!
The daemon with the UARTs it serves. Its `read`, `close` and `open` of a wire device are the steps of that device;
what the sockets, the AUT, the harness and the other callers of the bus do is open. Only the daemon uses the wire
devices.
-/

namespace VirtRtLab.Lab

open Kernel VirtRtLab.Core Transition

variable {n : ℕ}

structure World (n : ℕ) where
  bus : Bus
  dev : Fin n → Uart.Dev
  proc : Daemon.Proc n

inductive Obs (n : ℕ) where
  | dev (i : Fin n) (o : Uart.Obs)
  | daemon (o : Daemon.Obs n)
  deriving DecidableEq

inductive Act (n : ℕ) where
  | kernel (i : Fin n) (a : Uart.Act)
  | daemon (a : Daemon.Act n)

def reading : Daemon.Pc n → Option (Fin n)
  | .wireRead i | .drainRead i _ => some i
  | _ => none

def closing : Daemon.Pc n → Option (Fin n)
  | .wireClose i | .drainClose i _ => some i
  | _ => none

def writing : Daemon.Pc n → Option (Fin n)
  | .wireWrite i _ => some i
  | _ => none

/-- The steps of device `i` that may happen now: those of the wire only inside the daemon's call. -/
def permitted (s : World n) (i : Fin n) : Uart.Act → Bool
  | .wireRead count nonblock =>
    reading s.proc.pc = some i && (s.proc.fd i .wire).isSome && (s.dev i).readers.isEmpty &&
      count = Daemon.WIRE_BUF_SIZE && nonblock = s.proc.nonblock i
  | .reader k _ => k = 0
  | .readReturn _ => false
  | .wireOpen => s.proc.pc.reopening = some i && (s.dev i).wire = .closed
  | .wireOpened => s.proc.pc.reopening = some i
  | .wireRelease | .wireReleased => closing s.proc.pc = some i
  | .wireChunk _ _ => writing s.proc.pc = some i && (s.proc.fd i .wire).isSome
  | _ => true

def stepKernel (s : World n) (i : Fin n) (a : Uart.Act) : Option (World n × List (Obs n)) :=
  (Uart.machine ⟨s.bus, s.dev i⟩ a).map
    (fun r => ({ s with bus := r.1.bus, dev := Function.update s.dev i r.1.dev }, r.2.map (.dev i)))

def reported (s : World n) : Daemon.Source → Bool
  | .signal => true
  | .fd f =>
    match s.proc.watched f with
    | some (i, .wire) => (Uart.wirePoll (s.dev i)).pollIn || (Uart.wirePoll (s.dev i)).pollHup
    | _ => true

def wireAfterOpen (r : Option ℕ) : Uart.WirePc := if r.isSome then .opened else .closed

def sync (s : World n) (a : Daemon.Act n) : Option (World n × List (Obs n)) :=
  match a with
  | .wait sources => if sources.all (reported s) then some (s, []) else none
  | .read r =>
    match reading s.proc.pc with
    | none => some (s, [])
    | some i =>
      if s.proc.fd i .wire = none then some (s, [])
      else if (s.dev i).readers = [.ret r] then stepKernel s i (.readReturn 0)
      else none
  | .closeWire =>
    match closing s.proc.pc with
    | none => some (s, [])
    | some i => if (s.dev i).wire = .closed then some (s, []) else none
  | .open r =>
    match s.proc.pc.reopening with
    | none => some (s, [])
    | some i => if (s.dev i).wire = wireAfterOpen r then some (s, []) else none
  | _ => some (s, [])

def machine : Machine (World n) (Act n) (Obs n) := fun s a =>
  match a with
  | .kernel i a => if permitted s i a then stepKernel s i a else none
  | .daemon a =>
    match sync s a with
    | none => none
    | some (t, o) =>
      match Daemon.machine s.proc a with
      | none => none
      | some (q, o') => some ({ t with proc := q }, o ++ o'.map .daemon)

inductive Stepped (s : World n) : Act n → World n → List (Obs n) → Prop
  | kernel (i a t o) (hp : permitted s i a = true) (hm : Uart.machine ⟨s.bus, s.dev i⟩ a = some (t, o)) :
      Stepped s (.kernel i a) { s with bus := t.bus, dev := Function.update s.dev i t.dev } (o.map (.dev i))
  | read (i r q o) (hi : reading s.proc.pc = some i) (hr : (s.dev i).readers = [.ret r])
      (hm : Daemon.machine s.proc (.read r) = some (q, o)) :
      Stepped s (.daemon (.read r))
        { s with dev := Function.update s.dev i { s.dev i with readers := [] }, proc := q }
        (.dev i (.returned r) :: o.map .daemon)
  | daemon (a q o) (hi : ∀ i, reading s.proc.pc = some i → s.proc.fd i .wire = none)
      (hw : ∀ sources, a = .wait sources → ∀ src ∈ sources, reported s src = true)
      (hm : Daemon.machine s.proc a = some (q, o)) : Stepped s (.daemon a) { s with proc := q } (o.map .daemon)

theorem read_of_reading {p q : Daemon.Proc n} {a : Daemon.Act n} {o : List (Daemon.Obs n)} {i : Fin n}
    (h : Daemon.machine p a = some (q, o)) (hi : reading p.pc = some i) : ∃ r, a = .read r := by
  obtain ⟨-, hst⟩ := Daemon.machine_cases h
  have hne : p.pc ≠ .idle := by
    intro hpc
    rw [hpc] at hi
    cases hi
  cases hst with
  | wait sources batch hpc hn he => exact absurd hpc hne
  | waitFail hpc hb => exact absurd hpc hne
  | dispatch e rest hpc hb => exact absurd hpc hne
  | handler a q o hh =>
    generalize p.pc = pc at hh hi
    cases hh with
    | readFail | readEof | readBytes | drainEnd | drainEof | drained => exact ⟨_, rfl⟩
    | _ => cases hi

theorem stepKernel_readReturn {s : World n} {i : Fin n} {r : Except Errno Bytes} (hr : (s.dev i).readers = [.ret r]) :
    stepKernel s i (.readReturn 0) =
      some ({ s with dev := Function.update s.dev i { s.dev i with readers := [] } }, [.dev i (.returned r)]) := by
  simp [stepKernel, Uart.machine, Uart.stepDev, hr]

theorem sync_cases {s t : World n} {a : Daemon.Act n} {o : List (Obs n)} (h : sync s a = some (t, o)) :
    (t = s ∧ o = [] ∧ (∀ r, a = .read r → ∀ i, reading s.proc.pc = some i → s.proc.fd i .wire = none) ∧
      ∀ sources, a = .wait sources → ∀ src ∈ sources, reported s src = true) ∨
    ∃ i r, a = .read r ∧ reading s.proc.pc = some i ∧ (s.dev i).readers = [.ret r] ∧
      t = { s with dev := Function.update s.dev i { s.dev i with readers := [] } } ∧ o = [.dev i (.returned r)] := by
  unfold sync at h
  split at h
  · rename_i sources
    split at h
    · rename_i ha
      cases h
      refine .inl ⟨rfl, rfl, by simp, fun sources' hs src hsrc => ?_⟩
      cases hs
      exact List.all_eq_true.mp ha src hsrc
    · cases h
  · rename_i r
    split at h
    · rename_i hr
      cases h
      exact .inl ⟨rfl, rfl, by simp [hr], by simp⟩
    · rename_i i hi
      split at h
      · rename_i hf
        cases h
        refine .inl ⟨rfl, rfl, fun _ _ j hj => ?_, by simp⟩
        rw [hi, Option.some.injEq] at hj
        rw [← hj]
        exact hf
      · split at h
        · rename_i hr
          rw [stepKernel_readReturn hr] at h
          cases h
          exact .inr ⟨i, r, rfl, hi, hr, rfl, rfl⟩
        · cases h
  · split at h
    · cases h
      exact .inl ⟨rfl, rfl, by simp, by simp⟩
    · split at h
      · cases h
        exact .inl ⟨rfl, rfl, by simp, by simp⟩
      · cases h
  · split at h
    · cases h
      exact .inl ⟨rfl, rfl, by simp, by simp⟩
    · split at h
      · cases h
        exact .inl ⟨rfl, rfl, by simp, by simp⟩
      · cases h
  · rename_i hwait hread _ _
    cases h
    exact .inl ⟨rfl, rfl, fun r hr => absurd hr (hread r), fun sources hs => absurd hs (hwait sources)⟩

theorem machine_cases {s t : World n} {a : Act n} {o : List (Obs n)} (h : machine s a = some (t, o)) :
    Stepped s a t o := by
  unfold machine at h
  split at h
  · rename_i i a
    split at h
    · rename_i hp
      obtain ⟨⟨t', o'⟩, hm, hr⟩ := Option.map_eq_some_iff.mp h
      cases hr
      exact .kernel i a t' o' hp hm
    · cases h
  · rename_i a
    split at h
    · cases h
    · rename_i t' o' hsync
      split at h
      · cases h
      · rename_i q o'' hm
        cases h
        rcases sync_cases hsync with ⟨rfl, rfl, hi, hw⟩ | ⟨i, r, rfl, hi, hr, rfl, rfl⟩
        · refine .daemon a q o'' (fun i hri => ?_) hw hm
          obtain ⟨r, hr⟩ := read_of_reading hm hri
          exact hi r hr i hri
        · exact .read i r q o'' hi hr hm

/-- The daemon enters its event loop; the AUT may be at any point. -/
structure Started (s : World n) : Prop where
  proc : Daemon.Started s.proc
  readers : ∀ i, (s.dev i).readers = []
  port : ∀ i, (s.dev i).wireView.PortOk

def start (n : ℕ) : World n where
  bus := .init
  dev _ := { Uart.Dev.init with wireOpenCount := 1, wire := .opened }
  proc := Daemon.start n

theorem started_start (n : ℕ) : Started (start n) :=
  ⟨Daemon.started_start n, fun _ => rfl, fun _ _ => rfl⟩

def ttyOpened : List (Act 1) :=
  [.kernel 0 .portActivate, .kernel 0 (.port true), .kernel 0 (.port true), .kernel 0 (.port true)]

def byteArrives : List (Act 1) :=
  [.kernel 0 (.ttyWrite [65]), .kernel 0 (.writer 0), .kernel 0 (.writer 0), .kernel 0 (.writer 0),
    .kernel 0 (.writer 0), .kernel 0 .timerExpire, .kernel 0 .workStart, .kernel 0 (.work true),
    .kernel 0 (.work true), .kernel 0 (.work true), .kernel 0 (.work true), .kernel 0 (.work true),
    .kernel 0 (.work true), .kernel 0 (.work true)]

def connected : List (Act 1) := [.daemon (.wait [.fd 1]), .daemon .dispatch, .daemon (.accept (some 2))]

def wireReported : List (Act 1) := [.daemon (.wait [.fd 0]), .daemon .dispatch]

def readCalled : List (Act 1) := [.kernel 0 (.wireRead 4096 false), .kernel 0 (.reader 0 true)]

def byteRelayed : List (Act 1) :=
  wireReported ++ readCalled ++ [.kernel 0 (.reader 0 true), .kernel 0 (.reader 0 true), .kernel 0 (.reader 0 true),
    .daemon (.read (.ok [65])), .daemon (.send (.ok 1))]

def disconnected : List (Act 1) :=
  [.daemon (.wait [.fd 2]), .daemon .dispatch, .daemon (.recv (.ok [])), .daemon (.fcntl true),
    .daemon (.fcntl true), .kernel 0 (.wireRead 4096 true), .kernel 0 (.reader 0 true), .kernel 0 (.reader 0 true),
    .daemon (.read (.error .eagain)), .daemon (.fcntl true)]

def eofHandled : List (Act 1) :=
  [.daemon (.read (.ok [])), .kernel 0 .wireRelease, .kernel 0 .wireReleased, .daemon .closeWire, .kernel 0 .wireOpen,
    .kernel 0 .wireOpened, .daemon (.open (some 0))]

def flipAlways : Act 1 := .kernel 0 (.attrStore .bitflipRatePpm [49, 48, 48, 48, 48, 48, 48])

def dropSeldom : Act 1 := .kernel 0 (.attrStore .dropRatePpm [49])

def twoBytesArrive (steps : ℕ) : List (Act 1) :=
  [.kernel 0 (.ttyWrite [65, 66]), .kernel 0 (.writer 0), .kernel 0 (.writer 0), .kernel 0 (.writer 0),
    .kernel 0 (.writer 0), .kernel 0 .timerExpire, .kernel 0 .workStart] ++ List.replicate steps (.kernel 0 (.work true))

def relayed (bs : Bytes) : List (Act 1) :=
  wireReported ++ readCalled ++ [.kernel 0 (.reader 0 true), .kernel 0 (.reader 0 true), .kernel 0 (.reader 0 true),
    .daemon (.read (.ok bs)), .daemon (.send (.ok bs.length))]

def Synced (s : World n) : Prop :=
  ∀ i, (s.dev i).readers ≠ [] →
    reading s.proc.pc = some i ∧ s.proc.fd i .wire ≠ none ∧ ∃ pc, (s.dev i).readers = [pc]

theorem Started.synced {s : World n} (h : Started s) : Synced s := fun i hi => absurd (h.readers i) hi

theorem synced_kernel {s : World n} {i : Fin n} {a : Uart.Act} {t : Uart.Sys} {o : List Uart.Obs} (h : Synced s)
    (hp : permitted s i a = true) (hm : Uart.machine ⟨s.bus, s.dev i⟩ a = some (t, o)) :
    Synced { s with bus := t.bus, dev := Function.update s.dev i t.dev } := by
  intro j hj
  by_cases hji : j = i
  · subst hji
    simp only [Function.update_self] at hj ⊢
    have hw := (Uart.machine_wire hm).readers
    rcases hw with hr | ⟨count, nonblock, rfl, hr⟩ | ⟨k, ok, pc, rfl, hr⟩ | ⟨k, rfl⟩
    · have hr' : t.dev.readers = (s.dev j).readers := hr
      rw [hr'] at hj ⊢
      exact h j hj
    · simp only [permitted, Bool.and_eq_true, decide_eq_true_eq, List.isEmpty_iff] at hp
      obtain ⟨⟨⟨⟨hi, hf⟩, he⟩, -⟩, -⟩ := hp
      have hr' : t.dev.readers = (s.dev j).readers ++ [.called count nonblock] := hr
      refine ⟨hi, Option.isSome_iff_ne_none.mp hf, .called count nonblock, ?_⟩
      rw [hr', he]
      rfl
    · have hr' : t.dev.readers = (s.dev j).readers.set k pc := hr
      have hne : (s.dev j).readers ≠ [] := by
        intro he
        rw [hr', he] at hj
        exact hj rfl
      obtain ⟨hi, hf, pc', he⟩ := h j hne
      have hk : k = 0 := by simpa [permitted] using hp
      refine ⟨hi, hf, pc, ?_⟩
      rw [hr', he, hk]
      rfl
    · cases hp
  · simp only [Function.update_of_ne hji] at hj ⊢
    exact h j hj

theorem machine_synced {s t : World n} {a : Act n} {o : List (Obs n)} (h : Synced s)
    (hm : machine s a = some (t, o)) : Synced t := by
  cases machine_cases hm with
  | kernel i a t o hp hk => exact synced_kernel h hp hk
  | read i r q o hi hr hd =>
    intro j hj
    by_cases hji : j = i
    · subst hji
      simp at hj
    · simp only [Function.update_of_ne hji] at hj
      have hi' := (h j hj).1
      rw [hi, Option.some.injEq] at hi'
      exact absurd hi'.symm hji
  | daemon a q o hi hw hd =>
    intro j hj
    obtain ⟨hr, hf, -⟩ := h j hj
    exact absurd (hi j hr) hf

end VirtRtLab.Lab
