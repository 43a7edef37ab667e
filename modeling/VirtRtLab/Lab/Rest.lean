import VirtRtLab.Uart.Effort
import VirtRtLab.Lab.Delivery
import VirtRtLab.Lab.Eof
import VirtRtLab.Lab.Sockets

/-!
The lab at rest: what goes on by itself, and what has become of the bytes of the AUT where nothing does.
-/

namespace VirtRtLab.Lab

open Kernel VirtRtLab.Core Transition

variable {n : ℕ}

/-- What happens without the AUT, the simulators or the harness, as far as instance `i` needs it: the daemon's calls,
the engine and the teardowns of its UART, and an `epoll_wait` that reports its wire. -/
def own (i : Fin n) (s : World n) (a : Act n) : Bool :=
  calls s a ||
    match a with
    | .kernel j (.port ok) => j = i && ok
    | .kernel j .notifier => j = i
    | .kernel j a => j = i && a.engine
    | .daemon (.wait [.fd f]) => s.proc.watched f = some (i, .wire)
    | _ => false

section Rest

variable {s : Net n} {i : Fin n} (hrest : ∀ a, own i s.world a = true → net s (.lab a) = none)
include hrest

theorem device_at_rest {a : Uart.Act} (ho : own i s.world (.kernel i a) = true) (hp : permitted s.world i a = true) :
    Uart.machine ⟨s.world.bus, s.world.dev i⟩ a = none := by
  have hnone := hrest _ ho
  simpa [net, answered, machine, hp, stepKernel] using hnone

theorem engine_at_rest {a : Uart.Act} (ha : a.engine = true) : Uart.machine ⟨s.world.bus, s.world.dev i⟩ a = none := by
  apply device_at_rest hrest
  · cases a with
    | writer | timerExpire | workStart | work => simpa [own, calls] using ha
    | _ => cases ha
  · cases a with
    | writer | timerExpire | workStart | work => rfl
    | _ => cases ha

theorem idle_at_rest : (s.world.dev i).txWork = .idle := by
  by_contra hne
  obtain ⟨t, o, hm⟩ := Uart.work_enabled (s := ⟨s.world.bus, s.world.dev i⟩) hne
  rw [engine_at_rest hrest rfl] at hm
  cases hm

theorem not_tearing_at_rest : (s.world.dev i).tearing = false := by
  have hidle := idle_at_rest hrest
  have hport := device_at_rest hrest (a := .port true) (by simp [own, calls]) rfl
  have hnotifier := device_at_rest hrest (a := .notifier) (by simp [own, calls]) rfl
  simp only [Uart.machine, Uart.stepDev, Option.map_eq_none_iff] at hport hnotifier
  simp only [Uart.Dev.tearing, Bool.or_eq_false_iff]
  constructor
  · unfold Uart.stepNotifier at hnotifier
    cases hn : (s.world.dev i).notifier with
    | downWork | resetWork | downFlush | resetFlush => simp [hn, hidle] at hnotifier
    | _ => rfl
  · unfold Uart.stepPort at hport
    cases hp : (s.world.dev i).port with
    | shutWork | shutLen | shutCount | shutTx => simp [hp, hidle] at hport
    | _ => rfl

theorem unread_at_rest (hheard : Heard s) (h : Steady s.world) (hs : s.world.proc.status = .running)
    (hc : s.world.proc.fd i .client ≠ none) (ha : ∀ j, j ≠ i → ¬ Asleep s.world j) (hf : ∀ j, ¬ s.Full j) :
    s.world.proc.pc.buffer i = [] ∧ (s.world.dev i).readers.flatMap Uart.ReadPc.bytes = [] ∧
      (s.world.dev i).readable = false := by
  by_cases hpc : s.world.proc.pc = .idle
  · have hsound := h.ok.sound hs
    have hl : s.world.proc.look i = .relay := by
      have hclient : (s.world.proc.look i).client ≠ .closed := fun hcl => hc (Daemon.fd_eq_none_iff.mpr hcl)
      rcases hsound.look_idle hpc i with hl | hl | hl | ⟨-, hl | ⟨-, hl⟩⟩
      · exact absurd (congrArg Daemon.Look.client hl) hclient
      · exact hl
      · exact absurd (congrArg Daemon.Look.client hl) hclient
      · exact absurd (congrArg Daemon.Look.client hl) hclient
      · exact absurd (congrArg Daemon.Look.client hl) hclient
    have hbatch : s.world.proc.batch = [] := by
      cases hb : s.world.proc.batch with
      | nil => rfl
      | cons e rest =>
        have hnone := hrest (.daemon .dispatch) rfl
        simp [net, answered, answer, machine, sync, Daemon.machine, hs, hpc, hb] at hnone
    have hnil := readers_nil h.synced hpc i
    refine ⟨by rw [hpc]; rfl, by rw [hnil]; rfl, ?_⟩
    by_contra hread
    have hlink : s.world.proc.link i .wire = .watched := congrArg Daemon.Look.wire hl
    obtain ⟨f, hf⟩ : ∃ f, s.world.proc.fd i .wire = some f := by
      apply Daemon.fd_of_link
      rw [hlink]
      decide
    have hw : s.world.proc.watched f = some (i, .wire) := by rw [hsound.owned.watched_of_fd hf, if_pos hlink]
    have hrep : reported s.world (.fd f) = true := by
      simp only [reported, hw]
      rw [Uart.wirePoll_readable]
      simpa using hread
    have hheard : heard s (.fd f) = true := by simp [heard, hw]
    have hnone := hrest (.daemon (.wait [.fd f])) (by simp [own, calls, hw])
    simp [net, answered, answer, hheard, machine, sync, hrep, Daemon.machine, hs, hpc, hbatch, Daemon.event, hw,
      Daemon.MAX_EVENTS] at hnone
  · rcases hheard.goesOn h hs hpc with ⟨a, ho, hm⟩ | ⟨j, hj⟩ | ⟨j, hj⟩
    · rw [hrest a (by simp [own, ho])] at hm
      cases hm
    · have hji : j = i := by
        by_contra hne
        exact ha j hne hj
      subst hji
      obtain ⟨hpc', ⟨rdSz, hr⟩, hn⟩ := hj
      exact ⟨by rw [hpc']; rfl, by rw [hr]; rfl, hn⟩
    · exact absurd hj (hf j)

end Rest

theorem daemon_waits {s : World n} {a : Daemon.Act n} (h : Daemon.machine s.proc a = none) :
    machine s (.daemon a) = none := by
  simp only [machine, h]
  cases sync s a <;> rfl

theorem at_rest {s : World n} {i : Fin n} (hpc : s.proc.pc = .idle) (hb : s.proc.batch = [])
    (hread : ∀ j, (s.dev j).readers = []) (hwriters : (s.dev i).writers = []) (htimer : (s.dev i).txTimer = none)
    (hqueued : (s.dev i).txWorkQueued = false) (hwork : (s.dev i).txWork = .idle) (hport : (s.dev i).port = .opened)
    (hnotifier : (s.dev i).notifier = .idle) (hr : (s.dev i).readable = false) (a : Act n) (ho : own i s a = true) :
    machine s a = none := by
  cases a with
  | kernel j a =>
    cases a with
    | wireRead | wireOpen | wireOpened | wireRelease | wireReleased =>
      simp [machine, permitted, hpc, reading, closing, Daemon.Pc.reopening]
    | reader k ok => simp [machine, stepKernel, Uart.machine, Uart.stepDev, hread]
    | port | notifier | writer | timerExpire | workStart | work =>
      have hj : j = i := by
        by_contra hne
        simp [own, calls, hne] at ho
      subst hj
      simp [machine, permitted, stepKernel, Uart.machine, Uart.stepDev, Uart.stepPort, Uart.stepNotifier,
        Uart.stepWriter, Uart.stepWork, *]
    | _ => simp [own, calls, Uart.Act.engine] at ho
  | daemon a =>
    cases a with
    | wait sources =>
      simp only [own, calls, Bool.false_or] at ho
      split at ho
      · cases ‹Act.daemon _ = Act.kernel _ _›
      · cases ‹Act.daemon _ = Act.kernel _ _›
      · cases ‹Act.daemon _ = Act.kernel _ _›
      · rename_i f hw
        cases hw
        have hrep : reported s (.fd f) = false := by
          have hwatched : s.proc.watched f = some (i, .wire) := by simpa using ho
          simp only [reported, hwatched]
          rw [Uart.wirePoll_readable, hr]
        simp [machine, sync, hrep]
      · cases ho
    | waitFail => cases ho
    | _ => exact daemon_waits (by simp [Daemon.machine, hpc, hb])

theorem net_waits {s : Net n} {a : Act n} (h : machine s.world a = none) : net s (.lab a) = none := by
  simp only [net, h]
  cases answered s a <;> rfl

/-- Where the lab is at rest with a simulator connected, the simulators of the instance have been sent all that the AUT
wrote and nothing has lost, unless the daemon sleeps in its read of another wire or in a `send`. -/
theorem rest_delivers {os : List (Obs n)} {s : Net n} {i : Fin n}
    (h : Run net (OnLab fun s a => lossless i s a = true) (netStart n) os s) (hs : s.world.proc.status = .running)
    (hc : s.world.proc.fd i .client ≠ none) (hrest : ∀ a, own i s.world a = true → net s (.lab a) = none) :
    Uart.acc (history os i) = delivered os i ∨ (∃ j, j ≠ i ∧ Asleep s.world j) ∨ ∃ j, s.Full j := by
  by_cases ha : ∃ j, j ≠ i ∧ Asleep s.world j
  · exact .inr (.inl ha)
  by_cases hf : ∃ j, s.Full j
  · exact .inr (.inr hf)
  · left
    have hheard : Heard s := h.invariant Heard (heard_start n) (fun _ _ _ _ hi _ hm => net_heard hi hm)
    have hlab : Run machine (fun s a => lossless i s a = true) (start n) os s.world := net_lab h
    have hsteady : Steady s.world :=
      hlab.invariant Steady (steady_start n) (fun _ _ _ _ hi _ hm => machine_steady hi hm)
    obtain ⟨hbuf, hread, hn⟩ := unread_at_rest hrest hheard hsteady hs hc (fun j hj hs => ha ⟨j, hj, hs⟩)
      (fun j hj => hf ⟨j, hj⟩)
    have hdev : Run Uart.machine Always Uart.start (history os i) ⟨s.world.bus, s.world.dev i⟩ :=
      run_device i hlab (fun _ _ _ => trivial) (fun _ _ => trivial) (fun _ => trivial) fun _ => ⟨trivial, trivial⟩
    have htx : (s.world.dev i).txFifo.data = [] :=
      Uart.empty_at_rest hdev (fun _ => engine_at_rest hrest) (not_tearing_at_rest hrest)
    have hrx : (s.world.dev i).rxFifo.data = [] := by
      simp only [Uart.Dev.readable, Bool.or_eq_false_iff, Bool.not_eq_false', Fifo.isEmpty_iff] at hn
      exact hn.1.1
    have hheld : (s.world.dev i).txWork.holding = [] := by
      rw [idle_at_rest hrest]
      rfl
    have hinside : (s.world.dev i).inside = [] := by
      rw [Uart.Dev.inside, hrx, hheld, htx]
      rfl
    rw [Uart.lossless_stream (lossless_device hlab), lossless_wire hlab, carried, hbuf, hread, hinside]
    simp only [List.append_nil]

theorem rest_delivers_one_byte : ∃ os s, Run net (OnLab fun s a => lossless 0 s a = true) (netStart 1) os s ∧
    delivered os 0 = [65] ∧ s.world.proc.status = .running ∧ s.world.proc.fd 0 .client ≠ none ∧
    (∀ a, own 0 s.world a = true → net s (.lab a) = none) ∧
    (Uart.acc (history os 0) = delivered os 0 ∨ (∃ j, j ≠ 0 ∧ Asleep s.world j) ∨ ∃ j, s.Full j) := by
  obtain ⟨os, s, hrun, hd, hs, hc, ⟨hpc, hb, hread⟩, hw, ht, hq, hx, hp, hn, hr⟩ := Run.exists_of_exec (M := net)
    (P := OnLab fun s a => lossless 0 s a = true) (s := netStart 1)
    (.simulator 0 (.connect 4096) :: (ttyOpened ++ connected ++ byteArrives ++ byteRelayed).map .lab)
    (fun os s => delivered os 0 = [65] ∧ s.world.proc.status = .running ∧ s.world.proc.fd 0 .client ≠ none ∧
      (s.world.proc.pc = .idle ∧ s.world.proc.batch = [] ∧ ∀ j, (s.world.dev j).readers = []) ∧
      (s.world.dev 0).writers = [] ∧ (s.world.dev 0).txTimer = none ∧ (s.world.dev 0).txWorkQueued = false ∧
      (s.world.dev 0).txWork = .idle ∧ (s.world.dev 0).port = .opened ∧ (s.world.dev 0).notifier = .idle ∧
      (s.world.dev 0).readable = false) (by decide +kernel)
  have hrest : ∀ a, own 0 s.world a = true → net s (.lab a) = none :=
    fun a ho => net_waits (at_rest hpc hb hread hw ht hq hx hp hn hr a ho)
  exact ⟨os, s, hrun, hd, hs, hc, hrest, rest_delivers hrun hs hc hrest⟩

end VirtRtLab.Lab
