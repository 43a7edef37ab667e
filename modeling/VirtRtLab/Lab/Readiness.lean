import VirtRtLab.Daemon.Batch
import VirtRtLab.Daemon.Isolation
import VirtRtLab.Lab.Composition

namespace VirtRtLab.Lab

open Kernel VirtRtLab.Core Transition

variable {n : ℕ}

def returned : List Uart.ReadPc → Bool
  | [.ret _] => true
  | _ => false

def Unread (s : World n) (i : Fin n) : Prop :=
  s.proc.look i = .relay ∧
    (.ready i .wire ∈ s.proc.batch ∨ s.proc.pc = .wireRead i ∧ returned (s.dev i).readers = false)

instance (s : World n) (i : Fin n) : Decidable (Unread s i) :=
  inferInstanceAs (Decidable (_ ∧ (_ ∨ _ ∧ _)))

def activating (s : World n) : Act n → Option (Fin n)
  | .kernel i (.port _) => if (s.dev i).port = .allocated then some i else none
  | _ => none

/-- No port becomes active under a reported wire, unless there is a byte to read or a reset. -/
def NoActivationUnread (s : World n) (a : Act n) : Prop :=
  ∀ i, activating s a = some i → Unread s i →
    (s.dev i).rxFifo.isEmpty = false ∨ (s.dev i).wireResetPending = true

instance (s : World n) (a : Act n) : Decidable (NoActivationUnread s a) :=
  inferInstanceAs (Decidable (∀ _, _ → _ → _ ∨ _))

structure Polled (s : World n) : Prop where
  synced : Synced s
  port : ∀ i, (s.dev i).wireView.PortOk
  ok : Daemon.Ok True True s.proc
  batched : s.proc.status = .running → Daemon.Batched s.proc
  ready : s.proc.status = .running → ∀ i, Unread s i → (s.dev i).readable = true

theorem Started.polled {s : World n} (h : Started s) : Polled s := by
  refine ⟨h.synced, h.port, h.proc.ok, fun _ => h.proc.batched, fun _ i hu => ?_⟩
  obtain ⟨-, hb | ⟨hpc, -⟩⟩ := hu
  · rw [h.proc.batch] at hb
    cases hb
  · rw [h.proc.pc] at hpc
    cases hpc

theorem look_of_wire_call {p : Daemon.Proc n} (h : Daemon.Sound True True p) {i : Fin n}
    (hi : p.pc.reopening = some i ∨ closing p.pc = some i) : p.look i ≠ .relay := by
  have hbusy := h.busy i
  generalize p.pc = pc at hi hbusy
  cases pc with
  | wireReopen | drainReopen | wireClose | drainClose =>
    simp only [Daemon.Pc.reopening, closing, reduceCtorEq, or_false, false_or, Option.some.injEq] at hi
    subst hi
    rw [hbusy rfl]
    decide
  | _ => simp [Daemon.Pc.reopening, closing] at hi

theorem batch_of_reading {p : Daemon.Proc n} (h : Daemon.Sound True True p) (hb : Daemon.Batched p) {i : Fin n}
    (hi : reading p.pc = some i) (hl : p.look i = .relay) : .ready i .wire ∉ p.batch := by
  have hbusy := h.busy i
  have hserved := hb.served (.ready i .wire)
  generalize p.pc = pc at hi hbusy hserved
  cases pc with
  | wireRead j =>
    cases hi
    exact hserved List.mem_cons_self
  | drainRead j save =>
    cases hi
    rw [hbusy rfl] at hl
    cases hl
  | _ => cases hi

theorem returned_of_getElem? {l : List Uart.ReadPc} {k : ℕ} {pc : Uart.ReadPc} (hk : l[k]? = some pc)
    (hn : ∀ r, pc ≠ .ret r) : returned l = false := by
  unfold returned
  split
  · rename_i r
    cases k with
    | zero =>
      simp only [List.getElem?_cons_zero, Option.some.injEq] at hk
      exact absurd hk.symm (hn r)
    | succ k => simp at hk
  · rfl

theorem readable_kernel {s : World n} {i : Fin n} {a : Uart.Act} {v : Uart.WireView} {o : List Uart.Obs}
    (h : Polled s) (hs : s.proc.status = .running) (hp : permitted s i a = true)
    (hg : NoActivationUnread s (.kernel i a)) (hw : Uart.WireStep (s.dev i) a v o) (hl : s.proc.look i = .relay)
    (hu : .ready i .wire ∈ s.proc.batch ∨ s.proc.pc = .wireRead i ∧ returned v.readers = false) :
    v.readable = true := by
  have hsound := h.ok.sound hs
  have hkeep (hr : returned v.readers = false → returned (s.dev i).readers = false) :
      (s.dev i).wireView.readable = true := by
    apply h.ready hs i
    exact ⟨hl, hu.imp_right (fun hu => ⟨hu.1, hr hu.2⟩)⟩
  cases hw with
  | quiet a o ho => exact hkeep id
  | queued hiFirst burst =>
    have hr := hkeep id
    simp only [Uart.WireView.readable, Uart.Dev.wireView, Bool.or_eq_true, Bool.not_eq_true',
      List.isEmpty_eq_false_iff] at hr ⊢
    rcases hr with (hr | hr) | hr
    · exact .inl (.inl (by simp [hr]))
    · exact .inl (.inr hr)
    · exact .inr hr
  | alloc ok rxSz hport =>
    have ha := h.port i (Uart.starting_of_port hport)
    simp [Uart.WireView.readable, ha]
  | activate ok hport =>
    have hunread : Unread s i := ⟨hl, hu⟩
    rcases hg i (by simp [activating, hport]) hunread with hr | hr
    · simpa [Uart.WireView.readable, Uart.Dev.wireView, Fifo.isEmpty] using Or.inl hr
    · simp [Uart.WireView.readable, Uart.Dev.wireView, hr]
  | shut ok => simp [Uart.WireView.readable]
  | reset => simp [Uart.WireView.readable]
  | opening => exact hkeep id
  | opened =>
    have hi : s.proc.pc.reopening = some i := by simpa [permitted] using hp
    exact absurd hl (look_of_wire_call hsound (.inl hi))
  | release =>
    have hi : closing s.proc.pc = some i := by simpa [permitted] using hp
    exact absurd hl (look_of_wire_call hsound (.inr hi))
  | released => exact hkeep id
  | readCall count nonblock =>
    have he : (s.dev i).readers = [] := by
      simp only [permitted, Bool.and_eq_true, List.isEmpty_iff] at hp
      exact hp.1.1.2
    exact hkeep (fun _ => by rw [he]; rfl)
  | readGoesOn k ok pc pc' hk hn hb => exact hkeep (fun _ => returned_of_getElem? hk hn)
  | readTakes k ok rdSz nonblock r hk hr =>
    have hne : (s.dev i).readers ≠ [] := by
      intro he
      simp [he] at hk
    obtain ⟨hi, -, pc, hpc⟩ := h.synced i hne
    have hk0 : k = 0 := by simpa [permitted] using hp
    rcases hu with hu | ⟨-, hu⟩
    · exact absurd hu (batch_of_reading hsound (h.batched hs) hi hl)
    · rw [hpc, hk0] at hu
      cases hu
  | readReturn k r hk => cases hp

theorem polled_kernel {s : World n} {i : Fin n} {a : Uart.Act} {t : Uart.Sys} {o : List Uart.Obs} (h : Polled s)
    (hp : permitted s i a = true) (hg : NoActivationUnread s (.kernel i a))
    (hm : Uart.machine ⟨s.bus, s.dev i⟩ a = some (t, o)) :
    Polled { s with bus := t.bus, dev := Function.update s.dev i t.dev } := by
  have hw := Uart.machine_wire hm
  refine ⟨synced_kernel h.synced hp hm, fun j => ?_, h.ok, h.batched, fun hs j hu => ?_⟩
  · by_cases hji : j = i
    · subst hji
      simp only [Function.update_self]
      exact hw.portOk (h.port j)
    · simp only [Function.update_of_ne hji]
      exact h.port j
  · obtain ⟨hl, hu⟩ := hu
    by_cases hji : j = i
    · subst hji
      simp only [Function.update_self] at hu ⊢
      exact readable_kernel h hs hp hg hw hl hu
    · simp only [Function.update_of_ne hji] at hu ⊢
      exact h.ready hs j ⟨hl, hu⟩

theorem readable_of_reported {s : World n} {sources : List Daemon.Source}
    {batch : List (Daemon.Event n)} (hm : sources.mapM (Daemon.event s.proc) = some batch)
    (hw : ∀ src ∈ sources, reported s src = true) {i : Fin n} (hi : .ready i .wire ∈ batch) :
    (s.dev i).readable = true := by
  obtain ⟨src, hsrc, he⟩ := Daemon.event_of_mem hm hi
  cases src with
  | fd f =>
    simp only [Daemon.event, Option.map_eq_some_iff, Daemon.Event.ready.injEq] at he
    obtain ⟨⟨j, r⟩, hf, rfl, rfl⟩ := he
    have hr := hw _ hsrc
    simp only [reported, hf] at hr
    rw [← Uart.wirePoll_readable]
    exact hr
  | signal => cases he

theorem ready_dispatch {s : World n} (h : Polled s) (hs : s.proc.status = .running) (hpc : s.proc.pc = .idle)
    {e : Daemon.Event n} {rest : List (Daemon.Event n)} (hb : s.proc.batch = e :: rest) {i : Fin n}
    (hq : (Daemon.dispatch { s.proc with batch := rest } e).status = .running)
    (hl : (Daemon.dispatch { s.proc with batch := rest } e).look i = .relay)
    (hu : .ready i .wire ∈ (Daemon.dispatch { s.proc with batch := rest } e).batch ∨
      (Daemon.dispatch { s.proc with batch := rest } e).pc = .wireRead i) : (s.dev i).readable = true := by
  cases e with
  | signal => cases hq
  | ready k r =>
    rw [(Daemon.untouched_dispatch { s.proc with batch := rest } k r i).look] at hl
    have hl' : s.proc.look i = .relay := hl
    apply h.ready hs i
    refine ⟨hl', .inl ?_⟩
    rw [hb]
    rcases hu with hu | hu
    · rw [Daemon.batch_dispatch _ ⟨k, r, rfl⟩] at hu
      exact List.mem_cons_of_mem _ hu
    · have hevent : .ready i .wire = Daemon.Event.ready k r := by
        apply Daemon.handling_dispatch (p := { s.proc with batch := rest }) hpc
        rw [hu]
        rfl
      rw [hevent]
      exact List.mem_cons_self

theorem ready_handled {s : World n} {a : Daemon.Act n} {q : Daemon.Proc n} {o : List (Daemon.Obs n)} (h : Polled s)
    (hs : s.proc.status = .running) (hh : Daemon.Handled s.proc s.proc.pc a q o) (hq : q.status = .running)
    {i : Fin n} (hl : q.look i = .relay) (hu : .ready i .wire ∈ q.batch ∨ q.pc = .wireRead i) :
    (s.dev i).readable = true := by
  have hsound := h.ok.sound hs
  obtain ⟨k, hk⟩ := Daemon.pc_inst_of_handled hh
  have hnext := Daemon.handled_next hsound hs hk Daemon.allowed_true hh
  rcases hu with hu | hu
  · rw [hnext.batch] at hu
    apply h.ready hs i
    refine ⟨?_, .inl hu⟩
    by_cases hik : i = k
    · subst hik
      have hn : s.proc.pc ≠ .accept i := by
        intro hpc
        exact (h.batched hs).served (.ready i .wire) (by simp [hpc, Daemon.Pc.served]) hu
      exact Daemon.relay_handled hsound hs hk hh hq hn hl
    · rw [← (hnext.other i hik).look]
      exact hl
  · have hnone := Daemon.handling_handled hh hq
    rw [hu] at hnone
    cases hnone

theorem ready_daemon {s : World n} {a : Daemon.Act n} {q : Daemon.Proc n} {o : List (Daemon.Obs n)} (h : Polled s)
    (hw : ∀ sources, a = .wait sources → ∀ src ∈ sources, reported s src = true)
    (hm : Daemon.machine s.proc a = some (q, o)) (hq : q.status = .running) {i : Fin n} (hl : q.look i = .relay)
    (hu : .ready i .wire ∈ q.batch ∨ q.pc = .wireRead i) : (s.dev i).readable = true := by
  obtain ⟨hs, hst⟩ := Daemon.machine_cases hm
  cases hst with
  | wait sources batch hpc hn he =>
    rcases hu with hu | hu
    · exact readable_of_reported he (hw sources rfl) hu
    · have hu' : s.proc.pc = .wireRead i := hu
      rw [hpc] at hu'
      cases hu'
  | waitFail hpc hb => cases hq
  | dispatch e rest hpc hb => exact ready_dispatch h hs hpc hb hq hl hu
  | handler a q o hh => exact ready_handled h hs hh hq hl hu

theorem polled_daemon {s : World n} {a : Daemon.Act n} {q : Daemon.Proc n} {o : List (Daemon.Obs n)} (h : Polled s)
    (hw : ∀ sources, a = .wait sources → ∀ src ∈ sources, reported s src = true)
    (hm : Daemon.machine s.proc a = some (q, o)) {dev : Fin n → Uart.Dev}
    (hd : ∀ i, (dev i).readable = (s.dev i).readable) (hp : ∀ i, (dev i).wireView.PortOk)
    (hs : Synced { s with dev, proc := q }) : Polled { s with dev, proc := q } := by
  refine ⟨hs, hp, Daemon.machine_ok h.ok Daemon.allowed_true hm, fun hq => ?_, fun hq i hu => ?_⟩
  · exact Daemon.machine_batched h.ok (h.batched (Daemon.machine_cases hm).1) hm hq
  · obtain ⟨hl, hu⟩ := hu
    rw [hd]
    exact ready_daemon h hw hm hq hl (hu.imp_right And.left)

theorem machine_polled {s t : World n} {a : Act n} {o : List (Obs n)} (h : Polled s) (hg : NoActivationUnread s a)
    (hm : machine s a = some (t, o)) : Polled t := by
  have hsync := machine_synced h.synced hm
  cases machine_cases hm with
  | kernel i a t o hp hk => exact polled_kernel h hp hg hk
  | read i r q o hi hr hd =>
    apply polled_daemon h (by simp) hd _ _ hsync
    · intro j
      by_cases hji : j = i
      · subst hji
        simp [Uart.Dev.readable]
      · simp [hji]
    · intro j
      by_cases hji : j = i
      · subst hji
        simp only [Function.update_self]
        exact h.port j
      · simp only [Function.update_of_ne hji]
        exact h.port j
  | daemon a q o hi hw hd => exact polled_daemon h hw hd (fun _ => rfl) h.port hsync

theorem wire_read_never_blocks {s₀ s : World n} {os : List (Obs n)} (h₀ : Started s₀)
    (h : Run machine NoActivationUnread s₀ os s) (hs : s.proc.status = .running) (i : Fin n)
    (hpc : s.proc.pc = .wireRead i) (hfd : s.proc.fd i .wire ≠ none) (hr : returned (s.dev i).readers = false) :
    (s.dev i).readable = true ∧
    ∀ rdSz, (s.dev i).readers = [.wait rdSz] → (machine s (.kernel i (.reader 0 true))).isSome = true := by
  have hp := h.invariant Polled h₀.polled (fun _ _ _ _ hp hg hm => machine_polled hp hg hm)
  have hbusy := (hp.ok.sound hs).busy i (by rw [hpc]; rfl)
  have hl : s.proc.look i = .relay := by
    rw [hpc] at hbusy
    apply hbusy.relay_of_wire
    exact fun hw => hfd (Daemon.fd_eq_none_iff.mpr hw)
  have hread := hp.ready hs i ⟨hl, .inr ⟨hpc, hr⟩⟩
  refine ⟨hread, fun rdSz hw => ?_⟩
  simp [machine, permitted, stepKernel, Uart.machine, Uart.stepDev, Uart.stepRead, hw, hread]

theorem wire_read_never_blocks_one_byte : ∃ os s, Run machine NoActivationUnread (start 1) os s ∧
    (s.proc.status = .running ∧ s.proc.pc = .wireRead 0 ∧ s.proc.fd 0 .wire = some 0 ∧
      (s.dev 0).readers = [.wait 4096]) ∧
    (s.dev 0).readable = true ∧ (machine s (.kernel 0 (.reader 0 true))).isSome = true := by
  obtain ⟨os, s, hr, hs⟩ := Run.exists_of_exec (M := machine) (P := NoActivationUnread) (s := start 1)
    (ttyOpened ++ connected ++ byteArrives ++ wireReported ++ readCalled)
    (fun _ s => s.proc.status = .running ∧ s.proc.pc = .wireRead 0 ∧ s.proc.fd 0 .wire = some 0 ∧
      (s.dev 0).readers = [.wait 4096]) (by decide +kernel)
  obtain ⟨h1, h2⟩ := wire_read_never_blocks (started_start 1) hr hs.1 0 hs.2.1 (by simp [hs.2.2.1])
    (by simp [hs.2.2.2, returned])
  exact ⟨os, s, hr, hs, h1, h2 4096 hs.2.2.2⟩

/-- The hangup of a closed TTY is reported, the AUT opens the TTY, and the read sleeps. -/
theorem read_sleeps_after_tty_open : ¬ ∀ (os : List (Obs 1)) (s : World 1), Run machine Always (start 1) os s →
    s.proc.status = .running → ∀ i, s.proc.pc = .wireRead i → s.proc.fd i .wire ≠ none →
    returned (s.dev i).readers = false → (s.dev i).readable = true := by
  intro h
  obtain ⟨os, s, hr, hs, hpc, hfd, hw, hn⟩ := Run.exists_of_exec (M := machine) (P := Always) (s := start 1)
    (connected ++ wireReported ++ ttyOpened ++ readCalled)
    (fun _ s => s.proc.status = .running ∧ s.proc.pc = .wireRead 0 ∧ s.proc.fd 0 .wire = some 0 ∧
      (s.dev 0).readers = [.wait 4096] ∧ (s.dev 0).readable = false) (by decide +kernel)
  have hread := h os s hr hs 0 hpc (by simp [hfd]) (by simp [hw, returned])
  rw [hn] at hread
  cases hread

end VirtRtLab.Lab
