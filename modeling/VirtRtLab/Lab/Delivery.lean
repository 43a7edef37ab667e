import VirtRtLab.Uart.Lossless
import VirtRtLab.Uart.Baseline
import VirtRtLab.Lab.Session

/-!
The bytes that a UART takes from the AUT, followed through the daemon to the simulators.
-/

namespace VirtRtLab.Lab

open Kernel VirtRtLab.Core Transition
open Visits (Move)
open scoped List

variable {n : ℕ}

def deviceObs (i : Fin n) : Obs n → Option Uart.Obs
  | .dev j o => if j = i then some o else none
  | .daemon _ => none

def history (os : List (Obs n)) (i : Fin n) : List Uart.Obs := os.filterMap (deviceObs i)

def sentBytes : Move UInt8 → Bytes
  | .sent bs => bs
  | _ => []

def delivered (os : List (Obs n)) (i : Fin n) : Bytes := (os.filterMap (move i)).flatMap sentBytes

def carried (s : World n) (i : Fin n) : Bytes :=
  s.proc.pc.buffer i ++ (s.dev i).readers.flatMap Uart.ReadPc.bytes

section Histories

variable (os : List (Obs n)) {i j : Fin n}

theorem history_append (o : List (Obs n)) (i : Fin n) : history (os ++ o) i = history os i ++ history o i :=
  List.filterMap_append

theorem delivered_append (o : List (Obs n)) (i : Fin n) : delivered (os ++ o) i = delivered os i ++ delivered o i := by
  simp [delivered]

theorem history_dev (o : List Uart.Obs) (i : Fin n) : history (o.map (Obs.dev i)) i = o := by
  simp [history, List.filterMap_map, Function.comp_def, deviceObs]

theorem history_dev_of_ne (h : j ≠ i) (o : List Uart.Obs) : history (o.map (Obs.dev j)) i = [] := by
  rw [history, List.filterMap_map, List.filterMap_eq_nil_iff]
  intro ob _
  simp [deviceObs, h]

theorem history_daemon (o : List (Daemon.Obs n)) (i : Fin n) : history (o.map Obs.daemon) i = [] := by
  rw [history, List.filterMap_map, List.filterMap_eq_nil_iff]
  intro ob _
  rfl

theorem delivered_dev (o : List Uart.Obs) (i j : Fin n) : delivered (o.map (Obs.dev j)) i = [] := by
  rw [delivered, List.filterMap_map, List.flatMap_eq_nil_iff]
  intro m hm
  obtain ⟨ob, -, hob⟩ := List.mem_filterMap.mp hm
  cases ob with
  | queued bs =>
    simp only [Function.comp_apply, move, Option.ite_none_right_eq_some, Option.some.injEq] at hob
    obtain ⟨-, rfl⟩ := hob
    rfl
  | _ => cases hob

theorem delivered_daemon (o : List (Daemon.Obs n)) (i : Fin n) :
    delivered (o.map Obs.daemon) i = (o.filterMap (daemonMove i)).flatMap sentBytes := by
  rw [delivered, moves_daemon]

end Histories

/-- A run of the lab is, to one of its UARTs, a run of that device in its environment, and shows the same. -/
theorem run_device {P : World n → Act n → Prop} {Q : Uart.Sys → Uart.Act → Prop} {os : List (Obs n)} {s : World n}
    (i : Fin n) (h : Run machine P (start n) os s)
    (hk : ∀ s a, P s (.kernel i a) → Q ⟨s.bus, s.dev i⟩ a) (hb : ∀ s x, Q s (.bus x))
    (hr : ∀ s, Q s (.readReturn 0)) (ho : ∀ s, Q s .wireOpen ∧ Q s .wireOpened) :
    Run Uart.machine Q Uart.start (history os i) ⟨s.bus, s.dev i⟩ := by
  apply h.history (fun os s => Run Uart.machine Q Uart.start (history os i) ⟨s.bus, s.dev i⟩)
  · have h1 : Run Uart.machine Q Uart.start ([] ++ []) _ := .step .refl (ho _).1 rfl
    exact .step h1 (ho _).2 rfl
  · intro os t a u o hrun hp hm
    rw [history_append]
    cases machine_cases hm with
    | kernel j a v o hperm hstep =>
      by_cases hji : j = i
      · subst hji
        rw [history_dev]
        simp only [Function.update_self]
        exact .step hrun (hk t a hp) hstep
      · rw [history_dev_of_ne hji, List.append_nil]
        simp only [Function.update_of_ne (Ne.symm hji)]
        by_cases hbus : ∃ x, a = .bus x
        · obtain ⟨x, rfl⟩ := hbus
          obtain ⟨b, hx, hv⟩ := Option.map_eq_some_iff.mp hstep
          cases hv
          have hone : Uart.machine ⟨t.bus, t.dev i⟩ (.bus x) = some (⟨b, t.dev i⟩, []) := by
            simp only [Uart.machine, hx, Option.map_some]
          have hnext := Run.step hrun (hb _ x) hone
          rwa [List.append_nil] at hnext
        · rcases Uart.machine_bus (fun x hx => hbus ⟨x, hx⟩) hstep with hsame | hdraw
          · rw [hsame]
            exact hrun
          · have hone : Uart.machine ⟨t.bus, t.dev i⟩ (.bus .draw) = some (⟨v.bus, t.dev i⟩, []) := by
              rw [hdraw]
              rfl
            have hnext := Run.step hrun (hb _ .draw) hone
            rwa [List.append_nil] at hnext
    | read j r q o hj hret hd =>
      by_cases hji : j = i
      · subst hji
        have hhist : history (Obs.dev j (.returned r) :: o.map .daemon) j = [.returned r] := by
          rw [history, List.filterMap_cons_some (b := .returned r) (by simp [deviceObs])]
          exact congrArg _ (history_daemon o j)
        have hone : Uart.machine ⟨t.bus, t.dev j⟩ (.readReturn 0) =
            some (⟨t.bus, { t.dev j with readers := [] }⟩, [.returned r]) := by
          simp [Uart.machine, Uart.stepDev, hret]
        rw [hhist]
        simp only [Function.update_self]
        exact .step hrun (hr _) hone
      · have hhist : history (Obs.dev j (.returned r) :: o.map .daemon) i = [] := by
          rw [history, List.filterMap_cons_none (by simp [deviceObs, hji])]
          exact history_daemon o i
        rw [hhist, List.append_nil]
        simp only [Function.update_of_ne (Ne.symm hji)]
        exact hrun
    | daemon a q o hi hw hd =>
      rw [history_daemon, List.append_nil]
      exact hrun

def copied (d : Uart.Dev) : Uart.Act → Bool
  | .reader k false =>
    match d.readers[k]? with
    | some (.locked _ _) => false
    | _ => true
  | _ => true

theorem reader_bytes_set {l : List Uart.ReadPc} {k : ℕ} {pc pc' : Uart.ReadPc} (hl : l.length ≤ 1)
    (hk : l[k]? = some pc) (hpc : ∀ r, pc ≠ .ret r) :
    (l.set k pc').flatMap Uart.ReadPc.bytes = l.flatMap Uart.ReadPc.bytes ++ pc'.bytes := by
  obtain ⟨rfl, rfl⟩ := eq_singleton_of_getElem? hl hk
  have hnone : pc.bytes = [] := by
    cases pc with
    | ret r => exact absurd rfl (hpc r)
    | _ => rfl
  simp [hnone]

theorem wire_carried {b : Bus} {d d' : Uart.Dev} {a : Uart.Act} {o : List Uart.Obs} (h : Uart.DevStep b d a d' o)
    (hone : d.readers.length ≤ 1) (ha : ∀ k, a ≠ .readReturn k) :
    ∃ bs, d'.readers.flatMap Uart.ReadPc.bytes = d.readers.flatMap Uart.ReadPc.bytes ++ bs ∧ bs <+ Uart.out o ∧
      (copied d a = true → bs = Uart.out o) := by
  have hsame (hr : d'.readers = d.readers) (ho : Uart.out o = []) :
      ∃ bs, d'.readers.flatMap Uart.ReadPc.bytes = d.readers.flatMap Uart.ReadPc.bytes ++ bs ∧ bs <+ Uart.out o ∧
        (copied d a = true → bs = Uart.out o) := by
    refine ⟨[], ?_, List.nil_sublist _, fun _ => ho.symm⟩
    rw [hr, List.append_nil]
  cases h with
  | readCall => exact ⟨[], by simp [Uart.ReadPc.bytes], List.nil_sublist _, fun _ => rfl⟩
  | @readGoesOn k ok pc pc' hk hs hb =>
    have hpc : ∀ r, pc ≠ .ret r := by
      rintro r rfl
      cases hs
    have hnone : pc'.bytes = [] := by
      unfold Uart.ReadPc.bytes
      split
      · exact hb _ rfl
      · rfl
    refine ⟨[], ?_, List.nil_sublist _, fun _ => rfl⟩
    rw [← hnone]
    exact reader_bytes_set hone hk hpc
  | @readTakes k ok rdSz nonblock hk hact hf =>
    refine ⟨_, reader_bytes_set hone hk (by simp), ?_, ?_⟩
    · cases ok with
      | true => simp [Uart.ReadPc.bytes, Uart.out, Uart.Obs.readBytes]
      | false => exact List.nil_sublist _
    · intro hc
      cases ok with
      | true => simp [Uart.ReadPc.bytes, Uart.out, Uart.Obs.readBytes]
      | false => simp [copied, hk] at hc
  | readReturn => exact absurd rfl (ha _)
  | @resetStat k st | @resetZero st => exact hsame (by cases st <;> rfl) rfl
  | _ => exact hsame rfl rfl

theorem work_out {b b' : Bus} {d d' : Uart.Dev} {o : List Uart.Obs} (h : Uart.WorkStep b d b' d' o) :
    Uart.out o = [] := by
  cases h <;> rfl

theorem kernel_carried {s t : Uart.Sys} {a : Uart.Act} {o : List Uart.Obs} (h : Uart.machine s a = some (t, o))
    (hone : s.dev.readers.length ≤ 1) (ha : ∀ k, a ≠ .readReturn k) :
    ∃ bs, t.dev.readers.flatMap Uart.ReadPc.bytes = s.dev.readers.flatMap Uart.ReadPc.bytes ++ bs ∧
      bs <+ Uart.out o ∧ (copied s.dev a = true → bs = Uart.out o) := by
  obtain ⟨hiFirst, rfl, hw⟩ | ⟨b, -, -, hd, rfl⟩ | ⟨-, hd⟩ := Uart.machine_cases h
  · exact ⟨[], by rw [hw.readers, List.append_nil], List.nil_sublist _, fun _ => (work_out hw).symm⟩
  · exact ⟨[], by rw [hd, List.append_nil], List.nil_sublist _, fun _ => rfl⟩
  · exact wire_carried hd hone ha

def taken (i : Fin n) : Daemon.Pc n → Daemon.Act n → Bytes
  | .wireRead j, .read (.ok bs) | .drainRead j _, .read (.ok bs) => if j = i then bs else []
  | _, _ => []

def relays (i : Fin n) : Daemon.Pc n → Daemon.Act n → Bool
  | .drainRead j _, .read (.ok bs) => j ≠ i || bs.isEmpty
  | .send j buf, .send r => j ≠ i || r = .ok buf.length
  | _, _ => true

theorem Flow.sublist {i : Fin n} {pc pc' : Daemon.Pc n} {a : Daemon.Act n} {ms : List (Move UInt8)}
    (h : Flow i pc a pc' ms) : (ms.flatMap sentBytes ++ pc'.buffer i) <+ (pc.buffer i ++ taken i pc a) := by
  cases h with
  | opened f pc' hb => simp [sentBytes, hb]
  | silent pc a pc' hb => simp [hb]
  | read bs => simp [taken, Daemon.Pc.buffer]
  | sent buf a pc' bs hb hs =>
    have hbuf : (Daemon.Pc.send i buf).buffer i = buf := if_pos rfl
    simp only [List.flatMap_cons, List.flatMap_nil, sentBytes, List.append_nil, hb, hbuf]
    exact hs.trans (List.sublist_append_left _ _)

theorem Flow.whole {i : Fin n} {pc pc' : Daemon.Pc n} {a : Daemon.Act n} {ms : List (Move UInt8)}
    (h : Flow i pc a pc' ms) (hb : pc.buffer i = []) (ht : taken i pc a = []) :
    ms.flatMap sentBytes ++ pc'.buffer i = pc.buffer i ++ taken i pc a := by
  have hsub := h.sublist
  rw [hb, ht] at hsub ⊢
  exact List.sublist_nil.mp hsub

theorem buffer_ne_nil {i : Fin n} {pc : Daemon.Pc n} (h : pc.buffer i ≠ []) :
    ∃ buf, pc = .send i buf ∧ pc.buffer i = buf := by
  cases pc with
  | send j buf =>
    by_cases hj : j = i
    · subst hj
      exact ⟨buf, rfl, if_pos rfl⟩
    · exact absurd (if_neg hj) h
  | _ => exact absurd rfl h

theorem taken_ne_nil {i : Fin n} {pc : Daemon.Pc n} {a : Daemon.Act n} (h : taken i pc a ≠ []) :
    ∃ bs, taken i pc a = bs ∧ a = .read (.ok bs) ∧ (pc = .wireRead i ∨ ∃ save, pc = .drainRead i save) := by
  unfold taken at h ⊢
  split at h
  · rename_i j bs
    by_cases hj : j = i
    · subst hj
      exact ⟨bs, if_pos rfl, rfl, .inl rfl⟩
    · exact absurd (if_neg hj) h
  · rename_i j save bs
    by_cases hj : j = i
    · subst hj
      exact ⟨bs, if_pos rfl, rfl, .inr ⟨save, rfl⟩⟩
    · exact absurd (if_neg hj) h
  · exact absurd rfl h

theorem handled_relays {p q : Daemon.Proc n} {a : Daemon.Act n} {o : List (Daemon.Obs n)} {i : Fin n}
    (h : Daemon.Handled p p.pc a q o) (hr : relays i p.pc a = true) :
    (o.filterMap (daemonMove i)).flatMap sentBytes ++ q.pc.buffer i = p.pc.buffer i ++ taken i p.pc a := by
  by_cases hb : p.pc.buffer i = []
  · by_cases ht : taken i p.pc a = []
    · exact (handled_flow h i).whole hb ht
    · obtain ⟨bs, hbs, rfl, hpc | ⟨save, hpc⟩⟩ := taken_ne_nil ht
      · rw [hb, hbs]
        rw [hpc] at h
        cases h with
        | readEof => exact absurd hbs ht
        | readBytes _ _ hw hne => simp [daemonMove, Daemon.Pc.buffer]
      · rw [hpc] at hr
        have hnil : bs = [] := by simpa [relays] using hr
        exact absurd (hbs.trans hnil) ht
  · obtain ⟨buf, hpc, hbuf⟩ := buffer_ne_nil hb
    have ht : taken i p.pc a = [] := by
      rw [hpc]
      rfl
    rw [hbuf, ht, List.append_nil]
    rw [hpc] at h hr
    cases h with
    | sendAll => simp [daemonMove, sentBytes, Daemon.Pc.buffer]
    | sendShort _ _ r sent hc hs =>
      have hall : r = .ok buf.length := by simpa [relays] using hr
      rcases hs with ⟨⟨e, rfl⟩, -⟩ | ⟨nw, rfl, hlt, -⟩
      · cases hall
      · have heq : nw = buf.length := Except.ok.inj hall
        omega

theorem daemon_sublist {p q : Daemon.Proc n} {a : Daemon.Act n} {o : List (Daemon.Obs n)} {i : Fin n}
    (h : Daemon.machine p a = some (q, o)) :
    (delivered (o.map Obs.daemon) i ++ q.pc.buffer i) <+ (p.pc.buffer i ++ taken i p.pc a) := by
  rw [delivered_daemon]
  exact (machine_flow h i).sublist

theorem drain_silent {p q : Daemon.Proc n} {a : Daemon.Act n} {o : List (Daemon.Obs n)} {i : Fin n} {save : Bool}
    (h : Daemon.machine p a = some (q, o)) (hpc : p.pc = .drainRead i save) :
    delivered (o.map Obs.daemon) i ++ q.pc.buffer i = [] := by
  rw [delivered_daemon]
  have hflow := machine_flow h i
  rw [hpc] at hflow
  generalize q.pc = pc' at hflow ⊢
  generalize o.filterMap (daemonMove i) = ms at hflow ⊢
  cases hflow with
  | silent pc a pc' hb => exact hb

theorem daemon_whole {p q : Daemon.Proc n} {a : Daemon.Act n} {o : List (Daemon.Obs n)} {i : Fin n}
    (h : Daemon.machine p a = some (q, o)) (hr : relays i p.pc a = true) :
    delivered (o.map Obs.daemon) i ++ q.pc.buffer i = p.pc.buffer i ++ taken i p.pc a := by
  rw [delivered_daemon]
  have hflow := machine_flow h i
  obtain ⟨-, hst⟩ := Daemon.machine_cases h
  cases hst with
  | handler a q o hh => exact handled_relays hh hr
  | wait sources batch hpc | waitFail hpc | dispatch e rest hpc =>
    rw [hpc] at hflow ⊢
    exact hflow.whole rfl rfl

def lossless (i : Fin n) (s : World n) : Act n → Bool
  | .kernel j a => j ≠ i || Uart.keeps ⟨s.bus, s.dev i⟩ a && copied (s.dev i) a
  | .daemon a => relays i s.proc.pc a

def inTransit (s : World n) (i : Fin n) : Bytes := carried s i ++ (s.dev i).inside

theorem taken_reading {i : Fin n} {pc : Daemon.Pc n} (h : reading pc = some i) (r : Except Errno Bytes) :
    pc.buffer i = [] ∧ taken i pc (.read r) = (Uart.ReadPc.ret r).bytes := by
  cases pc with
  | wireRead j | drainRead j save =>
    cases h
    cases r with
    | error e => exact ⟨rfl, rfl⟩
    | ok bs => exact ⟨rfl, if_pos rfl⟩
  | _ => cases h

theorem taken_of_ne {i j : Fin n} {pc : Daemon.Pc n} (h : reading pc = some j) (hji : j ≠ i) (a : Daemon.Act n) :
    taken i pc a = [] := by
  by_contra ht
  obtain ⟨bs, -, -, rfl | ⟨save, rfl⟩⟩ := taken_ne_nil ht
  · exact hji (Option.some.inj h).symm
  · exact hji (Option.some.inj h).symm

structure Carries (s t : World n) (a : Act n) (o : List (Obs n)) (i : Fin n) : Prop where
  sublist : (delivered o i ++ carried t i) <+ (carried s i ++ Uart.out (history o i))
  whole : lossless i s a = true → delivered o i ++ carried t i = carried s i ++ Uart.out (history o i)

theorem Carries.of_eq {s t : World n} {a : Act n} {o : List (Obs n)} {i : Fin n}
    (h : delivered o i ++ carried t i = carried s i ++ Uart.out (history o i)) : Carries s t a o i :=
  ⟨h ▸ List.Sublist.refl _, fun _ => h⟩

section Step

variable {s : World n} (hs : Synced s)
include hs

theorem readers_length (i : Fin n) : (s.dev i).readers.length ≤ 1 := by
  by_cases hr : (s.dev i).readers = []
  · simp [hr]
  · obtain ⟨-, -, pc, hpc⟩ := hs i hr
    simp [hpc]

theorem kernel_carries {j : Fin n} {a : Uart.Act} {t : Uart.Sys} {o : List Uart.Obs}
    (hp : permitted s j a = true) (hm : Uart.machine ⟨s.bus, s.dev j⟩ a = some (t, o)) (i : Fin n) :
    Carries s { s with bus := t.bus, dev := Function.update s.dev j t.dev } (.kernel j a) (o.map (.dev j)) i := by
  by_cases hji : j = i
  · subst hji
    have hret : ∀ k, a ≠ .readReturn k := by
      rintro k rfl
      cases hp
    obtain ⟨bs, hbs, hsub, hall⟩ := kernel_carried hm (readers_length hs j) hret
    constructor
    · rw [delivered_dev, history_dev]
      simp only [carried, Function.update_self, hbs, List.nil_append]
      rw [← List.append_assoc]
      exact hsub.append_left _
    · intro hl
      have hcopied : copied (s.dev j) a = true := by
        simp only [lossless, ne_eq, not_true_eq_false, decide_false, Bool.false_or, Bool.and_eq_true] at hl
        exact hl.2
      rw [delivered_dev, history_dev, ← hall hcopied]
      simp only [carried, Function.update_self, hbs, List.nil_append, List.append_assoc]
  · apply Carries.of_eq
    rw [delivered_dev, history_dev_of_ne hji]
    simp [carried, Function.update_of_ne (Ne.symm hji), Uart.out]

theorem daemon_carries {a : Daemon.Act n} {q : Daemon.Proc n} {o : List (Daemon.Obs n)}
    (hr : ∀ i, reading s.proc.pc = some i → s.proc.fd i .wire = none)
    (hm : Daemon.machine s.proc a = some (q, o)) (i : Fin n) :
    Carries s { s with proc := q } (.daemon a) (o.map .daemon) i := by
  have hout : Uart.out (history (o.map Obs.daemon) i) = [] := by
    rw [history_daemon]
    rfl
  by_cases ht : taken i s.proc.pc a = []
  · have hsub := daemon_sublist (i := i) hm
    rw [ht, List.append_nil] at hsub
    constructor
    · rw [hout, List.append_nil]
      simp only [carried]
      rw [← List.append_assoc]
      exact hsub.append_right _
    · intro hl
      have hwhole := daemon_whole hm hl
      rw [ht, List.append_nil] at hwhole
      rw [hout, List.append_nil]
      simp only [carried]
      rw [← List.append_assoc, hwhole]
  · obtain ⟨bs, hbs, rfl, hpc | ⟨save, hpc⟩⟩ := taken_ne_nil ht
    · exact absurd (hr i (by rw [hpc]; rfl)) (fd_of_read hm hpc)
    · have hnone : (s.dev i).readers = [] := by
        by_contra hne
        obtain ⟨hreading, hfd, -⟩ := hs i hne
        exact hfd (hr i hreading)
      obtain ⟨hdel, hbuf⟩ := List.append_eq_nil_iff.mp (drain_silent hm hpc)
      have hidle : s.proc.pc.buffer i = [] := by
        rw [hpc]
        rfl
      apply Carries.of_eq
      simp [carried, hnone, hdel, hbuf, hidle, hout]

omit hs in
theorem read_carries {j : Fin n} {r : Except Errno Bytes} {q : Daemon.Proc n} {o : List (Daemon.Obs n)}
    (hj : reading s.proc.pc = some j) (hr : (s.dev j).readers = [.ret r])
    (hm : Daemon.machine s.proc (.read r) = some (q, o)) (i : Fin n) :
    Carries s { s with dev := Function.update s.dev j { s.dev j with readers := [] }, proc := q }
      (.daemon (.read r)) (.dev j (.returned r) :: o.map .daemon) i := by
  have hdel : delivered (Obs.dev j (.returned r) :: o.map .daemon) i = delivered (o.map .daemon) i := rfl
  have hout : Uart.out (history (Obs.dev j (.returned r) :: o.map .daemon) i) = [] := by
    have hhist : history (Obs.dev j (.returned r) :: o.map .daemon) i =
        (deviceObs i (Obs.dev j (.returned r))).toList ++ history (o.map .daemon) i := by
      simp only [history, List.filterMap_cons]
      cases deviceObs i (Obs.dev j (.returned r)) <;> rfl
    rw [hhist, history_daemon, List.append_nil]
    by_cases hji : j = i <;> simp [deviceObs, hji, Uart.out, Uart.Obs.readBytes]
  have hsame : carried s i = s.proc.pc.buffer i ++ taken i s.proc.pc (.read r) ++
      (Function.update s.dev j { s.dev j with readers := [] } i).readers.flatMap Uart.ReadPc.bytes := by
    by_cases hji : j = i
    · subst hji
      obtain ⟨hbuf, htaken⟩ := taken_reading hj r
      simp [carried, hr, hbuf, htaken]
    · rw [taken_of_ne hj hji, Function.update_of_ne (Ne.symm hji), List.append_nil]
      rfl
  constructor
  · rw [hdel, hout, List.append_nil, hsame]
    simp only [carried]
    rw [← List.append_assoc]
    exact (daemon_sublist hm).append_right _
  · intro hl
    rw [hdel, hout, List.append_nil, hsame]
    simp only [carried]
    rw [← List.append_assoc, daemon_whole hm hl]

theorem machine_carries {t : World n} {a : Act n} {o : List (Obs n)} (hm : machine s a = some (t, o)) (i : Fin n) :
    Carries s t a o i := by
  cases machine_cases hm with
  | kernel j a t o hp hk => exact kernel_carries hs hp hk i
  | read j r q o hj hr hd => exact read_carries hj hr hd i
  | daemon a q o hi hw hd => exact daemon_carries hs hi hd i

end Step

/-- Whatever the simulators of an instance were sent was written by its AUT, in order and once, with at most one
flipped bit a burst, through any faults, disconnects, resets and reopenings. -/
theorem delivery_fidelity {os : List (Obs n)} {s : World n} (h : Run machine Always (start n) os s) (i : Fin n) :
    Pipe.Faithful Uart.OneBit (Uart.acc (history os i)) (Uart.txBursts (history os i)) (delivered os i) := by
  have hdev : Run Uart.machine Always Uart.start (history os i) ⟨s.bus, s.dev i⟩ :=
    run_device i h (fun _ _ _ => trivial) (fun _ _ => trivial) (fun _ => trivial) fun _ => ⟨trivial, trivial⟩
  have hcarried : Synced s ∧ (delivered os i ++ carried s i) <+ Uart.out (history os i) := by
    apply h.history (fun os s => Synced s ∧ (delivered os i ++ carried s i) <+ Uart.out (history os i))
    · exact ⟨(started_start n).synced, List.Sublist.refl []⟩
    · rintro os t a u o ⟨hs, hsub⟩ _ hm
      refine ⟨machine_synced hs hm, ?_⟩
      have hstep := (machine_carries hs hm i).sublist
      have hout : Uart.out (history (os ++ o) i) = Uart.out (history os i) ++ Uart.out (history o i) := by
        rw [history_append]
        exact List.flatMap_append
      rw [delivered_append, hout, List.append_assoc]
      refine (hstep.append_left _).trans ?_
      rw [← List.append_assoc]
      exact hsub.append_right _
  have hsub : delivered os i <+ Uart.out (history os i) := (List.sublist_append_left _ _).trans hcarried.2
  exact (Uart.streamInv_run hdev).pipe.faithful.sublist hsub

theorem delivery_fidelity_one_flip : ∃ os s, Run machine Always (start 1) os s ∧
    Uart.acc (history os 0) = [65, 66] ∧ delivered os 0 = [67, 66] ∧
    Pipe.Faithful Uart.OneBit (Uart.acc (history os 0)) (Uart.txBursts (history os 0)) (delivered os 0) := by
  obtain ⟨os, s, hrun, ha, hd⟩ := Run.exists_of_exec (M := machine) (P := Always) (s := start 1)
    (flipAlways :: ttyOpened ++ connected ++ twoBytesArrive 8 ++ relayed [67, 66])
    (fun os _ => Uart.acc (history os 0) = [65, 66] ∧ delivered os 0 = [67, 66]) (by decide +kernel)
  exact ⟨os, s, hrun, ha, hd, delivery_fidelity hrun 0⟩

theorem lossless_device {os : List (Obs n)} {s : World n} {i : Fin n}
    (h : Run machine (fun s a => lossless i s a = true) (start n) os s) :
    Run Uart.machine (fun s a => Uart.keeps s a = true) Uart.start (history os i) ⟨s.bus, s.dev i⟩ := by
  apply run_device i h
  · intro s a hl
    simp only [lossless, ne_eq, not_true_eq_false, decide_false, Bool.false_or, Bool.and_eq_true] at hl
    exact hl.1
  · exact fun _ _ => rfl
  · exact fun _ => rfl
  · exact fun _ => ⟨rfl, rfl⟩

theorem lossless_wire {os : List (Obs n)} {s : World n} {i : Fin n}
    (h : Run machine (fun s a => lossless i s a = true) (start n) os s) :
    Uart.out (history os i) = delivered os i ++ carried s i := by
  have hcarried : Synced s ∧ Uart.out (history os i) = delivered os i ++ carried s i := by
    apply h.history (fun os s => Synced s ∧ Uart.out (history os i) = delivered os i ++ carried s i)
    · exact ⟨(started_start n).synced, rfl⟩
    · rintro os t a u o ⟨hs, heq⟩ hl hm
      refine ⟨machine_synced hs hm, ?_⟩
      have hstep := (machine_carries hs hm i).whole hl
      have hout : Uart.out (history (os ++ o) i) = Uart.out (history os i) ++ Uart.out (history o i) := by
        rw [history_append]
        exact List.flatMap_append
      rw [delivered_append, hout, heq, List.append_assoc, List.append_assoc, hstep]
  exact hcarried.2

/-- Where nothing is lost on the way, the simulators have been sent what the AUT wrote, and the rest is in transit. -/
theorem lossless_delivery {os : List (Obs n)} {s : World n} {i : Fin n}
    (h : Run machine (fun s a => lossless i s a = true) (start n) os s) :
    Uart.acc (history os i) = delivered os i ++ inTransit s i := by
  rw [Uart.lossless_stream (lossless_device h), lossless_wire h, inTransit, List.append_assoc]

theorem lossless_delivery_two_sessions : ∃ os s, Run machine (fun s a => lossless 0 s a = true) (start 1) os s ∧
    (s.dev 0).attrs.dropRatePpm = 1 ∧ Uart.acc (history os 0) = [65, 65, 66] ∧ delivered os 0 = [65] ∧
    inTransit s 0 = [65, 66] ∧ Uart.acc (history os 0) = delivered os 0 ++ inTransit s 0 := by
  obtain ⟨os, s, hrun, hrate, ha, hd, ht⟩ := Run.exists_of_exec (M := machine) (P := fun s a => lossless 0 s a = true)
    (s := start 1) (dropSeldom :: ttyOpened ++ connected ++ byteArrives ++ byteRelayed ++ disconnected ++ connected ++
      twoBytesArrive 7)
    (fun os s => (s.dev 0).attrs.dropRatePpm = 1 ∧ Uart.acc (history os 0) = [65, 65, 66] ∧
      delivered os 0 = [65] ∧ inTransit s 0 = [65, 66]) (by decide +kernel)
  exact ⟨os, s, hrun, hrate, ha, hd, ht, lossless_delivery hrun⟩

end VirtRtLab.Lab
