import VirtRtLab.Lib.Visits
import VirtRtLab.Daemon.Relay
import VirtRtLab.Lab.Composition

namespace VirtRtLab.Lab

open Kernel VirtRtLab.Core Transition
open Visits (Move Visit Fresh)
open scoped List

variable {n : ℕ}

def daemonMove (i : Fin n) : Daemon.Obs n → Option (Move UInt8)
  | .accepted j => if j = i then some .opened else none
  | .sent j bs _ => if j = i then some (.sent bs) else none
  | _ => none

def move (i : Fin n) : Obs n → Option (Move UInt8)
  | .dev j (.queued bs) => if j = i then some (.arrived bs) else none
  | .dev _ _ => none
  | .daemon o => daemonMove i o

def visits (os : List (Obs n)) (i : Fin n) : List (Visit UInt8) := Visits.visits (os.filterMap (move i))

inductive Flow (i : Fin n) : Daemon.Pc n → Daemon.Act n → Daemon.Pc n → List (Move UInt8) → Prop
  | opened (f pc) (hb : pc.buffer i = []) : Flow i (.accept i) (.accept (some f)) pc [.opened]
  | silent (pc a pc') (hb : pc'.buffer i = []) : Flow i pc a pc' []
  | read (bs) : Flow i (.wireRead i) (.read (.ok bs)) (.send i bs) []
  | sent (buf a pc' bs) (hb : pc'.buffer i = []) (hs : bs <+ buf) : Flow i (.send i buf) a pc' [.sent bs]

section Moves

open Daemon

variable (p : Proc n) (i : Fin n)

theorem moves_clientClose (k : Fin n) : (clientClose p k).2.filterMap (daemonMove i) = [] := by
  unfold clientClose
  split
  · rfl
  · rfl

theorem moves_finish (r : Option (Proc n)) (o : List (Daemon.Obs n)) :
    (finish p r o).2.filterMap (daemonMove i) = o.filterMap (daemonMove i) := by
  cases r with
  | none => simp [finish, daemonMove]
  | some q => rfl

theorem buffer_finish (r : Option (Proc n)) (o : List (Daemon.Obs n)) (h : p.pc.buffer i = []) :
    (finish p r o).1.pc.buffer i = [] := by
  cases r with
  | none => exact h
  | some q => rfl

end Moves

theorem flow_finish {p q : Daemon.Proc n} {i : Fin n} {pc : Daemon.Pc n} {a : Daemon.Act n}
    {r : Option (Daemon.Proc n)} {o : List (Daemon.Obs n)} (hpc : q.pc = p.pc) (hb : p.pc.buffer i = [])
    (ho : o.filterMap (daemonMove i) = []) :
    Flow i pc a (Daemon.finish q r o).1.pc ((Daemon.finish q r o).2.filterMap (daemonMove i)) := by
  rw [moves_finish, ho]
  apply Flow.silent
  apply buffer_finish
  rw [hpc]
  exact hb

theorem handled_flow {p q : Daemon.Proc n} {a : Daemon.Act n} {o : List (Daemon.Obs n)}
    (h : Daemon.Handled p p.pc a q o) (i : Fin n) : Flow i p.pc a q.pc (o.filterMap (daemonMove i)) := by
  generalize hpc : p.pc = pc at h
  have hbuf : p.pc.buffer i = pc.buffer i := by rw [hpc]
  cases h with
  | accepted k f hf hs =>
    rw [moves_finish]
    have hb := buffer_finish p i (Daemon.onAccepted p k f) [.accepted k] hbuf
    by_cases hk : k = i
    · subst hk
      simpa [daemonMove] using Flow.opened f _ hb
    · simpa [daemonMove, hk] using Flow.silent _ _ _ hb
  | readBytes k bs hw hb =>
    by_cases hk : k = i
    · subst hk
      exact .read bs
    · exact .silent _ _ _ (by simp [Daemon.Pc.buffer, hk])
  | reopenFail k =>
    have ho : (Daemon.Obs.reopenFailed k :: (Daemon.clientClose p k).2).filterMap (daemonMove i) = [] :=
      moves_clientClose p i k
    rw [ho]
    exact .silent _ _ _ rfl
  | reopened k f hf q' o' hq =>
    have hc := Daemon.pc_clientClose (p.store k .wire f) k
    have ho := moves_clientClose (p.store k .wire f) i k
    rw [hq] at hc ho
    exact flow_finish hc hbuf ho
  | sendAll k buf =>
    by_cases hk : k = i
    · subst hk
      simpa [daemonMove] using Flow.sent (i := k) buf _ _ buf rfl (List.Sublist.refl buf)
    · simpa [daemonMove, hk] using Flow.silent _ _ _ rfl
  | sendShort k buf r sent hc hr =>
    have ho : (Daemon.closeClientAndDrain p k).2.filterMap (daemonMove i) = [] := moves_clientClose p i k
    by_cases hk : k = i
    · subst hk
      have hs : sent <+ buf := by
        rcases hr with ⟨-, rfl⟩ | ⟨nw, -, -, rfl⟩
        · exact List.nil_sublist buf
        · exact List.take_sublist nw buf
      rw [List.filterMap_cons_some (b := .sent sent) (by simp [daemonMove]), ho]
      exact .sent buf _ _ sent rfl hs
    · rw [List.filterMap_cons_none (by simp [daemonMove, hk]), ho]
      exact .silent _ _ _ rfl
  | recvEnd k r hr =>
    have ho : (Daemon.closeClientAndDrain p k).2.filterMap (daemonMove i) = [] := moves_clientClose p i k
    rw [ho]
    exact .silent _ _ _ rfl
  | getflFail k => exact flow_finish rfl hbuf rfl
  | setflFail k save => exact flow_finish rfl hbuf rfl
  | drained k save bs hb => exact .silent _ _ _ hbuf
  | restored k save ok q' hq =>
    refine flow_finish ?_ hbuf rfl
    rw [hq]
    cases ok with
    | true => exact Daemon.pc_setNonblock p k save
    | false => rfl
  | _ => exact .silent _ _ _ rfl

theorem machine_flow {p q : Daemon.Proc n} {a : Daemon.Act n} {o : List (Daemon.Obs n)}
    (h : Daemon.machine p a = some (q, o)) (i : Fin n) : Flow i p.pc a q.pc (o.filterMap (daemonMove i)) := by
  obtain ⟨-, hst⟩ := Daemon.machine_cases h
  have hidle (hpc : p.pc = .idle) : p.pc.buffer i = [] := by
    rw [hpc]
    rfl
  cases hst with
  | wait sources batch hpc hn he => exact .silent _ _ _ (hidle hpc)
  | waitFail hpc hb => exact .silent _ _ _ (hidle hpc)
  | dispatch e rest hpc hb =>
    apply Flow.silent
    unfold Daemon.dispatch
    split
    · split
      · rfl
      · exact hidle hpc
    · split
      · rfl
      · exact hidle hpc
    · split
      · rfl
      · exact hidle hpc
    · rw [Daemon.pc_onSignal]
      exact hidle hpc
  | handler a q o hh => exact handled_flow hh i

theorem fd_of_read {p q : Daemon.Proc n} {o : List (Daemon.Obs n)} {i : Fin n} {bs : Bytes}
    (h : Daemon.machine p (.read (.ok bs)) = some (q, o)) (hpc : p.pc = .wireRead i) : p.fd i .wire ≠ none := by
  have hopen : (p.look i).wire ≠ .closed → p.fd i .wire ≠ none :=
    fun hw hn => hw (Daemon.look_eq_closed_iff (r := .wire).mpr hn)
  obtain ⟨-, hst⟩ := Daemon.machine_cases h
  cases hst with
  | handler a q o hh =>
    rw [hpc] at hh
    cases hh with
    | readEof _ hw => exact hopen hw
    | readBytes _ _ hw hb => exact hopen hw

def pending (buf : Bytes) (v : Uart.WireView) : Bytes := buf ++ (v.readers.flatMap Uart.ReadPc.bytes ++ v.rx)

theorem pending_of_rx {buf : Bytes} {v v' : Uart.WireView} (hr : v'.readers = v.readers) (hx : v'.rx <+ v.rx) :
    pending buf v' <+ pending buf v := by
  unfold pending
  rw [hr]
  exact (hx.append_left _).append_left _

theorem moves_dev (i : Fin n) (o : List Uart.Obs) (h : ∀ bs, .queued bs ∉ o) :
    (o.map (Obs.dev i)).filterMap (move i) = [] := by
  rw [List.filterMap_map, List.filterMap_eq_nil_iff]
  intro ob hob
  cases ob with
  | queued bs => exact absurd hob (h bs)
  | _ => rfl

theorem eq_singleton_of_getElem? {α : Type} {l : List α} {k : ℕ} {x : α} (hl : l.length ≤ 1) (hk : l[k]? = some x) :
    l = [x] ∧ k = 0 := by
  obtain ⟨hlt, hx⟩ := List.getElem?_eq_some_iff.mp hk
  have h0 : k = 0 := by omega
  subst h0
  obtain ⟨y, hy⟩ := List.length_eq_one_iff.mp (show l.length = 1 by omega)
  subst hy
  exact ⟨by simpa using hx, rfl⟩

theorem wire_fresh {d : Uart.Dev} {a : Uart.Act} {v : Uart.WireView} {o : List Uart.Obs} {i : Fin n}
    {vs : List (Visit UInt8)} {buf : Bytes} (h : Uart.WireStep d a v o) (hone : d.readers.length ≤ 1)
    (ha : ∀ k, a ≠ .readReturn k) (hf : Fresh vs (pending buf d.wireView)) :
    Fresh (((o.map (Obs.dev i)).filterMap (move i)).foldl Visits.note vs) (pending buf v) := by
  cases h with
  | quiet a o ho =>
    rw [moves_dev i o ho]
    exact hf
  | queued hiFirst burst =>
    have hm := hf.arrived (burst.take (d.rxFifo.room burst))
    simpa [move, pending, Uart.Dev.wireView] using hm
  | alloc ok rxSz hp => exact hf.mono (pending_of_rx rfl (List.nil_sublist _))
  | shut ok => exact hf.mono (pending_of_rx rfl (List.nil_sublist _))
  | release => exact hf.mono (pending_of_rx rfl (List.nil_sublist _))
  | activate ok hp => exact hf
  | reset => exact hf
  | opening => exact hf
  | opened => exact hf
  | released => exact hf
  | readCall count nonblock =>
    apply hf.mono
    simp [pending, Uart.Dev.wireView, Uart.ReadPc.bytes]
  | readGoesOn k ok pc pc' hk hn hb =>
    obtain ⟨hr, rfl⟩ := eq_singleton_of_getElem? hone hk
    apply hf.mono
    simp [pending, Uart.Dev.wireView, hr, hb]
  | readTakes k ok rdSz nonblock r hk hr =>
    obtain ⟨hd, rfl⟩ := eq_singleton_of_getElem? hone hk
    apply hf.mono
    rcases hr with rfl | rfl
    · simp [pending, Uart.Dev.wireView, hd, Uart.ReadPc.bytes, Fifo.front]
    · simp [pending, Uart.Dev.wireView, hd, Uart.ReadPc.bytes, List.drop_sublist]
  | readReturn k r hk => exact absurd rfl (ha k)

theorem visits_append (os o : List (Obs n)) (i : Fin n) :
    visits (os ++ o) i = (o.filterMap (move i)).foldl Visits.note (visits os i) := by
  simp [visits, Visits.visits]

theorem moves_dev_of_ne {i j : Fin n} (h : j ≠ i) (o : List Uart.Obs) :
    (o.map (Obs.dev j)).filterMap (move i) = [] := by
  rw [List.filterMap_map, List.filterMap_eq_nil_iff]
  intro ob _
  cases ob with
  | queued bs => simp [move, h]
  | _ => rfl

theorem moves_daemon (i : Fin n) (o : List (Daemon.Obs n)) :
    (o.map Obs.daemon).filterMap (move i) = o.filterMap (daemonMove i) := by
  rw [List.filterMap_map]
  rfl

def FreshAt (os : List (Obs n)) (s : World n) (i : Fin n) : Prop :=
  Fresh (visits os i) (pending (s.proc.pc.buffer i) (s.dev i).wireView)

def accepting (s : World n) : Act n → Option (Fin n)
  | .daemon (.accept (some _)) =>
    match s.proc.pc with
    | .accept i => some i
    | _ => none
  | _ => none

def EmptyAtAccept (h : List (Obs n) × World n) (a : Act n) : Prop :=
  ∀ i, accepting h.2 a = some i → visits h.1 i ≠ [] → (h.2.dev i).rxFifo.data = []

instance (h : List (Obs n) × World n) (a : Act n) : Decidable (EmptyAtAccept h a) :=
  inferInstanceAs (Decidable (∀ _, _ → _ → _))

theorem fresh_kernel {os : List (Obs n)} {s : World n} {i : Fin n} {a : Uart.Act} {t : Uart.Sys} {o : List Uart.Obs}
    (hs : Synced s) (hp : permitted s i a = true) (hm : Uart.machine ⟨s.bus, s.dev i⟩ a = some (t, o)) {j : Fin n}
    (hf : FreshAt os s j) :
    FreshAt (os ++ o.map (.dev i)) { s with bus := t.bus, dev := Function.update s.dev i t.dev } j := by
  unfold FreshAt at hf ⊢
  rw [visits_append]
  by_cases hji : j = i
  · subst hji
    simp only [Function.update_self]
    refine wire_fresh (Uart.machine_wire hm) ?_ ?_ hf
    · by_cases hr : (s.dev j).readers = []
      · simp [hr]
      · obtain ⟨-, -, pc, hpc⟩ := hs j hr
        simp [hpc]
    · rintro k rfl
      cases hp
  · rw [moves_dev_of_ne (Ne.symm hji)]
    simp only [Function.update_of_ne hji]
    exact hf

theorem fresh_flow {vs : List (Visit UInt8)} {i : Fin n} {pc pc' : Daemon.Pc n} {a : Daemon.Act n}
    {ms : List (Move UInt8)} {v v' : Uart.WireView} (h : Flow i pc a pc' ms)
    (hf : Fresh vs (pending (pc.buffer i) v)) (hv : pending [] v' <+ pending [] v)
    (hopen : ∀ f, pc = .accept i → a = .accept (some f) → vs ≠ [] → pending [] v' = [])
    (hread : ∀ bs, pc = .wireRead i → a = .read (.ok bs) → pending bs v' <+ pending [] v) :
    Fresh (ms.foldl Visits.note vs) (pending (pc'.buffer i) v') := by
  have hdrop (buf : Bytes) : pending [] v <+ pending buf v := List.sublist_append_right buf _
  cases h with
  | opened f pc' hb =>
    rw [hb]
    exact hf.opened (hopen f rfl rfl)
  | silent pc a pc' hb =>
    rw [hb]
    exact hf.mono (hv.trans (hdrop _))
  | read bs =>
    have hbuf : (Daemon.Pc.send i bs).buffer i = bs := if_pos rfl
    rw [hbuf]
    exact hf.mono ((hread bs rfl rfl).trans (hdrop _))
  | sent buf a pc' bs hb hs =>
    rw [hb]
    have hbuf : (Daemon.Pc.send i buf).buffer i = buf := if_pos rfl
    rw [hbuf] at hf
    exact Fresh.sent (hf.mono (hs.append hv))

theorem fresh_daemon {os : List (Obs n)} {s : World n} {a : Daemon.Act n} {q : Daemon.Proc n}
    {o : List (Daemon.Obs n)} (hs : Synced s) (hg : EmptyAtAccept (os, s) (.daemon a))
    (hi : ∀ i, reading s.proc.pc = some i → s.proc.fd i .wire = none)
    (hm : Daemon.machine s.proc a = some (q, o)) {j : Fin n} (hf : FreshAt os s j) :
    FreshAt (os ++ o.map .daemon) { s with proc := q } j := by
  have hnone : (s.dev j).readers = [] := by
    by_contra hr
    obtain ⟨hreading, hfd, -⟩ := hs j hr
    exact hfd (hi j hreading)
  unfold FreshAt at hf ⊢
  rw [visits_append, moves_daemon]
  refine fresh_flow (machine_flow hm j) hf (List.Sublist.refl _) ?_ ?_
  · rintro f hpc rfl hne
    have hrx : (s.dev j).rxFifo.data = [] := hg j (by simp [accepting, hpc]) hne
    simp [pending, Uart.Dev.wireView, hnone, hrx]
  · rintro bs hpc rfl
    have hfd := fd_of_read hm hpc
    exact absurd (hi j (by rw [hpc]; rfl)) hfd

theorem fresh_read {os : List (Obs n)} {s : World n} {i : Fin n} {r : Except Errno Bytes} {q : Daemon.Proc n}
    {o : List (Daemon.Obs n)} (hi : reading s.proc.pc = some i) (hr : (s.dev i).readers = [.ret r])
    (hm : Daemon.machine s.proc (.read r) = some (q, o)) {j : Fin n} (hf : FreshAt os s j) :
    FreshAt (os ++ .dev i (.returned r) :: o.map .daemon)
      { s with dev := Function.update s.dev i { s.dev i with readers := [] }, proc := q } j := by
  have hmoves : (Obs.dev i (.returned r) :: o.map .daemon).filterMap (move j) = o.filterMap (daemonMove j) :=
    moves_daemon j o
  unfold FreshAt at hf ⊢
  rw [visits_append, hmoves]
  by_cases hji : j = i
  · subst hji
    simp only [Function.update_self]
    refine fresh_flow (machine_flow hm j) hf ?_ ?_ ?_
    · exact List.sublist_append_right _ _
    · rintro f - ha
      cases ha
    · rintro bs - ha
      cases ha
      simp [pending, Uart.Dev.wireView, hr, Uart.ReadPc.bytes]
  · simp only [Function.update_of_ne hji]
    refine fresh_flow (machine_flow hm j) hf (List.Sublist.refl _) ?_ ?_
    · rintro f - ha
      cases ha
    · rintro bs hpc -
      rw [hpc] at hi
      cases hi
      exact absurd rfl hji

theorem machine_fresh {os o : List (Obs n)} {s t : World n} {a : Act n} (hs : Synced s)
    (hg : EmptyAtAccept (os, s) a) (hm : machine s a = some (t, o)) {j : Fin n} (hf : FreshAt os s j) :
    FreshAt (os ++ o) t j := by
  cases machine_cases hm with
  | kernel i a t o hp hk => exact fresh_kernel hs hp hk hf
  | read i r q o hi hr hd => exact fresh_read hi hr hd hf
  | daemon a q o hi hw hd => exact fresh_daemon hs hg hi hd hf

theorem session_isolation {s₀ s : World n} {os hist : List (Obs n)} (h₀ : Started s₀)
    (h : Run (recorded machine) EmptyAtAccept ([], s₀) os (hist, s)) (i : Fin n) :
    (∀ v ∈ (visits os i).dropLast, v.sent <+ v.arrived) ∧
    ∀ v rest, visits os i = v :: rest → rest ≠ [] → (s.dev i).rxFifo.len ≤ v.arrived.length := by
  have hI := h.history (fun os h => h.1 = os ∧ Synced h.2 ∧ FreshAt os h.2 i)
    ⟨rfl, h₀.synced, Fresh.nil _⟩ (by
      rintro os ⟨hist, s⟩ a ⟨hist', t⟩ o ⟨rfl, hs, hf⟩ hg hm
      obtain ⟨t', hm', he⟩ := recorded_eq_some.mp hm
      cases he
      exact ⟨rfl, machine_synced hs hm', machine_fresh hs hg hm' hf⟩)
  obtain ⟨-, -, hf⟩ := hI
  refine ⟨hf.past, fun v rest hv hr => ?_⟩
  have hlen := (hf.last v rest hv hr).length_le
  have hrx : (s.dev i).wireView.rx.length = (s.dev i).rxFifo.len := rfl
  simp only [pending, List.length_append, hrx] at hlen
  omega

def firstSession : List (Act 1) := ttyOpened ++ connected ++ disconnected

theorem session_isolation_second_session : ∃ os hist s,
    Run (recorded machine) EmptyAtAccept ([], start 1) os (hist, s) ∧
    (visits os 0).map (fun v => (v.arrived, v.sent)) = [([65], [65]), ([], [])] ∧
    ∀ v ∈ (visits os 0).dropLast, v.sent <+ v.arrived := by
  obtain ⟨os, ⟨hist, s⟩, hr, hv⟩ := Run.exists_of_exec (M := recorded machine) (P := EmptyAtAccept)
    (s := ([], start 1)) (firstSession ++ connected ++ byteArrives ++ byteRelayed)
    (fun os _ => (visits os 0).map (fun v => (v.arrived, v.sent)) = [([65], [65]), ([], [])]) (by decide +kernel)
  exact ⟨os, hist, s, hr, hv, (session_isolation (started_start 1) hr 0).1⟩

/-- The byte that arrives between the drain and the next accept is sent to the new simulator. -/
theorem byte_between_sessions_is_sent : ¬ ∀ (os : List (Obs 1)) (s : World 1), Run machine Always (start 1) os s →
    ∀ i, ∀ v ∈ (visits os i).dropLast, v.sent <+ v.arrived := by
  intro h
  obtain ⟨os, s, hr, hv⟩ := Run.exists_of_exec (M := machine) (P := Always) (s := start 1)
    (firstSession ++ byteArrives ++ connected ++ byteRelayed)
    (fun os _ => (visits os 0).dropLast.map (fun v => (v.arrived, v.sent)) = [([], [65])]) (by decide +kernel)
  obtain ⟨v, hm, hp⟩ : ∃ v ∈ (visits os 0).dropLast, (v.arrived, v.sent) = (([], [65]) : Bytes × Bytes) := by
    rw [← List.mem_map, hv]
    exact List.mem_singleton_self _
  have hsub := h os s hr 0 v hm
  rw [Prod.mk.injEq] at hp
  rw [hp.1, hp.2] at hsub
  exact absurd hsub (by decide)

end VirtRtLab.Lab
