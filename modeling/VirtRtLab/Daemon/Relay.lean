import VirtRtLab.Lib.Relay
import VirtRtLab.Daemon.Invariant

namespace VirtRtLab.Daemon

open Kernel Transition

variable {n : ℕ} {p q : Proc n} {i : Fin n}

def Obs.event (i : Fin n) : Obs n → Option (Relay.Event UInt8)
  | .accepted j => if j = i then some .opened else none
  | .wireRead j bs => if j = i then some (.read bs) else none
  | .sent j bs whole => if j = i then some (.sent bs whole) else none
  | .clientClosed j => if j = i then some .closed else none
  | _ => none

def sessions (os : List (Obs n)) (i : Fin n) : List (Relay.Session UInt8) :=
  Relay.sessions (os.filterMap (Obs.event i))

def Pc.buffer (i : Fin n) : Pc n → Bytes
  | .send j buf => if j = i then buf else []
  | _ => []

def Proc.session (p : Proc n) (i : Fin n) : Option Bytes :=
  if (p.look i).client = .closed then none else some (p.pc.buffer i)

theorem session_closed (h : (p.look i).client = .closed) : p.session i = none := if_pos h

theorem session_open (h : (p.look i).client ≠ .closed) : p.session i = some (p.pc.buffer i) := if_neg h

theorem turn_silent (hl : (q.look i).client = .closed ↔ (p.look i).client = .closed) (hp : p.pc.buffer i = [])
    (hq : q.pc.buffer i = []) : Relay.Turn (p.session i) [] (q.session i) := by
  have he : q.session i = p.session i := by
    simp only [Proc.session, hl, hp, hq]
  rw [he]
  exact .silent _

theorem turn_open (hp : (p.look i).client ≠ .closed) (hq : (q.look i).client ≠ .closed) (hb : p.pc.buffer i = [])
    (hb' : q.pc.buffer i = []) : Relay.Turn (p.session i) [] (q.session i) :=
  turn_silent (iff_of_false hq hp) hb hb'

theorem turn_closed (hp : (p.look i).client = .closed) (hq : (q.look i).client = .closed) :
    Relay.Turn (p.session i) [] (q.session i) := by
  rw [session_closed hp, session_closed hq]
  exact .silent none

theorem client_of_waitClient (h : Sound True True q) (hpc : q.pc = .idle) (hs : (q.insts i).state = .waitClient) :
    (q.look i).client = .closed := by
  have hs' : (q.look i).state = .waitClient := hs
  rcases h.look_idle hpc i with hl | hl | hl | ⟨-, hl | ⟨-, hl⟩⟩
  · rw [hl]
    rfl
  · rw [hl] at hs'
    cases hs'
  · rw [hl]
    rfl
  · rw [hl]
    rfl
  · rw [hl]
    rfl

theorem client_of_finish {o : List (Obs n)} (h : Ok True True (finish p (enterWaitClient p i) o).1)
    (hs : (finish p (enterWaitClient p i) o).1.status = .running) :
    ((finish p (enterWaitClient p i) o).1.look i).client = .closed := by
  have hsound := h.sound hs
  unfold enterWaitClient at *
  cases ha : p.epollAdd i .server with
  | none =>
    rw [ha] at hs
    cases hs
  | some q =>
    rw [ha] at hsound
    exact client_of_waitClient hsound rfl (by simp [finish, Proc.setState])

theorem pc_finish {r : Option (Proc n)} {o : List (Obs n)} (hs : (finish p r o).1.status = .running) :
    (finish p r o).1.pc = .idle ∧ (finish p r o).2 = o := by
  cases r with
  | none => cases hs
  | some q => exact ⟨rfl, rfl⟩

theorem clientClose_events (hl : (p.look i).client ≠ .closed) :
    (clientClose p i).2.filterMap (Obs.event i) = [.closed] := by
  obtain ⟨f, hf⟩ : ∃ f, p.fd i .client = some f := fd_of_link hl
  simp [clientClose, hf, Obs.event]

theorem clientClose_eq_self (hl : (p.look i).client = .closed) : clientClose p i = (p, []) := by
  have hf : p.fd i .client = none := fd_eq_none_iff.mpr hl
  simp [clientClose, hf]

theorem turn_drain (hl : (p.look i).client = .closed ∨ p.pc.buffer i = [])
    (hq : ((closeClientAndDrain p i).1.look i).client = .closed) :
    Relay.Turn (p.session i) ((closeClientAndDrain p i).2.filterMap (Obs.event i))
      ((closeClientAndDrain p i).1.session i) := by
  rw [session_closed hq]
  by_cases hc : (p.look i).client = .closed
  · have ho : (closeClientAndDrain p i).2 = [] := by
      unfold closeClientAndDrain
      rw [clientClose_eq_self hc]
    rw [session_closed hc, ho]
    exact .silent none
  · have ho : (closeClientAndDrain p i).2.filterMap (Obs.event i) = [.closed] := clientClose_events hc
    rw [session_open hc, hl.resolve_left hc, ho]
    exact .closed

theorem client_of_drainGetfl {l : Look} (h : Fits True True (.drainGetfl i) l) : l.client = .closed := by
  rcases h with rfl | ⟨-, rfl | ⟨-, rfl⟩⟩
  · rfl
  · rfl
  · rfl

theorem turn_finish (hp : (p.look i).client = .closed) (hok : Ok True True (finish q (enterWaitClient q i) []).1)
    (hs : (finish q (enterWaitClient q i) []).1.status = .running) :
    Relay.Turn (p.session i) ((finish q (enterWaitClient q i) []).2.filterMap (Obs.event i))
      ((finish q (enterWaitClient q i) []).1.session i) := by
  rw [(pc_finish hs).2]
  exact turn_closed hp (client_of_finish hok hs)

theorem turn_reopenFail (h : Sound True True p) (hl : (p.look i).client ≠ .closed) (hb : p.pc.buffer i = []) :
    Relay.Turn (p.session i) ((.reopenFailed i :: (clientClose p i).2).filterMap (Obs.event i))
      (({ instanceDestroy (clientClose p i).1 i with pc := .idle } : Proc n).session i) := by
  have hd := destroyed_instanceDestroy (effect_clientClose h.owned i).owned i
  have hc : (Proc.look { instanceDestroy (clientClose p i).1 i with pc := .idle } i).client = .closed :=
    congrArg Look.client hd.look
  have ho : (Obs.reopenFailed i :: (clientClose p i).2).filterMap (Obs.event i) = [.closed] := clientClose_events hl
  rw [session_open hl, session_closed hc, hb, ho]
  exact .closed

theorem turn_reopened (h : Sound True True p) (hl : p.look i = .reopen) (hb : p.pc.buffer i = []) {f : ℕ}
    (hf : p.files f = none) {o : List (Obs n)} (hc : clientClose (p.store i .wire f) i = (q, o))
    (hok : Ok True True (finish q (enterWaitClient q i) o).1)
    (hs : (finish q (enterWaitClient q i) o).1.status = .running) :
    Relay.Turn (p.session i) ((finish q (enterWaitClient q i) o).2.filterMap (Obs.event i))
      ((finish q (enterWaitClient q i) o).1.session i) := by
  have he := effect_store h.owned (i := i) (r := .wire) (by rw [hl]; rfl) hf
  rw [hl] at he
  have ho : o.filterMap (Obs.event i) = [.closed] := by
    have ho' := clientClose_events (i := i) (p := p.store i .wire f) (by rw [he.look]; decide)
    rwa [hc] at ho'
  rw [(pc_finish hs).2, ho, session_closed (client_of_finish hok hs), session_open (by rw [hl]; decide), hb]
  exact .closed

theorem turn_sendShort {buf sent : Bytes} (hl : (p.look i).client ≠ .closed) (hpc : p.pc = .send i buf)
    (hb : sent <+: buf) (hq : ((closeClientAndDrain p i).1.look i).client = .closed) :
    Relay.Turn (p.session i) ((.sent i sent false :: (closeClientAndDrain p i).2).filterMap (Obs.event i))
      ((closeClientAndDrain p i).1.session i) := by
  have ho : (closeClientAndDrain p i).2.filterMap (Obs.event i) = [.closed] := clientClose_events hl
  rw [session_open hl, session_closed hq, List.filterMap_cons_some (b := .sent sent false) (by simp [Obs.event]), ho,
    hpc]
  simp only [Pc.buffer, ↓reduceIte]
  exact .sentShort buf sent hb

theorem handled_turn {a : Act n} {o : List (Obs n)} (h : Sound True True p) (hs : p.status = .running)
    (hi : p.pc.inst = some i) (hst : Handled p p.pc a q o) (hq : q.status = .running) :
    Relay.Turn (p.session i) (o.filterMap (Obs.event i)) (q.session i) := by
  have hok := (handled_next h hs hi allowed_true hst).ok
  have hbusy := h.busy i hi
  have hbusy' := (hok.sound hq).busy i
  have hj := hi
  generalize hpc : p.pc = pc at hst hbusy hj
  have hbuf : p.pc.buffer i = pc.buffer i := by rw [hpc]
  cases hst with
  | acceptFail k => exact turn_silent Iff.rfl hbuf rfl
  | accepted k f hf _ =>
    cases hj
    rcases hbusy with hl | ⟨-, -, hl⟩
    · obtain ⟨r, hr, he⟩ := effect_onAccepted h.owned hl hf
      have hc : (Proc.look { r with pc := .idle } i).client ≠ .closed := by
        rw [(he.pc .idle).look]
        decide
      simp only [hr, finish, session_closed (congrArg Look.client hl), session_open hc]
      simpa [Obs.event, Pc.buffer] using Relay.Turn.opened
    · rw [onAccepted_eq_none h.owned hl hf] at hq
      cases hq
  | readFail k e => exact turn_silent Iff.rfl hbuf rfl
  | readEof k hw =>
    cases hj
    have hl := hbusy' rfl
    exact turn_open (by rw [hbusy.relay_of_wire hw]; decide) (by rw [hl]; decide) hbuf rfl
  | readBytes k bs hw hb =>
    cases hj
    have hc : (p.look i).client ≠ .closed := by
      rw [hbusy.relay_of_wire hw]
      decide
    rw [session_open hc, session_open (p := { p with pc := .send i bs }) hc, hbuf]
    simpa [Obs.event, Pc.buffer] using Relay.Turn.read bs
  | wireClose k =>
    cases hj
    have hl := hbusy' rfl
    exact turn_open (by rw [hbusy]; decide) (by rw [hl]; decide) hbuf rfl
  | reopenFail k =>
    cases hj
    exact turn_reopenFail h (by rw [hbusy]; decide) hbuf
  | reopened k f hf q' o' hq' =>
    cases hj
    exact turn_reopened h hbusy hbuf hf hq' hok hq
  | sendAll k buf =>
    cases hj
    have hc : (p.look i).client ≠ .closed := by
      rw [hbusy]
      decide
    rw [session_open hc, session_open (p := { p with pc := .idle }) hc, hbuf]
    simpa [Obs.event, Pc.buffer] using Relay.Turn.sentAll buf
  | sendShort k buf r sent hc hr =>
    cases hj
    apply turn_sendShort (by rw [hbusy]; decide) hpc
    · rcases hr with ⟨-, rfl⟩ | ⟨nw, -, -, rfl⟩
      · exact List.nil_prefix
      · exact List.take_prefix nw buf
    · exact client_of_drainGetfl (hbusy' rfl)
  | recvEnd k r hr =>
    cases hj
    exact turn_drain (.inr hbuf) (client_of_drainGetfl (hbusy' rfl))
  | recvBytes k bs hc => exact turn_silent Iff.rfl hbuf rfl
  | written k buf r => exact turn_silent Iff.rfl hbuf rfl
  | getfl k hw => exact turn_silent Iff.rfl hbuf rfl
  | getflFail k =>
    cases hj
    exact turn_finish (client_of_drainGetfl hbusy) hok hq
  | setfl k save =>
    cases hj
    exact turn_closed (by rw [hbusy]; rfl) (by rw [hbusy' rfl]; rfl)
  | setflFail k save =>
    cases hj
    exact turn_finish (by rw [hbusy]; rfl) hok hq
  | drainEnd k save e => exact turn_silent Iff.rfl hbuf rfl
  | drainEof k save => exact turn_silent Iff.rfl hbuf rfl
  | drained k save bs hb => exact turn_silent Iff.rfl hbuf hbuf
  | drainClose k save =>
    cases hj
    exact turn_closed (by rw [hbusy]; rfl) (by rw [hbusy' rfl]; rfl)
  | drainReopenFail k save => exact turn_silent Iff.rfl hbuf rfl
  | drainReopened k save f hf =>
    cases hj
    exact turn_closed (by rw [hbusy]; rfl) (by rw [hbusy' rfl]; rfl)
  | restored k save ok q' hq' =>
    cases hj
    exact turn_finish (by rw [hbusy]; rfl) hok hq

theorem finish_events (p : Proc n) (r : Option (Proc n)) (o : List (Obs n)) (i : Fin n) :
    (finish p r o).2.filterMap (Obs.event i) = o.filterMap (Obs.event i) := by
  cases r with
  | none => simp [finish, Obs.event]
  | some q => rfl

theorem clientClose_events_of_ne {k : Fin n} (hk : k ≠ i) : (clientClose p k).2.filterMap (Obs.event i) = [] := by
  unfold clientClose
  split
  · rfl
  · simp [Obs.event, hk]

theorem handled_events_of_ne {k : Fin n} {a : Act n} {o : List (Obs n)} (hi : p.pc.inst = some k) (hk : k ≠ i)
    (hst : Handled p p.pc a q o) : o.filterMap (Obs.event i) = [] := by
  have hclose (p : Proc n) : (clientClose p k).2.filterMap (Obs.event i) = [] := clientClose_events_of_ne hk
  generalize p.pc = pc at hst hi
  cases hst with
  | accepted j f hf _ =>
    cases hi
    simp [finish_events, Obs.event, hk]
  | readBytes j bs hw hb =>
    cases hi
    simp [Obs.event, hk]
  | reopenFail j =>
    cases hi
    exact hclose p
  | reopened j f hf q' o' hq' =>
    cases hi
    have ho := hclose (p.store k .wire f)
    rw [hq'] at ho
    rw [finish_events]
    exact ho
  | sendAll j buf =>
    cases hi
    simp [Obs.event, hk]
  | sendShort j buf r sent hc hr =>
    cases hi
    have ho : (closeClientAndDrain p k).2.filterMap (Obs.event i) = [] := hclose p
    simp [Obs.event, hk, ho]
  | recvEnd j r hr =>
    cases hi
    exact hclose p
  | getflFail j => simp [finish_events]
  | setflFail j save => simp [finish_events]
  | restored j save ok q' hq' => simp [finish_events]
  | _ => rfl

theorem client_of_accept {l : Look} (h : Fits True True (.accept i) l) : l.client = .closed := by
  rcases h with rfl | ⟨-, -, rfl⟩
  · rfl
  · rfl

theorem handled_stop {a : Act n} {o : List (Obs n)} (h : Sound True True p) (hs : p.status = .running)
    (hi : p.pc.inst = some i) (hst : Handled p p.pc a q o) (hq : q.status ≠ .running) :
    ∃ φ, Relay.Turn (p.session i) (o.filterMap (Obs.event i)) φ ∧ (φ = none ∨ φ = some []) := by
  have hbusy := h.busy i hi
  have hj := hi
  generalize hpc : p.pc = pc at hst hbusy hj
  have hsilent (hc : (p.look i).client = .closed) {r : Proc n} :
      ∃ φ, Relay.Turn (p.session i) ((finish r (enterWaitClient r i) []).2.filterMap (Obs.event i)) φ ∧
        (φ = none ∨ φ = some []) := by
    rw [finish_events, session_closed hc]
    exact ⟨none, .silent none, .inl rfl⟩
  cases hst with
  | accepted k f hf _ =>
    cases hj
    rw [finish_events, session_closed (client_of_accept hbusy)]
    exact ⟨some [], by simpa [Obs.event] using Relay.Turn.opened, .inr rfl⟩
  | readEof k hw => exact absurd ((effect_epollDel h.owned (r := .wire) hw).status.trans hs) hq
  | wireClose k => exact absurd ((effect_close h.owned k .wire).status.trans hs) hq
  | reopenFail k =>
    have he := effect_clientClose h.owned k
    exact absurd (((destroyed_instanceDestroy he.owned k).status.trans he.status).trans hs) hq
  | reopened k f hf q' o' hq' =>
    cases hj
    have hl : p.look i = .reopen := hbusy
    have he := effect_store h.owned (i := i) (r := .wire) (by rw [hl]; rfl) hf
    have ho := clientClose_events (i := i) (p := p.store i .wire f) (by rw [he.look, hl]; decide)
    rw [hq'] at ho
    rw [finish_events, ho, session_open (by rw [hl]; decide), hpc]
    exact ⟨none, .closed, .inl rfl⟩
  | sendShort k buf r sent hc hr =>
    cases hj
    exact absurd ((effect_closeClientAndDrain h.owned hbusy).status.trans hs) hq
  | recvEnd k r hr =>
    cases hj
    rw [(status_closeClientAndDrain p i).trans hs] at hq
    exact absurd rfl hq
  | getflFail k =>
    cases hj
    exact hsilent (client_of_drainGetfl hbusy)
  | setfl k save => exact absurd ((effect_setNonblock h.owned k true).status.trans hs) hq
  | setflFail k save =>
    cases hj
    exact hsilent (by rw [hbusy]; rfl)
  | drainClose k save => exact absurd ((effect_close h.owned k .wire).status.trans hs) hq
  | restored k save ok q' hq' =>
    cases hj
    exact hsilent (by rw [hbusy]; rfl)
  | _ => exact absurd hs hq

def Carried (os : List (Obs n)) (p : Proc n) (i : Fin n) : Prop :=
  ∃ φ, Relay.Account (sessions os i) φ ∧ (φ = p.session i ∨ p.status ≠ .running ∧ (φ = none ∨ φ = some []))

theorem sessions_append (os o : List (Obs n)) (i : Fin n) :
    sessions (os ++ o) i = (o.filterMap (Obs.event i)).foldl Relay.note (sessions os i) := by
  simp [sessions, Relay.sessions]

theorem session_of_buffer (h : p.pc.buffer i = []) : p.session i = none ∨ p.session i = some [] := by
  by_cases hl : (p.look i).client = .closed
  · exact .inl (session_closed hl)
  · exact .inr ((session_open hl).trans (by rw [h]))

theorem buffer_of_inst (h : p.pc.inst ≠ some i) : p.pc.buffer i = [] := by
  cases hpc : p.pc with
  | send k buf =>
    have hk : k ≠ i := by simpa [hpc, Pc.inst] using h
    simp [Pc.buffer, hk]
  | _ => rfl

theorem Carried.keep {os : List (Obs n)} (h : Relay.Account (sessions os i) (p.session i)) (hb : p.pc.buffer i = [])
    (hq : q.session i = p.session i ∨ q.status ≠ .running) : Carried os q i := by
  refine ⟨p.session i, h, ?_⟩
  rcases hq with hq | hq
  · exact .inl hq.symm
  · exact .inr ⟨hq, session_of_buffer hb⟩

theorem carried_dispatch {os : List (Obs n)} {e : Event n} (h : Relay.Account (sessions os i) (p.session i))
    (hpc : p.pc = .idle) : Carried os (dispatch p e) i := by
  have hb : p.pc.buffer i = [] := by
    rw [hpc]
    rfl
  have hstart (pc : Pc n) (hb' : pc.buffer i = []) : Carried os { p with pc } i := by
    apply Carried.keep h hb (.inl _)
    simp only [Proc.session, hb, hb']
    rfl
  unfold dispatch
  split
  · split
    · exact hstart _ rfl
    · exact .keep h hb (.inl rfl)
  · split
    · exact hstart _ rfl
    · exact .keep h hb (.inl rfl)
  · split
    · exact hstart _ rfl
    · exact .keep h hb (.inl rfl)
  · exact .keep h hb (.inr (by simp [onSignal]))

theorem carried_handled {os o : List (Obs n)} {a : Act n} {k : Fin n} (h : Sound True True p)
    (hs : p.status = .running) (hk : p.pc.inst = some k) (hst : Handled p p.pc a q o)
    (ha : Relay.Account (sessions os i) (p.session i)) : Carried (os ++ o) q i := by
  by_cases hki : k = i
  · subst hki
    by_cases hq : q.status = .running
    · refine ⟨q.session k, ?_, .inl rfl⟩
      rw [sessions_append]
      exact ha.turn (handled_turn h hs hk hst hq)
    · obtain ⟨φ, ht, hφ⟩ := handled_stop h hs hk hst hq
      refine ⟨φ, ?_, .inr ⟨hq, hφ⟩⟩
      rw [sessions_append]
      exact ha.turn ht
  · have hnext := handled_next h hs hk allowed_true hst
    have hp : p.pc.buffer i = [] := by
      apply buffer_of_inst
      rw [hk]
      simpa using hki
    have hq : q.pc.buffer i = [] := by
      apply buffer_of_inst
      rcases hnext.pc with hn | hn
      · simp [hn]
      · rw [hn]
        simpa using hki
    have hsame : sessions (os ++ o) i = sessions os i := by
      rw [sessions_append, handled_events_of_ne hk hki hst]
      rfl
    unfold Carried
    rw [hsame]
    apply Carried.keep ha hp (.inl _)
    simp only [Proc.session, (hnext.other i (Ne.symm hki)).look, hp, hq]

theorem machine_carried {os o : List (Obs n)} {a : Act n} (h : Ok True True p) (hc : ∀ i, Carried os p i)
    (hm : machine p a = some (q, o)) (i : Fin n) : Carried (os ++ o) q i := by
  obtain ⟨hs, hst⟩ := machine_cases hm
  have ha : Relay.Account (sessions os i) (p.session i) := by
    obtain ⟨φ, ha, hφ | ⟨hn, -⟩⟩ := hc i
    · rwa [hφ] at ha
    · exact absurd hs hn
  cases hst with
  | wait sources batch hpc hn he =>
    rw [List.append_nil]
    exact .keep ha (by rw [hpc]; rfl) (.inl rfl)
  | waitFail hpc hb =>
    rw [List.append_nil]
    exact .keep ha (by rw [hpc]; rfl) (.inr (by simp))
  | dispatch e rest hpc hb =>
    rw [List.append_nil]
    exact carried_dispatch (p := { p with batch := rest }) ha hpc
  | handler a q o hh =>
    obtain ⟨k, hk⟩ := pc_inst_of_handled hh
    exact carried_handled (h.sound hs) hs hk hh ha

theorem run_carried {p₀ : Proc n} {os : List (Obs n)} (h₀ : Started p₀) (h : Run machine Always p₀ os p) :
    Ok True True p ∧ ∀ i, Carried os p i := by
  apply h.history (fun os p => Ok True True p ∧ ∀ i, Carried os p i)
  · refine ⟨h₀.ok, fun i => ⟨none, Relay.account_sessions_nil, .inl ?_⟩⟩
    rw [session_closed (by rw [h₀.look]; rfl)]
  · intro os t a u o hI _ hm
    exact ⟨machine_ok hI.1 allowed_true hm, machine_carried hI.1 hI.2 hm⟩

theorem relay_fidelity {p₀ : Proc n} {os : List (Obs n)} (h₀ : Started p₀) (h : Run machine Always p₀ os p)
    (i : Fin n) : ∀ s ∈ sessions os i, s.sent <+: s.reads ∧ s.late = [] ∧
      ((∀ buf, p.pc ≠ .send i buf) → s.sent ≠ s.reads → s.ended = true) := by
  intro s hs
  obtain ⟨φ, ha, hφ⟩ := (run_carried h₀ h).2 i
  obtain ⟨hp, hl, he⟩ := ha.fidelity hs
  refine ⟨hp, hl, fun hpc hne => ?_⟩
  rcases he hne with he | ⟨b, bs, rfl⟩
  · exact he
  · rcases hφ with hφ | ⟨-, hφ | hφ⟩
    · have hbuf : p.pc.buffer i = [] := by
        cases hq : p.pc with
        | send k buf =>
          have hk : k ≠ i := by
            rintro rfl
            exact hpc buf hq
          simp [Pc.buffer, hk]
        | _ => rfl
      rcases session_of_buffer hbuf with hn | hn
      · rw [hn] at hφ
        cases hφ
      · rw [hn] at hφ
        cases hφ
    · cases hφ
    · cases hφ

theorem relay_fidelity_short_send : ∃ os p, Run machine Always (start 1) os p ∧
    ((sessions os 0).map (fun s => (s.reads, s.sent)) = [([], []), ([1, 2, 3, 4], [1, 2, 3])] ∧ p.pc = .idle) ∧
    ∀ s ∈ sessions os 0, s.sent <+: s.reads ∧ s.late = [] ∧ (s.sent ≠ s.reads → s.ended = true) := by
  obtain ⟨os, p, hr, hp⟩ := Run.exists_of_exec (M := machine) (P := Always) (s := start 1)
    [.wait [.fd 1], .dispatch, .accept (some 2), .wait [.fd 0], .dispatch, .read (.ok [1, 2]), .send (.ok 2),
      .wait [.fd 0, .fd 2], .dispatch, .read (.ok [3, 4]), .send (.ok 1), .fcntl true, .fcntl true,
      .read (.error .eagain), .fcntl true, .dispatch, .wait [.fd 1], .dispatch, .accept (some 2)]
    (fun os p => (sessions os 0).map (fun s => (s.reads, s.sent)) = [([], []), ([1, 2, 3, 4], [1, 2, 3])] ∧
      p.pc = .idle) (by decide +kernel)
  refine ⟨os, p, hr, hp, fun s hs => ?_⟩
  obtain ⟨h1, h2, h3⟩ := relay_fidelity (started_start 1) hr 0 s hs
  exact ⟨h1, h2, h3 (by simp [hp.2])⟩

end VirtRtLab.Daemon
