import VirtRtLab.Daemon.Relay

namespace VirtRtLab.Daemon

open Kernel Transition

variable {n : ℕ} {p q : Proc n} {i k : Fin n}

def Pc.handling : Pc n → Option (Event n)
  | .accept i => some (.ready i .server)
  | .wireRead i => some (.ready i .wire)
  | .clientRecv i => some (.ready i .client)
  | _ => none

def Pc.served : Pc n → List (Event n)
  | .accept i => [.ready i .server, .ready i .wire, .ready i .client]
  | .wireRead i | .send i _ => [.ready i .wire]
  | .clientRecv i => [.ready i .client]
  | _ => []

/-- One batch holds no event twice, and nothing else of an instance that still waits for its client. -/
structure Batched (p : Proc n) : Prop where
  nodup : p.batch.Nodup
  server : ∀ i r, .ready i .server ∈ p.batch → .ready i r ∈ p.batch → r = .server
  served : ∀ e ∈ p.pc.served, e ∉ p.batch

theorem event_inj (h : Owned p) {s s' : Source} {e : Event n} (hs : event p s = some e) (hs' : event p s' = some e) :
    s = s' := by
  cases s with
  | fd f =>
    simp only [event, Option.map_eq_some_iff] at hs
    obtain ⟨⟨i, r⟩, hw, rfl⟩ := hs
    cases s' with
    | fd g =>
      simp only [event, Option.map_eq_some_iff, Event.ready.injEq] at hs'
      obtain ⟨⟨j, r'⟩, hw', rfl, rfl⟩ := hs'
      have hf := h.fd_of_watched f _ _ hw
      have hg := h.fd_of_watched g _ _ hw'
      rw [hf, Option.some.injEq] at hg
      rw [hg]
    | signal => simp [event] at hs'
  | signal =>
    cases s' with
    | fd g =>
      simp only [event, Option.some.injEq] at hs
      subst hs
      simp [event] at hs'
    | signal => rfl

theorem batch_nodup (h : Owned p) {sources : List Source} {batch : List (Event n)} (hn : sources.Nodup)
    (hm : sources.mapM (event p) = some batch) : batch.Nodup := by
  induction sources generalizing batch with
  | nil =>
    simp only [List.mapM_nil, Option.pure_def, Option.some.injEq] at hm
    rw [← hm]
    exact List.nodup_nil
  | cons s sources ih =>
    simp only [List.mapM_cons, Option.pure_def, Option.bind_eq_bind, Option.bind_eq_some_iff, Option.some.injEq] at hm
    obtain ⟨e, hs, batch', hm', rfl⟩ := hm
    rw [List.nodup_cons] at hn ⊢
    refine ⟨fun he => ?_, ih hn.2 hm'⟩
    obtain ⟨s', hs', he'⟩ := event_of_mem hm' he
    rw [event_inj h hs he'] at hn
    exact hn.1 hs'

theorem batched_wait (h : Sound True True p) (hpc : p.pc = .idle) {sources : List Source} {batch : List (Event n)}
    (hn : sources.Nodup) (hm : sources.mapM (event p) = some batch) : Batched { p with batch } := by
  refine ⟨batch_nodup h.owned hn hm, fun i r hs hr => ?_, fun e he => ?_⟩
  · have hs' : (p.look i).server = .watched := watched_of_mem h.owned hm hs
    have hr' : (p.look i).get r = .watched := watched_of_mem h.owned hm hr
    rcases h.look_idle hpc i with hl | hl | hl | ⟨-, hl | ⟨-, hl⟩⟩
    all_goals rw [hl] at hs' hr'
    · cases r with
      | server => rfl
      | wire | client => cases hr'
    · cases hs'
    · cases hs'
    · cases hs'
    · cases r with
      | server => rfl
      | wire | client => cases hr'
  · have he' : e ∈ p.pc.served := he
    rw [hpc] at he'
    cases he'

theorem batch_dispatch (e : Event n) (he : ∃ i r, e = .ready i r) : (dispatch p e).batch = p.batch := by
  obtain ⟨i, r, rfl⟩ := he
  cases r <;> simp only [dispatch] <;> split <;> rfl

theorem handling_dispatch (hpc : p.pc = .idle) {e e' : Event n} (h : (dispatch p e).pc.handling = some e') :
    e' = e := by
  have hidle : p.pc.handling = none := by
    rw [hpc]
    rfl
  cases e with
  | ready i r =>
    cases r <;> simp only [dispatch] at h <;> split at h
    · exact (Option.some.inj h).symm
    · simp [hidle] at h
    · exact (Option.some.inj h).symm
    · simp [hidle] at h
    · exact (Option.some.inj h).symm
    · simp [hidle] at h
  | signal =>
    rw [dispatch, pc_onSignal, hidle] at h
    cases h

theorem served_dispatch (hpc : p.pc = .idle) {e e' : Event n} (h : e' ∈ (dispatch p e).pc.served) :
    e' = e ∨ ∃ i r, e = .ready i .server ∧ e' = .ready i r := by
  have hidle : p.pc.served = [] := by
    rw [hpc]
    rfl
  cases e with
  | ready i r =>
    cases r <;> simp only [dispatch] at h <;> split at h
    · exact .inl (List.mem_singleton.mp h)
    · simp [hidle] at h
    · right
      simp only [Pc.served, List.mem_cons, List.not_mem_nil, or_false] at h
      rcases h with rfl | rfl | rfl <;> exact ⟨i, _, rfl, rfl⟩
    · simp [hidle] at h
    · exact .inl (List.mem_singleton.mp h)
    · simp [hidle] at h
  | signal =>
    rw [dispatch, pc_onSignal, hidle] at h
    cases h

theorem batched_dispatch (h : Batched p) (hpc : p.pc = .idle) {e : Event n} {rest : List (Event n)}
    (hb : p.batch = e :: rest) (hs : (dispatch { p with batch := rest } e).status = .running) :
    Batched (dispatch { p with batch := rest } e) := by
  have hready : ∃ i r, e = .ready i r := by
    cases e with
    | ready i r => exact ⟨i, r, rfl⟩
    | signal => cases hs
  have hbatch : (dispatch { p with batch := rest } e).batch = rest := batch_dispatch e hready
  have hn := h.nodup
  have hserver := h.server
  rw [hb] at hn hserver
  rw [List.nodup_cons] at hn
  constructor
  · rw [hbatch]
    exact hn.2
  · intro i r hs hr
    rw [hbatch] at hs hr
    exact hserver i r (List.mem_cons_of_mem e hs) (List.mem_cons_of_mem e hr)
  · intro e' he' hmem
    rw [hbatch] at hmem
    rcases served_dispatch (p := { p with batch := rest }) hpc he' with rfl | ⟨i, r, rfl, rfl⟩
    · exact hn.1 hmem
    · obtain rfl := hserver i r List.mem_cons_self (List.mem_cons_of_mem _ hmem)
      exact hn.1 hmem

theorem served_handled {a : Act n} {o : List (Obs n)} (h : Handled p p.pc a q o) (hs : q.status = .running)
    {e : Event n} (he : e ∈ q.pc.served) : e ∈ p.pc.served := by
  have hfinish {q' : Proc n} {r : Option (Proc n)} {o : List (Obs n)} (hs : (finish q' r o).1.status = .running) :
      e ∉ (finish q' r o).1.pc.served := by
    rw [(pc_finish hs).1]
    exact List.not_mem_nil
  generalize hpc : p.pc = pc at h
  cases h with
  | accepted | reopened | getflFail | setflFail | restored => exact absurd he (hfinish hs)
  | readBytes => exact he
  | drained =>
    rw [hpc] at he
    exact he
  | _ => cases he

theorem batched_handled {a : Act n} {o : List (Obs n)} (hsound : Sound True True p) (hs : p.status = .running)
    (h : Batched p) (hh : Handled p p.pc a q o) (hq : q.status = .running) : Batched q := by
  obtain ⟨k, hk⟩ := pc_inst_of_handled hh
  have hb := (handled_next hsound hs hk allowed_true hh).batch
  constructor
  · rw [hb]
    exact h.nodup
  · rw [hb]
    exact h.server
  · intro e he
    rw [hb]
    exact h.served e (served_handled hh hq he)

theorem machine_batched {a : Act n} {o : List (Obs n)} (hok : Ok True True p) (h : Batched p)
    (hm : machine p a = some (q, o)) (hq : q.status = .running) : Batched q := by
  obtain ⟨hs, hst⟩ := machine_cases hm
  cases hst with
  | wait sources batch hpc hn he => exact batched_wait (hok.sound hs) hpc hn he
  | waitFail hpc hb => cases hq
  | dispatch e rest hpc hb => exact batched_dispatch h hpc hb hq
  | handler a q o hh => exact batched_handled (hok.sound hs) hs h hh hq

theorem Started.batched (h : Started p) : Batched p := by
  refine ⟨?_, fun i r hi => ?_, fun e _ => ?_⟩
  · rw [h.batch]
    exact List.nodup_nil
  · rw [h.batch] at hi
    cases hi
  · simp [h.batch]

theorem handling_handled {a : Act n} {o : List (Obs n)} (h : Handled p p.pc a q o) (hs : q.status = .running) :
    q.pc.handling = none := by
  generalize hpc : p.pc = pc at h
  have hfinish {q' : Proc n} {r : Option (Proc n)} {o : List (Obs n)} (hs : (finish q' r o).1.status = .running) :
      (finish q' r o).1.pc.handling = none := by
    rw [(pc_finish hs).1]
    rfl
  cases h with
  | accepted | reopened | getflFail | setflFail | restored => exact hfinish hs
  | drained =>
    rw [hpc]
    rfl
  | _ => rfl

theorem relay_handled {a : Act n} {o : List (Obs n)} (h : Sound True True p) (hs : p.status = .running)
    (hk : p.pc.inst = some k) (hh : Handled p p.pc a q o) (hq : q.status = .running) (hn : p.pc ≠ .accept k)
    (hl : q.look k = .relay) : p.look k = .relay := by
  have hok := (handled_next h hs hk allowed_true hh).ok
  have hbusy := (hok.sound hq).busy k
  have hclient : (q.look k).client ≠ .closed := by
    rw [hl]
    decide
  have hj := hk
  generalize hpc : p.pc = pc at hh hj
  rw [hpc] at hn
  cases hh with
  | acceptFail | accepted =>
    cases hj
    exact absurd rfl hn
  | readFail | readBytes | sendAll | recvBytes | written => exact hl
  | sendShort j | recvEnd j =>
    cases hj
    exact absurd (client_of_drainGetfl (hbusy rfl)) hclient
  | reopenFail j =>
    cases hj
    have hd := destroyed_instanceDestroy (effect_clientClose h.owned k).owned k
    exact absurd (congrArg Look.client hd.look) hclient
  | reopened j f hf q' o' hq' =>
    cases hj
    exact absurd (client_of_finish hok hq) hclient
  | getflFail | setflFail | restored =>
    cases hj
    exact absurd (client_of_finish hok hq) hclient
  | drainReopenFail j save => exact hl
  | drained j save bs hb => exact hl
  | readEof | wireClose | getfl | setfl | drainEnd | drainEof | drainClose | drainReopened =>
    cases hj
    rw [hbusy rfl] at hl
    cases hl

end VirtRtLab.Daemon
