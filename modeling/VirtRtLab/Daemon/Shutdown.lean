import VirtRtLab.Daemon.Invariant

namespace VirtRtLab.Daemon

open Kernel Transition

variable {n : ℕ} {p q : Proc n} {os : List (Obs n)}

structure Released (p : Proc n) : Prop where
  fds : ∀ i r, p.fd i r = none
  files : ∀ f, p.files f = none
  watched : ∀ f, p.watched f = none
  paths : ∀ i, p.paths i = false

theorem closed_of_untouched {i : Fin n} (h : Untouched p q i) {s : InstState}
    (hl : p.look i = ⟨s, .closed, .closed, .closed⟩) : q.look i = ⟨s, .closed, .closed, .closed⟩ := by
  rw [h.look]
  exact hl

theorem destroyed_loop (is : List (Fin n)) (h : Owned p) :
    Owned (is.foldl instanceDestroy p) ∧ (∀ j, j ∉ is → Untouched p (is.foldl instanceDestroy p) j) ∧
      ∀ i ∈ is, (∃ s, (is.foldl instanceDestroy p).look i = ⟨s, .closed, .closed, .closed⟩) ∧
        (is.foldl instanceDestroy p).paths i = false := by
  induction is generalizing p with
  | nil => exact ⟨h, fun j _ => Untouched.refl p j, fun i hi => absurd hi (List.not_mem_nil)⟩
  | cons k is ih =>
    have hk := destroyed_instanceDestroy h k
    obtain ⟨howned, hother, hvisited⟩ := ih hk.owned
    rw [List.foldl_cons]
    refine ⟨howned, fun j hj => ?_, fun i hi => ?_⟩
    · obtain ⟨hjk, hj⟩ := not_or.mp (fun ho => hj (List.mem_cons.mpr ho))
      exact (hk.other j hjk).trans (hother j hj)
    · by_cases his : i ∈ is
      · exact hvisited i his
      · have hik : i = k := by
          rcases List.mem_cons.mp hi with hik | hmem
          · exact hik
          · exact absurd hmem his
        subst hik
        have hsame := hother i his
        refine ⟨⟨_, closed_of_untouched hsame hk.look⟩, ?_⟩
        rw [hsame.path]
        exact hk.path

theorem released_onSignal (h : Owned p) : Released (onSignal p) := by
  obtain ⟨howned, -, hvisited⟩ := destroyed_loop (List.finRange n) h
  have hfds : ∀ i r, (onSignal p).fd i r = none := by
    intro i r
    obtain ⟨⟨s, hl⟩, -⟩ := hvisited i (List.mem_finRange i)
    apply look_eq_closed_iff.mp
    have hlook : (onSignal p).look i = ⟨s, .closed, .closed, .closed⟩ := hl
    rw [hlook]
    cases r <;> rfl
  refine ⟨hfds, fun f => ?_, fun f => ?_, fun i => (hvisited i (List.mem_finRange i)).2⟩
  · cases hf : (onSignal p).files f with
    | none => rfl
    | some file =>
      have hfd : (onSignal p).fd file.inst file.role = some f := howned.fd_of_file f _ _ file.nonblock hf
      rw [hfds] at hfd
      cases hfd
  · cases hf : (onSignal p).watched f with
    | none => rfl
    | some x =>
      have hfd : (onSignal p).fd x.1 x.2 = some f := howned.fd_of_watched f _ _ hf
      rw [hfds] at hfd
      cases hfd

section Status

variable (p : Proc n) (i : Fin n) (r : Role)

theorem status_close : (p.close i r).status = p.status := by
  unfold Proc.close
  split
  · rfl
  · rfl

theorem status_epollDel : (p.epollDel i r).status = p.status := by
  unfold Proc.epollDel
  split
  · rfl
  · rfl

theorem status_epollAdd (h : p.epollAdd i r = some q) : q.status = p.status := by
  unfold Proc.epollAdd at h
  split at h
  · cases h
  · split at h
    · cases h
    · cases h
      rfl

theorem status_clientClose : (clientClose p i).1.status = p.status := by
  unfold clientClose
  split
  · rfl
  · exact status_close p i .client

theorem status_instanceDestroy : (instanceDestroy p i).status = p.status := by
  unfold instanceDestroy
  rw [status_close, status_close, status_close]

theorem status_setNonblock (v : Bool) : (p.setNonblock i v).status = p.status := by
  unfold Proc.setNonblock
  split
  · rfl
  · rfl

theorem status_enterWaitClient (h : enterWaitClient p i = some q) : q.status = p.status := by
  obtain ⟨q', hq, rfl⟩ := Option.map_eq_some_iff.mp h
  have hadd : q'.status = p.status := status_epollAdd p i .server hq
  exact hadd

theorem status_onAccepted {f : ℕ} (h : onAccepted p i f = some q) : q.status = p.status := by
  obtain ⟨q', hq, rfl⟩ := Option.map_eq_some_iff.mp h
  obtain ⟨q'', hq', hq⟩ := Option.bind_eq_some_iff.mp hq
  have hclient : q'.status = q''.status := status_epollAdd q'' i .client hq
  have hwire : q''.status = _ := status_epollAdd _ i .wire hq'
  have hdel := status_epollDel (p.store i .client f) i .server
  exact (hclient.trans hwire).trans hdel

end Status

theorem finish_goes_on {r : Option (Proc n)} (hr : ∀ q', r = some q' → q'.status = p.status)
    (hs : p.status = .running) (o : List (Obs n)) : (finish q r o).1.status ≠ .exited := by
  cases r with
  | none => simp [finish]
  | some q' =>
    have hq := (hr q' rfl).trans hs
    simp [finish, hq]

theorem handled_goes_on {a : Act n} {o : List (Obs n)} (h : Handled p p.pc a q o) (hs : p.status = .running) :
    q.status ≠ .exited := by
  have hsame (he : q.status = p.status) : q.status ≠ .exited := by
    rw [he, hs]
    decide
  generalize p.pc = pc at h
  cases h with
  | accepted i f => exact finish_goes_on (fun _ hq => status_onAccepted p i hq) hs _
  | readEof i => exact hsame (status_epollDel p i .wire)
  | wireClose i => exact hsame (status_close p i .wire)
  | reopenFail i => exact hsame ((status_instanceDestroy _ i).trans (status_clientClose p i))
  | reopened i f hf q' o' hq =>
    have hc := status_clientClose (p.store i .wire f) i
    rw [hq] at hc
    exact finish_goes_on (fun _ he => (status_enterWaitClient q' i he).trans hc) hs _
  | sendShort i => exact hsame (status_closeClientAndDrain p i)
  | recvEnd i => exact hsame (status_closeClientAndDrain p i)
  | getflFail i => exact finish_goes_on (fun _ he => status_enterWaitClient p i he) hs _
  | setfl i => exact hsame (status_setNonblock p i true)
  | setflFail i => exact finish_goes_on (fun _ he => status_enterWaitClient p i he) hs _
  | drainClose i => exact hsame (status_close p i .wire)
  | restored i save ok q' hq =>
    have hrestore : q'.status = p.status := by
      rw [hq]
      split
      · exact status_setNonblock p i save
      · rfl
    exact finish_goes_on (fun _ he => (status_enterWaitClient q' i he).trans hrestore) hs _
  | _ => exact hsame rfl

theorem dispatch_goes_on {e : Event n} (he : e ≠ .signal) :
    (dispatch p e).status = p.status ∧ (dispatch p e).batch = p.batch := by
  unfold dispatch
  split
  · split
    · exact ⟨rfl, rfl⟩
    · exact ⟨rfl, rfl⟩
  · split
    · exact ⟨rfl, rfl⟩
    · exact ⟨rfl, rfl⟩
  · split
    · exact ⟨rfl, rfl⟩
    · exact ⟨rfl, rfl⟩
  · exact absurd rfl he

def Act.waitFails : Act n → Bool
  | .waitFail => true
  | _ => false

structure Closing (pending : Prop) (p : Proc n) : Prop where
  ok : Ok True True p
  batch : p.status = .running → pending → .signal ∈ p.batch
  exited : p.status = .exited → Released p

theorem machine_closing {pending : Prop} {a : Act n} {o : List (Obs n)} (h : Closing pending p)
    (ha : pending ∨ a.waitFails = false) (hm : machine p a = some (q, o)) : Closing pending q := by
  have hok := machine_ok h.ok allowed_true hm
  obtain ⟨hs, hst⟩ := machine_cases hm
  have hsound := h.ok.sound hs
  cases hst with
  | wait sources batch hpc hn he =>
    refine ⟨hok, fun _ hp => ?_, fun hx => ?_⟩
    · have hempty : p.batch = [] := by
        unfold machine at hm
        simp only [hs, hpc, ne_eq, not_true_eq_false, ↓reduceIte] at hm
        split at hm
        · rename_i hg
          exact hg.1
        · cases hm
      have hmem := h.batch hs hp
      rw [hempty] at hmem
      cases hmem
    · have hrun : p.status = .exited := hx
      rw [hs] at hrun
      cases hrun
  | waitFail hpc hb =>
    rcases ha with hp | hf
    · have hmem := h.batch hs hp
      rw [hb] at hmem
      cases hmem
    · cases hf
  | dispatch e rest hpc hb =>
    by_cases he : e = .signal
    · subst he
      refine ⟨hok, fun hx => ?_, fun _ => ?_⟩
      · cases hx
      · exact released_onSignal (p := { p with batch := rest })
          ⟨hsound.owned.file_of_fd, hsound.owned.fd_of_file, hsound.owned.fd_of_watched⟩
    · obtain ⟨hstatus, hbatch⟩ := dispatch_goes_on (p := { p with batch := rest }) he
      refine ⟨hok, fun _ hp => ?_, fun hx => ?_⟩
      · have hmem := h.batch hs hp
        rw [hb] at hmem
        rw [hbatch]
        rcases List.mem_cons.mp hmem with hsig | hrest
        · exact absurd hsig.symm he
        · exact hrest
      · have hrun : p.status = .exited := hstatus.symm.trans hx
        rw [hs] at hrun
        cases hrun
  | handler a q o hh =>
    obtain ⟨i, hi⟩ := pc_inst_of_handled hh
    have hnext := handled_next hsound hs hi allowed_true hh
    refine ⟨hok, fun _ hp => ?_, fun hx => absurd hx (handled_goes_on hh hs)⟩
    rw [hnext.batch]
    exact h.batch hs hp

/-- While the daemon runs, every open descriptor is the field of the one instance it serves. Once a signal is reported
it is not forgotten, and where it ends the daemon, no descriptor, no epoll entry and no socket file is left. -/
theorem signal_shuts_down {p₀ : Proc n} (h₀ : Started p₀)
    (h : Run machine (fun _ a => a.waitFails = false) p₀ os p) :
    (p.status = .running → Owned p) ∧ (p.status = .exited → Released p) ∧
      ∀ os' q, p.status = .running → .signal ∈ p.batch → Run machine Always p os' q →
        q.status = .running ∧ .signal ∈ q.batch ∨ q.status = .aborted ∨ q.status = .exited ∧ Released q := by
  have hclosing : Closing False p := by
    apply h.invariant (Closing False)
    · refine ⟨h₀.ok, fun _ hf => hf.elim, fun hx => ?_⟩
      rw [h₀.status] at hx
      cases hx
    · intro t a u o ht ha hm
      exact machine_closing ht (.inr ha) hm
  refine ⟨fun hs => (hclosing.ok.sound hs).owned, hclosing.exited, fun os' q hs hsig hrun => ?_⟩
  have hend : Closing True q := by
    apply hrun.invariant (Closing True)
    · exact ⟨hclosing.ok, fun _ _ => hsig, hclosing.exited⟩
    · intro t a u o ht _ hm
      exact machine_closing ht (.inl trivial) hm
  cases hq : q.status with
  | running => exact .inl ⟨rfl, hend.batch hq trivial⟩
  | aborted => exact .inr (.inl rfl)
  | exited => exact .inr (.inr ⟨rfl, hend.exited hq⟩)

def interrupted : List (Act 1) :=
  [.wait [.fd 1], .dispatch, .accept (some 7), .wait [.signal, .fd 0], .dispatch]

theorem signal_shuts_down_serving : ∃ os p, Run machine (fun _ a => a.waitFails = false) (start 1) os p ∧
    p.status = .exited ∧ Obs.accepted 0 ∈ os ∧ Released p := by
  obtain ⟨os, p, hrun, hs, ho⟩ := Run.exists_of_exec (M := machine) (P := fun _ a => a.waitFails = false)
    (s := start 1) interrupted (fun os p => p.status = .exited ∧ Obs.accepted 0 ∈ os) (by decide +kernel)
  exact ⟨os, p, hrun, hs, ho, (signal_shuts_down (started_start 1) hrun).2.1 hs⟩

end VirtRtLab.Daemon
