import VirtRtLab.Daemon.Links

namespace VirtRtLab.Daemon

open Kernel

variable {n : ℕ}

namespace Look

def wait : Look := ⟨.waitClient, .opened, .watched, .closed⟩
def relay : Look := ⟨.relaying, .watched, .opened, .watched⟩
def offline : Look := ⟨.relaying, .closed, .closed, .closed⟩

def drain : Look := ⟨.relaying, .opened, .opened, .closed⟩

def unwatched : Look := ⟨.relaying, .opened, .opened, .watched⟩
def reopen : Look := ⟨.relaying, .closed, .opened, .watched⟩

def noWire : Look := ⟨.relaying, .closed, .opened, .closed⟩

def lost : Look := ⟨.waitClient, .closed, .watched, .closed⟩

end Look

theorem effect_clientClose {p : Proc n} (h : Owned p) (i : Fin n) :
    Effect p (clientClose p i).1 i ((p.look i).set .client .closed) := by
  have hc := effect_close h i .client
  cases hf : p.fd i .client with
  | none => simpa [clientClose, hf, Proc.close] using hc
  | some f => simpa [clientClose, hf] using hc

theorem effect_enterWaitClient {p : Proc n} (h : Owned p) {i : Fin n} (hl : (p.look i).server = .opened) :
    ∃ q, enterWaitClient p i = some q ∧
      Effect p q i { p.look i with state := .waitClient, server := .watched } := by
  obtain ⟨q, hq, he⟩ := effect_epollAdd h (r := .server) hl
  refine ⟨q.setState i .waitClient, by simp [enterWaitClient, hq], ?_⟩
  have hs := effect_setState he.owned i .waitClient
  rw [he.look] at hs
  exact he.trans hs

theorem enterWaitClient_eq_none {p : Proc n} {i : Fin n} (hl : (p.look i).server ≠ .opened) :
    enterWaitClient p i = none := by
  simp [enterWaitClient, epollAdd_eq_none (r := .server) hl]

theorem effect_onAccepted {p : Proc n} (h : Owned p) {i : Fin n} {f : ℕ} (hl : p.look i = .wait)
    (hf : p.files f = none) : ∃ q, onAccepted p i f = some q ∧ Effect p q i .relay := by
  have h1 := effect_store h (i := i) (r := .client) (by rw [hl]; rfl) hf
  rw [hl] at h1
  have h2 := effect_epollDel h1.owned (i := i) (r := .server) (by rw [h1.look]; decide)
  rw [h1.look] at h2
  obtain ⟨q3, hq3, h3⟩ := effect_epollAdd h2.owned (i := i) (r := .wire) (by rw [h2.look]; rfl)
  rw [h2.look] at h3
  obtain ⟨q4, hq4, h4⟩ := effect_epollAdd h3.owned (i := i) (r := .client) (by rw [h3.look]; rfl)
  rw [h3.look] at h4
  have h5 := effect_setState h4.owned i .relaying
  rw [h4.look] at h5
  refine ⟨q4.setState i .relaying, by simp [onAccepted, hq3, hq4], ?_⟩
  exact (((h1.trans h2).trans h3).trans h4).trans h5

theorem onAccepted_eq_none {p : Proc n} (h : Owned p) {i : Fin n} {f : ℕ} (hl : p.look i = .lost)
    (hf : p.files f = none) : onAccepted p i f = none := by
  have h1 := effect_store h (i := i) (r := .client) (by rw [hl]; rfl) hf
  rw [hl] at h1
  have h2 := effect_epollDel h1.owned (i := i) (r := .server) (by rw [h1.look]; decide)
  rw [h1.look] at h2
  have h3 := epollAdd_eq_none (i := i) (r := .wire) (p := (p.store i .client f).epollDel i .server)
    (by rw [h2.look]; decide)
  simp [onAccepted, h3]

theorem effect_closeClientAndDrain {p : Proc n} (h : Owned p) {i : Fin n} (hl : p.look i = .relay) :
    Effect p (closeClientAndDrain p i).1 i .drain := by
  have h1 := effect_clientClose h i
  rw [hl] at h1
  have h2 := effect_epollDel h1.owned (i := i) (r := .wire) (by rw [h1.look]; decide)
  rw [h1.look] at h2
  exact (h1.trans h2).pc (.drainGetfl i)

theorem effect_closeClientAndDrain_of_closed {p : Proc n} (h : Owned p) {i : Fin n}
    (hw : (p.look i).wire = .closed) (hc : (p.look i).client = .closed) :
    Effect p (closeClientAndDrain p i).1 i (p.look i) := by
  have h1 := effect_clientClose h i
  rw [set_of_get (r := .client) hc] at h1
  have h2 := epollDel_of_closed (i := i) (r := .wire) (p := (clientClose p i).1) (by rw [h1.look]; exact hw)
  have he := h1.pc (.drainGetfl i)
  unfold closeClientAndDrain
  simp only [h2]
  exact he

theorem pc_closeClientAndDrain (p : Proc n) (i : Fin n) : (closeClientAndDrain p i).1.pc = .drainGetfl i := rfl

theorem status_closeClientAndDrain (p : Proc n) (i : Fin n) : (closeClientAndDrain p i).1.status = p.status := by
  have hclose : (clientClose p i).1.status = p.status := by
    unfold clientClose
    split
    · rfl
    · rename_i hf
      simp [Proc.close, hf, Proc.setFd]
  have hdel (p : Proc n) : (p.epollDel i .wire).status = p.status := by
    unfold Proc.epollDel
    split
    · rfl
    · rfl
  exact (hdel _).trans hclose

structure Destroyed (p q : Proc n) (i : Fin n) : Prop where
  owned : Owned q
  look : q.look i = ⟨(p.insts i).state, .closed, .closed, .closed⟩
  other : ∀ j, j ≠ i → Untouched p q j
  path : q.paths i = false
  batch : q.batch = p.batch
  status : q.status = p.status

theorem destroyed_instanceDestroy {p : Proc n} (h : Owned p) (i : Fin n) : Destroyed p (instanceDestroy p i) i := by
  have h0 : Owned { p with paths := Function.update p.paths i false } :=
    ⟨h.file_of_fd, h.fd_of_file, h.fd_of_watched⟩
  have h1 := effect_close h0 i .client
  have h2 := effect_close h1.owned i .server
  rw [h1.look] at h2
  have h3 := effect_close h2.owned i .wire
  rw [h2.look] at h3
  have he := (h1.trans h2).trans h3
  constructor
  · exact he.owned
  · exact he.look
  · intro j hj
    apply Untouched.trans _ (he.other j hj)
    exact ⟨rfl, fun _ _ => Iff.rfl, fun _ _ _ => Iff.rfl, by simp [hj]⟩
  · exact he.path.trans (by simp)
  · exact he.batch
  · exact he.status

section Pc

variable (p : Proc n) (i : Fin n)

theorem pc_close (r : Role) : (p.close i r).pc = p.pc := by
  unfold Proc.close
  split
  · rfl
  · rfl

theorem pc_setNonblock (v : Bool) : (p.setNonblock i v).pc = p.pc := by
  unfold Proc.setNonblock
  split
  · rfl
  · rfl

theorem pc_clientClose : (clientClose p i).1.pc = p.pc := by
  unfold clientClose
  split
  · rfl
  · exact pc_close p i .client

theorem pc_instanceDestroy : (instanceDestroy p i).pc = p.pc := by
  unfold instanceDestroy
  rw [pc_close, pc_close, pc_close]

theorem pc_onSignal : (onSignal p).pc = p.pc := by
  have hfold (is : List (Fin n)) (p : Proc n) : (is.foldl instanceDestroy p).pc = p.pc := by
    induction is generalizing p with
    | nil => rfl
    | cons k is ih => rw [List.foldl_cons, ih, pc_instanceDestroy]
  exact hfold _ p

end Pc

inductive Handled (p : Proc n) : Pc n → Act n → Proc n → List (Obs n) → Prop
  | acceptFail (i) : Handled p (.accept i) (.accept none) { p with pc := .idle } []
  | accepted (i f) (hf : p.files f = none) (hs : (p.look i).server ≠ .closed) :
      Handled p (.accept i) (.accept (some f)) (finish p (onAccepted p i f) [.accepted i]).1
        (finish p (onAccepted p i f) [.accepted i]).2
  | readFail (i e) : Handled p (.wireRead i) (.read (.error e)) { p with pc := .idle } []
  | readEof (i) (hw : (p.look i).wire ≠ .closed) :
      Handled p (.wireRead i) (.read (.ok [])) { p.epollDel i .wire with pc := .wireClose i } []
  | readBytes (i bs) (hw : (p.look i).wire ≠ .closed) (hb : bs ≠ []) :
      Handled p (.wireRead i) (.read (.ok bs)) { p with pc := .send i bs } [.wireRead i bs]
  | wireClose (i) : Handled p (.wireClose i) .closeWire { p.close i .wire with pc := .wireReopen i } []
  | reopenFail (i) : Handled p (.wireReopen i) (.open none)
      { instanceDestroy (clientClose p i).1 i with pc := .idle } (.reopenFailed i :: (clientClose p i).2)
  | reopened (i f) (hf : p.files f = none) (q o) (hq : clientClose (p.store i .wire f) i = (q, o)) :
      Handled p (.wireReopen i) (.open (some f)) (finish q (enterWaitClient q i) o).1
        (finish q (enterWaitClient q i) o).2
  | sendAll (i buf) : Handled p (.send i buf) (.send (.ok buf.length)) { p with pc := .idle } [.sent i buf true]
  | sendShort (i buf r sent) (hc : (p.look i).client = .closed → r = .error .ebadf)
      (hr : (∃ e, r = .error e) ∧ sent = [] ∨ ∃ nw, r = .ok nw ∧ nw < buf.length ∧ sent = buf.take nw) :
      Handled p (.send i buf) (.send r) (closeClientAndDrain p i).1
        (.sent i sent false :: (closeClientAndDrain p i).2)
  | recvEnd (i r) (hr : (∃ e, r = .error e) ∨ (p.look i).client ≠ .closed ∧ r = .ok []) :
      Handled p (.clientRecv i) (.recv r) (closeClientAndDrain p i).1 (closeClientAndDrain p i).2
  | recvBytes (i bs) (hc : (p.look i).client ≠ .closed) :
      Handled p (.clientRecv i) (.recv (.ok bs)) { p with pc := .wireWrite i bs } []
  | written (i buf r) : Handled p (.wireWrite i buf) (.write r) { p with pc := .idle } []
  | getfl (i) (hw : (p.look i).wire ≠ .closed) :
      Handled p (.drainGetfl i) (.fcntl true) { p with pc := .drainSetfl i (p.nonblock i) } []
  | getflFail (i) : Handled p (.drainGetfl i) (.fcntl false) (finish p (enterWaitClient p i) []).1
      (finish p (enterWaitClient p i) []).2
  | setfl (i save) : Handled p (.drainSetfl i save) (.fcntl true)
      { p.setNonblock i true with pc := .drainRead i save } []
  | setflFail (i save) : Handled p (.drainSetfl i save) (.fcntl false) (finish p (enterWaitClient p i) []).1
      (finish p (enterWaitClient p i) []).2
  | drainEnd (i save e) : Handled p (.drainRead i save) (.read (.error e)) { p with pc := .drainRestore i save } []
  | drainEof (i save) : Handled p (.drainRead i save) (.read (.ok [])) { p with pc := .drainClose i save } []
  | drained (i save bs) (hb : bs ≠ []) : Handled p (.drainRead i save) (.read (.ok bs)) p [.drained i bs]
  | drainClose (i save) : Handled p (.drainClose i save) .closeWire
      { p.close i .wire with pc := .drainReopen i save } []
  | drainReopenFail (i save) : Handled p (.drainReopen i save) (.open none) { p with pc := .idle } [.reopenFailed i]
  | drainReopened (i save f) (hf : p.files f = none) : Handled p (.drainReopen i save) (.open (some f))
      { p.store i .wire f with pc := .drainRestore i save } []
  | restored (i save ok q) (hq : q = if ok then p.setNonblock i save else p) :
      Handled p (.drainRestore i save) (.fcntl ok) (finish q (enterWaitClient q i) []).1
        (finish q (enterWaitClient q i) []).2

theorem look_eq_closed_iff {p : Proc n} {i : Fin n} {r : Role} : (p.look i).get r = .closed ↔ p.fd i r = none := by
  rw [get_look, fd_eq_none_iff]

theorem stepHandler_cases {p : Proc n} {pc : Pc n} {a : Act n} {r : Proc n × List (Obs n)}
    (h : stepHandler p pc a = some r) : Handled p pc a r.1 r.2 := by
  have hserver (i : Fin n) : (p.look i).server = .closed ↔ p.fd i .server = none := look_eq_closed_iff (r := .server)
  have hwire (i : Fin n) : (p.look i).wire = .closed ↔ p.fd i .wire = none := look_eq_closed_iff (r := .wire)
  have hclient (i : Fin n) : (p.look i).client = .closed ↔ p.fd i .client = none := look_eq_closed_iff (r := .client)
  unfold stepHandler at h
  split at h
  · rename_i i r
    cases r with
    | none =>
      simp only [fresh, Bool.not_true, Option.isSome_none, Bool.and_false, Bool.or_self, Bool.false_eq_true,
        ↓reduceIte] at h
      cases h
      exact .acceptFail i
    | some f =>
      split at h
      · cases h
      · rename_i hg
        simp only [fresh, Bool.not_eq_true', Option.isSome_some, Bool.and_true, Bool.or_eq_true,
          decide_eq_false_iff_not, decide_eq_true_eq, not_or, not_not] at hg
        cases h
        exact .accepted i f hg.1 ((hserver i).not.mpr hg.2)
  · rename_i i r
    split at h
    · cases h
    · rename_i hg
      split at h
      · cases h
        exact .readFail i _
      · cases h
        apply Handled.readEof i
        simpa [hwire] using hg
      · rename_i bs hb
        split at h
        · cases h
          apply Handled.readBytes i bs
          · simpa [hwire] using hg
          · intro he
            exact hb he
        · cases h
  · rename_i i
    cases h
    exact .wireClose i
  · rename_i i r
    split at h
    · cases h
    · rename_i hg
      split at h
      · cases h
        exact .reopenFail i
      · rename_i f
        simp only [fresh, Bool.not_eq_true', Bool.not_eq_false, decide_eq_true_eq] at hg
        cases h
        exact .reopened i f hg _ _ rfl
  · rename_i i buf r
    split at h
    · cases h
    · rename_i hg
      have hc : (p.look i).client = .closed → r = .error .ebadf := by
        intro hc
        by_contra hr
        exact hg (by simp [(hclient i).mp hc, hr])
      split at h
      · rename_i e
        cases h
        exact .sendShort i buf _ _ hc (.inl ⟨⟨e, rfl⟩, rfl⟩)
      · rename_i nw
        split at h
        · rename_i hw
          subst hw
          cases h
          exact .sendAll i buf
        · split at h
          · rename_i hw
            cases h
            exact .sendShort i buf _ _ hc (.inr ⟨nw, rfl, hw, rfl⟩)
          · cases h
  · rename_i i r
    split at h
    · cases h
    · rename_i hg
      split at h
      · rename_i e
        cases h
        exact .recvEnd i _ (.inl ⟨e, rfl⟩)
      · cases h
        apply Handled.recvEnd i _ (.inr ⟨?_, rfl⟩)
        simpa [hclient] using hg
      · rename_i bs hb
        split at h
        · cases h
          apply Handled.recvBytes i bs
          simpa [hclient] using hg
        · cases h
  · rename_i i buf r
    cases h
    exact .written i buf r
  · rename_i i ok
    split at h
    · cases h
    · rename_i hg
      split at h
      · rename_i hok
        subst hok
        cases h
        apply Handled.getfl i
        simpa [hwire] using hg
      · rename_i hok
        rw [Bool.not_eq_true] at hok
        subst hok
        cases h
        exact .getflFail i
  · rename_i i save ok
    split at h
    · rename_i hok
      subst hok
      cases h
      exact .setfl i save
    · rename_i hok
      rw [Bool.not_eq_true] at hok
      subst hok
      cases h
      exact .setflFail i save
  · rename_i i save r
    split at h
    · cases h
      exact .drainEnd i save _
    · cases h
      exact .drainEof i save
    · rename_i bs hb
      split at h
      · cases h
        exact .drained i save bs (fun he => hb he)
      · cases h
  · rename_i i save
    cases h
    exact .drainClose i save
  · rename_i i save r
    split at h
    · cases h
    · rename_i hg
      split at h
      · cases h
        exact .drainReopenFail i save
      · rename_i f
        cases h
        apply Handled.drainReopened i save f
        simpa [fresh] using hg
  · rename_i i save ok
    cases h
    exact .restored i save ok _ rfl
  · cases h

theorem event_of_mem {p : Proc n} {sources : List Source} {batch : List (Event n)}
    (h : sources.mapM (event p) = some batch) {e : Event n} (he : e ∈ batch) :
    ∃ s ∈ sources, event p s = some e := by
  induction sources generalizing batch with
  | nil =>
    simp only [List.mapM_nil, Option.pure_def, Option.some.injEq] at h
    rw [← h] at he
    cases he
  | cons s sources ih =>
    simp only [List.mapM_cons, Option.pure_def, Option.bind_eq_bind, Option.bind_eq_some_iff, Option.some.injEq] at h
    obtain ⟨e', hs, batch', hm, rfl⟩ := h
    rcases List.mem_cons.mp he with rfl | he
    · exact ⟨s, List.mem_cons_self, hs⟩
    · obtain ⟨s', hs', he'⟩ := ih hm he
      exact ⟨s', List.mem_cons_of_mem s hs', he'⟩

theorem watched_of_mem {p : Proc n} (h : Owned p) {sources : List Source} {batch : List (Event n)}
    (hm : sources.mapM (event p) = some batch) {i : Fin n} {r : Role} (he : .ready i r ∈ batch) :
    (p.look i).get r = .watched := by
  obtain ⟨s, -, hs⟩ := event_of_mem hm he
  cases s with
  | fd f =>
    simp only [event, Option.map_eq_some_iff, Event.ready.injEq] at hs
    obtain ⟨⟨j, s⟩, hw, rfl, rfl⟩ := hs
    rw [get_look]
    simp [Proc.link, h.fd_of_watched f j s hw, hw]
  | signal => simp [event] at hs

inductive Stepped (p : Proc n) : Act n → Proc n → List (Obs n) → Prop
  | wait (sources batch) (hpc : p.pc = .idle) (hn : sources.Nodup) (hm : sources.mapM (event p) = some batch) :
      Stepped p (.wait sources) { p with batch } []
  | waitFail (hpc : p.pc = .idle) (hb : p.batch = []) : Stepped p .waitFail { p with status := .exited } []
  | dispatch (e rest) (hpc : p.pc = .idle) (hb : p.batch = e :: rest) :
      Stepped p .dispatch (dispatch { p with batch := rest } e) []
  | handler (a q o) (h : Handled p p.pc a q o) : Stepped p a q o

theorem machine_cases {p q : Proc n} {a : Act n} {o : List (Obs n)} (h : machine p a = some (q, o)) :
    p.status = .running ∧ Stepped p a q o := by
  unfold machine at h
  split at h
  · cases h
  · rename_i hs
    refine ⟨not_not.mp hs, ?_⟩
    split at h
    · rename_i sources hpc
      split at h
      · rename_i hg
        simp only [Option.map_eq_some_iff, Prod.mk.injEq] at h
        obtain ⟨batch, hm, rfl, rfl⟩ := h
        exact .wait sources batch hpc hg.2.1 hm
      · cases h
    · rename_i hpc
      split at h
      · rename_i hb
        cases h
        exact .waitFail hpc hb
      · cases h
    · rename_i hpc
      split at h
      · cases h
      · rename_i e rest hb
        cases h
        exact .dispatch e rest hpc hb
    · cases h
    · exact .handler _ q o (stepHandler_cases h)

end VirtRtLab.Daemon
