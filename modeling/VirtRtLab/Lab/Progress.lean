import VirtRtLab.Daemon.Drain
import VirtRtLab.Daemon.Startup
import VirtRtLab.Lab.Readiness

/-!
The daemon inside its calls on the wire devices, and that each of them is over by itself.
-/

namespace VirtRtLab.Lab

open Kernel VirtRtLab.Core Transition

variable {n : ℕ}

/-- A step inside the calls that the daemon makes, with the dispatch of its events. Of `accept4`, `open`, `fcntl`,
`recv` and `send` a failure that need not come does not count. -/
def calls (s : World n) : Act n → Bool
  | .kernel _ a =>
    match a with
    | .wireRead _ _ | .wireOpen | .wireOpened | .wireRelease | .wireReleased => true
    | .reader _ ok => ok
    | _ => false
  | .daemon a =>
    match a with
    | .wait _ | .waitFail | .accept none | .open none => false
    | .fcntl false =>
      match s.proc.pc with
      | .drainGetfl i => s.proc.fd i .wire = none
      | _ => false
    | .recv (.error e) => e = .ebadf
    | .send (.error e) => e = .ebadf || e = .epipe
    | _ => true

def onSocket : Daemon.Pc n → Bool
  | .accept _ | .send _ _ | .clientRecv _ => true
  | _ => false

def Asleep (s : World n) (j : Fin n) : Prop :=
  s.proc.pc = .wireRead j ∧ (∃ rdSz, (s.dev j).readers = [.wait rdSz]) ∧ (s.dev j).readable = false

-- a read the daemon asks for fits its buffer, and sleeps only on a blocking descriptor
def Asked (nonblock : Bool) : Uart.ReadPc → Prop
  | .called count nb => count = Daemon.WIRE_BUF_SIZE ∧ nb = nonblock
  | .wait rdSz | .woken rdSz => rdSz ≤ Daemon.WIRE_BUF_SIZE ∧ nonblock = false
  | .locked rdSz nb => rdSz ≤ Daemon.WIRE_BUF_SIZE ∧ nb = nonblock
  | .ret (.ok bs) => bs.length ≤ Daemon.WIRE_BUF_SIZE
  | .ret (.error e) => e ≠ .ebadf

structure InCall (s : World n) : Prop where
  wire : ∀ i, s.proc.pc.reopening ≠ some i → closing s.proc.pc ≠ some i → s.proc.fd i .wire ≠ none →
    (s.dev i).wire = .opened
  unopened : ∀ i, closing s.proc.pc = some i → (s.dev i).wire ≠ .opening
  unreleased : ∀ i, s.proc.pc.reopening = some i → (s.dev i).wire ≠ .releasing
  read : ∀ i, ∀ pc ∈ (s.dev i).readers, Asked (s.proc.nonblock i) pc
  drain : ∀ i save, s.proc.pc = .drainRead i save → s.proc.fd i .wire ≠ none → s.proc.nonblock i = true

section Device

variable {b b' : Bus} {d d' : Uart.Dev} {a : Uart.Act} {o : List Uart.Obs} {nonblock : Bool}

theorem asked_stepRead {pc pc' : Uart.ReadPc} {ok : Bool} (h : Uart.stepRead d pc ok = some (d', pc', o))
    (ha : Asked nonblock pc) : Asked nonblock pc' := by
  have hmin (count : ℕ) : min count Uart.PAGE_SIZE ≤ Daemon.WIRE_BUF_SIZE := min_le_right _ _
  cases pc with
  | called count nb =>
    obtain ⟨-, rfl⟩ := ha
    simp only [Uart.stepRead] at h
    split_ifs at h with h1 h2 h3 h4 <;> cases h
    · exact Nat.zero_le _
    · exact Nat.zero_le _
    · rintro ⟨⟩
    · exact ⟨hmin count, h4.symm⟩
    · exact ⟨hmin count, by simpa using h4⟩
  | wait rdSz =>
    simp only [Uart.stepRead] at h
    split_ifs at h <;> cases h
    · exact ha
    · rintro ⟨⟩
  | woken rdSz =>
    simp only [Uart.stepRead] at h
    split_ifs at h <;> cases h
    · exact Nat.zero_le _
    · exact ⟨ha.1, ha.2.symm⟩
  | locked rdSz nb =>
    obtain ⟨hle, rfl⟩ := ha
    simp only [Uart.stepRead] at h
    split_ifs at h with h1 h2 h3 h4 <;> cases h
    · exact Nat.zero_le _
    · rintro ⟨⟩
    · exact ⟨hle, by simpa using h3⟩
    · exact (List.length_take_le _ _).trans hle
    · rintro ⟨⟩
  | ret r => cases h

theorem readers_asked (h : Uart.DevStep b d a d' o) (hd : ∀ pc ∈ d.readers, Asked nonblock pc)
    (ha : ∀ count nb, a = .wireRead count nb → Asked nonblock (.called count nb)) :
    ∀ pc ∈ d'.readers, Asked nonblock pc := by
  have hset {k : ℕ} {ok : Bool} {pc pc' : Uart.ReadPc} {e : Uart.Dev} {o' : List Uart.Obs}
      (hk : d.readers[k]? = some pc) (hs : Uart.stepRead d pc ok = some (e, pc', o')) :
      ∀ q ∈ d.readers.set k pc', Asked nonblock q := by
    intro q hq
    rcases List.mem_or_eq_of_mem_set hq with hq | rfl
    · exact hd q hq
    · exact asked_stepRead hs (hd pc (List.mem_of_getElem? hk))
  cases h with
  | @readCall count nb hw =>
    intro pc hpc
    rcases List.mem_append.mp hpc with hpc | hpc
    · exact hd pc hpc
    · rw [List.mem_singleton.mp hpc]
      exact ha count nb rfl
  | readGoesOn hk hs => exact hset hk hs
  | @readTakes k ok rdSz nb hk hact hf =>
    have hread : Uart.stepRead d (.locked rdSz nb) ok = some ({ d with rxFifo := d.rxFifo.get rdSz },
        .ret (if ok then .ok (d.rxFifo.front rdSz) else .error .efault), [.wireRead (d.rxFifo.front rdSz)]) := by
      simp [Uart.stepRead, hact, hf]
    exact hset hk hread
  | readReturn hk => exact fun pc hpc => hd pc (List.mem_of_mem_eraseIdx hpc)
  | @resetStat k st | @resetZero st => cases st <;> exact hd
  | _ => exact hd

theorem machine_asked {s t : Uart.Sys} (h : Uart.machine s a = some (t, o))
    (hs : ∀ pc ∈ s.dev.readers, Asked nonblock pc)
    (ha : ∀ count nb, a = .wireRead count nb → Asked nonblock (.called count nb)) :
    ∀ pc ∈ t.dev.readers, Asked nonblock pc := by
  obtain ⟨hiFirst, rfl, hw⟩ | ⟨b, -, -, hd, rfl⟩ | ⟨-, hd⟩ := Uart.machine_cases h
  · rw [hw.readers]
    exact hs
  · rw [hd]
    exact hs
  · exact readers_asked hd hs ha

theorem wire_cases {v : Uart.WireView} (h : Uart.WireStep d a v o) :
    v.wire = d.wire ∨ a = .wireOpen ∧ v.wire = .opening ∨ a = .wireOpened ∧ v.wire = .opened ∨
      a = .wireRelease ∧ v.wire = .releasing ∨ a = .wireReleased ∧ v.wire = .closed := by
  cases h with
  | opening => exact .inr (.inl ⟨rfl, rfl⟩)
  | opened => exact .inr (.inr (.inl ⟨rfl, rfl⟩))
  | release => exact .inr (.inr (.inr (.inl ⟨rfl, rfl⟩)))
  | released => exact .inr (.inr (.inr (.inr ⟨rfl, rfl⟩)))
  | _ => exact .inl rfl

end Device

section Wire

variable {p q : Daemon.Proc n} {a : Daemon.Act n} {o : List (Daemon.Obs n)} {i : Fin n}

theorem insts_epollDel (p : Daemon.Proc n) (i : Fin n) (r : Daemon.Role) : (p.epollDel i r).insts = p.insts := by
  unfold Daemon.Proc.epollDel
  split <;> rfl

theorem insts_epollAdd {r : Daemon.Role} (h : p.epollAdd i r = some q) : q.insts = p.insts := by
  unfold Daemon.Proc.epollAdd at h
  split at h
  · cases h
  · split_ifs at h
    cases h
    rfl

theorem insts_setNonblock (p : Daemon.Proc n) (i : Fin n) (v : Bool) : (p.setNonblock i v).insts = p.insts := by
  unfold Daemon.Proc.setNonblock
  split <;> rfl

theorem fd_of_insts (h : q.insts = p.insts) (r : Daemon.Role) : q.fd i r = p.fd i r := by
  rw [Daemon.Proc.fd, h]
  rfl

theorem wire_setState (p : Daemon.Proc n) (i : Fin n) (st : Daemon.InstState) :
    (p.setState i st).fd i .wire = p.fd i .wire := by
  simp [Daemon.Proc.setState, Daemon.Proc.fd]

theorem wire_clientClose (p : Daemon.Proc n) (i : Fin n) : (Daemon.clientClose p i).1.fd i .wire = p.fd i .wire := by
  unfold Daemon.clientClose
  split
  · rfl
  · rw [Daemon.fd_close]
    rfl

theorem wire_closeClientAndDrain (p : Daemon.Proc n) (i : Fin n) :
    (Daemon.closeClientAndDrain p i).1.fd i .wire = p.fd i .wire := by
  have hdel := fd_of_insts (i := i) (insts_epollDel (Daemon.clientClose p i).1 i .wire) .wire
  exact hdel.trans (wire_clientClose p i)

theorem wire_enterWaitClient (h : Daemon.enterWaitClient p i = some q) : q.fd i .wire = p.fd i .wire := by
  obtain ⟨q', hq, rfl⟩ := Option.map_eq_some_iff.mp h
  rw [wire_setState]
  exact fd_of_insts (insts_epollAdd hq) .wire

theorem wire_onAccepted {f : ℕ} (h : Daemon.onAccepted p i f = some q) : q.fd i .wire = p.fd i .wire := by
  obtain ⟨q', hq, rfl⟩ := Option.map_eq_some_iff.mp h
  obtain ⟨q'', hq', hq⟩ := Option.bind_eq_some_iff.mp hq
  have hstore : (p.store i .client f).fd i .wire = p.fd i .wire := by
    rw [Daemon.Proc.store, Daemon.fd_setFd, if_neg (by simp)]
    rfl
  rw [wire_setState, fd_of_insts (insts_epollAdd hq), fd_of_insts (insts_epollAdd hq'),
    fd_of_insts (insts_epollDel _ i .server), hstore]

theorem wire_finish {r : Option (Daemon.Proc n)} (hr : ∀ t, r = some t → t.fd i .wire = p.fd i .wire) :
    (Daemon.finish p r o).1.fd i .wire = p.fd i .wire := by
  cases r with
  | none => rfl
  | some t => exact hr t rfl

theorem wire_handled (h : Daemon.Handled p p.pc a q o) (hi : p.pc.inst = some i) (ho : ∀ r, a ≠ .open r)
    (hc : a ≠ .closeWire) : q.fd i .wire = p.fd i .wire := by
  generalize p.pc = pc at h hi
  cases h with
  | reopenFail | reopened | drainReopenFail | drainReopened => exact absurd rfl (ho _)
  | wireClose | drainClose => exact absurd rfl hc
  | accepted j f =>
    cases hi
    exact wire_finish fun _ ht => wire_onAccepted ht
  | readEof j =>
    cases hi
    exact fd_of_insts (insts_epollDel p i .wire) .wire
  | sendShort j | recvEnd j =>
    cases hi
    exact wire_closeClientAndDrain p i
  | getflFail j | setflFail j =>
    cases hi
    exact wire_finish fun _ ht => wire_enterWaitClient ht
  | setfl j =>
    cases hi
    exact fd_of_insts (insts_setNonblock p i true) .wire
  | restored j save ok q' hq =>
    cases hi
    have hq' : q'.fd i .wire = p.fd i .wire := by
      rw [hq]
      split
      · exact fd_of_insts (insts_setNonblock p i save) .wire
      · rfl
    exact Eq.trans (wire_finish fun _ ht => wire_enterWaitClient ht) hq'
  | _ => rfl

theorem handled_closing (h : Daemon.Handled p p.pc a q o) (hq : q.status = .running) (hc : closing q.pc = some i) :
    p.pc = .wireRead i ∧ (p.look i).wire ≠ .closed ∨ ∃ save, p.pc = .drainRead i save := by
  have hfinish {q' : Daemon.Proc n} {r : Option (Daemon.Proc n)} {o : List (Daemon.Obs n)}
      (hs : (Daemon.finish q' r o).1.status = .running) : closing (Daemon.finish q' r o).1.pc ≠ some i := by
    rw [(Daemon.pc_finish hs).1]
    exact nofun
  generalize hp : p.pc = pc at h
  cases h with
  | readEof j hw =>
    cases hc
    exact .inl ⟨rfl, hw⟩
  | drainEof j save =>
    cases hc
    exact .inr ⟨save, rfl⟩
  | accepted | reopened | getflFail | setflFail | restored => exact absurd hc (hfinish hq)
  | drained =>
    rw [hp] at hc
    cases hc
  | sendShort | recvEnd =>
    rw [Daemon.pc_closeClientAndDrain] at hc
    cases hc
  | _ => cases hc

theorem handled_reopening (h : Daemon.Handled p p.pc a q o) (hq : q.status = .running)
    (hr : q.pc.reopening = some i) : a = .closeWire ∧ closing p.pc = some i := by
  have hfinish {q' : Daemon.Proc n} {r : Option (Daemon.Proc n)} {o : List (Daemon.Obs n)}
      (hs : (Daemon.finish q' r o).1.status = .running) : (Daemon.finish q' r o).1.pc.reopening ≠ some i := by
    rw [(Daemon.pc_finish hs).1]
    exact nofun
  generalize hp : p.pc = pc at h
  cases h with
  | wireClose j | drainClose j => exact ⟨rfl, hr⟩
  | accepted | reopened | getflFail | setflFail | restored => exact absurd hr (hfinish hq)
  | drained =>
    rw [hp] at hr
    cases hr
  | sendShort | recvEnd =>
    rw [Daemon.pc_closeClientAndDrain] at hr
    cases hr
  | _ => cases hr

theorem handled_draining {save : Bool} (h : Daemon.Handled p p.pc a q o) (hq : q.status = .running)
    (hd : q.pc = .drainRead i save) : q = p ∨ q = { p.setNonblock i true with pc := .drainRead i save } := by
  have hfinish {q' : Daemon.Proc n} {r : Option (Daemon.Proc n)} {o : List (Daemon.Obs n)}
      (hs : (Daemon.finish q' r o).1.status = .running) : (Daemon.finish q' r o).1.pc ≠ .drainRead i save := by
    rw [(Daemon.pc_finish hs).1]
    exact nofun
  generalize p.pc = pc at h
  cases h with
  | setfl j save =>
    cases hd
    exact .inr rfl
  | drained => exact .inl rfl
  | accepted | reopened | getflFail | setflFail | restored => exact absurd hd (hfinish hq)
  | sendShort | recvEnd =>
    rw [Daemon.pc_closeClientAndDrain] at hd
    cases hd
  | _ => cases hd

theorem fd_of_inst (h : q.insts i = p.insts i) (r : Daemon.Role) : q.fd i r = p.fd i r := by
  rw [Daemon.Proc.fd, h]
  rfl

theorem closing_ne {pc : Daemon.Pc n} (h : pc.inst ≠ some i) : closing pc ≠ some i := by
  intro hc
  cases pc with
  | wireClose j | drainClose j => exact h hc
  | _ => cases hc

theorem not_closing_of_reopening {pc : Daemon.Pc n} (h : pc.reopening = some i) : closing pc ≠ some i := by
  cases pc with
  | wireReopen | drainReopen => exact nofun
  | _ => cases h

theorem reopening_of_closeWire (h : Daemon.Handled p p.pc .closeWire q o) (hi : p.pc.inst = some i) :
    q.pc.reopening = some i := by
  generalize p.pc = pc at h hi
  cases h <;> exact hi

theorem other_call (h : Daemon.Handled p p.pc a q o) (ho : ∀ r, a ≠ .open r) (hc : a ≠ .closeWire) :
    p.pc.reopening ≠ some i ∧ closing p.pc ≠ some i := by
  generalize p.pc = pc at h
  cases h with
  | reopenFail | reopened | drainReopenFail | drainReopened => exact absurd rfl (ho _)
  | wireClose | drainClose => exact absurd rfl hc
  | _ => exact ⟨nofun, nofun⟩

theorem open_of_handled {r : Option ℕ} (h : Daemon.Handled p p.pc (.open r) q o) :
    ∃ i, p.pc.inst = some i ∧ p.pc.reopening = some i := by
  generalize p.pc = pc at h
  cases h <;> exact ⟨_, rfl, rfl⟩

theorem closed_of_failed_open (hsound : Daemon.Sound True True p) (h : Daemon.Handled p p.pc (.open none) q o)
    (hi : p.pc.inst = some i) : q.fd i .wire = none := by
  have hbusy := hsound.busy i hi
  generalize p.pc = pc at h hi hbusy
  cases h with
  | reopenFail j =>
    cases hi
    exact Daemon.fd_instanceDestroy _ i .wire
  | drainReopenFail j save =>
    cases hi
    apply Daemon.fd_eq_none_iff.mpr
    rw [← Daemon.get_look]
    exact congrArg Daemon.Look.wire hbusy

end Wire

section Step

variable {s : World n}

theorem machine_call {t : World n} {a : Daemon.Act n} {o : List (Obs n)} (h : machine s (.daemon a) = some (t, o)) :
    (∀ i, a = .closeWire → closing s.proc.pc = some i → (s.dev i).wire = .closed) ∧
      ∀ i r, a = .open r → s.proc.pc.reopening = some i → (s.dev i).wire = wireAfterOpen r := by
  have hsync : (sync s a).isSome = true := by
    unfold machine at h
    cases hs : sync s a with
    | none => simp [hs] at h
    | some r => rfl
  constructor
  · rintro i rfl hi
    simp only [sync, hi] at hsync
    by_contra hw
    simp [hw] at hsync
  · rintro i r rfl hi
    simp only [sync, hi] at hsync
    by_contra hw
    simp [hw] at hsync

theorem InCall.handled (h : InCall s) (hs : s.proc.status = .running) (hok : Daemon.Ok True True s.proc)
    {a : Daemon.Act n} {q : Daemon.Proc n} {o : List (Daemon.Obs n)} (hh : Daemon.Handled s.proc s.proc.pc a q o)
    (hq : q.status = .running) {dev : Fin n → Uart.Dev} (hdev : ∀ i, (dev i).wire = (s.dev i).wire)
    (hread : ∀ i, (dev i).readers = [])
    (hclose : ∀ i, a = .closeWire → closing s.proc.pc = some i → (s.dev i).wire = .closed)
    (hopen : ∀ i r, a = .open r → s.proc.pc.reopening = some i → (s.dev i).wire = wireAfterOpen r) :
    InCall { s with dev, proc := q } := by
  have hsound := hok.sound hs
  obtain ⟨k, hk⟩ := Daemon.pc_inst_of_handled hh
  have hnext := Daemon.handled_next hsound hs hk Daemon.allowed_true hh
  have hbusy := hsound.busy k hk
  constructor
  · intro i hr hc hf
    by_cases hik : i = k
    · subst hik
      rw [hdev]
      by_cases ho : ∃ r, a = .open r
      · obtain ⟨r, rfl⟩ := ho
        obtain ⟨j, hj, hre⟩ := open_of_handled hh
        cases Option.some.inj (hj.symm.trans hk)
        rw [hopen i r rfl hre]
        cases r with
        | none => exact absurd (closed_of_failed_open hsound hh hk) hf
        | some f => rfl
      · by_cases hcl : a = .closeWire
        · subst hcl
          exact absurd (reopening_of_closeWire hh hk) hr
        · have hfd := wire_handled hh hk (fun r hr => ho ⟨r, hr⟩) hcl
          obtain ⟨hr', hc'⟩ := other_call (i := i) hh (fun r hr => ho ⟨r, hr⟩) hcl
          exact h.wire i hr' hc' (hfd ▸ hf)
    · have hfd : q.fd i .wire = s.proc.fd i .wire := fd_of_inst (hnext.other i hik).inst .wire
      rw [hdev]
      apply h.wire i _ _ (hfd ▸ hf)
      · exact Daemon.reopening_ne (fun hi => hik (Option.some.inj (hi.symm.trans hk)))
      · exact closing_ne (fun hi => hik (Option.some.inj (hi.symm.trans hk)))
  · intro i hc
    rw [hdev]
    have hopened (hr : s.proc.pc.reopening ≠ some i) (hc : closing s.proc.pc ≠ some i)
        (hw : (s.proc.look i).wire ≠ .closed) : (s.dev i).wire ≠ .opening := by
      rw [h.wire i hr hc (fun hf => hw (Daemon.fd_eq_none_iff.mp hf))]
      decide
    rcases handled_closing hh hq hc with ⟨hpc, hw⟩ | ⟨save, hpc⟩
    · rw [hpc] at hopened
      exact hopened nofun nofun hw
    · rw [hpc] at hopened hbusy hk
      cases hk
      apply hopened nofun nofun
      rw [hbusy]
      decide
  · intro i hr
    obtain ⟨rfl, hc⟩ := handled_reopening hh hq hr
    rw [hdev, hclose i rfl hc]
    decide
  · intro i pc hpc
    rw [hread] at hpc
    cases hpc
  · intro i save hd hf
    rcases handled_draining hh hq hd with rfl | rfl
    · exact h.drain i save hd hf
    · have hfd : s.proc.fd i .wire ≠ none := by
        intro hn
        exact hf ((fd_of_insts (insts_setNonblock s.proc i true) .wire).trans hn)
      apply Daemon.nonblock_setNonblock hsound.owned
      intro hw
      exact hfd (Daemon.fd_eq_none_iff.mpr hw)

theorem calm_dispatch {p : Daemon.Proc n} (hpc : p.pc = .idle) {e : Daemon.Event n}
    (hs : (Daemon.dispatch p e).status = .running) :
    (Daemon.dispatch p e).insts = p.insts ∧ closing (Daemon.dispatch p e).pc = none ∧
      (Daemon.dispatch p e).pc.reopening = none ∧ ∀ i save, (Daemon.dispatch p e).pc ≠ .drainRead i save := by
  cases e with
  | signal => cases hs
  | ready j role =>
    cases role <;> simp only [Daemon.dispatch] <;> split <;> simp [hpc, closing, Daemon.Pc.reopening]

theorem InCall.daemon (h : InCall s) (hok : Daemon.Ok True True s.proc) {a : Daemon.Act n} {q : Daemon.Proc n}
    {o : List (Daemon.Obs n)} (hm : Daemon.machine s.proc a = some (q, o)) (hq : q.status = .running)
    {dev : Fin n → Uart.Dev} (hdev : ∀ i, (dev i).wire = (s.dev i).wire) (hread : ∀ i, (dev i).readers = [])
    (hclose : ∀ i, a = .closeWire → closing s.proc.pc = some i → (s.dev i).wire = .closed)
    (hopen : ∀ i r, a = .open r → s.proc.pc.reopening = some i → (s.dev i).wire = wireAfterOpen r) :
    InCall { s with dev, proc := q } := by
  obtain ⟨hs, hst⟩ := Daemon.machine_cases hm
  -- between two calls every descriptor is that of an open wire
  have hidle (hpc : s.proc.pc = .idle) (i : Fin n) (hf : s.proc.fd i .wire ≠ none) : (dev i).wire = .opened := by
    rw [hdev]
    have hw := h.wire i
    rw [hpc] at hw
    exact hw nofun nofun hf
  have hnone (i : Fin n) (P : Uart.ReadPc → Prop) : ∀ pc ∈ (dev i).readers, P pc := by
    intro pc hpc
    rw [hread] at hpc
    cases hpc
  cases hst with
  | wait sources batch hpc hn he =>
    refine ⟨fun i _ _ hf => hidle hpc i hf, fun i hc => ?_, fun i hr => ?_, fun i => hnone i _, fun i save hd => ?_⟩
    · have hc' : closing s.proc.pc = some i := hc
      rw [hpc] at hc'
      cases hc'
    · have hr' : s.proc.pc.reopening = some i := hr
      rw [hpc] at hr'
      cases hr'
    · have hd' : s.proc.pc = .drainRead i save := hd
      rw [hpc] at hd'
      cases hd'
  | waitFail hpc hb => cases hq
  | dispatch e rest hpc hb =>
    obtain ⟨hinsts, hcl, hre, hdr⟩ := calm_dispatch (p := { s.proc with batch := rest }) hpc hq
    refine ⟨fun i _ _ hf => hidle hpc i ?_, fun i hc => ?_, fun i hr => ?_, fun i => hnone i _,
      fun i save hd => absurd hd (hdr i save)⟩
    · rw [← fd_of_insts (p := s.proc) hinsts]
      exact hf
    · rw [hcl] at hc
      cases hc
    · rw [hre] at hr
      cases hr
  | handler a q o hh => exact h.handled hs hok hh hq hdev hread hclose hopen

theorem InCall.kernel (h : InCall s) {i : Fin n} {a : Uart.Act} {t : Uart.Sys} {o : List Uart.Obs}
    (hp : permitted s i a = true) (hm : Uart.machine ⟨s.bus, s.dev i⟩ a = some (t, o)) :
    InCall { s with bus := t.bus, dev := Function.update s.dev i t.dev } := by
  have hwire : t.dev.wire = (s.dev i).wire ∨ a = .wireOpen ∧ t.dev.wire = .opening ∨
      a = .wireOpened ∧ t.dev.wire = .opened ∨ a = .wireRelease ∧ t.dev.wire = .releasing ∨
      a = .wireReleased ∧ t.dev.wire = .closed := wire_cases (Uart.machine_wire hm)
  refine ⟨fun j hr hc hf => ?_, fun j hc => ?_, fun j hr => ?_, fun j => ?_, h.drain⟩
  · by_cases hji : j = i
    · subst hji
      simp only [Function.update_self]
      rcases hwire with hw | ⟨rfl, -⟩ | ⟨rfl, hw⟩ | ⟨rfl, -⟩ | ⟨rfl, -⟩
      · rw [hw]
        exact h.wire j hr hc hf
      · exact absurd (by simpa [permitted] using hp : _ ∧ _).1 hr
      · exact hw
      · exact absurd (by simpa [permitted] using hp) hc
      · exact absurd (by simpa [permitted] using hp) hc
    · simp only [Function.update_of_ne hji]
      exact h.wire j hr hc hf
  · by_cases hji : j = i
    · subst hji
      simp only [Function.update_self]
      rcases hwire with hw | ⟨rfl, -⟩ | ⟨-, hw⟩ | ⟨-, hw⟩ | ⟨-, hw⟩
      · rw [hw]
        exact h.unopened j hc
      · have hr : s.proc.pc.reopening = some j := (by simpa [permitted] using hp : _ ∧ _).1
        exact absurd hc (not_closing_of_reopening hr)
      · rw [hw]
        decide
      · rw [hw]
        decide
      · rw [hw]
        decide
    · simp only [Function.update_of_ne hji]
      exact h.unopened j hc
  · by_cases hji : j = i
    · subst hji
      simp only [Function.update_self]
      rcases hwire with hw | ⟨-, hw⟩ | ⟨-, hw⟩ | ⟨rfl, -⟩ | ⟨-, hw⟩
      · rw [hw]
        exact h.unreleased j hr
      · rw [hw]
        decide
      · rw [hw]
        decide
      · have hc : closing s.proc.pc = some j := by simpa [permitted] using hp
        exact absurd hc (not_closing_of_reopening hr)
      · rw [hw]
        decide
    · simp only [Function.update_of_ne hji]
      exact h.unreleased j hr
  · by_cases hji : j = i
    · subst hji
      simp only [Function.update_self]
      apply machine_asked hm (h.read j)
      rintro count nb rfl
      simp only [permitted, Bool.and_eq_true, decide_eq_true_eq] at hp
      exact ⟨hp.1.2, hp.2⟩
    · simp only [Function.update_of_ne hji]
      exact h.read j

structure Steady (s : World n) : Prop where
  synced : Synced s
  ok : Daemon.Ok True True s.proc
  call : s.proc.status = .running → InCall s

theorem machine_steady {t : World n} {a : Act n} {o : List (Obs n)} (h : Steady s) (hm : machine s a = some (t, o)) :
    Steady t := by
  have hsync := machine_synced h.synced hm
  have hcalls {b : Daemon.Act n} (hb : a = .daemon b) := machine_call (hb ▸ hm)
  cases machine_cases hm with
  | kernel i a t o hp hk => exact ⟨hsync, h.ok, fun hs => (h.call hs).kernel hp hk⟩
  | read i r q o hi hr hd =>
    have hs := (Daemon.machine_cases hd).1
    refine ⟨hsync, Daemon.machine_ok h.ok Daemon.allowed_true hd, fun hq => ?_⟩
    apply (h.call hs).daemon h.ok hd hq (fun j => ?_) (fun j => ?_) (hcalls rfl).1 (hcalls rfl).2
    · by_cases hji : j = i
      · subst hji
        simp only [Function.update_self]
      · simp only [Function.update_of_ne hji]
    · by_cases hji : j = i
      · subst hji
        simp only [Function.update_self]
      · simp only [Function.update_of_ne hji]
        by_contra hne
        exact hji (Option.some.inj ((h.synced j hne).1.symm.trans hi))
  | daemon a q o hi hw hd =>
    have hs := (Daemon.machine_cases hd).1
    refine ⟨hsync, Daemon.machine_ok h.ok Daemon.allowed_true hd, fun hq => ?_⟩
    apply (h.call hs).daemon h.ok hd hq (fun _ => rfl) (fun j => ?_) (hcalls rfl).1 (hcalls rfl).2
    by_contra hne
    obtain ⟨hr, hf, -⟩ := h.synced j hne
    exact hf (hi j hr)

theorem steady_start (n : ℕ) : Steady (start n) := by
  refine ⟨(started_start n).synced, (started_start n).proc.ok, fun _ => ?_⟩
  exact ⟨fun _ _ _ _ => rfl, fun _ => nofun, fun _ => nofun, fun _ _ => nofun, fun _ _ => nofun⟩

def GoesOn (s : World n) : Prop := ∃ a, calls s a = true ∧ (machine s a).isSome = true

theorem goesOn_kernel {j : Fin n} {a : Uart.Act} (ho : calls s (.kernel j a) = true) (hp : permitted s j a = true)
    (hm : (Uart.machine ⟨s.bus, s.dev j⟩ a).isSome = true) : GoesOn s := by
  refine ⟨_, ho, ?_⟩
  simpa [machine, hp, stepKernel] using hm

theorem goesOn_daemon {a : Daemon.Act n} (ho : calls s (.daemon a) = true)
    (hsync : (sync s a).isSome = true) (hm : (Daemon.machine s.proc a).isSome = true) : GoesOn s := by
  refine ⟨_, ho, ?_⟩
  obtain ⟨r, hr⟩ := Option.isSome_iff_exists.mp hsync
  obtain ⟨r', hr'⟩ := Option.isSome_iff_exists.mp hm
  simp [machine, hr, hr']

theorem goesOn_handler {pc : Daemon.Pc n} {a : Daemon.Act n} (hs : s.proc.status = .running)
    (hpc : s.proc.pc = pc) (hne : pc ≠ .idle) (ho : calls s (.daemon a) = true) (hsync : (sync s a).isSome = true)
    (hm : (Daemon.stepHandler s.proc pc a).isSome = true) : GoesOn s := by
  apply goesOn_daemon ho hsync
  rw [Daemon.machine_handler hs hpc hne]
  exact hm

theorem InCall.closing_goesOn (h : InCall s) (hsync : Synced s) (hs : s.proc.status = .running) {j : Fin n}
    (hc : closing s.proc.pc = some j) : GoesOn s := by
  cases hw : (s.dev j).wire with
  | closed =>
    have hcall : (sync s .closeWire).isSome = true := by simp [sync, hc, hw]
    generalize hpc : s.proc.pc = pc at hc
    cases pc with
    | wireClose k => exact goesOn_handler hs hpc (by rintro ⟨⟩) (a := .closeWire) rfl hcall rfl
    | drainClose k save => exact goesOn_handler hs hpc (by rintro ⟨⟩) (a := .closeWire) rfl hcall rfl
    | _ => cases hc
  | opening => exact absurd hw (h.unopened j hc)
  | opened =>
    have hr : (s.dev j).readers = [] := by
      by_contra hne
      have hreading := (hsync j hne).1
      generalize s.proc.pc = pc at hc hreading
      cases pc with
      | wireClose | drainClose => cases hreading
      | _ => cases hc
    apply goesOn_kernel (j := j) (a := .wireRelease) rfl
    · simp [permitted, hc]
    · simp [Uart.machine, Uart.stepDev, hw, hr]
  | releasing =>
    apply goesOn_kernel (j := j) (a := .wireReleased) rfl
    · simp [permitted, hc]
    · simp [Uart.machine, Uart.stepDev, hw]

theorem InCall.reopening_goesOn (h : InCall s) (hs : s.proc.status = .running) (howned : Daemon.Owned s.proc)
    {j : Fin n} (hr : s.proc.pc.reopening = some j) : GoesOn s := by
  have hopen (r : ℕ) (hf : Daemon.fresh s.proc (some r) = true) (hw : (s.dev j).wire = .opened) : GoesOn s := by
    have hcall : (sync s (.open (some r))).isSome = true := by simp [sync, hr, hw, wireAfterOpen]
    generalize hpc : s.proc.pc = pc at hr
    cases pc with
    | wireReopen k =>
      apply goesOn_handler hs hpc (by rintro ⟨⟩) (a := .open (some r)) rfl hcall
      simp [Daemon.stepHandler, hf]
    | drainReopen k save =>
      apply goesOn_handler hs hpc (by rintro ⟨⟩) (a := .open (some r)) rfl hcall
      simp [Daemon.stepHandler, hf]
    | _ => cases hr
  cases hw : (s.dev j).wire with
  | closed =>
    apply goesOn_kernel (j := j) (a := .wireOpen) rfl
    · simp [permitted, hr, hw]
    · simp only [Uart.machine, Uart.stepDev]
      split <;> rfl
  | opening =>
    apply goesOn_kernel (j := j) (a := .wireOpened) rfl
    · simp [permitted, hr]
    · simp [Uart.machine, Uart.stepDev, hw]
  | opened =>
    obtain ⟨f, hf⟩ := Daemon.exists_free howned
    exact hopen f (by simp [Daemon.fresh, hf]) hw
  | releasing => exact absurd hw (h.unreleased j hr)

theorem stepRead_isSome {d : Uart.Dev} {pc : Uart.ReadPc} (hr : ∀ r, pc ≠ .ret r) (hw : ∀ rdSz, pc ≠ .wait rdSz) :
    (Uart.stepRead d pc true).isSome = true := by
  cases pc with
  | called | woken | locked =>
    simp only [Uart.stepRead]
    split_ifs <;> rfl
  | wait rdSz => exact absurd rfl (hw rdSz)
  | ret r => exact absurd rfl (hr r)

theorem InCall.reading_goesOn (h : InCall s) (hsync : Synced s) (hs : s.proc.status = .running) {j : Fin n}
    (hr : reading s.proc.pc = some j) : GoesOn s ∨ Asleep s j := by
  have hread (r : Except Errno Bytes) (hcall : (sync s (.read r)).isSome = true)
      (hfd : s.proc.fd j .wire = none ↔ r = .error .ebadf) (hle : ∀ bs, r = .ok bs → bs.length ≤ Daemon.WIRE_BUF_SIZE) :
      GoesOn s := by
    generalize hpc : s.proc.pc = pc at hr
    cases pc with
    | wireRead k =>
      cases hr
      apply goesOn_handler hs hpc (by rintro ⟨⟩) (a := .read r) rfl hcall
      simp only [Daemon.stepHandler, hfd, not_true_eq_false, if_false]
      rcases r with e | _ | ⟨b, bs⟩
      · rfl
      · rfl
      · have hlen := hle _ rfl
        simp only [List.length_cons] at hlen
        simp [hlen]
    | drainRead k save =>
      apply goesOn_handler hs hpc (by rintro ⟨⟩) (a := .read r) rfl hcall
      rcases r with e | _ | ⟨b, bs⟩
      · rfl
      · rfl
      · have hlen := hle _ rfl
        simp only [List.length_cons] at hlen
        simp [Daemon.stepHandler, hlen]
    | _ => cases hr
  by_cases hf : s.proc.fd j .wire = none
  · exact .inl (hread (.error .ebadf) (by simp [sync, hr, hf]) (by simp [hf]) (by rintro _ ⟨⟩))
  · by_cases hn : (s.dev j).readers = []
    · left
      have hopen : (s.dev j).wire = .opened := by
        apply h.wire j _ _ hf
        · generalize s.proc.pc = pc at hr
          cases pc with
          | wireRead | drainRead => rintro ⟨⟩
          | _ => cases hr
        · generalize s.proc.pc = pc at hr
          cases pc with
          | wireRead | drainRead => rintro ⟨⟩
          | _ => cases hr
      apply goesOn_kernel (j := j) (a := .wireRead Daemon.WIRE_BUF_SIZE (s.proc.nonblock j)) rfl
      · simp [permitted, hr, Option.isSome_iff_ne_none.mpr hf, hn]
      · simp [Uart.machine, Uart.stepDev, hopen]
    · obtain ⟨-, -, pc, hpc⟩ := hsync j hn
      have hasked : Asked (s.proc.nonblock j) pc := h.read j pc (by simp [hpc])
      have hstep (hsome : (Uart.stepRead (s.dev j) pc true).isSome = true) : GoesOn s := by
        obtain ⟨r, hr⟩ := Option.isSome_iff_exists.mp hsome
        apply goesOn_kernel (j := j) (a := .reader 0 true) rfl
        · simp [permitted]
        · simp [Uart.machine, Uart.stepDev, hpc, hr]
      cases pc with
      | ret r =>
        left
        apply hread r
        · simp [sync, hr, hf, hpc, stepKernel_readReturn hpc]
        · constructor
          · exact fun hn => absurd hn hf
          · rintro rfl
            exact absurd rfl hasked
        · rintro bs rfl
          exact hasked
      | wait rdSz =>
        by_cases hw : (s.dev j).readable = true
        · exact .inl (hstep (by simp [Uart.stepRead, hw]))
        · right
          refine ⟨?_, ⟨rdSz, hpc⟩, by simpa using hw⟩
          have hdrain := h.drain j
          generalize s.proc.pc = pc at hr hdrain
          cases pc with
          | wireRead k =>
            cases hr
            rfl
          | drainRead k save =>
            cases hr
            have hnb := hdrain save rfl hf
            rw [hasked.2] at hnb
            cases hnb
          | _ => cases hr
      | _ => exact .inl (hstep (stepRead_isSome (by rintro _ ⟨⟩) (by rintro _ ⟨⟩)))

theorem Steady.goesOn (h : Steady s) (hs : s.proc.status = .running) (hpc : s.proc.pc ≠ .idle)
    (hsock : onSocket s.proc.pc = false) : GoesOn s ∨ ∃ j, Asleep s j := by
  have hcall := h.call hs
  cases hp : s.proc.pc with
  | idle => exact absurd hp hpc
  | accept k | send k buf | clientRecv k => simp [hp, onSocket] at hsock
  | wireWrite k buf => exact .inl (goesOn_handler hs hp (by rintro ⟨⟩) (a := .write (.ok 0)) rfl rfl rfl)
  | drainGetfl k =>
    left
    by_cases hf : s.proc.fd k .wire = none
    · exact goesOn_handler hs hp (by rintro ⟨⟩) (a := .fcntl false) (by simp [calls, hp, hf]) rfl
        (by simp [Daemon.stepHandler])
    · exact goesOn_handler hs hp (by rintro ⟨⟩) (a := .fcntl true) rfl rfl (by simp [Daemon.stepHandler, hf])
  | drainSetfl k save => exact .inl (goesOn_handler hs hp (by rintro ⟨⟩) (a := .fcntl true) rfl rfl rfl)
  | drainRestore k save => exact .inl (goesOn_handler hs hp (by rintro ⟨⟩) (a := .fcntl true) rfl rfl rfl)
  | wireClose k | drainClose k save =>
    exact .inl (hcall.closing_goesOn h.synced hs (j := k) (by rw [hp]; rfl))
  | wireReopen k | drainReopen k save =>
    exact .inl (hcall.reopening_goesOn hs (h.ok.sound hs).owned (j := k) (by rw [hp]; rfl))
  | wireRead k | drainRead k save =>
    exact (hcall.reading_goesOn h.synced hs (j := k) (by rw [hp]; rfl)).imp_right (fun ha => ⟨k, ha⟩)

theorem awake_of_polled (h : Polled s) (hs : s.proc.status = .running) (j : Fin n) : ¬ Asleep s j := by
  rintro ⟨hpc, ⟨rdSz, hr⟩, hn⟩
  have hbusy := (h.ok.sound hs).busy j (by rw [hpc]; rfl)
  have hfd := (h.synced j (by simp [hr])).2.1
  rw [hpc] at hbusy
  have hl : s.proc.look j = .relay := hbusy.relay_of_wire (fun hw => hfd (Daemon.fd_eq_none_iff.mpr hw))
  have hread := h.ready hs j ⟨hl, .inr ⟨hpc, by rw [hr]; rfl⟩⟩
  rw [hn] at hread
  cases hread

end Step

end VirtRtLab.Lab
