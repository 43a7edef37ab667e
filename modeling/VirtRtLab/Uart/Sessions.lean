import VirtRtLab.Uart.WireSteps

namespace VirtRtLab.Uart

open Kernel VirtRtLab.Core Transition

/-- `sessions` counts the opens of the wire that got in and are not released; `reset` tells whether a RESET has set
`wire_reset_pending` in the present session, and `late` which of its reads, for at least one byte, started later. -/
structure Watch where
  sessions : ℕ
  reset : Bool
  late : List Bool
  deriving DecidableEq

inductive SessionEvent where
  | opened (pending : Bool)
  | dequeued (late : Bool) (bs : Bytes)
  | returned (late : Bool) (r : Except Errno Bytes)
  deriving DecidableEq

def SessionEvent.Proper : SessionEvent → Prop
  | .opened pending => pending = false
  | .dequeued late _ => late = false
  | .returned late r => late = true → r = .ok []

namespace Watch

def none : Watch := ⟨0, false, []⟩

def next (n : Watch) (d : Dev) : Act → Watch
  | .wireOpen => if d.wireOpenCount = 0 then { n with sessions := n.sessions + 1 } else n
  | .wireReleased => { n with sessions := n.sessions - 1, reset := false }
  | .wireRead count _ => { n with late := n.late ++ [n.reset && decide (0 < count)] }
  | .readReturn k => { n with late := n.late.eraseIdx k }
  | .notifier => if d.notifier = .resetStats [] then { n with reset := n.reset || decide (0 < n.sessions) } else n
  | _ => n

def isLate (n : Watch) (k : ℕ) : Bool := n.late.getD k false

def shows (n : Watch) (a : Act) (d' : Dev) (o : List Obs) : List SessionEvent :=
  match a, o with
  | .wireOpened, _ => [.opened d'.wireResetPending]
  | .reader k _, [.wireRead bs] => [.dequeued (n.isLate k) bs]
  | .readReturn k, [.returned r] => [.returned (n.isLate k) r]
  | _, _ => []

end Watch

def watching : Observer Sys Act Obs Watch SessionEvent where
  next n s a _ := n.next s.dev a
  shows n _ a r := n.shows a r.1.dev r.2

/-- The notifier does not set `wire_reset_pending` between the `atomic_cmpxchg` of a `wire_open` and its clear. -/
def NoResetInOpen (s : Sys) : Act → Prop
  | .notifier => s.dev.notifier = .resetStats [] → s.dev.wire ≠ .opening
  | _ => True

instance (s : Sys) (a : Act) : Decidable (NoResetInOpen s a) := by
  unfold NoResetInOpen
  split <;> infer_instance

def ReadPc.Over (n : Watch) : ReadPc → Prop
  | .called count _ => n.reset = true ∧ 0 < count
  | .ret r => r = .ok []
  | _ => False

structure Wired (n : Watch) (d : Dev) : Prop where
  wire : d.WireOk
  sessions : n.sessions = d.wireOpenCount
  marks : n.late.length = d.readers.length
  reset : n.reset = true → (d.wire = .opened ∨ d.wire = .releasing) ∧ d.wireResetPending = true
  late : ∀ k pc, d.readers[k]? = some pc → n.isLate k = true → pc.Over n

section

variable {n : Watch} {b b' : Bus} {d d' : Dev} {a : Act} {o : List Obs}

def Dev.session (d : Dev) : ℕ × WirePc × List ReadPc × Bool :=
  (d.wireOpenCount, d.wire, d.readers, d.wireResetPending)

theorem Wired.frame (h : Wired n d) (hw : d'.WireOk) (he : d'.session = d.session) : Wired n d' := by
  simp only [Dev.session, Prod.mk.injEq] at he
  obtain ⟨hc, hwire, hr, hp⟩ := he
  constructor
  · exact hw
  · rw [hc]; exact h.sessions
  · rw [hr]; exact h.marks
  · rw [hwire, hp]; exact h.reset
  · rw [hr]; exact h.late

theorem Wired.turn {n' : Watch} (h : Wired n d) (hw : d'.WireOk) (hs : n'.sessions = d'.wireOpenCount)
    (hl : n'.late = n.late) (hr : d'.readers = d.readers) (hd : d.wire ≠ .opened ∨ d.readers = [])
    (hreset : n'.reset = true → (d'.wire = .opened ∨ d'.wire = .releasing) ∧ d'.wireResetPending = true) :
    Wired n' d' := by
  have hnil : d.readers = [] := by
    rcases hd with hd | hd
    · exact h.wire.inside hd
    · exact hd
  constructor
  · exact hw
  · exact hs
  · rw [hl, hr]; exact h.marks
  · exact hreset
  · intro k pc hk
    simp [hr, hnil] at hk

theorem Wired.call (h : Wired n d) (hw : d.wire = .opened) (count : ℕ) (nonblock : Bool) :
    Wired (n.next d (.wireRead count nonblock)) { d with readers := d.readers ++ [.called count nonblock] } := by
  constructor
  · exact h.wire.readers rfl rfl hw
  · exact h.sessions
  · simp [Watch.next, h.marks]
  · exact h.reset
  · intro k pc hk hl
    rcases Nat.lt_or_ge k d.readers.length with hlt | hge
    · rw [List.getElem?_append_left hlt] at hk
      have hl' : n.isLate k = true := by
        simpa [Watch.next, Watch.isLate, List.getD, List.getElem?_append_left (h.marks ▸ hlt)] using hl
      exact h.late k pc hk hl'
    · have hlast : k = d.readers.length := by
        have := (List.getElem?_eq_some_iff.mp hk).1
        simp only [List.length_append, List.length_singleton] at this
        omega
      subst hlast
      have hpc : pc = .called count nonblock := by simpa using hk.symm
      rw [hpc]
      rw [← h.marks] at hl
      simpa [Watch.next, Watch.isLate, List.getD, ReadPc.Over] using hl

theorem Wired.setReader (h : Wired n d) (hw : d'.WireOk) {k : ℕ} {pc : ReadPc}
    (hd : d'.session = (d.wireOpenCount, d.wire, d.readers.set k pc, d.wireResetPending))
    (hl : n.isLate k = true → pc.Over n) : Wired n d' := by
  simp only [Dev.session, Prod.mk.injEq] at hd
  obtain ⟨hc, hwire, hr, hp⟩ := hd
  constructor
  · exact hw
  · rw [hc]; exact h.sessions
  · rw [hr, List.length_set]; exact h.marks
  · rw [hwire, hp]; exact h.reset
  · rw [hr]
    intro j pc' hj hlate
    by_cases hjk : k = j
    · subst hjk
      have hlt : k < d.readers.length := by
        simpa using (List.getElem?_eq_some_iff.mp hj).1
      rw [List.getElem?_set_self hlt] at hj
      cases hj
      exact hl hlate
    · rw [List.getElem?_set_ne hjk] at hj
      exact h.late j pc' hj hlate

theorem Wired.return (h : Wired n d) {k : ℕ} {r : Except Errno Bytes} (hk : d.readers[k]? = some (.ret r)) :
    Wired (n.next d (.readReturn k)) { d with readers := d.readers.eraseIdx k } := by
  constructor
  · exact h.wire.readers rfl rfl (h.wire.reading hk)
  · exact h.sessions
  · simp [Watch.next, List.length_eraseIdx, h.marks]
  · exact h.reset
  · intro j pc hj hl
    have hover : ∃ i, d.readers[i]? = some pc ∧ n.isLate i = true := by
      simp only [Watch.next, Watch.isLate, List.getD, List.getElem?_eraseIdx] at hj hl
      split at hj
      · exact ⟨j, hj, by simpa [*, Watch.isLate, List.getD] using hl⟩
      · exact ⟨j + 1, hj, by simpa [*, Watch.isLate, List.getD] using hl⟩
    obtain ⟨i, hi, hlate⟩ := hover
    exact h.late i pc hi hlate

theorem ReadPc.Over.mono {pc : ReadPc} {n' : Watch} (h : pc.Over n) (hn : n.reset = true → n'.reset = true) :
    pc.Over n' := by
  cases pc with
  | called count nonblock => exact ⟨hn h.1, h.2⟩
  | ret r => exact h
  | wait | woken | locked => exact h

theorem Wired.setReset (h : Wired n d) (hn : d.notifier = .resetStats []) (hg : d.wire ≠ .opening) :
    Wired (n.next d .notifier) { d with wireResetPending := true, notifier := .idle } := by
  have hnext : n.next d .notifier = { n with reset := n.reset || decide (0 < n.sessions) } := by
    simp [Watch.next, hn]
  rw [hnext]
  constructor
  · exact h.wire.frame rfl
  · exact h.sessions
  · exact h.marks
  · intro hreset
    refine ⟨?_, rfl⟩
    have hopen : d.wire ≠ .closed := by
      intro hw
      have hs : n.sessions = 0 := by rw [h.sessions, h.wire.count, if_pos hw]
      have hr : n.reset = true := by simpa [hs] using hreset
      have := (h.reset hr).1
      simp [hw] at this
    show d.wire = .opened ∨ d.wire = .releasing
    cases hw : d.wire with
    | closed => exact absurd hw hopen
    | opening => exact absurd hw hg
    | opened => exact .inl rfl
    | releasing => exact .inr rfl
  · intro k pc hk hl
    exact (h.late k pc hk hl).mono (fun hr => by simp [hr])

theorem Wired.goesOn (h : Wired n d) {k : ℕ} {ok : Bool} {pc pc' : ReadPc} (hk : d.readers[k]? = some pc)
    (hs : stepRead d pc ok = some (d, pc', [])) (hl : n.isLate k = true) : pc'.Over n := by
  have hover := h.late k pc hk hl
  cases pc with
  | called count nonblock =>
    obtain ⟨hreset, hpos⟩ := hover
    have hpending := (h.reset hreset).2
    have hne : count ≠ 0 := by omega
    simp only [stepRead, hpending, hne, ↓reduceIte, Option.some.injEq, Prod.mk.injEq] at hs
    obtain ⟨-, rfl, -⟩ := hs
    rfl
  | ret r => cases hs
  | wait | woken | locked => cases hover

theorem DevStep.wired (h : DevStep b d a d' o) (hi : Wired n d) (hg : NoResetInOpen ⟨b, d⟩ a) :
    Wired (n.next d a) d' := by
  have hok := h.wireOk hi.wire
  cases h with
  | refused ha =>
    cases a with
    | attrStore | bufSzStore | resetStore | notify => exact hi
    | _ => cases ha
  | wireOpen hc =>
    have hw := hi.wire.closed hc
    have hnext : n.next d .wireOpen = { n with sessions := n.sessions + 1 } := by simp [Watch.next, hc]
    rw [hnext]
    refine hi.turn hok (by simp [hi.sessions, hc]) rfl rfl (.inl (by simp [hw])) ?_
    intro hreset
    have := (hi.reset hreset).1
    simp [hw] at this
  | wireBusy hc =>
    have hnext : n.next d .wireOpen = n := by simp [Watch.next, hc]
    rw [hnext]
    exact hi
  | wireOpened hw =>
    refine hi.turn hok hi.sessions rfl rfl (.inl (by simp [hw])) ?_
    intro hreset
    have := (hi.reset hreset).1
    simp [hw] at this
  | wireRelease hw hr =>
    refine hi.turn hok hi.sessions rfl rfl (.inr hr) ?_
    intro hreset
    exact ⟨.inr rfl, (hi.reset hreset).2⟩
  | wireReleased hw =>
    have hs : n.sessions = 1 := hi.sessions.trans (hi.wire.open (by simp [hw]))
    refine hi.turn hok (by simp [Watch.next, hs]) rfl rfl (.inl (by simp [hw])) ?_
    intro hreset
    cases hreset
  | readCall hw => exact hi.call hw _ _
  | readGoesOn hk hs => exact hi.setReader hok rfl (hi.goesOn hk hs)
  | readTakes hk =>
    apply hi.setReader hok rfl
    intro hl
    exact absurd (hi.late _ _ hk hl) id
  | readReturn hk => exact hi.return hk
  | resetWire hn => exact hi.setReset hn (hg hn)
  | downWork hn | downFlush hn | downCount hn | resetWork hn | resetFlush hn | resetAttrs hn =>
    have hnext : n.next d .notifier = n := by simp [Watch.next, hn]
    rw [hnext]
    exact hi.frame hok rfl
  | @resetZero st rest hn =>
    have hnext : n.next d .notifier = n := by simp [Watch.next, hn]
    rw [hnext]
    cases st <;> exact hi.frame hok rfl
  | @resetStat k st => cases st <;> exact hi.frame hok rfl
  | _ => exact hi.frame hok rfl

theorem DevStep.proper (h : DevStep b d a d' o) (hi : Wired n d) {e : SessionEvent} (he : e ∈ n.shows a d' o) :
    e.Proper := by
  cases h with
  | wireOpened => simpa [Watch.shows, SessionEvent.Proper] using List.mem_singleton.mp he ▸ rfl
  | readTakes hk =>
    have heq := List.mem_singleton.mp he
    rw [heq]
    by_contra hl
    exact hi.late _ _ hk (Bool.not_eq_false _ ▸ hl)
  | readReturn hk =>
    have heq := List.mem_singleton.mp he
    rw [heq]
    intro hl
    exact hi.late _ _ hk hl
  | refused ha =>
    cases a with
    | attrStore | bufSzStore | resetStore | notify => cases he
    | _ => cases ha
  | _ => cases he

theorem WorkStep.session (h : WorkStep b d b' d' o) : d'.session = d.session := by
  cases h <;> rfl

end

theorem Wired.step {x y : Sys × Watch} {a : Act} {e : List SessionEvent} (hi : Wired x.2 x.1.dev)
    (hg : NoResetInOpen x.1 a) (hobs : observed machine watching x a = some (y, e)) :
    Wired y.2 y.1.dev ∧ ∀ p ∈ e, p.Proper := by
  obtain ⟨o, hm, hn, rfl⟩ := observed_eq_some hobs
  have hn' : y.2 = x.2.next x.1.dev a := hn
  rw [hn']
  obtain ⟨hiFirst, rfl, hw⟩ | ⟨b, rfl, -, hd, rfl⟩ | ⟨-, hd⟩ := machine_cases hm
  · exact ⟨hi.frame (hw.wireOk hi.wire) hw.session, by simp [watching, Watch.shows]⟩
  · rw [hd]
    exact ⟨hi, by simp [watching, Watch.shows]⟩
  · exact ⟨hd.wired hi hg, fun p hp => hd.proper hi hp⟩

def ReadOnly (k : ℕ) (_ : Sys) (a : Act) : Prop := a = .reader k true ∨ a = .readReturn k

theorem Wired.late_returns {n : Watch} {s : Sys} (h : Wired n s.dev) {k : ℕ} (hl : n.isLate k = true) :
    ∃ t, Run machine (ReadOnly k) s [.returned (.ok [])] t := by
  have hlt : k < s.dev.readers.length := by
    rw [← h.marks]
    by_contra hge
    simp [Watch.isLate, List.getD, List.getElem?_eq_none (Nat.not_lt.mp hge)] at hl
  obtain ⟨pc, hk⟩ : ∃ pc, s.dev.readers[k]? = some pc := ⟨_, List.getElem?_eq_getElem hlt⟩
  have hover := h.late k pc hk hl
  cases pc with
  | ret r =>
    have hr : r = .ok [] := hover
    rw [hr] at hk
    have hm : machine s (.readReturn k) = some (⟨s.bus, { s.dev with readers := s.dev.readers.eraseIdx k }⟩,
        [.returned (.ok [])]) := by simp [machine, stepDev, hk]
    exact ⟨_, .step .refl (.inr rfl) hm⟩
  | called count nonblock =>
    obtain ⟨hreset, hpos⟩ := hover
    have hpending := (h.reset hreset).2
    have hne : count ≠ 0 := by omega
    have hm : machine s (.reader k true) = some (⟨s.bus, { s.dev with
        readers := s.dev.readers.set k (.ret (.ok [])) }⟩, []) := by
      simp [machine, stepDev, stepRead, hk, hpending, hne]
    have hk' : (s.dev.readers.set k (.ret (.ok [])))[k]? = some (.ret (.ok [])) := List.getElem?_set_self hlt
    have hm' : machine ⟨s.bus, { s.dev with readers := s.dev.readers.set k (.ret (.ok [])) }⟩ (.readReturn k) =
        some (⟨s.bus, { s.dev with readers := (s.dev.readers.set k (.ret (.ok []))).eraseIdx k }⟩,
          [.returned (.ok [])]) := by simp [machine, stepDev, hk']
    exact ⟨_, .step (.step .refl (.inl rfl) hm) (.inr rfl) hm'⟩
  | wait | woken | locked => cases hover

theorem wired_start : Wired .none Dev.init := by
  constructor
  · exact wireOk_init
  · rfl
  · rfl
  · intro hreset
    cases hreset
  · intro k pc hk
    cases hk

theorem wire_sessions {es : List SessionEvent} {x : Sys × Watch}
    (h : Run (observed machine watching) (fun x a => NoResetInOpen x.1 a) (start, .none) es x) :
    x.2.sessions ≤ 1 ∧ x.1.dev.wireOpenCount = x.2.sessions ∧
    (x.2.sessions = 1 → machine x.1 .wireOpen = some (x.1, [])) ∧
    (∀ k, x.2.isLate k = true → ∃ t, Run machine (ReadOnly k) x.1 [.returned (.ok [])] t) ∧
    ∀ e ∈ es, e.Proper := by
  have hinv : Wired x.2 x.1.dev ∧ ∀ e ∈ es, e.Proper := by
    apply h.shown (fun x => Wired x.2 x.1.dev) SessionEvent.Proper wired_start
    intro x a y e hi hg hm
    exact hi.step hg hm
  obtain ⟨hw, hp⟩ := hinv
  refine ⟨?_, hw.sessions.symm, ?_, fun k hl => hw.late_returns hl, hp⟩
  · rw [hw.sessions, hw.wire.count]
    split <;> omega
  · intro hs
    have hc : x.1.dev.wireOpenCount ≠ 0 := by rw [← hw.sessions, hs]; decide
    simp [machine, stepDev, hc]

theorem wire_sessions_reset_and_reopen : ∃ es x,
    Run (observed machine watching) (fun x a => NoResetInOpen x.1 a) (start, .none) es x ∧
    es = [.opened false, .returned true (.ok []), .opened false] ∧ x.2.sessions = 1 ∧
    machine x.1 .wireOpen = some (x.1, []) ∧ ∀ e ∈ es, e.Proper := by
  obtain ⟨es, x, hrun, hes, hs⟩ := Run.exists_of_exec (M := observed machine watching)
    (P := fun x a => NoResetInOpen x.1 a) (s := (start, .none))
    (openPort ++ openWire ++ busReset ++ [.wireRead 16 false, .reader 0 true, .readReturn 0] ++ releaseWire ++ openWire)
    (fun es x => es = [.opened false, .returned true (.ok []), .opened false] ∧ x.2.sessions = 1) (by decide +kernel)
  obtain ⟨-, -, hbusy, -, hp⟩ := wire_sessions hrun
  exact ⟨es, x, hrun, hes, hs, hbusy hs, hp⟩

theorem reset_lost_in_wire_open : ¬ ∀ es x, Run (observed machine watching) Always (start, .none) es x →
    ∀ e ∈ es, e.Proper := by
  intro hall
  -- the RESET runs between the `atomic_cmpxchg` and the clear of one `wire_open`
  obtain ⟨es, x, hrun, hes⟩ := Run.exists_of_exec (M := observed machine watching) (P := Always) (s := (start, .none))
    (openPort ++ [.wireOpen] ++ busReset ++
      [.wireOpened, .wireRead 16 true, .reader 0 true, .reader 0 true, .readReturn 0])
    (fun es _ => .returned true (.error .eagain) ∈ es) (by decide +kernel)
  have h := hall es x hrun _ hes
  cases h rfl

end VirtRtLab.Uart
