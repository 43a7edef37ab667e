import VirtRtLab.Lab.Progress

/-!
The lab with its sockets: simulators that connect, send, read and leave, and what the calls of the daemon on blocking
sockets return. A call that has nothing to return sleeps.
-/

namespace VirtRtLab.Lab

open Kernel VirtRtLab.Core Transition

variable {n : ℕ}

/-- A connection: what its simulator has sent and the daemon has not received, how much a `send` still puts into it,
and whether the simulator has closed it. -/
structure Conn where
  sent : Bytes
  room : ℕ
  left : Bool

structure Sock where
  pending : List Conn
  client : Conn

structure Net (n : ℕ) where
  world : World n
  sock : Fin n → Sock

inductive ConnAct where
  | send (bs : Bytes)
  | read (count : ℕ)
  | leave

inductive SimAct where
  | connect (room : ℕ)
  | pending (k : ℕ) (a : ConnAct)
  | client (a : ConnAct)

inductive NetAct (n : ℕ) where
  | simulator (i : Fin n) (a : SimAct)
  | lab (a : Act n)

def Conn.readable (c : Conn) : Bool := !c.sent.isEmpty || c.left

def Conn.step (c : Conn) : ConnAct → Option Conn
  | .send bs => if c.left then none else some { c with sent := c.sent ++ bs }
  | .read count => if c.left then none else some { c with room := c.room + count }
  | .leave => some { c with left := true }

def Conn.recv (c : Conn) : Except Errno Bytes → Option Conn
  | .ok [] => if c.sent = [] ∧ c.left then some c else none
  | .ok bs => if bs <+: c.sent then some { c with sent := c.sent.drop bs.length } else none
  | .error e => if e = .eagain then none else some c

/-- `send` on a blocking socket: short only where the simulator has left. -/
def Conn.send (c : Conn) (buf : Bytes) : Except Errno ℕ → Option Conn
  | .ok nw =>
    if c.left then if nw < buf.length then some c else none
    else if nw = buf.length ∧ buf.length ≤ c.room then some { c with room := c.room - nw }
    else none
  | .error e => if e = .eagain ∨ e = .epipe ∧ !c.left then none else some c

def Sock.step (listening connected : Bool) (k : Sock) : SimAct → Option Sock
  | .connect room => if listening then some { k with pending := k.pending ++ [⟨[], room, false⟩] } else none
  | .pending j a =>
    match k.pending[j]? with
    | none => none
    | some c => (c.step a).map (fun c => { k with pending := k.pending.set j c })
  | .client a => if connected then (k.client.step a).map (fun c => { k with client := c }) else none

def heard (s : Net n) : Daemon.Source → Bool
  | .signal => true
  | .fd f =>
    match s.world.proc.watched f with
    | some (i, .server) => !(s.sock i).pending.isEmpty
    | some (i, .client) => (s.sock i).client.readable
    | _ => true

def Net.setClient (s : Net n) (i : Fin n) (c : Conn) : Fin n → Sock :=
  Function.update s.sock i { s.sock i with client := c }

def answer (s : Net n) : Daemon.Act n → Option (Fin n → Sock)
  | .wait sources => if sources.all (heard s) then some s.sock else none
  | .accept (some _) =>
    match s.world.proc.pc with
    | .accept i =>
      match (s.sock i).pending with
      | [] => none
      | c :: rest => some (Function.update s.sock i ⟨rest, c⟩)
    | _ => some s.sock
  | .recv r =>
    match s.world.proc.pc with
    | .clientRecv i =>
      if s.world.proc.fd i .client = none then some s.sock
      else ((s.sock i).client.recv r).map (s.setClient i)
    | _ => some s.sock
  | .send r =>
    match s.world.proc.pc with
    | .send i buf =>
      if s.world.proc.fd i .client = none then some s.sock
      else ((s.sock i).client.send buf r).map (s.setClient i)
    | _ => some s.sock
  | _ => some s.sock

def answered (s : Net n) : Act n → Option (Fin n → Sock)
  | .kernel _ _ => some s.sock
  | .daemon a => answer s a

def net : Machine (Net n) (NetAct n) (Obs n) := fun s a =>
  match a with
  | .simulator i a =>
    ((s.sock i).step (s.world.proc.fd i .server).isSome (s.world.proc.fd i .client).isSome a).map
      (fun k => ({ s with sock := Function.update s.sock i k }, []))
  | .lab a =>
    match answered s a with
    | none => none
    | some sock => (machine s.world a).map (fun r => (⟨r.1, sock⟩, r.2))

def netStart (n : ℕ) : Net n := ⟨start n, fun _ => ⟨[], ⟨[], 0, false⟩⟩⟩

inductive NetStep (s : Net n) : NetAct n → Net n → List (Obs n) → Prop
  | simulator (i a k)
      (hk : (s.sock i).step (s.world.proc.fd i .server).isSome (s.world.proc.fd i .client).isSome a = some k) :
      NetStep s (.simulator i a) { s with sock := Function.update s.sock i k } []
  | lab (a sock w o) (ha : answered s a = some sock) (hm : machine s.world a = some (w, o)) :
      NetStep s (.lab a) ⟨w, sock⟩ o

theorem net_cases {s t : Net n} {a : NetAct n} {o : List (Obs n)} (h : net s a = some (t, o)) : NetStep s a t o := by
  cases a with
  | simulator i a =>
    obtain ⟨k, hk, hr⟩ := Option.map_eq_some_iff.mp h
    cases hr
    exact .simulator i a k hk
  | lab a =>
    simp only [net] at h
    split at h
    · cases h
    · rename_i sock ha
      obtain ⟨⟨w, o'⟩, hm, hr⟩ := Option.map_eq_some_iff.mp h
      cases hr
      exact .lab a sock w o' ha hm

def OnLab (P : World n → Act n → Prop) (s : Net n) (a : NetAct n) : Prop := ∀ b, a = .lab b → P s.world b

instance (P : World n → Act n → Prop) [∀ s a, Decidable (P s a)] (s : Net n) (a : NetAct n) : Decidable (OnLab P s a) :=
  match a with
  | .simulator _ _ => .isTrue (by rintro b ⟨⟩)
  | .lab b => decidable_of_iff (P s.world b) (by simp [OnLab])

theorem net_lab {P : World n → Act n → Prop} {os : List (Obs n)} {s t : Net n} (h : Run net (OnLab P) s os t) :
    Run machine P s.world os t.world := by
  apply h.refine Net.world
  intro t a u o hp hm
  cases net_cases hm with
  | simulator => exact .inl ⟨rfl, rfl⟩
  | lab a sock w o ha hm => exact .inr ⟨a, hp a rfl, hm⟩

def Due (p : Daemon.Proc n) (e : Daemon.Event n) : Prop := e ∈ p.batch ∨ p.pc.handling = some e

structure Heard (s : Net n) : Prop where
  ok : Daemon.Ok True True s.world.proc
  batched : s.world.proc.status = .running → Daemon.Batched s.world.proc
  pending : s.world.proc.status = .running → ∀ i, Due s.world.proc (.ready i .server) → (s.sock i).pending ≠ []
  readable : s.world.proc.status = .running → ∀ i, Due s.world.proc (.ready i .client) →
    s.world.proc.look i = .relay → (s.sock i).client.readable = true

section Conn

variable {c c' : Conn}

theorem Conn.step_readable {a : ConnAct} (h : c.step a = some c') (hr : c.readable = true) : c'.readable = true := by
  simp only [Conn.readable, Bool.or_eq_true, Bool.not_eq_true', List.isEmpty_eq_false_iff] at hr ⊢
  cases a with
  | send bs =>
    simp only [Conn.step, Option.ite_none_left_eq_some, Option.some.injEq] at h
    obtain ⟨-, rfl⟩ := h
    exact hr.imp_left (fun hs => by simp [hs])
  | read count =>
    simp only [Conn.step, Option.ite_none_left_eq_some, Option.some.injEq] at h
    obtain ⟨-, rfl⟩ := h
    exact hr
  | leave =>
    simp only [Conn.step, Option.some.injEq] at h
    subst h
    exact .inr rfl

theorem Conn.send_readable {buf : Bytes} {r : Except Errno ℕ} (h : c.send buf r = some c') :
    c'.readable = c.readable := by
  cases r with
  | ok nw =>
    simp only [Conn.send] at h
    split_ifs at h <;> cases h <;> rfl
  | error e =>
    simp only [Conn.send] at h
    split_ifs at h
    cases h
    rfl

theorem Conn.recv_enabled (hr : c.readable = true) :
    ∃ bs, (c.recv (.ok bs)).isSome = true ∧ bs.length ≤ Daemon.SOCK_BUF_SIZE := by
  cases hs : c.sent with
  | nil =>
    have hleft : c.left = true := by simpa [Conn.readable, hs] using hr
    exact ⟨[], by simp [Conn.recv, hs, hleft], Nat.zero_le _⟩
  | cons b bs => exact ⟨[b], by simp [Conn.recv, hs], by simp [Daemon.SOCK_BUF_SIZE]⟩

end Conn

section Sock

variable {listening connected : Bool} {k k' : Sock} {a : SimAct}

theorem Sock.step_pending (h : k.step listening connected a = some k') (hp : k.pending ≠ []) : k'.pending ≠ [] := by
  cases a with
  | connect room =>
    simp only [Sock.step, Option.ite_none_right_eq_some, Option.some.injEq] at h
    obtain ⟨-, rfl⟩ := h
    simp
  | pending j a =>
    simp only [Sock.step] at h
    split at h
    · cases h
    · obtain ⟨c, -, rfl⟩ := Option.map_eq_some_iff.mp h
      simpa using hp
  | client a =>
    simp only [Sock.step, Option.ite_none_right_eq_some] at h
    obtain ⟨c, -, rfl⟩ := Option.map_eq_some_iff.mp h.2
    exact hp

theorem Sock.step_readable (h : k.step listening connected a = some k') (hr : k.client.readable = true) :
    k'.client.readable = true := by
  cases a with
  | connect room =>
    simp only [Sock.step, Option.ite_none_right_eq_some, Option.some.injEq] at h
    obtain ⟨-, rfl⟩ := h
    exact hr
  | pending j a =>
    simp only [Sock.step] at h
    split at h
    · cases h
    · obtain ⟨c, -, rfl⟩ := Option.map_eq_some_iff.mp h
      exact hr
  | client a =>
    simp only [Sock.step, Option.ite_none_right_eq_some] at h
    obtain ⟨c, hc, rfl⟩ := Option.map_eq_some_iff.mp h.2
    exact Conn.step_readable hc hr

end Sock

section Answer

variable {s : Net n} {a : Daemon.Act n} {sock : Fin n → Sock} {i : Fin n}

theorem answer_cases (h : answer s a = some sock) : sock = s.sock ∨
    (∃ i k, s.world.proc.pc = .accept i ∧ sock = Function.update s.sock i k) ∨
    ∃ i c, sock = s.setClient i c ∧ (s.world.proc.pc = .clientRecv i ∨ c.readable = (s.sock i).client.readable) := by
  unfold answer at h
  split at h
  · simp only [Option.ite_none_right_eq_some, Option.some.injEq] at h
    exact .inl h.2.symm
  · split at h
    · split at h
      · cases h
      · cases h
        exact .inr (.inl ⟨_, _, ‹_›, rfl⟩)
    · cases h
      exact .inl rfl
  · split at h
    · split_ifs at h
      · cases h
        exact .inl rfl
      · obtain ⟨c, -, rfl⟩ := Option.map_eq_some_iff.mp h
        exact .inr (.inr ⟨_, c, rfl, .inl ‹_›⟩)
    · cases h
      exact .inl rfl
  · split at h
    · split_ifs at h
      · cases h
        exact .inl rfl
      · obtain ⟨c, hc, rfl⟩ := Option.map_eq_some_iff.mp h
        exact .inr (.inr ⟨_, c, rfl, .inr (Conn.send_readable hc)⟩)
    · cases h
      exact .inl rfl
  · cases h
    exact .inl rfl

theorem answer_pending (h : answer s a = some sock) (hn : s.world.proc.pc ≠ .accept i) :
    (sock i).pending = (s.sock i).pending := by
  obtain rfl | ⟨j, k, hpc, rfl⟩ | ⟨j, c, rfl, -⟩ := answer_cases h
  · rfl
  · have hij : i ≠ j := by
      rintro rfl
      exact hn hpc
    rw [Function.update_of_ne hij]
  · by_cases hij : i = j
    · subst hij
      simp [Net.setClient]
    · simp [Net.setClient, hij]

theorem answer_readable (h : answer s a = some sock) (ha : s.world.proc.pc ≠ .accept i)
    (hr : s.world.proc.pc ≠ .clientRecv i) : (sock i).client.readable = (s.sock i).client.readable := by
  obtain rfl | ⟨j, k, hpc, rfl⟩ | ⟨j, c, rfl, hc⟩ := answer_cases h
  · rfl
  · have hij : i ≠ j := by
      rintro rfl
      exact ha hpc
    rw [Function.update_of_ne hij]
  · by_cases hij : i = j
    · subst hij
      simpa [Net.setClient] using hc.resolve_left hr
    · simp [Net.setClient, hij]

end Answer

section Step

variable {s t : Net n} {o : List (Obs n)}

theorem pending_of_heard {sources : List Daemon.Source} {batch : List (Daemon.Event n)}
    (hm : sources.mapM (Daemon.event s.world.proc) = some batch) (hw : sources.all (heard s) = true) {i : Fin n}
    (hi : .ready i .server ∈ batch) : (s.sock i).pending ≠ [] := by
  obtain ⟨src, hsrc, he⟩ := Daemon.event_of_mem hm hi
  have hh := List.all_eq_true.mp hw src hsrc
  cases src with
  | fd f =>
    simp only [Daemon.event, Option.map_eq_some_iff, Daemon.Event.ready.injEq] at he
    obtain ⟨⟨j, r⟩, hf, rfl, rfl⟩ := he
    simpa [heard, hf] using hh
  | signal => cases he

theorem readable_of_heard {sources : List Daemon.Source} {batch : List (Daemon.Event n)}
    (hm : sources.mapM (Daemon.event s.world.proc) = some batch) (hw : sources.all (heard s) = true) {i : Fin n}
    (hi : .ready i .client ∈ batch) : (s.sock i).client.readable = true := by
  obtain ⟨src, hsrc, he⟩ := Daemon.event_of_mem hm hi
  have hh := List.all_eq_true.mp hw src hsrc
  cases src with
  | fd f =>
    simp only [Daemon.event, Option.map_eq_some_iff, Daemon.Event.ready.injEq] at he
    obtain ⟨⟨j, r⟩, hf, rfl, rfl⟩ := he
    simpa [heard, hf] using hh
  | signal => cases he

theorem due_dispatch {p : Daemon.Proc n} (hpc : p.pc = .idle) {e e' : Daemon.Event n} {rest : List (Daemon.Event n)}
    (hb : p.batch = e :: rest) (hq : (Daemon.dispatch { p with batch := rest } e).status = .running)
    (h : Due (Daemon.dispatch { p with batch := rest } e) e') : Due p e' := by
  left
  rw [hb]
  rcases h with h | h
  · cases e with
    | ready i r =>
      rw [Daemon.batch_dispatch _ ⟨i, r, rfl⟩] at h
      exact List.mem_cons_of_mem _ h
    | signal => cases hq
  · rw [Daemon.handling_dispatch (p := { p with batch := rest }) hpc h]
    exact List.mem_cons_self

theorem due_handled {p q : Daemon.Proc n} {a : Daemon.Act n} {o : List (Daemon.Obs n)} (hok : Daemon.Ok True True p)
    (hs : p.status = .running) (hb : Daemon.Batched p) (hh : Daemon.Handled p p.pc a q o) (hq : q.status = .running)
    {e : Daemon.Event n} (h : Due q e) : e ∈ p.batch ∧ e ∉ p.pc.served := by
  obtain ⟨k, hk⟩ := Daemon.pc_inst_of_handled hh
  have hbatch := (Daemon.handled_next (hok.sound hs) hs hk Daemon.allowed_true hh).batch
  rcases h with h | h
  · rw [hbatch] at h
    exact ⟨h, fun he => hb.served e he h⟩
  · rw [Daemon.handling_handled hh hq] at h
    cases h

theorem Heard.handled {a : Daemon.Act n} {q : Daemon.Proc n} {o : List (Daemon.Obs n)} {sock : Fin n → Sock}
    (h : Heard s) (hs : s.world.proc.status = .running) (ha : answer s a = some sock)
    (hh : Daemon.Handled s.world.proc s.world.proc.pc a q o) (hq : q.status = .running) :
    (∀ i, Due q (.ready i .server) → (sock i).pending ≠ []) ∧
      ∀ i, Due q (.ready i .client) → q.look i = .relay → (sock i).client.readable = true := by
  have hdue {e : Daemon.Event n} (he : Due q e) := due_handled h.ok hs (h.batched hs) hh hq he
  constructor
  · intro i hi
    obtain ⟨hmem, hserved⟩ := hdue hi
    have hn : s.world.proc.pc ≠ .accept i := by
      intro hpc
      simp [hpc, Daemon.Pc.served] at hserved
    rw [answer_pending ha hn]
    exact h.pending hs i (.inl hmem)
  · intro i hi hl
    obtain ⟨hmem, hserved⟩ := hdue hi
    have hn : s.world.proc.pc ≠ .accept i := by
      intro hpc
      simp [hpc, Daemon.Pc.served] at hserved
    have hr : s.world.proc.pc ≠ .clientRecv i := by
      intro hpc
      simp [hpc, Daemon.Pc.served] at hserved
    rw [answer_readable ha hn hr]
    apply h.readable hs i (.inl hmem)
    obtain ⟨k, hk⟩ := Daemon.pc_inst_of_handled hh
    by_cases hik : i = k
    · subst hik
      exact Daemon.relay_handled (h.ok.sound hs) hs hk hh hq hn hl
    · rw [← ((Daemon.handled_next (h.ok.sound hs) hs hk Daemon.allowed_true hh).other i hik).look]
      exact hl

theorem Heard.daemon {a : Daemon.Act n} {w : World n} {o : List (Daemon.Obs n)} {sock : Fin n → Sock} (h : Heard s)
    (ha : answer s a = some sock) (hm : Daemon.machine s.world.proc a = some (w.proc, o)) : Heard ⟨w, sock⟩ := by
  obtain ⟨hs, hst⟩ := Daemon.machine_cases hm
  have hok := Daemon.machine_ok h.ok Daemon.allowed_true hm
  have hbatched (hq : w.proc.status = .running) := Daemon.machine_batched h.ok (h.batched hs) hm hq
  generalize hw : w.proc = q at hst hok hbatched
  suffices hdue : q.status = .running → (∀ i, Due q (.ready i .server) → (sock i).pending ≠ []) ∧
      ∀ i, Due q (.ready i .client) → q.look i = .relay → (sock i).client.readable = true by
    subst hw
    exact ⟨hok, hbatched, fun hq => (hdue hq).1, fun hq => (hdue hq).2⟩
  intro hq
  cases hst with
  | wait sources batch hpc hn he =>
    simp only [answer, Option.ite_none_right_eq_some, Option.some.injEq] at ha
    obtain ⟨hall, rfl⟩ := ha
    have hmem {e : Daemon.Event n} (hd : Due { s.world.proc with batch } e) : e ∈ batch := by
      rcases hd with hd | hd
      · exact hd
      · have hd' : s.world.proc.pc.handling = some e := hd
        rw [hpc] at hd'
        cases hd'
    exact ⟨fun i hi => pending_of_heard he hall (hmem hi), fun i hi _ => readable_of_heard he hall (hmem hi)⟩
  | waitFail => cases hq
  | dispatch e rest hpc hb =>
    cases ha
    refine ⟨fun i hi => h.pending hs i (due_dispatch hpc hb hq hi), fun i hi hl => ?_⟩
    apply h.readable hs i (due_dispatch hpc hb hq hi)
    cases e with
    | ready k r =>
      rw [(Daemon.untouched_dispatch { s.world.proc with batch := rest } k r i).look] at hl
      exact hl
    | signal => cases hq
  | handler a q o hh => exact h.handled hs ha hh hq

theorem daemon_of_machine {s t : World n} {a : Daemon.Act n} {o : List (Obs n)}
    (h : machine s (.daemon a) = some (t, o)) : ∃ o', Daemon.machine s.proc a = some (t.proc, o') := by
  cases machine_cases h with
  | read i r q o hi hr hm => exact ⟨o, hm⟩
  | daemon a q o hi hw hm => exact ⟨o, hm⟩

theorem Heard.simulator {i : Fin n} {a : SimAct} {k : Sock} {listening connected : Bool} (h : Heard s)
    (hk : (s.sock i).step listening connected a = some k) :
    Heard { s with sock := Function.update s.sock i k } := by
  refine ⟨h.ok, h.batched, fun hs j hj => ?_, fun hs j hj hl => ?_⟩
  · have hp := h.pending hs j hj
    by_cases hji : j = i
    · subst hji
      simp only [Function.update_self]
      exact Sock.step_pending hk hp
    · simpa only [Function.update_of_ne hji] using hp
  · have hr := h.readable hs j hj hl
    by_cases hji : j = i
    · subst hji
      simp only [Function.update_self]
      exact Sock.step_readable hk hr
    · simpa only [Function.update_of_ne hji] using hr

theorem net_heard {a : NetAct n} (h : Heard s) (hm : net s a = some (t, o)) : Heard t := by
  cases net_cases hm with
  | simulator i a k hk => exact h.simulator hk
  | lab a sock w o ha hw =>
    cases a with
    | kernel i a =>
      cases ha
      cases machine_cases hw
      exact ⟨h.ok, h.batched, h.pending, h.readable⟩
    | daemon a =>
      obtain ⟨o', hd⟩ := daemon_of_machine hw
      exact h.daemon ha hd

theorem heard_start (n : ℕ) : Heard (netStart n) := by
  have hnone (e : Daemon.Event n) : ¬ Due (Daemon.start n) e := by
    rintro (h | h)
    · cases h
    · cases h
  have hproc := Daemon.started_start n
  exact ⟨hproc.ok, fun _ => hproc.batched, fun _ i hi => absurd hi (hnone _), fun _ i hi => absurd hi (hnone _)⟩

def Net.GoesOn (s : Net n) : Prop := ∃ a, calls s.world a = true ∧ (net s (.lab a)).isSome = true

/-- The daemon sleeps in a `send` to a simulator that is there and does not read. -/
def Net.Full (s : Net n) (i : Fin n) : Prop :=
  ∃ buf, s.world.proc.pc = .send i buf ∧ s.world.proc.fd i .client ≠ none ∧ (s.sock i).client.left = false ∧
    (s.sock i).client.room < buf.length

theorem goesOn_socket {pc : Daemon.Pc n} {a : Daemon.Act n} (hs : s.world.proc.status = .running)
    (hpc : s.world.proc.pc = pc) (hne : pc ≠ .idle) (ho : calls s.world (.daemon a) = true)
    (ha : (answer s a).isSome = true) (hsync : (sync s.world a).isSome = true)
    (hm : (Daemon.stepHandler s.world.proc pc a).isSome = true) : s.GoesOn := by
  obtain ⟨sock, ha⟩ := Option.isSome_iff_exists.mp ha
  obtain ⟨⟨w, o⟩, hw⟩ := Option.isSome_iff_exists.mp hsync
  rw [← Daemon.machine_handler hs hpc hne] at hm
  obtain ⟨⟨q, o'⟩, hq⟩ := Option.isSome_iff_exists.mp hm
  refine ⟨_, ho, ?_⟩
  simp [net, answered, ha, machine, hw, hq]

theorem goesOn_net (h : GoesOn s.world) (hsock : onSocket s.world.proc.pc = false) : s.GoesOn := by
  obtain ⟨a, ha, hm⟩ := h
  have hsame : answered s a = some s.sock := by
    cases a with
    | kernel => rfl
    | daemon a =>
      simp only [answered]
      unfold answer
      generalize s.world.proc.pc = pc at hsock
      cases a with
      | wait => cases ha
      | accept r =>
        cases r with
        | none => rfl
        | some f => cases pc <;> first | rfl | cases hsock
      | recv | send => cases pc <;> first | rfl | cases hsock
      | _ => rfl
  refine ⟨a, ha, ?_⟩
  simpa [net, hsame] using hm

theorem Heard.accept_goesOn (h : Heard s) (hs : s.world.proc.status = .running) {i : Fin n}
    (hpc : s.world.proc.pc = .accept i) : s.GoesOn := by
  have hsound := h.ok.sound hs
  have hbusy := hsound.busy i (by rw [hpc]; rfl)
  rw [hpc] at hbusy
  have hserver : s.world.proc.fd i .server ≠ none := by
    rcases hbusy with hl | ⟨-, -, hl⟩
    · exact Daemon.fd_ne_none hl (by decide)
    · exact Daemon.fd_ne_none hl (by decide)
  obtain ⟨f, hf⟩ := Daemon.exists_free hsound.owned
  cases hp : (s.sock i).pending with
  | nil => exact absurd hp (h.pending hs i (.inr (by rw [hpc]; rfl)))
  | cons c rest =>
    exact goesOn_socket hs hpc (by rintro ⟨⟩) (a := .accept (some f)) rfl (by simp [answer, hpc, hp]) rfl
      (by simp [Daemon.stepHandler, Daemon.fresh, hf, hserver])

theorem Heard.recv_goesOn (h : Heard s) (hs : s.world.proc.status = .running) {i : Fin n}
    (hpc : s.world.proc.pc = .clientRecv i) : s.GoesOn := by
  have hbusy := (h.ok.sound hs).busy i (by rw [hpc]; rfl)
  rw [hpc] at hbusy
  by_cases hf : s.world.proc.fd i .client = none
  · exact goesOn_socket hs hpc (by rintro ⟨⟩) (a := .recv (.error .ebadf)) rfl (by simp [answer, hpc, hf]) rfl
      (by simp [Daemon.stepHandler, hf])
  · have hl : s.world.proc.look i = .relay := hbusy.relay_of_client (fun hc => hf (Daemon.fd_eq_none_iff.mpr hc))
    have hr := h.readable hs i (.inr (by rw [hpc]; rfl)) hl
    obtain ⟨bs, hbs, hlen⟩ := Conn.recv_enabled hr
    have ha : (answer s (.recv (.ok bs))).isSome = true := by simp [answer, hpc, hf, hbs]
    apply goesOn_socket hs hpc (by rintro ⟨⟩) (a := .recv (.ok bs)) rfl ha rfl
    cases bs with
    | nil => simp [Daemon.stepHandler, hf]
    | cons b bs =>
      rw [List.length_cons] at hlen
      simp [Daemon.stepHandler, hf, hlen]

theorem send_goesOn (hs : s.world.proc.status = .running) {i : Fin n} {buf : Bytes}
    (hpc : s.world.proc.pc = .send i buf) : s.GoesOn ∨ s.Full i := by
  by_cases hf : s.world.proc.fd i .client = none
  · left
    exact goesOn_socket hs hpc (by rintro ⟨⟩) (a := .send (.error .ebadf)) rfl (by simp [answer, hpc, hf]) rfl
      (by simp [Daemon.stepHandler, hf])
  · cases hl : (s.sock i).client.left with
    | true =>
      left
      exact goesOn_socket hs hpc (by rintro ⟨⟩) (a := .send (.error .epipe)) rfl
        (by simp [answer, hpc, hf, Conn.send, hl]) rfl (by simp [Daemon.stepHandler, hf])
    | false =>
      by_cases hroom : buf.length ≤ (s.sock i).client.room
      · left
        exact goesOn_socket hs hpc (by rintro ⟨⟩) (a := .send (.ok buf.length)) rfl
          (by simp [answer, hpc, hf, Conn.send, hl, hroom]) rfl (by simp [Daemon.stepHandler, hf])
      · exact .inr ⟨buf, hpc, hf, hl, Nat.lt_of_not_le hroom⟩

theorem Net.Full.wakes {i : Fin n} (h : s.Full i) (hs : s.world.proc.status = .running) :
    ∃ count, ∀ a, a = .leave ∨ a = .read count →
      ∃ t o, net s (.simulator i (.client a)) = some (t, o) ∧ t.GoesOn := by
  obtain ⟨buf, hpc, hf, hl, hroom⟩ := h
  refine ⟨buf.length, fun a ha => ?_⟩
  obtain ⟨c, hc, hsend⟩ : ∃ c, (s.sock i).client.step a = some c ∧ (c.left = true ∨ buf.length ≤ c.room) := by
    rcases ha with rfl | rfl
    · exact ⟨_, rfl, .inl rfl⟩
    · exact ⟨{ (s.sock i).client with room := (s.sock i).client.room + buf.length }, by simp [Conn.step, hl],
        .inr (Nat.le_add_left _ _)⟩
  have hstep : net s (.simulator i (.client a)) = some ({ s with sock := s.setClient i c }, []) := by
    simp [net, Sock.step, Option.isSome_iff_ne_none.mpr hf, hc, Net.setClient]
  refine ⟨_, _, hstep, ?_⟩
  rcases send_goesOn (s := { s with sock := s.setClient i c }) hs hpc with hgo | ⟨buf', hpc', -, hl', hroom'⟩
  · exact hgo
  · cases hpc.symm.trans hpc'
    simp only [Net.setClient, Function.update_self] at hl' hroom'
    rcases hsend with hleft | hle
    · rw [hl'] at hleft
      cases hleft
    · omega

theorem Heard.goesOn (h : Heard s) (hsteady : Steady s.world) (hs : s.world.proc.status = .running)
    (hpc : s.world.proc.pc ≠ .idle) : s.GoesOn ∨ (∃ j, Asleep s.world j) ∨ ∃ i, s.Full i := by
  cases hsock : onSocket s.world.proc.pc with
  | false =>
    rcases hsteady.goesOn hs hpc hsock with hgo | hasleep
    · exact .inl (goesOn_net hgo hsock)
    · exact .inr (.inl hasleep)
  | true =>
    cases hp : s.world.proc.pc with
    | accept i => exact .inl (h.accept_goesOn hs hp)
    | clientRecv i => exact .inl (h.recv_goesOn hs hp)
    | send i buf => exact (send_goesOn hs hp).imp_right (fun hfull => .inr ⟨i, hfull⟩)
    | _ =>
      rw [hp] at hsock
      cases hsock

end Step

/-- No `accept4` and no `recv` of a handler ever sleeps, and the wire devices keep none waiting. A `send` sleeps while
the simulator neither reads nor leaves, and a read of the wire where a port becomes active under a reported wire. -/
theorem handlers_go_on {os : List (Obs n)} {s : Net n} (h : Run net Always (netStart n) os s)
    (hs : s.world.proc.status = .running) (hpc : s.world.proc.pc ≠ .idle) :
    (s.GoesOn ∨ (∃ j, Asleep s.world j) ∨ ∃ i, s.Full i) ∧
      (Run net (OnLab NoActivationUnread) (netStart n) os s → s.GoesOn ∨ ∃ i, s.Full i) ∧
      ∀ i, s.Full i → ∃ count, ∀ a, a = .leave ∨ a = .read count →
        ∃ t o, net s (.simulator i (.client a)) = some (t, o) ∧ t.GoesOn := by
  have hheard : Heard s := h.invariant Heard (heard_start n) (fun _ _ _ _ hi _ hm => net_heard hi hm)
  have hlab : Run machine Always (start n) os s.world := net_lab (h.mono (fun _ _ _ _ _ => trivial))
  have hsteady : Steady s.world :=
    hlab.invariant Steady (steady_start n) (fun _ _ _ _ hi _ hm => machine_steady hi hm)
  have hgoes := hheard.goesOn hsteady hs hpc
  refine ⟨hgoes, fun hrun => ?_, fun i hfull => hfull.wakes hs⟩
  have hquiet : Run machine NoActivationUnread (start n) os s.world := net_lab hrun
  have hpolled : Polled s.world := hquiet.invariant Polled (started_start n).polled
    (fun _ _ _ _ hp hg hm => machine_polled hp hg hm)
  rcases hgoes with hgo | ⟨j, hj⟩ | hfull
  · exact .inl hgo
  · exact absurd hj (awake_of_polled hpolled hs j)
  · exact .inr hfull

def unread : List (NetAct 1) :=
  .simulator (Fin.last 0) (.connect 0) :: (ttyOpened ++ connected ++ byteArrives ++ byteRelayed.dropLast).map .lab

theorem handlers_go_on_unread : ∃ os s, Run net (OnLab NoActivationUnread) (netStart 1) os s ∧ s.Full 0 ∧
    (s.GoesOn ∨ ∃ i, s.Full i) ∧ ∃ count, ∀ a, a = .leave ∨ a = .read count →
      ∃ t o, net s (.simulator 0 (.client a)) = some (t, o) ∧ t.GoesOn := by
  obtain ⟨os, s, hrun, hs, hpc, hf, hl, hr⟩ := Run.exists_of_exec (M := net) (P := OnLab NoActivationUnread)
    (s := netStart 1) unread (fun _ s => s.world.proc.status = .running ∧ s.world.proc.pc = .send 0 [65] ∧
      s.world.proc.fd 0 .client = some 2 ∧ (s.sock 0).client.left = false ∧ (s.sock 0).client.room = 0)
    (by decide +kernel)
  have hfull : s.Full 0 := ⟨[65], hpc, by simp [hf], hl, by simp [hr]⟩
  have hall : Run net Always (netStart 1) os s := hrun.mono (fun _ _ _ => trivial)
  obtain ⟨-, hgo, hwakes⟩ := handlers_go_on hall hs (by simp [hpc])
  exact ⟨os, s, hrun, hfull, hgo hrun, hwakes 0 hfull⟩

end VirtRtLab.Lab
