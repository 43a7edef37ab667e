import VirtRtLab.Uart.WireWrite
import VirtRtLab.Lab.Composition

/-!
The way from a simulator to the AUT. The daemon's `write` to the wire is `virtrtlab_wire_write` chunk by chunk, with
anything else of the lab between two chunks; `tty_insert_flip_string` takes any part of a chunk.
-/

namespace VirtRtLab.Lab

open Kernel VirtRtLab.Core Transition
open Uart (WRITE_CHUNK)
open scoped List

variable {n : ℕ}

/-- Messages that went through one after the other, each of them cut off somewhere. -/
inductive Cut : List Bytes → Bytes → Prop
  | nil : Cut [] []
  | snoc {ms xs m p} (h : Cut ms xs) (hp : p <+: m) : Cut (ms ++ [m]) (xs ++ p)

theorem Cut.sublist {ms : List Bytes} {xs : Bytes} (h : Cut ms xs) : xs <+ ms.flatten := by
  induction h with
  | nil => exact List.Sublist.slnil
  | snoc h hp ih =>
    rw [List.flatten_append, List.flatten_singleton]
    exact ih.append hp.sublist

/-- `virtrtlab_wire_write` under way: what it has not tried, what it has inserted, and whether a short insert has ended
its loop. -/
structure Call where
  rest : Bytes
  done : ℕ
  broken : Bool

structure Up (n : ℕ) where
  world : World n
  call : Call

inductive UpObs (n : ℕ) where
  | lab (o : Obs n)
  | received (i : Fin n) (bs : Bytes)
  | inserted (i : Fin n) (bs : Bytes)
  | pushed (i : Fin n)
  deriving DecidableEq

inductive UpAct (n : ℕ) where
  | lab (a : Act n)
  | chunk (k : ℕ)
  | fault
  | badf
  | ret

def message : Daemon.Pc n → Option (Fin n × Bytes)
  | .wireWrite i buf => some (i, buf)
  | _ => none

def handsOver : Act n → Bool
  | .daemon (.write _) => true
  | .kernel _ (.wireChunk _ _) => true
  | _ => false

def writeReturns (s : Up n) (r : Except Errno ℕ) (o : List (UpObs n)) : Option (Up n × List (UpObs n)) :=
  (machine s.world (.daemon (.write r))).map (fun t => (⟨t.1, s.call⟩, t.2.map .lab ++ o))

def upMachine : Machine (Up n) (UpAct n) (UpObs n) := fun s a =>
  match a with
  | .lab a =>
    if handsOver a then none
    else
      match machine s.world a with
      | none => none
      | some (t, o) =>
        match a, message t.proc.pc with
        | .daemon (.recv (.ok buf)), some (i, _) => some (⟨t, ⟨buf, 0, false⟩⟩, o.map .lab ++ [.received i buf])
        | _, _ => some (⟨t, s.call⟩, o.map .lab)
  | .chunk k =>
    match message s.world.proc.pc with
    | none => none
    | some (i, _) =>
      let chunk := s.call.rest.take WRITE_CHUNK
      if s.call.broken then none
      else
        (machine s.world (.kernel i (.wireChunk chunk.length k))).map (fun t =>
          (⟨t.1, ⟨s.call.rest.drop chunk.length, s.call.done + k, k < chunk.length⟩⟩,
            t.2.map .lab ++ [.inserted i (chunk.take k)]))
  | .fault =>
    match message s.world.proc.pc with
    | none => none
    | some (i, _) =>
      if s.world.proc.fd i .wire = none || s.call.broken || s.call.rest = [] then none
      else writeReturns s (if s.call.done = 0 then .error .efault else .ok s.call.done) []
  | .badf =>
    match message s.world.proc.pc with
    | none => none
    | some (i, _) => if s.world.proc.fd i .wire = none then writeReturns s (.error .ebadf) [] else none
  | .ret =>
    match message s.world.proc.pc with
    | none => none
    | some (i, _) =>
      if s.world.proc.fd i .wire = none || (!s.call.broken && s.call.rest ≠ []) then none
      else if s.call.done = 0 then writeReturns s (.error .eagain) []
      else writeReturns s (.ok s.call.done) [.pushed i]

def upStart (n : ℕ) : Up n := ⟨start n, ⟨[], 0, false⟩⟩

def UpObs.receivedBy (i : Fin n) : UpObs n → Option Bytes
  | .received j bs => if j = i then some bs else none
  | _ => none

def UpObs.insertedBy (i : Fin n) : UpObs n → Bytes
  | .inserted j bs => if j = i then bs else []
  | _ => []

def received (os : List (UpObs n)) (i : Fin n) : List Bytes := os.filterMap (UpObs.receivedBy i)

def inserted (os : List (UpObs n)) (i : Fin n) : Bytes := os.flatMap (UpObs.insertedBy i)

def hide (i : Fin n) (bs : Bytes) : UpObs n → Bytes
  | .inserted j bs' => if j = i then bs ++ bs' else bs
  | .pushed j => if j = i then [] else bs
  | _ => bs

/-- What was inserted since the last `tty_flip_buffer_push`; the AUT does not see it yet. -/
def hidden (os : List (UpObs n)) (i : Fin n) : Bytes := os.foldl (hide i) []

section Histories

variable (os os' : List (UpObs n)) (i : Fin n)

theorem received_append : received (os ++ os') i = received os i ++ received os' i := List.filterMap_append

theorem inserted_append : inserted (os ++ os') i = inserted os i ++ inserted os' i := List.flatMap_append

theorem hidden_append : hidden (os ++ os') i = os'.foldl (hide i) (hidden os i) := List.foldl_append

theorem received_lab (o : List (Obs n)) : received (o.map UpObs.lab) i = [] := by
  rw [received, List.filterMap_map, List.filterMap_eq_nil_iff]
  exact fun _ _ => rfl

theorem inserted_lab (o : List (Obs n)) : inserted (o.map UpObs.lab) i = [] := by
  rw [inserted, List.flatMap_map, List.flatMap_eq_nil_iff]
  exact fun _ _ => rfl

theorem hide_lab (o : List (Obs n)) (bs : Bytes) : (o.map UpObs.lab).foldl (hide i) bs = bs := by
  induction o with
  | nil => rfl
  | cons ob o ih => exact ih

end Histories

section Daemon

variable {p q : Daemon.Proc n} {a : Daemon.Act n} {o : List (Daemon.Obs n)} {i : Fin n}

theorem message_finish (p : Daemon.Proc n) {pc : Daemon.Pc n} (r : Option (Daemon.Proc n)) (hpc : p.pc = pc)
    (hm : message pc = none) (o : List (Daemon.Obs n)) : message (Daemon.finish p r o).1.pc = none := by
  cases r with
  | none =>
    rw [← hpc] at hm
    exact hm
  | some q => rfl

theorem message_handled (h : Daemon.Handled p p.pc a q o) : message q.pc = none ∨
    ∃ i bs, p.pc = .clientRecv i ∧ a = .recv (.ok bs) ∧ q.pc = .wireWrite i bs := by
  generalize hpc : p.pc = pc at h
  cases h with
  | recvBytes i bs hc => exact .inr ⟨i, bs, rfl, rfl, rfl⟩
  | accepted i f hf hs => exact .inl (message_finish p _ hpc rfl _)
  | reopened i f hf q o hq =>
    left
    have hq' : q.pc = .wireReopen i := by
      have := Daemon.pc_clientClose (p.store i .wire f) i
      rw [hq] at this
      exact this.trans hpc
    exact message_finish q _ hq' rfl o
  | getflFail i => exact .inl (message_finish p _ hpc rfl _)
  | setflFail i save => exact .inl (message_finish p _ hpc rfl _)
  | restored i save ok q hq =>
    left
    have hq' : q.pc = .drainRestore i save := by
      rw [hq]
      split
      · exact (Daemon.pc_setNonblock p i save).trans hpc
      · exact hpc
    exact message_finish q _ hq' rfl _
  | drained i save bs hb =>
    left
    rw [hpc]
    rfl
  | _ => exact .inl rfl

theorem message_dispatch (hpc : p.pc = .idle) (e : Daemon.Event n) (rest : List (Daemon.Event n)) :
    message (Daemon.dispatch { p with batch := rest } e).pc = none := by
  cases e with
  | signal =>
    have := Daemon.pc_onSignal { p with batch := rest }
    rw [Daemon.dispatch, this, hpc]
    rfl
  | ready i role =>
    cases role <;> simp only [Daemon.dispatch] <;> split <;> first | rfl | (rw [hpc]; rfl)

theorem message_step (h : Daemon.machine p a = some (q, o)) :
    (message p.pc ≠ none → ∃ r, a = .write r) ∧
    (message q.pc = none ∨ ∃ i bs, p.pc = .clientRecv i ∧ a = .recv (.ok bs) ∧ q.pc = .wireWrite i bs) := by
  obtain ⟨-, hst⟩ := Daemon.machine_cases h
  cases hst with
  | wait sources batch hpc hn he => simp [message, hpc]
  | waitFail hpc hb => simp [message, hpc]
  | dispatch e rest hpc hb => exact ⟨by simp [message, hpc], .inl (message_dispatch hpc e rest)⟩
  | handler a q o hh =>
    refine ⟨fun hne => ?_, message_handled hh⟩
    generalize p.pc = pc at hh hne
    cases hh with
    | written i buf r => exact ⟨r, rfl⟩
    | _ => exact absurd rfl hne

end Daemon

section Lab

variable {s t : World n} {a : Act n} {o : List (Obs n)} {i : Fin n}

inductive LabStep (s : World n) (a : Act n) (t : World n) : Prop
  | kernel (hp : t.proc = s.proc) (ha : ∀ buf, a ≠ .daemon (.recv (.ok buf)))
  | elsewhere (hs : message s.proc.pc = none) (ht : message t.proc.pc = none)
  | taken (i : Fin n) (bs : Bytes) (hs : message s.proc.pc = none) (ha : a = .daemon (.recv (.ok bs)))
      (ht : t.proc.pc = .wireWrite i bs)

theorem lab_cases (h : machine s a = some (t, o)) (hw : handsOver a = false) : LabStep s a t := by
  cases machine_cases h with
  | kernel i a t o hp hm => exact .kernel rfl (by simp)
  | read i r q o hi hr hm =>
    obtain ⟨hbusy, hq⟩ := message_step hm
    have hs : message s.proc.pc = none := by
      by_contra hne
      obtain ⟨r', hr'⟩ := hbusy hne
      cases hr'
    rcases hq with hq | ⟨j, bs, -, ha, -⟩
    · exact .elsewhere hs hq
    · cases ha
  | daemon a q o hi hwait hm =>
    obtain ⟨hbusy, hq⟩ := message_step hm
    have hs : message s.proc.pc = none := by
      by_contra hne
      obtain ⟨r', rfl⟩ := hbusy hne
      cases hw
    rcases hq with hq | ⟨j, bs, hpc, rfl, hq⟩
    · exact .elsewhere hs hq
    · exact .taken j bs hs rfl hq

end Lab

inductive UpStep (s : Up n) : UpAct n → Up n → List (UpObs n) → Prop
  | kernel (a t) (o : List (Obs n)) (hp : t.proc = s.world.proc) : UpStep s (.lab a) ⟨t, s.call⟩ (o.map .lab)
  | elsewhere (a t) (o : List (Obs n)) (hs : message s.world.proc.pc = none) (ht : message t.proc.pc = none) :
      UpStep s (.lab a) ⟨t, s.call⟩ (o.map .lab)
  | taken (a t) (o : List (Obs n)) (i bs) (hs : message s.world.proc.pc = none) (ht : message t.proc.pc = some (i, bs)) :
      UpStep s (.lab a) ⟨t, ⟨bs, 0, false⟩⟩ (o.map .lab ++ [.received i bs])
  | chunk (k i buf t) (o : List (Obs n)) (hm : message s.world.proc.pc = some (i, buf)) (ho : s.call.broken = false)
      (hk : k ≤ (s.call.rest.take WRITE_CHUNK).length) (hf : s.world.proc.fd i .wire ≠ none)
      (hp : t.proc = s.world.proc) :
      UpStep s (.chunk k) ⟨t, ⟨s.call.rest.drop (s.call.rest.take WRITE_CHUNK).length, s.call.done + k,
          k < (s.call.rest.take WRITE_CHUNK).length⟩⟩
        (o.map .lab ++ [.inserted i ((s.call.rest.take WRITE_CHUNK).take k)])
  | fault (i buf t) (o : List (Obs n)) (hm : message s.world.proc.pc = some (i, buf)) (ht : message t.proc.pc = none) :
      UpStep s .fault ⟨t, s.call⟩ (o.map .lab)
  | badf (i buf t) (o : List (Obs n)) (hm : message s.world.proc.pc = some (i, buf)) (hf : s.world.proc.fd i .wire = none)
      (ht : message t.proc.pc = none) : UpStep s .badf ⟨t, s.call⟩ (o.map .lab)
  | ret (i buf t) (o : List (Obs n)) (hm : message s.world.proc.pc = some (i, buf))
      (hr : s.call.broken = true ∨ s.call.rest = [])
      (ht : message t.proc.pc = none) :
      UpStep s .ret ⟨t, s.call⟩ (o.map .lab ++ if s.call.done = 0 then [] else [.pushed i])

section Steps

variable {s t : Up n} {a : UpAct n} {o : List (UpObs n)}

theorem proc_wireChunk {w w' : World n} {i : Fin n} {len k : ℕ} {o : List (Obs n)}
    (h : machine w (.kernel i (.wireChunk len k)) = some (w', o)) :
    w'.proc = w.proc ∧ k ≤ len ∧ w.proc.fd i .wire ≠ none := by
  cases machine_cases h with
  | kernel i a t o hp hm =>
    simp only [permitted, Bool.and_eq_true, Option.isSome_iff_ne_none] at hp
    refine ⟨rfl, ?_, hp.2⟩
    simp only [Uart.machine, Uart.stepDev, Option.map_eq_some_iff] at hm
    obtain ⟨r, hr, -⟩ := hm
    split at hr
    · rename_i hc
      exact hc.2.2.1
    · cases hr

theorem writeReturns_eq_some {r : Except Errno ℕ} {e : List (UpObs n)} (h : writeReturns s r e = some (t, o)) :
    ∃ w, ∃ o' : List (Obs n), t = ⟨w, s.call⟩ ∧ o = o'.map .lab ++ e ∧ (message s.world.proc.pc ≠ none → message w.proc.pc = none) := by
  obtain ⟨⟨w, o'⟩, hm, hr⟩ := Option.map_eq_some_iff.mp h
  cases hr
  refine ⟨w, o', rfl, rfl, fun _ => ?_⟩
  cases machine_cases hm with
  | daemon a q o hi hw hd =>
    obtain ⟨-, hq⟩ := message_step hd
    rcases hq with hq | ⟨j, bs, -, ha, -⟩
    · exact hq
    · cases ha

theorem upMachine_cases (h : upMachine s a = some (t, o)) : UpStep s a t o := by
  cases a with
  | lab a =>
    simp only [upMachine] at h
    split at h
    · cases h
    · rename_i hw
      split at h
      · cases h
      · rename_i w o' hm
        have hl := lab_cases hm (eq_false_of_ne_true hw)
        split at h
        · rename_i buf i buf' hmsg
          cases h
          cases hl with
          | kernel hp ha => exact absurd rfl (ha _)
          | elsewhere hs ht =>
            rw [ht] at hmsg
            cases hmsg
          | taken j bs hs ha ht =>
            cases ha
            refine .taken _ w o' i _ hs ?_
            rw [ht] at hmsg ⊢
            cases hmsg
            rfl
        · rename_i hne
          cases h
          cases hl with
          | kernel hp ha => exact .kernel _ w o' hp
          | elsewhere hs ht => exact .elsewhere _ w o' hs ht
          | taken j bs hs ha ht =>
            refine absurd ?_ (hne bs j bs ha)
            rw [ht]
            rfl
  | chunk k =>
    simp only [upMachine] at h
    split at h
    · cases h
    · rename_i i buf hm
      split at h
      · cases h
      · rename_i ho
        obtain ⟨⟨w, o'⟩, hw, hr⟩ := Option.map_eq_some_iff.mp h
        cases hr
        obtain ⟨hp, hk, hf⟩ := proc_wireChunk hw
        exact .chunk k i buf w o' hm (eq_false_of_ne_true ho) hk hf hp
  | fault =>
    simp only [upMachine] at h
    split at h
    · cases h
    · rename_i i buf hm
      split at h
      · cases h
      · obtain ⟨w, o', rfl, rfl, ht⟩ := writeReturns_eq_some h
        rw [List.append_nil]
        exact .fault i buf w o' hm (ht (by rw [hm]; exact nofun))
  | badf =>
    simp only [upMachine] at h
    split at h
    · cases h
    · rename_i i buf hm
      split at h
      · rename_i hf
        obtain ⟨w, o', rfl, rfl, ht⟩ := writeReturns_eq_some h
        rw [List.append_nil]
        exact .badf i buf w o' hm hf (ht (by rw [hm]; exact nofun))
      · cases h
  | ret =>
    simp only [upMachine] at h
    split at h
    · cases h
    · rename_i i buf hm
      split at h
      · cases h
      · rename_i hr
        have hr' : s.call.broken = true ∨ s.call.rest = [] := by
          simp only [ne_eq, Bool.or_eq_true, Bool.and_eq_true, Bool.not_eq_true', decide_eq_true_eq, not_or,
            not_and, not_not] at hr
          by_cases ho : s.call.broken = true
          · exact .inl ho
          · exact .inr (by simpa using hr.2 (eq_false_of_ne_true ho))
        split at h
        · rename_i hd
          obtain ⟨w, o', rfl, rfl, ht⟩ := writeReturns_eq_some h
          have hstep := UpStep.ret i buf w o' hm hr' (ht (by rw [hm]; exact nofun))
          rwa [if_pos hd] at hstep
        · rename_i hd
          obtain ⟨w, o', rfl, rfl, ht⟩ := writeReturns_eq_some h
          have hstep := UpStep.ret i buf w o' hm hr' (ht (by rw [hm]; exact nofun))
          rwa [if_neg hd] at hstep

end Steps

structure Tally (os : List (UpObs n)) (s : Up n) (i : Fin n) : Prop where
  idle : (∀ buf, message s.world.proc.pc ≠ some (i, buf)) → Cut (received os i) (inserted os i)
  busy : ∀ buf, message s.world.proc.pc = some (i, buf) → ∃ ms xs, received os i = ms ++ [buf] ∧
    inserted os i = xs ++ buf.take s.call.done ∧ Cut ms xs ∧ s.call.done ≤ buf.length ∧
      (s.call.broken = false → s.call.rest = buf.drop s.call.done)

section Runs

variable {s t : Up n} {a : UpAct n} {o os : List (UpObs n)} {i : Fin n}

theorem Tally.cut (h : Tally os s i) : Cut (received os i) (inserted os i) := by
  by_cases hm : ∃ buf, message s.world.proc.pc = some (i, buf)
  · obtain ⟨buf, hm⟩ := hm
    obtain ⟨ms, xs, hr, hi, hc, -, -⟩ := h.busy buf hm
    rw [hr, hi]
    exact hc.snoc (List.take_prefix _ _)
  · exact h.idle (fun buf hb => hm ⟨buf, hb⟩)

theorem Tally.quiet (h : Cut (received os i) (inserted os i)) (hm : ∀ buf, message s.world.proc.pc ≠ some (i, buf)) :
    Tally os s i := ⟨fun _ => h, fun buf hb => absurd hb (hm buf)⟩

theorem received_quiet {o : List (Obs n)} {e : List (UpObs n)} (he : received e i = []) :
    received (os ++ (o.map .lab ++ e)) i = received os i := by
  rw [received_append, received_append, received_lab, he, List.nil_append, List.append_nil]

theorem inserted_quiet {o : List (Obs n)} {e : List (UpObs n)} (he : inserted e i = []) :
    inserted (os ++ (o.map .lab ++ e)) i = inserted os i := by
  rw [inserted_append, inserted_append, inserted_lab, he, List.nil_append, List.append_nil]

theorem received_map_lab {o : List (Obs n)} : received (os ++ o.map .lab) i = received os i := by
  rw [received_append, received_lab, List.append_nil]

theorem inserted_map_lab {o : List (Obs n)} : inserted (os ++ o.map .lab) i = inserted os i := by
  rw [inserted_append, inserted_lab, List.append_nil]

theorem UpStep.tally (h : UpStep s a t o) (ht : Tally os s i) : Tally (os ++ o) t i := by
  have hcut := ht.cut
  have hend {w : World n} {o' : List (Obs n)} {e : List (UpObs n)} (hr : received e i = []) (hi : inserted e i = [])
      (hw : message w.proc.pc = none) : Tally (os ++ (o'.map .lab ++ e)) ⟨w, s.call⟩ i := by
    apply Tally.quiet
    · rw [received_quiet hr, inserted_quiet hi]
      exact hcut
    · intro buf hb
      rw [hw] at hb
      cases hb
  cases h with
  | kernel a w o hp =>
    constructor
    · intro hm
      rw [received_map_lab, inserted_map_lab]
      exact hcut
    · intro buf hm
      rw [received_map_lab, inserted_map_lab]
      exact ht.busy buf (hp ▸ hm)
  | elsewhere a w o hs hw =>
    have hq : Tally (os ++ (o.map .lab ++ [])) ⟨w, s.call⟩ i := hend rfl rfl hw
    rwa [List.append_nil] at hq
  | taken a w o j bs hs hw =>
    by_cases hj : j = i
    · subst hj
      refine ⟨fun hne => absurd hw (hne bs), fun buf hb => ?_⟩
      rw [hw] at hb
      cases hb
      refine ⟨received os j, inserted os j, ?_, ?_, hcut, Nat.zero_le _, fun _ => rfl⟩
      · rw [received_append, received_append, received_lab]
        simp [received, UpObs.receivedBy]
      · rw [inserted_quiet (by simp [inserted, UpObs.insertedBy])]
        simp
    · apply Tally.quiet
      · rw [received_quiet (by simp [received, UpObs.receivedBy, hj]),
          inserted_quiet (by simp [inserted, UpObs.insertedBy])]
        exact hcut
      · intro buf hb
        rw [hw] at hb
        cases hb
        exact hj rfl
  | chunk k j buf w o hm ho hk hf hp =>
    have hr : received (os ++ (o.map .lab ++ [.inserted j ((s.call.rest.take WRITE_CHUNK).take k)])) i =
        received os i := received_quiet (by simp [received, UpObs.receivedBy])
    by_cases hj : j = i
    · subst hj
      obtain ⟨ms, xs, hrec, hins, hc, hle, hrest⟩ := ht.busy buf hm
      have hrest := hrest ho
      have hlen : (s.call.rest.take WRITE_CHUNK).length = min WRITE_CHUNK (buf.length - s.call.done) := by
        rw [hrest, List.length_take, List.length_drop]
      refine ⟨fun hne => absurd (hp ▸ hm) (hne buf), fun buf' hb => ?_⟩
      have hb' : buf' = buf := by
        rw [hp, hm] at hb
        cases hb
        rfl
      subst hb'
      refine ⟨ms, xs, hr.trans hrec, ?_, hc, by dsimp only; omega, fun hov => ?_⟩
      · rw [inserted_append, inserted_append, inserted_lab, hins, List.nil_append, List.append_assoc]
        congr 1
        have hins' : inserted [UpObs.inserted j ((s.call.rest.take WRITE_CHUNK).take k)] j =
            (buf'.drop s.call.done).take k := by
          simp only [inserted, List.flatMap_cons, UpObs.insertedBy, List.flatMap_nil, List.append_nil, if_true,
            List.take_take, hrest]
          rw [Nat.min_eq_left (by omega)]
        rw [hins', ← List.take_add]
      · have hkl : k = (s.call.rest.take WRITE_CHUNK).length := by
          have := of_decide_eq_false hov
          omega
        dsimp only
        rw [← hkl, hrest, List.drop_drop]
    · constructor
      · intro _
        rw [hr, inserted_quiet (by simp [inserted, UpObs.insertedBy, hj])]
        exact hcut
      · intro buf' hb
        rw [hp, hm] at hb
        cases hb
        exact absurd rfl hj
  | fault j buf w o hm hw | badf j buf w o hm hf hw =>
    have hq : Tally (os ++ (o.map .lab ++ [])) ⟨w, s.call⟩ i := hend rfl rfl hw
    rwa [List.append_nil] at hq
  | ret j buf w o hm hr hw =>
    apply hend _ _ hw
    · split <;> simp [received, UpObs.receivedBy]
    · split <;> simp [inserted, UpObs.insertedBy]

theorem tally_start (i : Fin n) : Tally [] (upStart n) i := .quiet .nil (fun _ => nofun)

/-- Of every message of a simulator the TTY is given a prefix, in the order in which the daemon received them, whatever
the flip buffer takes and whatever else happens between two chunks. -/
theorem uplink_fidelity {os : List (UpObs n)} {s : Up n} (h : Run upMachine Always (upStart n) os s) (i : Fin n) :
    Cut (received os i) (inserted os i) ∧ inserted os i <+ (received os i).flatten := by
  have ht : Tally os s i := h.history (fun os s => Tally os s i) (tally_start i)
    (fun _ _ _ _ _ ht _ hm => (upMachine_cases hm).tally ht)
  exact ⟨ht.cut, ht.cut.sublist⟩

def simulatorSends (bs : Bytes) : List (UpAct 1) :=
  connected.map .lab ++ [.lab (.daemon (.wait [.fd 2])), .lab (.daemon .dispatch), .lab (.daemon (.recv (.ok bs)))]

theorem uplink_fidelity_full_buffer : ∃ os s, Run upMachine Always (upStart 1) os s ∧
    received os 0 = [[1, 2, 3]] ∧ inserted os 0 = [1, 2] ∧ Cut (received os 0) (inserted os 0) := by
  obtain ⟨os, s, hrun, hr, hi⟩ := Run.exists_of_exec (M := upMachine) (P := Always) (s := upStart 1)
    (simulatorSends [1, 2, 3] ++ [.chunk 2, .ret])
    (fun os _ => received os 0 = [[1, 2, 3]] ∧ inserted os 0 = [1, 2]) (by decide +kernel)
  exact ⟨os, s, hrun, hr, hi, (uplink_fidelity hrun 0).1⟩

def takesAll (s : Up n) : UpAct n → Bool
  | .chunk k => k = (s.call.rest.take WRITE_CHUNK).length
  | .fault | .badf => false
  | .lab _ | .ret => true

def untried (s : Up n) (i : Fin n) : Bytes :=
  match message s.world.proc.pc with
  | some (j, _) => if j = i then s.call.rest else []
  | none => []

structure Complete (os : List (UpObs n)) (s : Up n) (i : Fin n) : Prop where
  whole : (received os i).flatten = inserted os i ++ untried s i
  broken : s.call.broken = false
  shown : (∀ buf, message s.world.proc.pc ≠ some (i, buf)) ∨ s.call.done = 0 → hidden os i = []

theorem untried_of_ne (h : ∀ buf, message s.world.proc.pc ≠ some (i, buf)) : untried s i = [] := by
  unfold untried
  split
  · rename_i j buf hm
    split
    · rename_i hj
      exact absurd (hj ▸ hm) (h buf)
    · rfl
  · rfl

theorem untried_of_eq {buf : Bytes} (h : message s.world.proc.pc = some (i, buf)) : untried s i = s.call.rest := by
  simp only [untried, h, if_true]

theorem hidden_lab {o : List (Obs n)} {e : List (UpObs n)} :
    hidden (os ++ (o.map .lab ++ e)) i = e.foldl (hide i) (hidden os i) := by
  rw [hidden_append, List.foldl_append, hide_lab]

theorem hidden_map_lab {o : List (Obs n)} : hidden (os ++ o.map .lab) i = hidden os i := by
  rw [hidden_append, hide_lab]

theorem UpStep.complete (h : UpStep s a t o) (ha : takesAll s a = true) (hc : Complete os s i) :
    Complete (os ++ o) t i := by
  cases h with
  | kernel a w o hp =>
    have hu : untried ⟨w, s.call⟩ i = untried s i := by simp only [untried, hp]
    refine ⟨?_, hc.broken, fun hq => ?_⟩
    · rw [received_map_lab, inserted_map_lab, hu]
      exact hc.whole
    · rw [hidden_map_lab]
      exact hc.shown (by simpa only [hp] using hq)
  | elsewhere a w o hs hw =>
    have hu : untried ⟨w, s.call⟩ i = untried s i := by simp only [untried, hs, hw]
    refine ⟨?_, hc.broken, fun _ => ?_⟩
    · rw [received_map_lab, inserted_map_lab, hu]
      exact hc.whole
    · rw [hidden_map_lab]
      exact hc.shown (.inl (by rw [hs]; exact fun _ => nofun))
  | taken a w o j bs hs hw =>
    have hsilent : hidden os i = [] := hc.shown (.inl (by rw [hs]; exact fun _ => nofun))
    have hbefore : untried s i = [] := untried_of_ne (by rw [hs]; exact fun _ => nofun)
    have hwhole := hc.whole
    rw [hbefore, List.append_nil] at hwhole
    refine ⟨?_, rfl, fun _ => ?_⟩
    · rw [inserted_quiet (by simp [inserted, UpObs.insertedBy]), received_append, received_append, received_lab,
        List.nil_append, List.flatten_append, hwhole]
      congr 1
      by_cases hj : j = i
      · subst hj
        rw [untried_of_eq hw]
        simp [received, UpObs.receivedBy]
      · rw [untried_of_ne]
        · simp [received, UpObs.receivedBy, hj]
        · intro buf hb
          rw [hw] at hb
          cases hb
          exact hj rfl
    · rw [hidden_lab, hsilent]
      rfl
  | chunk k j buf w o hm ho hk hf hp =>
    have hlen : k = (s.call.rest.take WRITE_CHUNK).length := of_decide_eq_true ha
    have hr : received (os ++ (o.map .lab ++ [.inserted j ((s.call.rest.take WRITE_CHUNK).take k)])) i =
        received os i := received_quiet (by simp [received, UpObs.receivedBy])
    have hw : message w.proc.pc = some (j, buf) := by rw [hp, hm]
    have htake : (s.call.rest.take WRITE_CHUNK).take k = s.call.rest.take WRITE_CHUNK := by
      rw [hlen, List.take_length]
    by_cases hj : j = i
    · subst hj
      refine ⟨?_, by simp [hlen], fun hq => ?_⟩
      · rw [hr, hc.whole, untried_of_eq hm, untried_of_eq hw, inserted_append, inserted_append, inserted_lab, htake,
          List.nil_append, List.append_assoc]
        congr 1
        have hdrop : s.call.rest.drop (s.call.rest.take WRITE_CHUNK).length = s.call.rest.drop WRITE_CHUNK := by
          rw [List.length_take]
          by_cases hle : WRITE_CHUNK ≤ s.call.rest.length
          · rw [Nat.min_eq_left hle]
          · rw [List.drop_of_length_le (by omega), List.drop_of_length_le (by omega)]
        dsimp only
        rw [hdrop]
        simp only [inserted, List.flatMap_cons, UpObs.insertedBy, List.flatMap_nil, List.append_nil, if_true,
          List.take_append_drop]
      · rw [hidden_lab]
        rcases hq with hq | hq
        · exact absurd hw (hq buf)
        · have hq' : s.call.done + k = 0 := hq
          have hk0 : k = 0 := by omega
          rw [hc.shown (.inr (by omega)), hk0]
          simp [hide]
    · have hne : ∀ buf', message s.world.proc.pc ≠ some (i, buf') := by
        intro buf' hb
        rw [hm] at hb
        cases hb
        exact hj rfl
      have hne' : ∀ buf', message w.proc.pc ≠ some (i, buf') := by
        rw [hp]
        exact hne
      refine ⟨?_, by simp [hlen], fun _ => ?_⟩
      · rw [hr, inserted_quiet (by simp [inserted, UpObs.insertedBy, hj]), hc.whole, untried_of_ne hne,
          untried_of_ne hne']
      · rw [hidden_lab, hc.shown (.inl hne)]
        simp [hide, hj]
  | fault | badf => cases ha
  | ret j buf w o hm hr hw =>
    have hrest : s.call.rest = [] := by
      rcases hr with hr | hr
      · rw [hc.broken] at hr
        cases hr
      · exact hr
    have hbefore : untried s i = [] := by
      unfold untried
      rw [hm]
      dsimp only
      split
      · exact hrest
      · rfl
    have hafter : untried ⟨w, s.call⟩ i = [] := untried_of_ne (by rw [hw]; exact fun _ => nofun)
    refine ⟨?_, hc.broken, fun _ => ?_⟩
    · rw [received_quiet (by split <;> simp [received, UpObs.receivedBy]),
        inserted_quiet (by split <;> simp [inserted, UpObs.insertedBy]), hc.whole, hbefore, hafter]
    · rw [hidden_lab]
      by_cases hj : j = i
      · subst hj
        split
        · rename_i hd
          exact hc.shown (.inr hd)
        · simp [hide]
      · have hne : ∀ buf', message s.world.proc.pc ≠ some (i, buf') := by
          intro buf' hb
          rw [hm] at hb
          cases hb
          exact hj rfl
        rw [hc.shown (.inl hne)]
        split <;> simp [hide, hj]

/-- While the flip buffer takes every chunk, the AUT gets all that the simulators sent, and sees it as soon as the
daemon is back from its `write`. -/
theorem uplink_complete {os : List (UpObs n)} {s : Up n}
    (h : Run upMachine (fun s a => takesAll s a = true) (upStart n) os s) (i : Fin n) :
    (received os i).flatten = inserted os i ++ untried s i ∧
      ((∀ buf, message s.world.proc.pc ≠ some (i, buf)) → untried s i = [] ∧ hidden os i = []) := by
  have hc : Complete os s i := h.history (fun os s => Complete os s i) ⟨rfl, rfl, fun _ => rfl⟩
    (fun _ _ _ _ _ hc ha hm => (upMachine_cases hm).complete ha hc)
  exact ⟨hc.whole, fun hm => ⟨untried_of_ne hm, hc.shown (.inl hm)⟩⟩

theorem uplink_complete_two_chunks : ∃ os s, Run upMachine (fun s a => takesAll s a = true) (upStart 1) os s ∧
    message s.world.proc.pc = none ∧ received os 0 = [List.replicate 257 7] ∧ hidden os 0 = [] ∧
      (received os 0).flatten = inserted os 0 ++ untried s 0 := by
  obtain ⟨os, s, hrun, hm, hr⟩ := Run.exists_of_exec (M := upMachine) (P := fun s a => takesAll s a = true)
    (s := upStart 1) (simulatorSends (List.replicate 257 7) ++ [.chunk 256, .chunk 1, .ret])
    (fun os s => message s.world.proc.pc = none ∧ received os 0 = [List.replicate 257 7]) (by decide +kernel)
  obtain ⟨hwhole, hshown⟩ := uplink_complete hrun 0
  exact ⟨os, s, hrun, hm, hr, (hshown (by rw [hm]; exact fun _ => nofun)).2, hwhole⟩

end Runs

end VirtRtLab.Lab
