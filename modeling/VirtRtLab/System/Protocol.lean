import VirtRtLab.System.Baseline

namespace VirtRtLab.System

open Kernel VirtRtLab.Core Transition

/-- A notifier chain on which no device has registered its block twice. -/
structure Registered (U G : Type) extends Chain U G where
  nodup : blocks.Nodup

structure Lawful (es : List BusEvent) : Prop where
  down : ∀ i, es[i]? = some .down → i = 0 ∨ es[i - 1]? = some .up
  up : ∀ i, es[i]? = some .up → 0 < i ∧ (es[i - 1]? = some .down ∨ es[i - 1]? = some .reset)
  reset : ∀ i, es[i]? = some .reset → i + 1 < es.length → es[i + 1]? = some .up

def follows (last : Option BusEvent) : BusEvent → Prop
  | .down => last = none ∨ last = some .up
  | .up => last = some .down ∨ last = some .reset
  | .reset => last ≠ some .reset

theorem getElem?_snoc {es : List BusEvent} {event e : BusEvent} {i : ℕ} (h : (es ++ [event])[i]? = some e) :
    (i < es.length ∧ es[i]? = some e) ∨ (i = es.length ∧ event = e) := by
  by_cases hlt : i < es.length
  · rw [List.getElem?_append_left hlt] at h
    exact .inl ⟨hlt, h⟩
  · rw [List.getElem?_append_right (by omega)] at h
    obtain ⟨hi, he⟩ := List.getElem?_eq_some_iff.mp h
    have hi' : i - es.length = 0 := by simpa using hi
    exact .inr ⟨by omega, by simpa [hi'] using he⟩

theorem Lawful.snoc {es : List BusEvent} {event : BusEvent} (h : Lawful es) (hf : follows es.getLast? event) :
    Lawful (es ++ [event]) := by
  rw [List.getLast?_eq_getElem?] at hf
  have hkeep {i : ℕ} {e : BusEvent} (he : es[i]? = some e) : (es ++ [event])[i]? = some e := by
    rw [List.getElem?_append_left (List.getElem?_eq_some_iff.mp he).1]
    exact he
  constructor
  · intro i hi
    rcases getElem?_snoc hi with ⟨-, he⟩ | ⟨rfl, rfl⟩
    · exact (h.down i he).imp_right hkeep
    · rcases hf with hf | hf
      · have := List.getElem?_eq_none_iff.mp hf
        exact .inl (by omega)
      · exact .inr (hkeep hf)
  · intro i hi
    rcases getElem?_snoc hi with ⟨-, he⟩ | ⟨rfl, rfl⟩
    · exact ⟨(h.up i he).1, (h.up i he).2.imp hkeep hkeep⟩
    · have hpos : 0 < es.length := by
        rcases hf with hf | hf
        all_goals
          have := (List.getElem?_eq_some_iff.mp hf).1
          omega
      exact ⟨hpos, hf.imp hkeep hkeep⟩
  · intro i hi hlt
    rw [List.length_append, List.length_singleton] at hlt
    rcases getElem?_snoc hi with ⟨-, he⟩ | ⟨rfl, -⟩
    · by_cases hlt' : i + 1 < es.length
      · exact hkeep (h.reset i he hlt')
      · have hi' : es.length - 1 = i := by omega
        rw [hi', he] at hf
        have hlen : i + 1 = es.length := by omega
        rw [hlen, List.getElem?_append_right (by omega)]
        cases event with
        | up => simp
        | down | reset => simp [follows] at hf
    · omega

section

variable {U G : Type}

def Obs.notified? : Obs U G → Option ((U ⊕ G) × BusEvent)
  | .notified x event => some (x, event)
  | _ => none

def notifications (os : List (Obs U G)) : List ((U ⊕ G) × BusEvent) := os.filterMap Obs.notified?

inductive CoreMove (blocks : List (U ⊕ G)) : CorePc U G → BusState → List ((U ⊕ G) × BusEvent) → CorePc U G →
    BusState → Prop
  | none {core state} : CoreMove blocks core state [] core state
  | down : CoreMove blocks .idle .up [] (.call .down blocks) .down
  | up : CoreMove blocks .idle .down [] (.call .up blocks) .up
  | reset {state} : CoreMove blocks .idle state [] (.call .reset blocks) state
  | call {event x rest state} :
      CoreMove blocks (.call event (x :: rest)) state [(x, event)] (.calling event x rest) state
  | next {event x rest state} : CoreMove blocks (.calling event x rest) state [] (.call event rest) state
  | called {state} : CoreMove blocks (.call .reset []) state [] .setUp state
  | setUp {state} : CoreMove blocks .setUp state [] (.call .up blocks) .up
  | returned {event state} (he : event ≠ .reset) : CoreMove blocks (.call event []) state [] .idle state

@[simp] theorem notifications_append (os os' : List (Obs U G)) :
    notifications (os ++ os') = notifications os ++ notifications os' := by
  simp [notifications]

@[simp] theorem notifications_cons (o : Obs U G) (os : List (Obs U G)) :
    notifications (o :: os) = o.notified?.toList ++ notifications os := by
  unfold notifications
  rw [List.filterMap_cons]
  cases o.notified? <;> rfl

variable {chain : Chain U G} {s t : Sys U G} {o : List (Obs U G)}

theorem CoreMove.stay {blocks : List (U ⊕ G)} {core core' : CorePc U G} {state state' : BusState}
    {es : List ((U ⊕ G) × BusEvent)} (h : core' = core ∧ state' = state ∧ es = []) :
    CoreMove blocks core state es core' state' := by
  obtain ⟨rfl, rfl, rfl⟩ := h
  exact .none

theorem setState_move (chain : Chain U G) (s : Sys U G) (hi : s.core = .idle) (new : BusState) (count : ℕ) :
    CoreMove chain.blocks s.core s.bus.state (notifications (setState chain s new count).2)
      (setState chain s new count).1.core (setState chain s new count).1.bus.state := by
  unfold setState
  split
  · exact .none
  · rename_i hne
    rw [hi]
    cases new with
    | up =>
      have hs : s.bus.state = .down := by
        cases hs : s.bus.state with
        | up => exact absurd hs hne
        | down => rfl
      rw [hs]
      exact .up
    | down =>
      have hs : s.bus.state = .up := by
        cases hs : s.bus.state with
        | up => rfl
        | down => exact absurd hs hne
      rw [hs]
      exact .down

theorem stateStore_move {buf : Bytes} (h : stateStore chain s buf = some (t, o)) :
    CoreMove chain.blocks s.core s.bus.state (notifications o) t.core t.bus.state := by
  unfold stateStore at h
  split at h
  · rename_i hi
    split at h
    · have hmove := setState_move chain s hi .up buf.length
      rwa [Option.some.inj h] at hmove
    · split at h
      · have hmove := setState_move chain s hi .down buf.length
        rwa [Option.some.inj h] at hmove
      · split at h
        · cases h
          rw [hi]
          exact .reset
        · cases h
          exact .none
  · cases h

variable [DecidableEq U] [DecidableEq G]

def deliveredTo (x : U ⊕ G) (ns : List ((U ⊕ G) × BusEvent)) : List BusEvent :=
  (ns.filter (fun n => n.1 = x)).map Prod.snd

def received (x : U ⊕ G) (os : List (Obs U G)) : List BusEvent := deliveredTo x (notifications os)

def Settled (last : Option BusEvent) : BusState → Prop
  | .up => last = none ∨ last = some .up
  | .down => last = some .down

-- the bus state while `event` is delivered; `old` is the one before the write
def Phase (state old : BusState) : BusEvent → Prop
  | .down => state = .down
  | .up => state = .up
  | .reset => state = old

def Awaiting (last : Option BusEvent) (old : BusState) : BusEvent → Prop
  | .down => last = none ∨ last = some .up
  | .up => last = some .down ∨ last = some .reset
  | .reset => Settled last old

def Told (x : U ⊕ G) (last : Option BusEvent) (state old : BusState) : CorePc U G → Prop
  | .idle => Settled last state
  | .setUp => last = some .reset
  | .call event rest | .calling event _ rest =>
    (x ∈ rest → Awaiting last old event) ∧ (x ∉ rest → last = some event)

def CorePc.Sound (state old : BusState) : CorePc U G → Prop
  | .call event rest => rest.Nodup ∧ Phase state old event
  | .calling event x rest => (x :: rest).Nodup ∧ Phase state old event
  | _ => True

structure Conducted (core : CorePc U G) (state old : BusState) (ns : List ((U ⊕ G) × BusEvent)) : Prop where
  sound : core.Sound state old
  lawful : ∀ x, Lawful (deliveredTo x ns)
  told : ∀ x, Told x (deliveredTo x ns).getLast? state old core

def CorePc.old (state old : BusState) : CorePc U G → BusState
  | .idle => state
  | _ => old

omit [DecidableEq G] in
theorem stepUart_move {u : U} {a : Uart.Act}
    (ha : ∀ x, a ≠ .bus x) (h : stepUart s u a = some (t, o)) :
    t.core = s.core ∧ t.bus.state = s.bus.state ∧ notifications o = [] := by
  obtain ⟨⟨r, o'⟩, hm, hr⟩ := Option.map_eq_some_iff.mp h
  cases hr
  exact ⟨rfl, Uart.machine_busState ha hm, by simp [notifications, List.filterMap_map, Function.comp_def, Obs.notified?]⟩

omit [DecidableEq U] in
theorem stepGpio_move {g : G} {a : Gpio.Act}
    (ha : ∀ x, a ≠ .bus x) (h : stepGpio s g a = some (t, o)) :
    t.core = s.core ∧ t.bus.state = s.bus.state ∧ notifications o = [] := by
  obtain ⟨⟨r, o'⟩, hm, hr⟩ := Option.map_eq_some_iff.mp h
  cases hr
  exact ⟨rfl, Gpio.machine_busState ha hm, by simp [notifications, List.filterMap_map, Function.comp_def, Obs.notified?]⟩

theorem notify_move {event : BusEvent} {x : U ⊕ G} (h : notify s event x = some (t, o)) :
    t.core = s.core ∧ t.bus.state = s.bus.state ∧ notifications o = [] := by
  cases x with
  | inl u => exact stepUart_move (by simp) h
  | inr g => exact stepGpio_move (by simp) h

theorem callback_move {x : U ⊕ G} (h : callback s x = some (t, o)) :
    t.core = s.core ∧ t.bus.state = s.bus.state ∧ notifications o = [] := by
  cases x with
  | inl u => exact stepUart_move (by simp) h
  | inr g => exact stepGpio_move (by simp) h

theorem stepCore_move (h : stepCore chain s = some (t, o)) :
    CoreMove chain.blocks s.core s.bus.state (notifications o) t.core t.bus.state := by
  unfold stepCore at h
  split at h
  · cases h
  · rename_i hc
    obtain ⟨⟨r, o'⟩, hn, hr⟩ := Option.map_eq_some_iff.mp h
    cases hr
    obtain ⟨-, hs, ho⟩ := notify_move hn
    rw [hc, notifications_cons, ho, hs]
    exact .call
  · rename_i hc
    cases h
    rw [hc]
    exact .called
  · rename_i event hne hc
    cases h
    rw [hc]
    exact .returned (fun he => hne (by rw [he]))
  · rename_i hc
    split at h
    · exact .stay (callback_move h)
    · cases h
      rw [hc]
      exact .next
  · rename_i hc
    cases h
    rw [hc]
    exact .setUp

theorem machine_move {a : Act U G} (h : machine chain s a = some (t, o)) :
    CoreMove chain.blocks s.core s.bus.state (notifications o) t.core t.bus.state := by
  cases a with
  | stateStore buf => exact stateStore_move h
  | core => exact stepCore_move h
  | seedStore buf =>
    simp only [machine, Option.some.injEq] at h
    have hs : CoreMove chain.blocks s.core s.bus.state (notifications (seedStore s buf).2) (seedStore s buf).1.core
        (seedStore s buf).1.bus.state := by
      unfold seedStore
      repeat' split
      all_goals exact .none
    rwa [h] at hs
  | uart u a =>
    simp only [machine] at h
    split at h
    · rename_i ha
      exact .stay (stepUart_move (by rintro x rfl; cases ha) h)
    · cases h
  | gpio g a =>
    simp only [machine] at h
    split at h
    · rename_i ha
      exact .stay (stepGpio_move (by rintro x rfl; cases ha) h)
    · cases h

theorem deliveredTo_snoc (x y : U ⊕ G) (event : BusEvent) (ns : List ((U ⊕ G) × BusEvent)) :
    deliveredTo x (ns ++ [(y, event)]) = if y = x then deliveredTo x ns ++ [event] else deliveredTo x ns := by
  by_cases hx : y = x <;> simp [deliveredTo, List.filter_append, hx]

theorem Settled.ne_reset {last : Option BusEvent} {state : BusState} (h : Settled last state) : last ≠ some .reset := by
  rintro rfl
  cases state <;> simp [Settled] at h

theorem Awaiting.follows {last : Option BusEvent} {old : BusState} {event : BusEvent} (h : Awaiting last old event) :
    follows last event := by
  cases event with
  | up | down => exact h
  | reset => exact Settled.ne_reset h

theorem Conducted.call {event : BusEvent} {x : U ⊕ G} {rest : List (U ⊕ G)} {state old : BusState}
    {ns : List ((U ⊕ G) × BusEvent)} (h : Conducted (.call event (x :: rest)) state old ns) :
    Conducted (.calling event x rest) state old (ns ++ [(x, event)]) := by
  have hx : x ∉ rest := (List.nodup_cons.mp h.sound.1).1
  constructor
  · exact h.sound
  · intro y
    rw [deliveredTo_snoc]
    split
    · rename_i hy
      subst hy
      exact (h.lawful x).snoc ((h.told x).1 List.mem_cons_self).follows
    · exact h.lawful y
  · intro y
    rw [deliveredTo_snoc]
    split
    · rename_i hy
      subst hy
      exact ⟨fun hm => absurd hm hx, fun _ => List.getLast?_concat⟩
    · rename_i hy
      refine ⟨fun hm => (h.told y).1 (List.mem_cons_of_mem _ hm), fun hm => (h.told y).2 ?_⟩
      rw [List.mem_cons, not_or]
      exact ⟨Ne.symm hy, hm⟩

theorem Conducted.begin {blocks : List (U ⊕ G)} {core : CorePc U G} {event : BusEvent} {state state' old old' : BusState}
    {ns : List ((U ⊕ G) × BusEvent)} (hall : ∀ x, x ∈ blocks) (hnodup : blocks.Nodup) (h : Conducted core state old ns)
    (hp : Phase state' old' event) (ha : ∀ {x last}, Told x last state old core → Awaiting last old' event) :
    Conducted (.call event blocks) state' old' ns :=
  ⟨⟨hnodup, hp⟩, h.lawful, fun x => ⟨fun _ => ha (h.told x), fun hm => absurd (hall x) hm⟩⟩

theorem Conducted.step {blocks : List (U ⊕ G)} {core core' : CorePc U G} {state state' old : BusState}
    {ns es : List ((U ⊕ G) × BusEvent)} (hall : ∀ x, x ∈ blocks) (hnodup : blocks.Nodup)
    (h : Conducted core state old ns) (hm : CoreMove blocks core state es core' state') :
    Conducted core' state' (core.old state old) (ns ++ es) := by
  cases hm with
  | call => exact h.call
  | none =>
    rw [List.append_nil]
    cases core with
    | idle => exact ⟨trivial, h.lawful, h.told⟩
    | call | calling | setUp => exact h
  | down | reset =>
    rw [List.append_nil]
    exact h.begin hall hnodup rfl id
  | up =>
    rw [List.append_nil]
    exact h.begin hall hnodup rfl Or.inl
  | setUp =>
    rw [List.append_nil]
    exact h.begin hall hnodup rfl Or.inr
  | next =>
    rw [List.append_nil]
    exact ⟨⟨(List.nodup_cons.mp h.sound.1).2, h.sound.2⟩, h.lawful, h.told⟩
  | called =>
    rw [List.append_nil]
    exact ⟨trivial, h.lawful, fun x => (h.told x).2 (by simp)⟩
  | @returned event state he =>
    rw [List.append_nil]
    refine ⟨trivial, h.lawful, fun x => ?_⟩
    have hlast : (deliveredTo x ns).getLast? = some event := (h.told x).2 (by simp)
    have hphase := h.sound.2
    cases event with
    | up =>
      rw [Phase] at hphase
      rw [hphase]
      exact .inr hlast
    | down =>
      rw [Phase] at hphase
      rw [hphase]
      exact hlast
    | reset => exact absurd rfl he

def beforeWrite : Observer (Sys U G) (Act U G) (Obs U G) BusState (Obs U G) where
  next old s _ _ := s.core.old s.bus.state old
  shows _ _ _ r := r.2

theorem conducted_run {chain : Registered U G} {os : List (Obs U G)} {x : Sys U G × BusState}
    (h : Run (observed (machine chain.toChain) beforeWrite) Always (start, .up) os x) :
    Conducted x.1.core x.1.bus.state x.2 (notifications os) := by
  apply h.history (fun os x => Conducted x.1.core x.1.bus.state x.2 (notifications os))
  · exact ⟨trivial, fun x => ⟨by simp [deliveredTo, notifications], by simp [deliveredTo, notifications],
      by simp [deliveredTo, notifications]⟩, fun x => .inl rfl⟩
  · intro os x a y o hi _ hm
    obtain ⟨o', hm', hold, rfl⟩ := observed_eq_some hm
    rw [notifications_append, hold]
    exact hi.step chain.all chain.nodup (machine_move hm')

structure Protocol (chain : Chain U G) (os : List (Obs U G)) (s : Sys U G) (old : BusState) : Prop where
  lawful : ∀ x, Lawful (received x os)
  down : ∀ x rest, s.core = .calling .down x rest → s.bus.state = .down
  up : ∀ x rest, s.core = .calling .up x rest → s.bus.state = .up
  reset : ∀ x rest, s.core = .calling .reset x rest → s.bus.state = old
  settled : s.core = .idle → ∀ x,
    (s.bus.state = .up ↔ received x os = [] ∨ (received x os).getLast? = some .up) ∧
      (received x os).getLast? ≠ some .reset
  rejected : ∀ buf t o e, machine chain s (.stateStore buf) = some (t, o) → .stored (.error e) ∈ o →
    t = s ∧ notifications o = []

theorem Settled.up_iff {es : List BusEvent} {state : BusState} (h : Settled es.getLast? state) :
    state = .up ↔ es = [] ∨ es.getLast? = some .up := by
  cases state with
  | up => simpa [Settled] using h
  | down =>
    have hlast : es.getLast? = some .down := h
    have hne : es ≠ [] := by
      rintro rfl
      cases hlast
    simp [hlast, hne]

theorem stateStore_rejected {chain : Chain U G} {s t : Sys U G} {o : List (Obs U G)} {buf : Bytes} {e : Errno}
    (h : machine chain s (.stateStore buf) = some (t, o)) (he : .stored (.error e) ∈ o) :
    t = s ∧ notifications o = [] := by
  have hset (new : BusState) : .stored (.error e) ∉ (setState chain s new buf.length).2 := by
    unfold setState
    split <;> simp
  simp only [machine, stateStore] at h
  split at h
  · split at h
    · have := hset .up
      rw [Option.some.inj h] at this
      exact absurd he this
    · split at h
      · have := hset .down
        rw [Option.some.inj h] at this
        exact absurd he this
      · split at h
        · cases h
          simp at he
        · cases h
          exact ⟨rfl, rfl⟩
  · cases h

theorem bus_event_protocol {chain : Registered U G} {os : List (Obs U G)} {x : Sys U G × BusState}
    (h : Run (observed (machine chain.toChain) beforeWrite) Always (start, .up) os x) :
    Protocol chain.toChain os x.1 x.2 := by
  have hc := conducted_run h
  have hphase {event : BusEvent} {y : U ⊕ G} {rest : List (U ⊕ G)} (hcore : x.1.core = .calling event y rest) :
      Phase x.1.bus.state x.2 event := by
    have hsound := hc.sound
    rw [hcore] at hsound
    exact hsound.2
  constructor
  · exact hc.lawful
  · exact fun _ _ hcore => hphase hcore
  · exact fun _ _ hcore => hphase hcore
  · exact fun _ _ hcore => hphase hcore
  · intro hcore y
    have htold := hc.told y
    rw [hcore] at htold
    exact ⟨Settled.up_iff htold, Settled.ne_reset htold⟩
  · intro buf t o e hm he
    exact stateStore_rejected hm he

end

def bothOnce : Registered Unit Unit := { both with nodup := by decide }

def threeWrites : List (Act Unit Unit) :=
  .stateStore [100, 111, 119, 110] :: List.replicate 8 .core ++ [.stateStore [120], .stateStore reset] ++
    List.replicate 36 .core

theorem bus_event_protocol_three_writes : ∃ os x,
    Run (observed (machine bothOnce.toChain) beforeWrite) Always (start, .up) os x ∧
    received (.inl ()) os = [.down, .reset, .up] ∧ x.1.core = .idle ∧ Protocol bothOnce.toChain os x.1 x.2 := by
  obtain ⟨os, x, hrun, hes, hidle⟩ := Run.exists_of_exec (M := observed (machine bothOnce.toChain) beforeWrite)
    (P := Always) (s := (start, .up)) threeWrites
    (fun os x => received (.inl ()) os = [.down, .reset, .up] ∧ x.1.core = .idle) (by decide +kernel)
  exact ⟨os, x, hrun, hes, hidle, bus_event_protocol hrun⟩

end VirtRtLab.System
