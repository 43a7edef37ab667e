import VirtRtLab.Gpio.Device
import VirtRtLab.Lib.LockOrder

/-!
The locks of the three modules: every function by what it locks, where it waits for a timer callback or a work item, and
where it may sleep, on each of its paths. A callback or a work item that runs counts as a lock of its own, which
`hrtimer_cancel` and `cancel_work_sync` wait for.
-/

namespace VirtRtLab.Locking

open LockOrder Transition

inductive Lock where
  | busState
  | busNotifier
  | bus
  -- `port->mutex`, which the TTY layer holds around `activate` and `shutdown`
  | port (i : ℕ)
  | uart (i : ℕ)
  | tx (i : ℕ)
  | rx (i : ℕ)
  | wireReadWq (i : ℕ)
  | txTimer (i : ℕ)
  | txWork (i : ℕ)
  | gpio (j : ℕ)
  | delayTimer (j ℓ : ℕ)
  | applyWork (j ℓ : ℕ)
  deriving DecidableEq

abbrev Ops := List (Op Lock)

def lockOrder : Order Lock where
  rank
    | .busState => 0
    | .busNotifier | .port _ => 1
    | .txTimer _ | .delayTimer _ _ => 2
    | .txWork _ | .applyWork _ _ => 3
    | .uart _ | .gpio _ => 4
    | .bus | .tx _ | .rx _ | .wireReadWq _ => 5
  spins
    | .bus | .tx _ | .rx _ | .wireReadWq _ | .txTimer _ | .delayTimer _ _ => true
    | _ => false

section Core

def nextPrngU32 : Ops := locked .bus []

inductive Peripheral where
  | uart (i : ℕ)
  | gpio (j : ℕ)

inductive Event where
  | up | down | reset
  deriving DecidableEq

def seedStore (accepted : Bool) : Ops := if accepted then locked .bus [] else []

-- `blocking_notifier_chain_register` and `_unregister` take the semaphore of the chain for writing
def registerNotifier : Ops := locked .busNotifier []

def unregisterNotifier : Ops := locked .busNotifier []

end Core

section Uart

def wakeUp (i : ℕ) : Ops := locked (.wireReadWq i) []

def uartAttr (i : ℕ) (accepted : Bool) : Ops := if accepted then locked (.uart i) [] else []

def ttyWrite (i : ℕ) (up enabled : Bool) : Ops :=
  if !up then []
  else if !enabled then locked (.uart i) []
  else locked (.uart i) [] ++ locked (.tx i) []

structure TxPath where
  burst : Bool
  enabled : Bool
  dropRate : Bool
  dropped : Bool
  flipRate : Bool
  flipped : Bool
  written : Bool
  more : Bool
  jitter : Bool

def txFaults (p : TxPath) (deliver : Ops) : Ops :=
  if !p.enabled then []
  else (if p.dropRate then nextPrngU32 else []) ++
    if p.dropRate && p.dropped then []
    else (if p.flipRate then nextPrngU32 ++ (if p.flipped then nextPrngU32 else []) else []) ++ deliver

def txWork (i : ℕ) (p : TxPath) : Ops :=
  locked (.txWork i) (locked (.tx i) [] ++
    if !p.burst then []
    else locked (.uart i) [] ++ (txFaults p (locked (.rx i) [] ++ (if p.written then wakeUp i else [])) ++
      if p.more && p.jitter then nextPrngU32 ++ nextPrngU32 else []))

-- `schedule_work` takes no lock of the modules
def txTimerCb (i : ℕ) : Ops := locked (.txTimer i) []

-- `kfifo_alloc` with `GFP_KERNEL`, the second one only where the first succeeds
def portActivate (i : ℕ) (ok : Bool) : Ops :=
  locked (.port i) (locked (.uart i) [] ++ (.sleep :: if ok then [.sleep] else []))

def portShutdown (i : ℕ) : Ops :=
  locked (.port i) (.await (.txTimer i) :: .await (.txWork i) :: (locked (.rx i) [] ++ wakeUp i))

def wireRelease (i : ℕ) : Ops := locked (.rx i) []

def waitEvent (i : ℕ) : Ops := locked (.wireReadWq i) [] ++ (.sleep :: locked (.wireReadWq i) [])

inductive ReadEnd where
  | noMemory | interrupted | nothing | copied

/-- `kmalloc`, the turns of the retry loop, and what ends it: a signal or a reset in the wait, a closed port or an empty
FIFO without blocking, or `copy_to_user`. -/
def wireRead (i : ℕ) (nonblock : Bool) (turns : ℕ) : ReadEnd → Ops
  | .noMemory => [.sleep]
  | .interrupted => .sleep :: (readTurns ++ waitEvent i)
  | .nothing => .sleep :: readTurns
  | .copied => .sleep :: (readTurns ++ [.sleep])
where
  readTurns := (List.replicate turns ((if nonblock then [] else waitEvent i) ++ locked (.rx i) [])).flatten

def wireWrite (chunks : ℕ) : Ops := (List.replicate chunks [Op.sleep]).flatten

def wirePoll (i : ℕ) : Ops := locked (.wireReadWq i) []

def uartBusNotifier (i : ℕ) : Event → Ops
  | .reset => .await (.txTimer i) :: .await (.txWork i) :: (locked (.tx i) [] ++ (locked (.uart i) [] ++ wakeUp i))
  | .down => .await (.txTimer i) :: .await (.txWork i) :: (locked (.tx i) [] ++ wakeUp i)
  | .up => []

end Uart

section Gpio

open Gpio (LINES)

def gpioAccess (j : ℕ) (accepted : Bool) : Ops := if accepted then locked (.gpio j) [] else []

def lineApply (j : ℕ) (stale flipRate : Bool) : Ops :=
  locked (.gpio j) [] ++
    if stale then [] else (if flipRate then nextPrngU32 else []) ++ locked (.gpio j) []

def applyWork (j ℓ : ℕ) (stale flipRate : Bool) : Ops := locked (.applyWork j ℓ) (lineApply j stale flipRate)

def delayTimerCb (j ℓ : ℕ) : Ops := locked (.delayTimer j ℓ) []

inductive InjectPath where
  | refused
  | disabled
  | dropped
  | immediate (dropRate stale flipRate : Bool)
  | delayed (dropRate jitter : Bool)

-- the drop gate draws under the mutex of the bank, the jitter and the bitflip do not
def injectStore (j : ℕ) : InjectPath → Ops
  | .refused => []
  | .disabled => locked (.gpio j) []
  | .dropped => locked (.gpio j) nextPrngU32
  | .immediate dropRate stale flipRate =>
    locked (.gpio j) (if dropRate then nextPrngU32 else []) ++ lineApply j stale flipRate
  | .delayed dropRate jitter =>
    locked (.gpio j) (if dropRate then nextPrngU32 else []) ++ if jitter then nextPrngU32 ++ nextPrngU32 else []

def cancelLines (j : ℕ) : Ops := (List.range LINES).flatMap (fun ℓ => [.await (.delayTimer j ℓ), .await (.applyWork j ℓ)])

def gpioBusNotifier (j : ℕ) : Event → Ops
  | .reset => cancelLines j ++ locked (.gpio j) []
  | .down | .up => []

end Gpio

section Bus

def callback (ev : Event) : Peripheral → Ops
  | .uart i => uartBusNotifier i ev
  | .gpio j => gpioBusNotifier j ev

def notifierCall (chain : List Peripheral) (ev : Event) : Ops := lockedShared .busNotifier (chain.flatMap (callback ev))

def setState (chain : List Peripheral) (ev : Event) (changed : Bool) : Ops :=
  locked .busState (locked .bus [] ++ if changed then notifierCall chain ev else [])

def busReset (chain : List Peripheral) : Ops :=
  locked .busState (notifierCall chain .reset ++ (locked .bus [] ++ notifierCall chain .up))

end Bus

section Modules

/-- Where the set-up of a device ends: `kzalloc`, `device_add`, the chip of a GPIO bank, the notifier and the wire
device of a UART come one after another, and each failure undoes what came before. -/
inductive AddPath where
  | noMemory | noDevice | noChip | noNotifier | noWire | added

def uartAdd (i : ℕ) : AddPath → Ops
  | .noMemory | .noChip => [.sleep]
  | .noDevice => [.sleep, .await (.txTimer i)]
  | .noNotifier => .sleep :: (registerNotifier ++ [.await (.txTimer i)])
  | .noWire => .sleep :: (registerNotifier ++ (unregisterNotifier ++ [.await (.txTimer i)]))
  | .added => .sleep :: registerNotifier

def uartRemove (i : ℕ) : Ops := unregisterNotifier ++ [.await (.txTimer i), .await (.txWork i)]

def gpioAdd (j : ℕ) : AddPath → Ops
  | .noMemory | .noDevice | .noWire => [.sleep]
  | .noChip => .sleep :: cancelLines j
  | .noNotifier => .sleep :: (registerNotifier ++ cancelLines j)
  | .added => .sleep :: registerNotifier

def gpioRemove (j : ℕ) : Ops := cancelLines j ++ unregisterNotifier

inductive InitEnd where
  | loaded | noDriver | device (p : AddPath)

def uartInit (added : ℕ) (last : InitEnd) : Ops :=
  .sleep :: ((List.range added).flatMap (fun i => uartAdd i .added) ++
    match last with
    | .loaded => []
    | .noDriver => (List.range added).reverse.flatMap uartRemove
    | .device p => uartAdd added p ++ (List.range added).reverse.flatMap uartRemove)

def gpioInit (added : ℕ) (last : InitEnd) : Ops :=
  .sleep :: ((List.range added).flatMap (fun j => gpioAdd j .added) ++
    match last with
    | .loaded | .noDriver => []
    | .device p => gpioAdd added p ++ (List.range added).reverse.flatMap gpioRemove)

def uartExit (n : ℕ) : Ops := (List.range n).reverse.flatMap uartRemove

def gpioExit (n : ℕ) : Ops := (List.range n).reverse.flatMap gpioRemove

end Modules

inductive Call where
  | seedStore (accepted : Bool)
  | stateStore (chain : List Peripheral) (ev : Event) (changed : Bool)
  | stateStoreReset (chain : List Peripheral)
  | uartAttr (i : ℕ) (accepted : Bool)
  | ttyWrite (i : ℕ) (up enabled : Bool)
  | txTimerCb (i : ℕ)
  | txWork (i : ℕ) (p : TxPath)
  | portActivate (i : ℕ) (ok : Bool)
  | portShutdown (i : ℕ)
  | wireRelease (i : ℕ)
  | wireRead (i : ℕ) (nonblock : Bool) (turns : ℕ) (last : ReadEnd)
  | wireWrite (chunks : ℕ)
  | wirePoll (i : ℕ)
  | gpioAccess (j : ℕ) (accepted : Bool)
  | injectStore (j : ℕ) (p : InjectPath)
  | delayTimerCb (j ℓ : ℕ)
  | applyWork (j ℓ : ℕ) (stale flipRate : Bool)
  | uartInit (added : ℕ) (last : InitEnd)
  | uartExit (n : ℕ)
  | gpioInit (added : ℕ) (last : InitEnd)
  | gpioExit (n : ℕ)

def Call.ops : Call → Ops
  | .seedStore accepted => Locking.seedStore accepted
  | .stateStore chain ev changed => setState chain ev changed
  | .stateStoreReset chain => busReset chain
  | .uartAttr i accepted => Locking.uartAttr i accepted
  | .ttyWrite i up enabled => Locking.ttyWrite i up enabled
  | .txTimerCb i => Locking.txTimerCb i
  | .txWork i p => Locking.txWork i p
  | .portActivate i ok => Locking.portActivate i ok
  | .portShutdown i => Locking.portShutdown i
  | .wireRelease i => Locking.wireRelease i
  | .wireRead i nonblock turns last => Locking.wireRead i nonblock turns last
  | .wireWrite chunks => Locking.wireWrite chunks
  | .wirePoll i => Locking.wirePoll i
  | .gpioAccess j accepted => Locking.gpioAccess j accepted
  | .injectStore j p => Locking.injectStore j p
  | .delayTimerCb j ℓ => Locking.delayTimerCb j ℓ
  | .applyWork j ℓ stale flipRate => Locking.applyWork j ℓ stale flipRate
  | .uartInit added last => Locking.uartInit added last
  | .uartExit n => Locking.uartExit n
  | .gpioInit added last => Locking.gpioInit added last
  | .gpioExit n => Locking.gpioExit n

section Keeps

variable {held : List (Lock × Mode)}

theorem keeps_leaf {r : Lock} (h : lockOrder.follows held (.await r) = true) : lockOrder.Keeps held (locked r []) :=
  keeps_locked h keeps_nil

theorem keeps_two_draws (h : lockOrder.follows held (.await .bus) = true) :
    lockOrder.Keeps held (nextPrngU32 ++ nextPrngU32) :=
  keeps_append (keeps_leaf h) (keeps_leaf h)

theorem keeps_txWork (i : ℕ) (p : TxPath) : lockOrder.Keeps [] (txWork i p) := by
  apply keeps_locked rfl
  apply keeps_append (keeps_leaf rfl)
  apply keeps_ite keeps_nil
  apply keeps_append (keeps_leaf rfl)
  apply keeps_append
  · apply keeps_ite keeps_nil
    apply keeps_append (keeps_ite (keeps_leaf rfl) keeps_nil)
    apply keeps_ite keeps_nil
    apply keeps_append
    · exact keeps_ite (keeps_append (keeps_leaf rfl) (keeps_ite (keeps_leaf rfl) keeps_nil)) keeps_nil
    · exact keeps_append (keeps_leaf rfl) (keeps_ite (keeps_leaf rfl) keeps_nil)
  · exact keeps_ite (keeps_two_draws rfl) keeps_nil

theorem keeps_ttyWrite (i : ℕ) (up enabled : Bool) : lockOrder.Keeps [] (ttyWrite i up enabled) := by
  apply keeps_ite keeps_nil
  apply keeps_ite (keeps_leaf rfl)
  exact keeps_append (keeps_leaf rfl) (keeps_leaf rfl)

theorem keeps_portActivate (i : ℕ) (ok : Bool) : lockOrder.Keeps [] (portActivate i ok) := by
  apply keeps_locked rfl
  apply keeps_append (keeps_leaf rfl)
  apply keeps_cons (keeps_sleep rfl)
  exact keeps_ite (keeps_sleep rfl) keeps_nil

theorem keeps_portShutdown (i : ℕ) : lockOrder.Keeps [] (portShutdown i) := by
  apply keeps_locked rfl
  apply keeps_cons (keeps_await rfl)
  apply keeps_cons (keeps_await rfl)
  exact keeps_append (keeps_leaf rfl) (keeps_leaf rfl)

theorem keeps_waitEvent (i : ℕ) : lockOrder.Keeps [] (waitEvent i) :=
  keeps_append (keeps_leaf rfl) (keeps_cons (keeps_sleep rfl) (keeps_leaf rfl))

theorem keeps_wireRead (i : ℕ) (nonblock : Bool) (turns : ℕ) (last : ReadEnd) :
    lockOrder.Keeps [] (wireRead i nonblock turns last) := by
  have hturns : lockOrder.Keeps [] (wireRead.readTurns i nonblock turns) := by
    apply keeps_replicate
    exact keeps_append (keeps_ite keeps_nil (keeps_waitEvent i)) (keeps_leaf rfl)
  cases last with
  | noMemory => exact keeps_sleep rfl
  | interrupted => exact keeps_cons (keeps_sleep rfl) (keeps_append hturns (keeps_waitEvent i))
  | nothing => exact keeps_cons (keeps_sleep rfl) hturns
  | copied => exact keeps_cons (keeps_sleep rfl) (keeps_append hturns (keeps_sleep rfl))

theorem keeps_lineApply (j : ℕ) (stale flipRate : Bool)
    (hg : lockOrder.follows held (.await (.gpio j)) = true) (hb : lockOrder.follows held (.await .bus) = true) :
    lockOrder.Keeps held (lineApply j stale flipRate) := by
  apply keeps_append (keeps_leaf hg)
  apply keeps_ite keeps_nil
  exact keeps_append (keeps_ite (keeps_leaf hb) keeps_nil) (keeps_leaf hg)

theorem keeps_injectStore (j : ℕ) (p : InjectPath) : lockOrder.Keeps [] (injectStore j p) := by
  cases p with
  | refused => exact keeps_nil
  | disabled => exact keeps_leaf rfl
  | dropped => exact keeps_locked rfl (keeps_leaf rfl)
  | immediate dropRate stale flipRate =>
    apply keeps_append
    · exact keeps_locked rfl (keeps_ite (keeps_leaf rfl) keeps_nil)
    · exact keeps_lineApply j stale flipRate rfl rfl
  | delayed dropRate jitter =>
    apply keeps_append
    · exact keeps_locked rfl (keeps_ite (keeps_leaf rfl) keeps_nil)
    · exact keeps_ite (keeps_two_draws rfl) keeps_nil

theorem keeps_cancelLines (j : ℕ) (ht : ∀ ℓ, lockOrder.follows held (.await (.delayTimer j ℓ)) = true)
    (hw : ∀ ℓ, lockOrder.follows held (.await (.applyWork j ℓ)) = true) : lockOrder.Keeps held (cancelLines j) :=
  keeps_flatMap fun ℓ _ => keeps_cons (keeps_await (ht ℓ)) (keeps_await (hw ℓ))

theorem keeps_callback (ev : Event) (p : Peripheral) :
    lockOrder.Keeps [(.busNotifier, .shared), (.busState, .exclusive)] (callback ev p) := by
  cases p with
  | uart i =>
    cases ev with
    | up => exact keeps_nil
    | down =>
      apply keeps_cons (keeps_await rfl)
      apply keeps_cons (keeps_await rfl)
      exact keeps_append (keeps_leaf rfl) (keeps_leaf rfl)
    | reset =>
      apply keeps_cons (keeps_await rfl)
      apply keeps_cons (keeps_await rfl)
      apply keeps_append (keeps_leaf rfl)
      exact keeps_append (keeps_leaf rfl) (keeps_leaf rfl)
  | gpio j =>
    cases ev with
    | up | down => exact keeps_nil
    | reset => exact keeps_append (keeps_cancelLines j (fun _ => rfl) (fun _ => rfl)) (keeps_leaf rfl)

theorem keeps_notifierCall (chain : List Peripheral) (ev : Event) :
    lockOrder.Keeps [(.busState, .exclusive)] (notifierCall chain ev) :=
  keeps_lockedShared rfl (keeps_flatMap fun p _ => keeps_callback ev p)

theorem keeps_setState (chain : List Peripheral) (ev : Event) (changed : Bool) :
    lockOrder.Keeps [] (setState chain ev changed) := by
  apply keeps_locked rfl
  exact keeps_append (keeps_leaf rfl) (keeps_ite (keeps_notifierCall chain ev) keeps_nil)

theorem keeps_busReset (chain : List Peripheral) : lockOrder.Keeps [] (busReset chain) := by
  apply keeps_locked rfl
  apply keeps_append (keeps_notifierCall chain .reset)
  exact keeps_append (keeps_leaf rfl) (keeps_notifierCall chain .up)

theorem keeps_uartAdd (i : ℕ) (p : AddPath) : lockOrder.Keeps [] (uartAdd i p) := by
  cases p with
  | noMemory | noChip => exact keeps_sleep rfl
  | noDevice => exact keeps_cons (keeps_sleep rfl) (keeps_await rfl)
  | noNotifier => exact keeps_cons (keeps_sleep rfl) (keeps_append (keeps_leaf rfl) (keeps_await rfl))
  | noWire =>
    apply keeps_cons (keeps_sleep rfl)
    apply keeps_append (keeps_leaf rfl)
    exact keeps_append (keeps_leaf rfl) (keeps_await rfl)
  | added => exact keeps_cons (keeps_sleep rfl) (keeps_leaf rfl)

theorem keeps_uartRemove (i : ℕ) : lockOrder.Keeps [] (uartRemove i) :=
  keeps_append (keeps_leaf rfl) (keeps_cons (keeps_await rfl) (keeps_await rfl))

theorem keeps_gpioAdd (j : ℕ) (p : AddPath) : lockOrder.Keeps [] (gpioAdd j p) := by
  have hcancel : lockOrder.Keeps [] (cancelLines j) := keeps_cancelLines j (fun _ => rfl) (fun _ => rfl)
  cases p with
  | noMemory | noDevice | noWire => exact keeps_sleep rfl
  | noChip => exact keeps_cons (keeps_sleep rfl) hcancel
  | noNotifier => exact keeps_cons (keeps_sleep rfl) (keeps_append (keeps_leaf rfl) hcancel)
  | added => exact keeps_cons (keeps_sleep rfl) (keeps_leaf rfl)

theorem keeps_gpioRemove (j : ℕ) : lockOrder.Keeps [] (gpioRemove j) :=
  keeps_append (keeps_cancelLines j (fun _ => rfl) (fun _ => rfl)) (keeps_leaf rfl)

theorem keeps_uartInit (added : ℕ) (last : InitEnd) : lockOrder.Keeps [] (uartInit added last) := by
  apply keeps_cons (keeps_sleep rfl)
  apply keeps_append (keeps_flatMap fun i _ => keeps_uartAdd i .added)
  cases last with
  | loaded => exact keeps_nil
  | noDriver => exact keeps_flatMap fun i _ => keeps_uartRemove i
  | device p => exact keeps_append (keeps_uartAdd added p) (keeps_flatMap fun i _ => keeps_uartRemove i)

theorem keeps_gpioInit (added : ℕ) (last : InitEnd) : lockOrder.Keeps [] (gpioInit added last) := by
  apply keeps_cons (keeps_sleep rfl)
  apply keeps_append (keeps_flatMap fun j _ => keeps_gpioAdd j .added)
  cases last with
  | loaded | noDriver => exact keeps_nil
  | device p => exact keeps_append (keeps_gpioAdd added p) (keeps_flatMap fun j _ => keeps_gpioRemove j)

theorem Call.keeps (c : Call) : lockOrder.Keeps [] c.ops := by
  cases c with
  | seedStore | uartAttr | gpioAccess => exact keeps_ite (keeps_leaf rfl) keeps_nil
  | stateStore chain ev changed => exact keeps_setState chain ev changed
  | stateStoreReset chain => exact keeps_busReset chain
  | ttyWrite i up enabled => exact keeps_ttyWrite i up enabled
  | txTimerCb | wireRelease | wirePoll | delayTimerCb => exact keeps_leaf rfl
  | txWork i p => exact keeps_txWork i p
  | portActivate i ok => exact keeps_portActivate i ok
  | portShutdown i => exact keeps_portShutdown i
  | wireRead i nonblock turns last => exact keeps_wireRead i nonblock turns last
  | wireWrite chunks => exact keeps_replicate (keeps_sleep rfl)
  | injectStore j p => exact keeps_injectStore j p
  | applyWork j ℓ stale flipRate => exact keeps_locked rfl (keeps_lineApply j stale flipRate rfl rfl)
  | uartInit added last => exact keeps_uartInit added last
  | uartExit n => exact keeps_flatMap fun i _ => keeps_uartRemove i
  | gpioInit added last => exact keeps_gpioInit added last
  | gpioExit n => exact keeps_flatMap fun j _ => keeps_gpioRemove j

end Keeps

def Called (_ : List (Thread Lock)) (a : Act Lock) : Prop := ∀ ops, a = .start ops → ∃ c : Call, ops = c.ops

theorem called_ok {ts : List (Thread Lock)} {os : List Unit} (h : Run machine Called [] os ts) :
    ∀ t ∈ ts, t.Ok lockOrder := by
  apply h.invariant (fun ts => ∀ t ∈ ts, t.Ok lockOrder)
  · exact fun t ht => nomatch ht
  · intro ts a u o hts ha hm
    apply machine_keeps hm hts
    intro ops hops
    obtain ⟨c, rfl⟩ := ha ops hops
    exact c.keeps

/-- Any number of threads inside the modules' functions, on any paths and in any order: none of them waits for ever,
none ends with a lock held, and none may sleep while it spins or serves a timer. -/
theorem locks_never_deadlock {ts : List (Thread Lock)} {os : List Unit} (h : Run machine Called [] os ts) :
    (Idle ts ∨ ∃ k, (machine ts (.step k)).isSome = true) ∧
    (∀ as ts' os', exec machine (fun _ a => a.isStep = true) ts as = some (ts', os') →
      as.length + remaining ts' ≤ remaining ts) ∧
    (∀ t ∈ ts, t.todo = [] → t.held = []) ∧
    ∀ t ∈ ts, ∀ op rest, t.todo = op :: rest → (op = .sleep ∨ ∃ r, op.wants = some r ∧ lockOrder.spins r = false) →
      ∀ x ∈ t.held, lockOrder.spins x.1 = false := by
  have hok := called_ok h
  exact ⟨progress hok, fun _ _ _ he => steps_bounded he, fun t ht => (hok t ht).holds_nothing,
    fun t ht _ _ hop hs => (hok t ht).may_sleep hop hs⟩

def contenders : List Call :=
  [.stateStoreReset [.uart 0, .gpio 0], .txWork 0 ⟨true, true, true, true, true, true, true, true, true⟩, .uartAttr 0 true]

def contended : List (Act Lock) :=
  contenders.map (fun c => .start c.ops) ++ [.step 2, .step 1, .step 1, .step 1, .step 0, .step 0, .step 0]

theorem locks_never_deadlock_contended : ∃ os ts, Run machine Called [] os ts ∧ (machine ts (.step 0)).isSome = false ∧
    (machine ts (.step 1)).isSome = false ∧ ¬ Idle ts ∧ ∃ k, (machine ts (.step k)).isSome = true := by
  obtain ⟨os, ts, hrun, h0, h1, hi⟩ := Run.exists_of_exec (M := machine) (s := [])
    (P := fun _ a => contenders.any (fun c => a = .start c.ops) || a.isStep) contended
    (fun _ ts => (machine ts (.step 0)).isSome = false ∧ (machine ts (.step 1)).isSome = false ∧
      ∃ t ∈ ts, t.todo ≠ []) (by decide +kernel)
  have hcalled : Run machine Called [] os ts := by
    apply hrun.mono
    rintro _ a ha ops rfl
    simp only [Act.isStep, Bool.or_false, List.any_eq_true, decide_eq_true_eq, Act.start.injEq] at ha
    obtain ⟨c, -, hc⟩ := ha
    exact ⟨c, hc⟩
  have hbusy : ¬ Idle ts := fun hidle => hi.elim fun t ht => ht.2 (hidle t ht.1)
  exact ⟨os, ts, hcalled, h0, h1, hbusy, (locks_never_deadlock hcalled).1.resolve_left hbusy⟩

end VirtRtLab.Locking
