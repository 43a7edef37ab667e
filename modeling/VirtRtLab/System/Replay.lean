import VirtRtLab.Gpio.Replay
import VirtRtLab.System.Projection

/-!
A RESET and a seed make a system forget its past: the same schedule shows the same from there on.
-/

namespace VirtRtLab.System

open Kernel VirtRtLab.Core Transition

variable {U G : Type}

def Sys.past (s : Sys U G) (g : G) : Gpio.Past := (s.gpios g).past

def Act.after (p : G → Gpio.Past) : Act U G → Act U G
  | .gpio g a => .gpio g (a.after (p g))
  | a => a

def Obs.since (p : G → Gpio.Past) : Obs U G → Obs U G
  | .gpio g o => .gpio g (o.since (p g))
  | o => o

structure Sys.Like (p p' : G → Gpio.Past) (s s' : Sys U G) : Prop where
  bus : s.bus = s'.bus
  uarts : s.uarts = s'.uarts
  gpios : ∀ g, Gpio.Dev.Like (p g) (p' g) (s.gpios g) (s'.gpios g)
  core : s.core = s'.core
  count : s.core ≠ .idle → s.count = s'.count

abbrev Outcome (p p' : G → Gpio.Past) :
    Option (Sys U G × List (Obs U G)) → Option (Sys U G × List (Obs U G)) → Prop :=
  Alike (Sys.Like p p') (Obs.since p) (Obs.since p')

section Steps

variable {p p' : G → Gpio.Past} {s s' : Sys U G} {chain : Chain U G}

theorem Sys.Like.busy (h : Sys.Like p p' s s') (x : U ⊕ G) : s.busy x = s'.busy x := by
  cases x with
  | inl u => simp only [Sys.busy, h.uarts]
  | inr g => simp only [Sys.busy, (h.gpios g).notifier]

theorem setState_like (h : Sys.Like p p' s s') (new : BusState) (count : ℕ) :
    Sys.Like p p' (setState chain s new count).1 (setState chain s' new count).1 ∧
      (setState chain s new count).2.map (Obs.since p) = (setState chain s' new count).2.map (Obs.since p') := by
  simp only [setState, h.bus]
  split
  · exact ⟨h, rfl⟩
  · exact ⟨⟨rfl, h.uarts, h.gpios, rfl, fun _ => rfl⟩, rfl⟩

theorem stateStore_like (h : Sys.Like p p' s s') (buf : Bytes) :
    Outcome p p' (stateStore chain s buf) (stateStore chain s' buf) := by
  simp only [stateStore, h.core]
  split
  · rename_i hidle
    split
    · exact .some (setState_like h .up buf.length)
    · split
      · exact .some (setState_like h .down buf.length)
      · split
        · exact .some ⟨⟨h.bus, h.uarts, h.gpios, rfl, fun _ => rfl⟩, rfl⟩
        · exact .some ⟨h, rfl⟩
  · exact .none

theorem seedStore_like (h : Sys.Like p p' s s') (buf : Bytes) :
    Sys.Like p p' (seedStore s buf).1 (seedStore s' buf).1 ∧
      (seedStore s buf).2.map (Obs.since p) = (seedStore s' buf).2.map (Obs.since p') := by
  simp only [seedStore]
  split
  · exact ⟨h, rfl⟩
  · split
    · exact ⟨h, rfl⟩
    · refine ⟨⟨?_, h.uarts, h.gpios, h.core, h.count⟩, rfl⟩
      simp only [h.bus]

variable [DecidableEq U] [DecidableEq G]

omit [DecidableEq G] in
theorem stepUart_like (h : Sys.Like p p' s s') (u : U) (a : Uart.Act) :
    Outcome p p' (stepUart s u a) (stepUart s' u a) := by
  simp only [stepUart, h.bus, h.uarts]
  cases Uart.machine ⟨s'.bus, s'.uarts u⟩ a with
  | none => exact .none
  | some r =>
    refine .some ⟨⟨rfl, rfl, h.gpios, h.core, h.count⟩, ?_⟩
    simp only [List.map_map]
    rfl

omit [DecidableEq U] in
theorem stepGpio_like (h : Sys.Like p p' s s') (g : G) (a : Gpio.Act) :
    Outcome p p' (stepGpio s g (a.after (p g))) (stepGpio s' g (a.after (p' g))) := by
  have hdev : Gpio.Sys.Like (p g) (p' g) ⟨s.bus, s.gpios g⟩ ⟨s'.bus, s'.gpios g⟩ := ⟨h.bus, h.gpios g⟩
  refine (Gpio.machine_like hdev a).map (fun r r' hr ho => ⟨?_, ?_⟩)
  · refine ⟨hr.bus, h.uarts, fun g' => ?_, h.core, h.count⟩
    by_cases hg : g' = g
    · subst hg
      simpa only [Function.update_self] using hr.dev
    · simpa only [Function.update_of_ne hg] using h.gpios g'
  · have hsince := congrArg (List.map (Obs.gpio (U := U) g)) ho
    simpa only [List.map_map, Function.comp_def, Obs.since] using hsince

theorem notify_like (h : Sys.Like p p' s s') (event : BusEvent) (x : U ⊕ G) :
    Outcome p p' (notify s event x) (notify s' event x) := by
  cases x with
  | inl u => exact stepUart_like h u (.notify event)
  | inr g => exact stepGpio_like h g (.notify event)

theorem callback_like (h : Sys.Like p p' s s') (x : U ⊕ G) : Outcome p p' (callback s x) (callback s' x) := by
  cases x with
  | inl u => exact stepUart_like h u .notifier
  | inr g => exact stepGpio_like h g .notifier

theorem stepCore_like (h : Sys.Like p p' s s') : Outcome p p' (stepCore chain s) (stepCore chain s') := by
  have hcount := h.count
  simp only [stepCore, ← h.core]
  split
  · exact .none
  · rename_i event x rest hc
    have hnotify := notify_like h event x
    generalize hn : notify s event x = r at hnotify ⊢
    generalize notify s' event x = r' at hnotify ⊢
    cases hnotify with
    | none => exact .none
    | @some r r' hnotify =>
      obtain ⟨hr, ho⟩ := hnotify
      have hcore : r.1.core ≠ .idle := by
        rw [(notify_calls hn).core, hc]
        simp
      refine .some ⟨⟨hr.bus, hr.uarts, hr.gpios, rfl, fun _ => hr.count hcore⟩, ?_⟩
      rw [List.map_cons, List.map_cons, ho]
      rfl
  · rename_i hc
    exact .some ⟨⟨h.bus, h.uarts, h.gpios, rfl, fun _ => hcount (by rw [hc]; simp)⟩, rfl⟩
  · rename_i hc
    refine .some ⟨⟨h.bus, h.uarts, h.gpios, rfl, fun hne => absurd rfl hne⟩, ?_⟩
    simp only [List.map_cons, List.map_nil, Obs.since, hcount (by rw [hc]; simp)]
  · rename_i event x rest hc
    rw [← h.busy x]
    split
    · exact callback_like h x
    · exact .some ⟨⟨h.bus, h.uarts, h.gpios, rfl, fun _ => hcount (by rw [hc]; simp)⟩, rfl⟩
  · rename_i hc
    refine .some ⟨⟨?_, h.uarts, h.gpios, rfl, fun _ => hcount (by rw [hc]; simp)⟩, rfl⟩
    simp only [h.bus]

variable (chain) in
theorem machine_like (h : Sys.Like p p' s s') (a : Act U G) :
    Outcome p p' (machine chain s (a.after p)) (machine chain s' (a.after p')) := by
  have hown (p : Gpio.Past) (a : Gpio.Act) : ownGpio (a.after p) = ownGpio a := by cases a <;> rfl
  cases a with
  | stateStore buf => exact stateStore_like h buf
  | core => exact stepCore_like h
  | seedStore buf => exact .some (seedStore_like h buf)
  | uart u a =>
    simp only [Act.after, machine]
    split
    · exact stepUart_like h u a
    · exact .none
  | gpio g a =>
    simp only [Act.after, machine, hown]
    split
    · exact stepGpio_like h g a
    · exact .none

end Steps

/-- A state in which a write of `reset` has come to its end, after any past. -/
def AfterReset [DecidableEq U] [DecidableEq G] (chain : Chain U G) (t : Sys U G) : Prop :=
  ∃ os s buf r o os', Run (machine chain) Always start os s ∧ sysfsStreq buf reset = true ∧
    machine chain s (.stateStore buf) = some (r, o) ∧ Run (machine chain) Resets r os' t ∧ t.core = .idle

structure SameRig (t t' : Sys U G) : Prop where
  uarts : ∀ u, (t'.uarts u).kept = (t.uarts u).kept
  lines : ∀ g, (t'.gpios g).face = (t.gpios g).face
  injects : ∀ g k, (t.gpios g).inject? k = none ∧ (t'.gpios g).inject? k = none

section Seeds

variable [DecidableEq U] [DecidableEq G] {chain : Chain U G} {t t' : Sys U G}

theorem AfterReset.reachable (h : AfterReset chain t) : ∃ os, Run (machine chain) Always start os t := by
  obtain ⟨os, s, buf, r, o, os', hrun, -, hm, hrun', -⟩ := h
  exact ⟨_, (Run.step hrun trivial hm).trans (hrun'.mono (fun _ _ _ => trivial))⟩

theorem AfterReset.underway (h : AfterReset chain t) : Underway t ∧ t.core = .idle := by
  obtain ⟨os, s, buf, r, o, os', hrun, hb, hm, hrun', hi⟩ := h
  obtain ⟨hidle, rfl⟩ := stateStore_reset hb hm
  refine ⟨hrun'.invariant Underway ?_ (fun u a v o hu hp hm => hu.step hp hm), hi⟩
  apply underway_of_calm
  · exact (ordered_run hrun).calm (by simp [hidle])
  · intro x hx
    exact absurd (chain.all x) hx
  · trivial

theorem AfterReset.quiescent (h : AfterReset chain t) {g : G} (hk : ∀ k, (t.gpios g).inject? k = none)
    (ℓ : Fin Gpio.LINES) : Gpio.Quiescent (t.gpios g) ℓ := by
  obtain ⟨hu, hi⟩ := h.underway
  have hquiet := (hu.gpio_cleared hi g).lines ℓ
  refine ⟨hquiet.timer, hquiet.queued, hquiet.work, fun k => ?_, ?_⟩
  · rw [hk]
    rfl
  · simpa [Sys.busy] using hu.calm (by simp [hi]) (.inr g)

theorem AfterReset.live (h : AfterReset chain t) (g : G) (ℓ : Fin Gpio.LINES) : Gpio.Live (t.gpios g) ℓ := by
  obtain ⟨os, hrun⟩ := h.reachable
  obtain ⟨os', hdev⟩ := run_gpio hrun g
  exact Gpio.live_run hdev (.applied rfl)

theorem AfterReset.like (h : AfterReset chain t) (h' : AfterReset chain t') (hrig : SameRig t t') (v : UInt32) :
    Sys.Like t.past t'.past { t with bus := { t.bus with prngState := v } }
      { t' with bus := { t'.bus with prngState := v } } := by
  obtain ⟨hu, hi⟩ := h.underway
  obtain ⟨hu', hi'⟩ := h'.underway
  have hbase := hu.baseline hi
  have hbase' := hu'.baseline hi'
  refine ⟨?_, funext fun u => ?_, fun g => ?_, hi.trans hi'.symm, fun hne => absurd hi hne⟩
  · dsimp only
    rw [hbase.state, hbase'.state]
  · have hkept := hrig.uarts u
    rw [(hu.uart_cleared hi u).kept, (hu'.uart_cleared hi' u).kept] at hkept
    exact hkept.symm
  · have hinjects := hrig.injects g
    apply Gpio.like_of_rest
    · exact h.quiescent (fun k => (hinjects k).1)
    · exact h'.quiescent (fun k => (hinjects k).2)
    · exact h.live g
    · exact h'.live g
    · exact hrig.lines g
    · exact (hbase'.gpioAttrs g).trans (hbase.gpioAttrs g).symm
    · exact (hbase'.valueChanges g).trans (hbase.valueChanges g).symm
    · exact (hbase'.drops g).trans (hbase.drops g).symm
    · exact (hbase'.bitflips g).trans (hbase.bitflips g).symm

theorem exec_seedStore {seed : Bytes} {v : UInt32} (hseed : kstrtou32 seed 10 = .ok v) (hv : v ≠ 0)
    (as : List (Act U G)) :
    exec (machine chain) Always t (.seedStore seed :: as) =
      (exec (machine chain) Always { t with bus := { t.bus with prngState := v } } as).map
        (fun r => (r.1, .seeded (.ok seed.length) :: r.2)) := by
  simp only [exec, if_true, machine, seedStore, hseed, if_neg hv]
  cases exec (machine chain) Always { t with bus := { t.bus with prngState := v } } as with
  | none => rfl
  | some r => rfl

/-- The same seed, the same outcome: whatever happened before a RESET and before the one of another system, with the
same settings and the same seed every schedule is possible in both or in neither, and shows the same. -/
theorem same_seed_same_outcome (h : AfterReset chain t) (h' : AfterReset chain t') (hrig : SameRig t t') {seed : Bytes}
    {v : UInt32} (hseed : kstrtou32 seed 10 = .ok v) (hv : v ≠ 0) (as : List (Act U G)) :
    Alike (Sys.Like t.past t'.past) (Obs.since t.past) (Obs.since t'.past)
      (exec (machine chain) Always t (.seedStore seed :: as.map (Act.after t.past)))
      (exec (machine chain) Always t' (.seedStore seed :: as.map (Act.after t'.past))) := by
  have hafter := exec_alike (fun _ _ a hs => machine_like chain hs a) (h.like h' hrig v) as
  rw [exec_seedStore hseed hv, exec_seedStore hseed hv]
  refine hafter.map (fun r r' hr ho => ⟨hr, ?_⟩)
  rw [List.map_cons, List.map_cons, ho]
  rfl

end Seeds

theorem AfterReset.exists_of_exec (as : List (Act Unit Unit)) (p : Sys Unit Unit → Prop) [DecidablePred p]
    (h : (exec (machine both) Always start as).any (fun s => (machine both s.1 (.stateStore reset)).any (fun r =>
      (exec (machine both) Resets r.1 (List.replicate 36 .core)).any (fun q => decide (q.1.core = .idle ∧ p q.1)))) =
        true) : ∃ t, AfterReset both t ∧ p t := by
  obtain ⟨os, s, hrun, hs⟩ := Run.of_exec_any h
  obtain ⟨⟨r, o⟩, hm, hr⟩ := (Option.any_eq_true _ _).mp hs
  obtain ⟨os', t, hrun', ht⟩ := Run.of_exec_any hr
  obtain ⟨hi, hp⟩ := of_decide_eq_true ht
  exact ⟨t, ⟨os, s, reset, r, o, os', hrun, by decide, hm, hrun', hi⟩, hp⟩

def resetUart : Uart.Dev := { Uart.Dev.init with wireResetPending := true }

def scenario : List (Act Unit Unit) :=
  gpioActs ([.attrStore .bitflipRatePpm [49, 48, 48, 48, 48, 48, 48], .attrStore .dropRatePpm [53, 48],
    .injectStore [48, 58, 49]] ++ List.replicate 5 (.inject 0 true))

theorem same_seed_same_outcome_two_pasts : ∃ t t' r r', AfterReset both t ∧ AfterReset both t' ∧
    (t.past ()).calls = 0 ∧ (t'.past ()).calls = 1 ∧ ((t'.gpios ()).lines 0).snapValue = 1 ∧
    exec (machine both) Always t (.seedStore [55] :: scenario.map (Act.after t.past)) = some r ∧
    exec (machine both) Always t' (.seedStore [55] :: scenario.map (Act.after t'.past)) = some r' ∧
    (r.1.gpios ()).statBitflips = 1 ∧ Sys.Like t.past t'.past r.1 r'.1 ∧
    r.2.map (Obs.since t.past) = r'.2.map (Obs.since t'.past) := by
  obtain ⟨t, h, hu, hf, hi, he⟩ := AfterReset.exists_of_exec [] (fun t => (t.uarts ()).kept = resetUart ∧
    (t.gpios ()).face = (fun _ => (0, false)) ∧ (t.gpios ()).injects = [] ∧
      (exec (machine both) Always t (.seedStore [55] :: scenario.map (Act.after t.past))).any
        (fun r => (r.1.gpios ()).statBitflips = 1) = true) (by decide +kernel)
  obtain ⟨t', h', hu', hf', hi', hs⟩ := AfterReset.exists_of_exec
    (gpioActs [.attrStore .latencyNs [53], .injectStore [48, 58, 49], .inject 0 true, .inject 0 true, .inject 0 true])
    (fun t => (t.uarts ()).kept = resetUart ∧ (t.gpios ()).face = (fun _ => (0, false)) ∧
      (t.gpios ()).injects = [none] ∧ ((t.gpios ()).lines 0).snapValue = 1) (by decide +kernel)
  have hrig : SameRig t t' := by
    refine ⟨fun _ => hu'.trans hu.symm, fun _ => hf'.trans hf.symm, fun _ k => ⟨?_, ?_⟩⟩
    · simp [Gpio.Dev.inject?, hi]
    · cases k with
      | zero => simp [Gpio.Dev.inject?, hi']
      | succ k => simp [Gpio.Dev.inject?, hi']
  obtain ⟨r, hr, hflips⟩ := (Option.any_eq_true _ _).mp he
  have hseed : kstrtou32 [55] 10 = .ok 7 := by decide
  have hsame := same_seed_same_outcome h h' hrig hseed (by decide) scenario
  rw [hr] at hsame
  generalize hr' : exec (machine both) Always t' (.seedStore [55] :: scenario.map (Act.after t'.past)) = q at hsame
  cases hsame with
  | @some _ r' hsame =>
    refine ⟨t, t', r, r', h, h', ?_, ?_, hs, hr, hr', of_decide_eq_true hflips, hsame⟩
    · exact congrArg List.length hi
    · exact congrArg List.length hi'

end VirtRtLab.System
