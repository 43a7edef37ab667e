import Mathlib.Data.Int.Basic
import Mathlib.Data.List.Nodup
import Mathlib.Logic.Function.Basic
import VirtRtLab.Lib.Ledger

/-!
What the init functions of the device modules call, and their loop: one round a device, and the way back from
`err_unwind`. A device is named by the round that makes it. `put_device` drops the only reference, so that the release
callback frees the object.
-/

namespace VirtRtLab.Module

open Ledger

def EINVAL : ℤ := 22
def ENOMEM : ℤ := 12

inductive Resource where
  | driver
  | registration
  | array
  | mem (i : ℕ)
  | device (i : ℕ)
  | notifier (i : ℕ)
  | misc (i : ℕ)
  | chip (i : ℕ)
  deriving DecidableEq

def Resource.index : Resource → Option ℕ
  | .driver | .registration | .array => none
  | .mem i | .device i | .notifier i | .misc i | .chip i => some i

inductive Call where
  | ttyAllocDriver (ret : ℤ)
  | ttyRegisterDriver (ret : ℤ)
  | kcalloc (ok : Bool)
  | kzalloc (i : ℕ) (ok : Bool)
  | deviceAdd (i : ℕ) (ret : ℤ)
  | registerNotifier (i : ℕ) (ret : ℤ)
  | miscRegister (i : ℕ) (ret : ℤ)
  | gpiochipAddData (i : ℕ) (ret : ℤ)
  | hrtimerCancel (i line : ℕ)
  | cancelWorkSync (i line : ℕ)
  | miscDeregister (i : ℕ)
  | unregisterNotifier (i : ℕ)
  | gpiochipRemove (i : ℕ)
  | deviceUnregister (i : ℕ)
  | putDevice (i : ℕ)
  | ttyDriverKrefPut
  | kfree
  deriving DecidableEq

def acquired (ret : ℤ) (r : Resource) : List (Op Resource) := if ret = 0 then [.acquire r] else []

def Call.ops : Call → List (Op Resource)
  | .ttyAllocDriver ret => acquired ret .driver
  | .ttyRegisterDriver ret => acquired ret .registration
  | .kcalloc ok => if ok then [.acquire .array] else []
  | .kzalloc i ok => if ok then [.acquire (.mem i)] else []
  | .deviceAdd i ret => acquired ret (.device i)
  | .registerNotifier i ret => acquired ret (.notifier i)
  | .miscRegister i ret => acquired ret (.misc i)
  | .gpiochipAddData i ret => acquired ret (.chip i)
  | .hrtimerCancel _ _ | .cancelWorkSync _ _ => []
  | .miscDeregister i => [.release (.misc i)]
  | .unregisterNotifier i => [.release (.notifier i)]
  | .gpiochipRemove i => [.release (.chip i)]
  | .deviceUnregister i => [.release (.device i), .release (.mem i)]
  | .putDevice i => [.release (.mem i)]
  | .ttyDriverKrefPut => [.release .driver]
  | .kfree => [.release .array]

def Call.code : Call → Option ℤ
  | .ttyAllocDriver ret | .ttyRegisterDriver ret | .deviceAdd _ ret | .registerNotifier _ ret | .miscRegister _ ret
  | .gpiochipAddData _ ret => if ret = 0 then none else some ret
  | .kcalloc ok | .kzalloc _ ok => if ok then none else some (-ENOMEM)
  | _ => none

def ops (log : List Call) : List (Op Resource) := log.flatMap Call.ops

def codes (log : List Call) : List ℤ := log.filterMap Call.code

-- `uart_devs` and `gpio_devs`
abbrev Devs := ℕ → Option ℕ

abbrev Added := ℤ × List Call × Devs

/-- The loop from round `i` on, with `rest` rounds left: the return code, the round it stopped at, and the calls. -/
def addAll (add : ℕ → Devs → Added) : ℕ → ℕ → Devs → ℤ × ℕ × List Call × Devs
  | 0, i, devs => (0, i, [], devs)
  | rest + 1, i, devs =>
    let (ret, log, devs) := add i devs
    if ret ≠ 0 then (ret, i, log, devs)
    else
      let (ret, k, log', devs) := addAll add rest (i + 1) devs
      (ret, k, log ++ log', devs)

/-- The loop behind `err_unwind`, which visits the rounds below `i` and looks up their devices; `none` when it meets
a pointer that is not set. -/
def unwind (remove : ℕ → List Call) (clear : ℕ → Devs → Devs) : ℕ → Devs → Option (List Call × Devs)
  | 0, devs => some ([], devs)
  | i + 1, devs =>
    match devs i with
    | none => none
    | some dev => (unwind remove clear i (clear i devs)).map (fun r => (remove dev ++ r.1, r.2))

def rounds (round : ℕ → List Resource) : ℕ → List Resource
  | 0 => []
  | i + 1 => rounds round i ++ round i

structure Adds (round : ℕ → List Resource) (add : ℕ → Devs → Added) : Prop where
  ok : ∀ {i devs log devs'}, add i devs = (0, log, devs') →
    ops log = (round i).map .acquire ∧ codes log = [] ∧ devs' = Function.update devs i (some i)
  failed : ∀ {i devs ret log devs'}, add i devs = (ret, log, devs') → ret ≠ 0 → devs i = none →
    (∃ part, part <+: round i ∧ ops log = part.map .acquire ++ part.reverse.map .release) ∧ codes log = [ret] ∧
      devs' = devs

structure Undone (ret : ℤ) (log : List Call) : Prop where
  ops : ∃ as : List Resource, as.Nodup ∧ ops log = as.map .acquire ++ as.reverse.map .release
  code : codes log = [ret]

theorem ops_append (log log' : List Call) : ops (log ++ log') = ops log ++ ops log' := List.flatMap_append

theorem codes_append (log log' : List Call) : codes (log ++ log') = codes log ++ codes log' := List.filterMap_append

section

variable {round : ℕ → List Resource} {add : ℕ → Devs → Added} {devs : Devs}

def Filled (i : ℕ) (devs : Devs) : Prop := (∀ j < i, devs j = some j) ∧ ∀ j, i ≤ j → devs j = none

theorem filled_start : Filled 0 (fun _ => none) := ⟨fun _ hj => absurd hj (Nat.not_lt_zero _), fun _ _ => rfl⟩

theorem Filled.next {i : ℕ} (h : Filled i devs) : Filled (i + 1) (Function.update devs i (some i)) := by
  constructor
  · intro j hj
    by_cases hji : j = i
    · rw [hji, Function.update_self]
    · rw [Function.update_of_ne hji]
      exact h.1 j (by omega)
  · intro j hj
    rw [Function.update_of_ne (by omega)]
    exact h.2 j (by omega)

theorem addAll_cases {rest i k : ℕ} {ret : ℤ} {log : List Call} {devs' : Devs}
    (h : addAll add (rest + 1) i devs = (ret, k, log, devs')) :
    (∃ log₁ devs₁ log₂, add i devs = (0, log₁, devs₁) ∧ addAll add rest (i + 1) devs₁ = (ret, k, log₂, devs') ∧
      log = log₁ ++ log₂) ∨ ret ≠ 0 ∧ k = i ∧ add i devs = (ret, log, devs') := by
  obtain ⟨⟨ret₁, log₁, devs₁⟩, hr⟩ : ∃ r, add i devs = r := ⟨_, rfl⟩
  simp only [addAll, hr] at h
  by_cases h0 : ret₁ = 0
  · obtain ⟨⟨ret₂, k₂, log₂, devs₂⟩, hrest⟩ : ∃ r, addAll add rest (i + 1) devs₁ = r := ⟨_, rfl⟩
    rw [if_neg (not_not.mpr h0), hrest] at h
    cases h
    exact .inl ⟨log₁, devs₁, log₂, by rw [hr, h0], hrest, rfl⟩
  · rw [if_pos h0] at h
    cases h
    exact .inr ⟨h0, rfl, hr⟩

theorem addAll_ok (ha : Adds round add) {rest i k : ℕ} {log : List Call} {devs' : Devs} (hs : Filled i devs)
    (h : addAll add rest i devs = (0, k, log, devs')) :
    k = i + rest ∧ Filled k devs' ∧ codes log = [] ∧
      (rounds round i).map .acquire ++ ops log = (rounds round k).map .acquire := by
  induction rest generalizing i devs log with
  | zero =>
    cases h
    exact ⟨rfl, hs, rfl, List.append_nil _⟩
  | succ rest ih =>
    rcases addAll_cases h with ⟨log₁, devs₁, log₂, hr, hrest, rfl⟩ | ⟨h0, -, -⟩
    · obtain ⟨hops, hcodes, rfl⟩ := ha.ok hr
      obtain ⟨hk, hs', hc, ho⟩ := ih hs.next hrest
      refine ⟨by omega, hs', by rw [codes_append, hcodes, hc]; rfl, ?_⟩
      rw [ops_append, hops, ← List.append_assoc, ← List.map_append]
      exact ho
    · exact absurd rfl h0

theorem addAll_failed (ha : Adds round add) {rest i k : ℕ} {ret : ℤ} {log : List Call} {devs' : Devs}
    (hs : Filled i devs) (h : addAll add rest i devs = (ret, k, log, devs')) (hret : ret ≠ 0) :
    Filled k devs' ∧ codes log = [ret] ∧ ∃ part, part <+: round k ∧
      (rounds round i).map .acquire ++ ops log =
        (rounds round k ++ part).map .acquire ++ part.reverse.map .release := by
  induction rest generalizing i devs log with
  | zero =>
    cases h
    exact absurd rfl hret
  | succ rest ih =>
    rcases addAll_cases h with ⟨log₁, devs₁, log₂, hr, hrest, rfl⟩ | ⟨-, rfl, hr⟩
    · obtain ⟨hops, hcodes, rfl⟩ := ha.ok hr
      obtain ⟨hs', hc, part, hpart, ho⟩ := ih hs.next hrest
      refine ⟨hs', by rw [codes_append, hcodes, hc]; rfl, part, hpart, ?_⟩
      rw [ops_append, hops, ← List.append_assoc, ← List.map_append]
      exact ho
    · obtain ⟨⟨part, hpart, ho⟩, hc, rfl⟩ := ha.failed hr hret (hs.2 k le_rfl)
      exact ⟨hs, hc, part, hpart, by rw [ho, List.map_append, List.append_assoc]⟩

theorem unwind_spec {remove : ℕ → List Call} {clear : ℕ → Devs → Devs} (i : ℕ)
    (hops : ∀ j, ops (remove j) = (round j).reverse.map .release) (hcodes : ∀ j, codes (remove j) = [])
    (hclear : ∀ j devs j', j' < j → clear j devs j' = devs j') (hd : ∀ j < i, devs j = some j) :
    ∃ log devs', unwind remove clear i devs = some (log, devs') ∧ codes log = [] ∧
      ops log = (rounds round i).reverse.map .release := by
  induction i generalizing devs with
  | zero => exact ⟨[], devs, rfl, rfl, rfl⟩
  | succ i ih =>
    have hd' : ∀ j < i, clear i devs j = some j := fun j hj => by rw [hclear i devs j hj]; exact hd j (by omega)
    obtain ⟨log, devs', hr, hc, ho⟩ := ih hd'
    refine ⟨remove i ++ log, devs', ?_, ?_, ?_⟩
    · rw [unwind, hd i (Nat.lt_succ_self i)]
      dsimp only
      rw [hr]
      rfl
    · rw [codes_append, hcodes, hc]
      rfl
    · rw [ops_append, hops, ho, rounds, List.reverse_append, List.map_append]

structure Own (round : ℕ → List Resource) : Prop where
  nodup : ∀ i, (round i).Nodup
  index : ∀ i, ∀ r ∈ round i, r.index = some i

theorem mem_rounds (ho : Own round) {k : ℕ} {r : Resource} (hr : r ∈ rounds round k) : ∃ j < k, r.index = some j := by
  induction k with
  | zero => cases hr
  | succ k ih =>
    rcases List.mem_append.mp hr with hr | hr
    · obtain ⟨j, hj, hi⟩ := ih hr
      exact ⟨j, by omega, hi⟩
    · exact ⟨k, Nat.lt_succ_self k, ho.index k r hr⟩

theorem rounds_nodup (ho : Own round) {k : ℕ} {part : List Resource} (hpart : part <+: round k) :
    (rounds round k ++ part).Nodup := by
  induction k generalizing part with
  | zero => exact (ho.nodup 0).sublist hpart.sublist
  | succ k ih =>
    refine List.nodup_append.mpr ⟨ih (List.prefix_refl _), (ho.nodup _).sublist hpart.sublist, ?_⟩
    rintro r hr r' hr' rfl
    obtain ⟨j, hj, hi⟩ := mem_rounds ho hr
    rw [ho.index _ r (hpart.subset hr')] at hi
    cases hi
    exact absurd hj (Nat.lt_irrefl _)

theorem undone (ho : Own round) {k : ℕ} {part : List Resource} {r : Resource} {first last : Call} {log log' : List Call}
    {ret : ℤ} (hfirst : ops [first] = [.acquire r] ∧ codes [first] = [])
    (hlast : ops [last] = [.release r] ∧ codes [last] = []) (hr : r.index = none) (hpart : part <+: round k)
    (hlog : ops log = (rounds round k ++ part).map .acquire ++ part.reverse.map .release) (hcode : codes log = [ret])
    (hback : ops log' = (rounds round k).reverse.map .release) (hquiet : codes log' = []) :
    Undone ret ([first] ++ log ++ log' ++ [last]) := by
  constructor
  · refine ⟨r :: (rounds round k ++ part), List.nodup_cons.mpr ⟨?_, rounds_nodup ho hpart⟩, ?_⟩
    · intro hmem
      rcases List.mem_append.mp hmem with hmem | hmem
      · obtain ⟨j, -, hj⟩ := mem_rounds ho hmem
        rw [hr] at hj
        cases hj
      · rw [ho.index k r (hpart.subset hmem)] at hr
        cases hr
    · rw [ops_append, ops_append, ops_append, hfirst.1, hlog, hback, hlast.1]
      simp only [List.reverse_cons, List.reverse_append, List.map_cons, List.map_append, List.map_nil, List.cons_append,
        List.nil_append, List.append_assoc]
  · rw [codes_append, codes_append, codes_append, hfirst.2, hcode, hquiet, hlast.2]
    rfl

theorem addAll_undone (first last : Call) (ha : Adds round add) (ho : Own round)
    {back : ℕ → Devs → Option (List Call × Devs)} {num k : ℕ} {ret : ℤ} {log : List Call} {devs' : Devs} {r : Resource}
    (hback : ∀ {i devs}, (∀ j < i, devs j = some j) → ∃ log devs', back i devs = some (log, devs') ∧ codes log = [] ∧
      ops log = (rounds round i).reverse.map .release)
    (hfirst : ops [first] = [.acquire r] ∧ codes [first] = []) (hlast : ops [last] = [.release r] ∧ codes [last] = [])
    (hr : r.index = none) (h : addAll add num 0 (fun _ => none) = (ret, k, log, devs')) (hret : ret ≠ 0) :
    ∃ log' devs'', back k devs' = some (log', devs'') ∧ Undone ret ([first] ++ log ++ log' ++ [last]) := by
  obtain ⟨hset, hcodes, part, hpart, hops⟩ := addAll_failed ha filled_start h hret
  obtain ⟨log', devs'', hlog', hquiet, hrel⟩ := hback hset.1
  exact ⟨log', devs'', hlog', undone ho hfirst hlast hr hpart hops hcodes hrel hquiet⟩

end

theorem Undone.stack {ret : ℤ} {log : List Call} (h : Undone ret log) : stack [] (Module.ops log) = some [] := by
  obtain ⟨as, -, hops⟩ := h.ops
  have hrelease := stack_release (h := []) as.reverse
  rw [List.append_nil] at hrelease
  rw [hops]
  refine stack_trans (stack_acquire as) ?_
  rw [List.append_nil]
  exact hrelease

theorem Undone.once {ret : ℤ} {log : List Call} (h : Undone ret log) (r : Resource) :
    (Module.ops log).count (.acquire r) = (Module.ops log).count (.release r) := by
  have hcount := held_count (held_of_stack h.stack) r
  simpa using hcount

end VirtRtLab.Module
