import VirtRtLab.Module.Registration

/-!
`virtrtlab_uart_init` and `virtrtlab_gpio_init`.
-/

namespace VirtRtLab.Module

open Ledger

def UART_MAX_DEVICES : ℕ := 4
def GPIO_MAX_DEVS : ℕ := 32
def GPIO_LINES : ℕ := 8

structure UartRound where
  kzalloc : Bool
  deviceAdd : ℤ
  registerNotifier : ℤ
  miscRegister : ℤ

def uartAdd (out : ℕ → UartRound) (i : ℕ) (devs : Devs) : Added :=
  if !(out i).kzalloc then (-ENOMEM, [.kzalloc i false], devs)
  else if (out i).deviceAdd ≠ 0 then
    ((out i).deviceAdd, [.kzalloc i true, .deviceAdd i (out i).deviceAdd, .hrtimerCancel i 0, .putDevice i], devs)
  else if (out i).registerNotifier ≠ 0 then
    ((out i).registerNotifier, [.kzalloc i true, .deviceAdd i 0, .registerNotifier i (out i).registerNotifier,
      .hrtimerCancel i 0, .deviceUnregister i], devs)
  else
    let devs := Function.update devs i (some i)
    if (out i).miscRegister ≠ 0 then
      ((out i).miscRegister, [.kzalloc i true, .deviceAdd i 0, .registerNotifier i 0,
        .miscRegister i (out i).miscRegister, .unregisterNotifier i, .hrtimerCancel i 0, .deviceUnregister i],
        Function.update devs i none)
    else (0, [.kzalloc i true, .deviceAdd i 0, .registerNotifier i 0, .miscRegister i 0], devs)

def uartRemove (dev : ℕ) : List Call :=
  [.miscDeregister dev, .unregisterNotifier dev, .hrtimerCancel dev 0, .cancelWorkSync dev 0, .deviceUnregister dev]

-- `while (i--)`, over a slot that is cleared
def uartUnwind : ℕ → Devs → Option (List Call × Devs) := unwind uartRemove (fun i devs => Function.update devs i none)

def uartInit (num : ℕ) (alloc register : ℤ) (out : ℕ → UartRound) : Option (ℤ × List Call × Devs) :=
  let devs : Devs := fun _ => none
  if num = 0 ∨ UART_MAX_DEVICES < num then some (-EINVAL, [], devs)
  else if alloc ≠ 0 then some (alloc, [.ttyAllocDriver alloc], devs)
  else
    let (ret, i, log, devs) := addAll (uartAdd out) num 0 devs
    if ret ≠ 0 then
      (uartUnwind i devs).map (fun r => (ret, [.ttyAllocDriver 0] ++ log ++ r.1 ++ [.ttyDriverKrefPut], r.2))
    else if register ≠ 0 then
      (uartUnwind i devs).map (fun r =>
        (register, [.ttyAllocDriver 0] ++ (log ++ [.ttyRegisterDriver register]) ++ r.1 ++ [.ttyDriverKrefPut], r.2))
    else some (0, [.ttyAllocDriver 0] ++ log ++ [.ttyRegisterDriver 0], devs)

structure GpioRound where
  kzalloc : Bool
  deviceAdd : ℤ
  gpiochipAddData : ℤ
  registerNotifier : ℤ

def cancelLines (dev : ℕ) : List Call :=
  (List.range GPIO_LINES).flatMap (fun i => [.hrtimerCancel dev i, .cancelWorkSync dev i])

def gpioAdd (out : ℕ → GpioRound) (n : ℕ) (devs : Devs) : Added :=
  if !(out n).kzalloc then (-ENOMEM, [.kzalloc n false], devs)
  else if (out n).deviceAdd ≠ 0 then
    ((out n).deviceAdd, [.kzalloc n true, .deviceAdd n (out n).deviceAdd, .putDevice n], devs)
  else if (out n).gpiochipAddData ≠ 0 then
    ((out n).gpiochipAddData, [.kzalloc n true, .deviceAdd n 0, .gpiochipAddData n (out n).gpiochipAddData] ++
      cancelLines n ++ [.deviceUnregister n], devs)
  else if (out n).registerNotifier ≠ 0 then
    ((out n).registerNotifier, [.kzalloc n true, .deviceAdd n 0, .gpiochipAddData n 0,
      .registerNotifier n (out n).registerNotifier] ++ cancelLines n ++ [.gpiochipRemove n, .deviceUnregister n], devs)
  else
    (0, [.kzalloc n true, .deviceAdd n 0, .gpiochipAddData n 0, .registerNotifier n 0], Function.update devs n (some n))

def gpioRemove (dev : ℕ) : List Call :=
  cancelLines dev ++ [.unregisterNotifier dev, .gpiochipRemove dev, .deviceUnregister dev]

-- `while (--n >= 0)`, which leaves the array as it is
def gpioUnwind : ℕ → Devs → Option (List Call × Devs) := unwind gpioRemove (fun _ devs => devs)

def gpioInit (num : ℕ) (kcalloc : Bool) (out : ℕ → GpioRound) : Option (ℤ × List Call × Devs) :=
  let devs : Devs := fun _ => none
  if num = 0 ∨ GPIO_MAX_DEVS < num then some (-EINVAL, [], devs)
  else if !kcalloc then some (-ENOMEM, [.kcalloc false], devs)
  else
    let (ret, n, log, devs) := addAll (gpioAdd out) num 0 devs
    if ret ≠ 0 then (gpioUnwind n devs).map (fun r => (ret, [.kcalloc true] ++ log ++ r.1 ++ [.kfree], r.2))
    else some (0, [.kcalloc true] ++ log, devs)

def uartRound (i : ℕ) : List Resource := [.mem i, .device i, .notifier i, .misc i]

def gpioRound (i : ℕ) : List Resource := [.mem i, .device i, .chip i, .notifier i]

theorem uartRound_own : Own uartRound := by
  constructor
  · intro i
    simp [uartRound]
  · intro i r hr
    simp only [uartRound, List.mem_cons, List.not_mem_nil, or_false] at hr
    rcases hr with rfl | rfl | rfl | rfl <;> rfl

theorem gpioRound_own : Own gpioRound := by
  constructor
  · intro i
    simp [gpioRound]
  · intro i r hr
    simp only [gpioRound, List.mem_cons, List.not_mem_nil, or_false] at hr
    rcases hr with rfl | rfl | rfl | rfl <;> rfl

theorem uartAdd_adds (out : ℕ → UartRound) : Adds uartRound (uartAdd out) := by
  constructor
  · intro i devs log devs' h
    unfold uartAdd at h
    split at h
    · exact absurd (Prod.mk.inj h).1 (by decide)
    · split at h
      · exact absurd (Prod.mk.inj h).1 ‹_›
      · split at h
        · exact absurd (Prod.mk.inj h).1 ‹_›
        · dsimp only at h
          split at h
          · exact absurd (Prod.mk.inj h).1 ‹_›
          · cases h
            exact ⟨rfl, rfl, rfl⟩
  · intro i devs ret log devs' h hret hd
    unfold uartAdd at h
    split at h
    · cases h
      exact ⟨⟨[], List.nil_prefix, rfl⟩, rfl, rfl⟩
    · split at h
      · cases h
        refine ⟨⟨[.mem i], ⟨_, rfl⟩, ?_⟩, ?_, rfl⟩
        · simp [ops, Call.ops, acquired, hret]
        · simp [codes, Call.code, hret]
      · split at h
        · cases h
          refine ⟨⟨[.mem i, .device i], ⟨_, rfl⟩, ?_⟩, ?_, rfl⟩
          · simp [ops, Call.ops, acquired, hret]
          · simp [codes, Call.code, hret]
        · dsimp only at h
          split at h
          · cases h
            refine ⟨⟨[.mem i, .device i, .notifier i], ⟨_, rfl⟩, ?_⟩, ?_, ?_⟩
            · simp [ops, Call.ops, acquired, hret]
            · simp [codes, Call.code, hret]
            · rw [Function.update_idem, ← hd, Function.update_eq_self]
          · cases h
            exact absurd rfl hret

theorem ops_cancelLines (dev : ℕ) : ops (cancelLines dev) = [] := by
  simp [ops, cancelLines, List.flatMap_assoc, Call.ops]

theorem codes_cancelLines (dev : ℕ) : codes (cancelLines dev) = [] := by
  simp [codes, cancelLines, List.filterMap_flatMap, Call.code]

theorem gpioAdd_adds (out : ℕ → GpioRound) : Adds gpioRound (gpioAdd out) := by
  constructor
  · intro n devs log devs' h
    unfold gpioAdd at h
    split at h
    · exact absurd (Prod.mk.inj h).1 (by decide)
    · split at h
      · exact absurd (Prod.mk.inj h).1 ‹_›
      · split at h
        · exact absurd (Prod.mk.inj h).1 ‹_›
        · split at h
          · exact absurd (Prod.mk.inj h).1 ‹_›
          · cases h
            exact ⟨rfl, rfl, rfl⟩
  · intro n devs ret log devs' h hret hd
    unfold gpioAdd at h
    split at h
    · cases h
      exact ⟨⟨[], List.nil_prefix, rfl⟩, rfl, rfl⟩
    · split at h
      · cases h
        refine ⟨⟨[.mem n], ⟨_, rfl⟩, ?_⟩, ?_, rfl⟩
        · simp [ops, Call.ops, acquired, hret]
        · simp [codes, Call.code, hret]
      · split at h
        · cases h
          refine ⟨⟨[.mem n, .device n], ⟨_, rfl⟩, ?_⟩, ?_, rfl⟩
          · rw [ops_append, ops_append, ops_cancelLines]
            simp [ops, Call.ops, acquired, hret]
          · rw [codes_append, codes_append, codes_cancelLines]
            simp [codes, Call.code, hret]
        · split at h
          · cases h
            refine ⟨⟨[.mem n, .device n, .chip n], ⟨_, rfl⟩, ?_⟩, ?_, rfl⟩
            · rw [ops_append, ops_append, ops_cancelLines]
              simp [ops, Call.ops, acquired, hret]
            · rw [codes_append, codes_append, codes_cancelLines]
              simp [codes, Call.code, hret]
          · cases h
            exact absurd rfl hret

theorem uartUnwind_spec {i : ℕ} {devs : Devs} (hd : ∀ j < i, devs j = some j) :
    ∃ log devs', uartUnwind i devs = some (log, devs') ∧ codes log = [] ∧
      ops log = (rounds uartRound i).reverse.map .release :=
  unwind_spec i (fun _ => rfl) (fun _ => rfl) (fun _ _ _ hj => Function.update_of_ne (Nat.ne_of_lt hj) ..) hd

theorem gpioUnwind_spec {n : ℕ} {devs : Devs} (hd : ∀ j < n, devs j = some j) :
    ∃ log devs', gpioUnwind n devs = some (log, devs') ∧ codes log = [] ∧
      ops log = (rounds gpioRound n).reverse.map .release := by
  refine unwind_spec n (fun dev => ?_) (fun dev => ?_) (fun _ _ _ _ => rfl) hd
  · rw [gpioRemove, ops_append, ops_cancelLines]
    rfl
  · rw [gpioRemove, codes_append, codes_cancelLines]
    rfl

def Unwinds (result : Option (ℤ × List Call × Devs)) : Prop :=
  ∃ ret log devs, result = some (ret, log, devs) ∧ (ret = 0 → codes log = []) ∧ (ret ≠ 0 → Undone ret log)

theorem uartInit_unwinds {num : ℕ} (h1 : 1 ≤ num) (hn : num ≤ UART_MAX_DEVICES) (alloc register : ℤ)
    (out : ℕ → UartRound) : Unwinds (uartInit num alloc register out) := by
  have hnum : ¬(num = 0 ∨ UART_MAX_DEVICES < num) := by omega
  unfold uartInit
  dsimp only
  rw [if_neg hnum]
  by_cases halloc : alloc = 0
  · rw [if_neg (not_not.mpr halloc)]
    obtain ⟨⟨ret, i, log, devs⟩, hr⟩ : ∃ r, addAll (uartAdd out) num 0 (fun _ => none) = r := ⟨_, rfl⟩
    rw [hr]
    dsimp only
    by_cases hret : ret = 0
    · rw [if_neg (not_not.mpr hret)]
      rw [hret] at hr
      obtain ⟨-, hset, hcodes, hops⟩ := addAll_ok (uartAdd_adds out) filled_start hr
      by_cases hreg : register = 0
      · rw [if_neg (not_not.mpr hreg)]
        refine ⟨_, _, _, rfl, fun _ => ?_, fun h => absurd rfl h⟩
        rw [codes_append, codes_append, hcodes]
        rfl
      · rw [if_pos hreg]
        obtain ⟨back, devs', hback, hquiet, hrel⟩ := uartUnwind_spec hset.1
        rw [hback]
        refine ⟨_, _, _, rfl, fun h => absurd h hreg, fun _ => ?_⟩
        refine undone uartRound_own ⟨rfl, rfl⟩ ⟨rfl, rfl⟩ rfl List.nil_prefix ?_ ?_ hrel hquiet
        · have hregister : ops [.ttyRegisterDriver register] = [] := by simp [ops, Call.ops, acquired, hreg]
          rw [ops_append, hregister, List.append_nil, List.append_nil]
          exact hops.trans (List.append_nil _).symm
        · have hregister : codes [.ttyRegisterDriver register] = [register] := by simp [codes, Call.code, hreg]
          rw [codes_append, hcodes, hregister]
          rfl
    · rw [if_pos hret]
      obtain ⟨back, devs', hback, hundone⟩ := addAll_undone (.ttyAllocDriver 0) .ttyDriverKrefPut (uartAdd_adds out)
        uartRound_own uartUnwind_spec ⟨rfl, rfl⟩ ⟨rfl, rfl⟩ rfl hr hret
      rw [hback]
      exact ⟨_, _, _, rfl, fun h => absurd h hret, fun _ => hundone⟩
  · rw [if_pos halloc]
    refine ⟨_, _, _, rfl, fun h => absurd h halloc, fun _ => ⟨⟨[], List.nodup_nil, ?_⟩, ?_⟩⟩
    · simp [ops, Call.ops, acquired, halloc]
    · simp [codes, Call.code, halloc]

theorem gpioInit_unwinds {num : ℕ} (h1 : 1 ≤ num) (hn : num ≤ GPIO_MAX_DEVS) (kcalloc : Bool) (out : ℕ → GpioRound) :
    Unwinds (gpioInit num kcalloc out) := by
  have hnum : ¬(num = 0 ∨ GPIO_MAX_DEVS < num) := by omega
  unfold gpioInit
  dsimp only
  rw [if_neg hnum]
  cases kcalloc with
  | false => exact ⟨_, _, _, rfl, fun h => absurd h (by decide), fun _ => ⟨⟨[], List.nodup_nil, rfl⟩, rfl⟩⟩
  | true =>
    rw [if_neg (by decide)]
    obtain ⟨⟨ret, n, log, devs⟩, hr⟩ : ∃ r, addAll (gpioAdd out) num 0 (fun _ => none) = r := ⟨_, rfl⟩
    rw [hr]
    dsimp only
    by_cases hret : ret = 0
    · rw [if_neg (not_not.mpr hret)]
      rw [hret] at hr
      obtain ⟨-, -, hcodes, -⟩ := addAll_ok (gpioAdd_adds out) filled_start hr
      refine ⟨_, _, _, rfl, fun _ => ?_, fun h => absurd rfl h⟩
      rw [codes_append, hcodes]
      rfl
    · rw [if_pos hret]
      obtain ⟨back, devs', hback, hundone⟩ := addAll_undone (.kcalloc true) .kfree (gpioAdd_adds out) gpioRound_own
        gpioUnwind_spec ⟨rfl, rfl⟩ ⟨rfl, rfl⟩ rfl hr hret
      rw [hback]
      exact ⟨_, _, _, rfl, fun h => absurd h hret, fun _ => hundone⟩

def secondMisc (i : ℕ) : UartRound := ⟨true, 0, 0, if i = 1 then -16 else 0⟩
def thirdChip (n : ℕ) : GpioRound := ⟨true, 0, if n = 2 then -28 else 0, 0⟩

end VirtRtLab.Module
