import Mathlib.Logic.Function.Basic
import VirtRtLab.Core.Bus
import VirtRtLab.Core.Attrs

/-!
State of one GPIO device of `virtrtlab_gpio.c`. The 32-bit generation counters are kept as natural numbers,
so that every snapshot has an identity of its own; the code sees them modulo `2 ^ 32`, as `sameGen` does.
-/

namespace VirtRtLab.Gpio

open Kernel VirtRtLab.Core

abbrev LINES : ℕ := 8
def MAX_LATENCY_NS : UInt64 := 10000000000
def MAX_PPM : UInt32 := 1000000

def sameGen (m n : ℕ) : Bool := m % 2 ^ 32 == n % 2 ^ 32

/-- `virtrtlab_gpio_line_apply` by its next access. -/
inductive ApplyPc where
  | idle
  | enter
  | flip (gen : ℕ) (snapVal : UInt8) (bitflipPpm : UInt32)
  | commit (gen : ℕ) (snapVal newVal : UInt8)
  deriving DecidableEq, Repr

structure Line where
  value : UInt8
  isOutput : Bool
  snapValue : UInt8
  snapBitflipPpm : UInt32
  snapGen : ℕ
  applyGen : ℕ
  delayTimer : Option UInt64
  workQueued : Bool
  work : ApplyPc
  deriving DecidableEq, Repr

def Line.init : Line where
  value := 0
  isOutput := false
  snapValue := 0
  snapBitflipPpm := 0
  snapGen := 0
  applyGen := 0
  delayTimer := none
  workQueued := false
  work := .idle

inductive InjectPc where
  | parsed (line : Fin LINES) (val : UInt8)
  | gated (line : Fin LINES) (val : UInt8)
  | apply (line : Fin LINES) (pc : ApplyPc)
  | jitter (line : Fin LINES) (latencyNs jitterNs : UInt64)
  | jitter2 (line : Fin LINES) (latencyNs jitterNs : UInt64) (first : UInt32)
  | arm (line : Fin LINES) (delayNs : UInt64)
  deriving DecidableEq, Repr

structure Inject where
  count : ℕ
  pc : InjectPc
  deriving DecidableEq, Repr

inductive NotifierPc where
  | idle
  | cancelTimer (line : Fin LINES)
  | cancelWork (line : Fin LINES)
  | critical
  deriving DecidableEq, Repr

structure Dev where
  attrs : FaultAttrs
  lines : Fin LINES → Line
  statValueChanges : UInt64
  statDrops : UInt64
  statBitflips : UInt64
  injects : List (Option Inject)
  notifier : NotifierPc

def Dev.init : Dev where
  attrs := .default
  lines := fun _ => .init
  statValueChanges := 0
  statDrops := 0
  statBitflips := 0
  injects := []
  notifier := .idle

def Dev.setLine (d : Dev) (ℓ : Fin LINES) (line : Line) : Dev := { d with lines := Function.update d.lines ℓ line }

def Dev.inject? (d : Dev) (k : ℕ) : Option Inject := (d.injects[k]?).join

def Dev.call (d : Dev) (inj : Option Inject) : Dev := { d with injects := d.injects ++ [inj] }

def Dev.setInject (d : Dev) (k : ℕ) (inj : Option Inject) : Dev := { d with injects := d.injects.set k inj }

section

variable (d : Dev) (ℓ : Fin LINES) (line : Line) (k : ℕ) (inj : Option Inject)

@[simp] theorem setLine_lines : (d.setLine ℓ line).lines = Function.update d.lines ℓ line := rfl
@[simp] theorem setLine_inject? : (d.setLine ℓ line).inject? = d.inject? := rfl
@[simp] theorem setLine_notifier : (d.setLine ℓ line).notifier = d.notifier := rfl
@[simp] theorem setInject_lines : (d.setInject k inj).lines = d.lines := rfl
@[simp] theorem setInject_notifier : (d.setInject k inj).notifier = d.notifier := rfl

theorem setInject_inject? {inj' : Inject} (h : d.inject? k = some inj') :
    (d.setInject k inj).inject? = Function.update d.inject? k inj := by
  have hk : k < d.injects.length := by
    by_contra hlt
    simp [Dev.inject?, List.getElem?_eq_none (Nat.not_lt.mp hlt)] at h
  funext j
  by_cases hj : j = k
  · subst hj
    simp [Dev.inject?, Dev.setInject, hk]
  · have hkj : k ≠ j := fun h => hj h.symm
    simp [Dev.inject?, Dev.setInject, hj, hkj]

theorem call_inject? : (d.call inj).inject? = Function.update d.inject? d.injects.length inj := by
  funext j
  by_cases hj : j = d.injects.length
  · subst hj
    simp [Dev.inject?, Dev.call]
  · simp only [Dev.inject?, Dev.call, Function.update_of_ne hj]
    by_cases hlt : j < d.injects.length
    · rw [List.getElem?_append_left hlt]
    · have hgt : d.injects.length < j := by omega
      rw [List.getElem?_eq_none (by simp; omega), List.getElem?_eq_none (by omega)]

structure Dev.Each (p : Line → Prop) (q : InjectPc → Prop) (d : Dev) : Prop where
  line : ∀ ℓ, p (d.lines ℓ)
  inject : ∀ k inj, d.inject? k = some inj → q inj.pc

variable {d ℓ line k inj} {p : Line → Prop} {q : InjectPc → Prop}

theorem Dev.Each.setLine (h : d.Each p q) (hl : p line) : (d.setLine ℓ line).Each p q := by
  refine ⟨fun ℓ' => ?_, h.inject⟩
  by_cases he : ℓ' = ℓ
  · subst he
    simpa using hl
  · simpa [he] using h.line ℓ'

theorem Dev.Each.setInject (h : d.Each p q) {inj' : Inject} (hk : d.inject? k = some inj')
    (hi : ∀ i, inj = some i → q i.pc) : (d.setInject k inj).Each p q := by
  refine ⟨h.line, fun j i hj => ?_⟩
  rw [setInject_inject? d k inj hk] at hj
  by_cases he : j = k
  · subst he
    rw [Function.update_self] at hj
    exact hi i hj
  · rw [Function.update_of_ne he] at hj
    exact h.inject j i hj

theorem Dev.Each.call (h : d.Each p q) (hi : ∀ i, inj = some i → q i.pc) : (d.call inj).Each p q := by
  refine ⟨h.line, fun j i hj => ?_⟩
  rw [call_inject?] at hj
  by_cases he : j = d.injects.length
  · subst he
    rw [Function.update_self] at hj
    exact hi i hj
  · rw [Function.update_of_ne he] at hj
    exact h.inject j i hj

end

def parseInject (buf : Bytes) : Except Errno (Fin LINES × UInt8) :=
  let len := if buf.getLast? = some 10 then buf.length - 1 else buf.length
  let text := buf.take len
  match text.idxOf? 58 with
  | none => .error .einval
  | some sep =>
    if sep = 0 then .error .einval
    else if len ≠ sep + 2 then .error .einval
    else if text[sep + 1]? ≠ some 48 ∧ text[sep + 1]? ≠ some 49 then .error .einval
    else if sep ≥ 4 then .error .einval
    else
      match kstrtoull (text.take sep) 10 with
      | .error _ => .error .einval
      | .ok idx =>
        if h : idx < LINES then .ok (⟨idx, h⟩, (text[sep + 1]?).getD 0 - 48) else .error .einval

example : parseInject [50, 58, 49, 10] = .ok (2, 1) := by decide

end VirtRtLab.Gpio
