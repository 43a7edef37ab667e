import VirtRtLab.Lib.Transition
import VirtRtLab.Lib.Xorshift
import VirtRtLab.Kernel.Decimal
import VirtRtLab.Core.Bus

/-!
The default bus by itself: writes of arbitrary text to its `seed` and `state`, and draws by anybody.
-/

namespace VirtRtLab.Core

open Kernel Transition

namespace Bus

def seedShow (b : Bus) : Bytes := emitUnsigned b.prngState.toNat

def seedStore (b : Bus) (buf : Bytes) : Bus × Except Errno ℕ :=
  match kstrtou32 buf 10 with
  | .error e => (b, .error e)
  | .ok value => if value = 0 then (b, .error .einval) else ({ b with prngState := value }, .ok buf.length)

def stateStore (b : Bus) (buf : Bytes) : Bus × Except Errno ℕ :=
  if sysfsStreq buf [117, 112] then ({ b with state := .up }, .ok buf.length)
  else if sysfsStreq buf [100, 111, 119, 110] then ({ b with state := .down }, .ok buf.length)
  else if sysfsStreq buf [114, 101, 115, 101, 116] then ({ b with state := .up }, .ok buf.length)
  else (b, .error .einval)

def draws : ℕ → Bus → List UInt32
  | 0, _ => []
  | n + 1, b => b.nextPrngU32 :: draws n b.drawn

end Bus

inductive Call where
  | seedStore (buf : Bytes)
  | stateStore (buf : Bytes)
  | draw
  deriving DecidableEq

inductive Ret where
  | seeded (r : Except Errno ℕ)
  | stored (r : Except Errno ℕ)
  | drew (value : UInt32)
  deriving DecidableEq

def machine : Machine Bus Call Ret := fun b a =>
  match a with
  | .seedStore buf => some ((b.seedStore buf).1, [.seeded (b.seedStore buf).2])
  | .stateStore buf => some ((b.stateStore buf).1, [.stored (b.stateStore buf).2])
  | .draw => some (b.drawn, [.drew b.nextPrngU32])

theorem toBitVec_ne_zero {v : UInt32} : v.toBitVec ≠ 0 ↔ v ≠ 0 := by
  rw [ne_eq, ne_eq, ← UInt32.toBitVec_inj]
  rfl

theorem nextPrngU32_ne_zero (b : Bus) : b.nextPrngU32 ≠ 0 := by
  have hseed : (if b.prngState = 0 then DEFAULT_SEED else b.prngState) ≠ 0 := by
    split
    · decide
    · assumption
  have left13 (v : UInt32) (hv : v ≠ 0) : v ^^^ (v <<< 13) ≠ 0 := by
    rw [← toBitVec_ne_zero] at hv ⊢
    exact Xorshift.xor_shiftLeft_ne_zero (k := 13) (by decide) hv
  have right17 (v : UInt32) (hv : v ≠ 0) : v ^^^ (v >>> 17) ≠ 0 := by
    rw [← toBitVec_ne_zero] at hv ⊢
    exact Xorshift.xor_ushiftRight_ne_zero (k := 17) (by decide) hv
  have left5 (v : UInt32) (hv : v ≠ 0) : v ^^^ (v <<< 5) ≠ 0 := by
    rw [← toBitVec_ne_zero] at hv ⊢
    exact Xorshift.xor_shiftLeft_ne_zero (k := 5) (by decide) hv
  exact left5 _ (right17 _ (left13 _ hseed))

theorem seedStore_error {b : Bus} {buf : Bytes} {e : Errno} (h : (b.seedStore buf).2 = .error e) :
    (b.seedStore buf).1 = b := by
  unfold Bus.seedStore at h ⊢
  split
  · rfl
  · split
    · rfl
    · simp_all

theorem stateStore_prngState (b : Bus) (buf : Bytes) : (b.stateStore buf).1.prngState = b.prngState := by
  unfold Bus.stateStore
  repeat' split
  all_goals rfl

theorem seedStore_ne_zero {b : Bus} {buf : Bytes} (hb : b.prngState ≠ 0) : (b.seedStore buf).1.prngState ≠ 0 := by
  unfold Bus.seedStore
  split
  · exact hb
  · split
    · exact hb
    · assumption

theorem machine_ne_zero {b b' : Bus} {a : Call} {o : List Ret} (hb : b.prngState ≠ 0)
    (h : machine b a = some (b', o)) : b'.prngState ≠ 0 := by
  cases a with
  | seedStore buf =>
    cases h
    exact seedStore_ne_zero hb
  | stateStore buf =>
    cases h
    rw [stateStore_prngState]
    exact hb
  | draw =>
    cases h
    exact nextPrngU32_ne_zero b

theorem run_ne_zero {b : Bus} {os : List Ret} (h : Run machine Always .init os b) : b.prngState ≠ 0 := by
  apply h.invariant (fun b => b.prngState ≠ 0)
  · decide
  · intro t a u o ht _ hm
    exact machine_ne_zero ht hm

theorem seedStore_seedShow {b : Bus} (t : Bus) (hb : b.prngState ≠ 0) :
    t.seedStore b.seedShow = ({ t with prngState := b.prngState }, .ok b.seedShow.length) := by
  unfold Bus.seedStore
  simp only [Bus.seedShow, kstrtou32_emit_decimal, if_neg hb]

theorem draws_congr {b t : Bus} (n : ℕ) (h : t.prngState = b.prngState) : t.draws n = b.draws n := by
  induction n generalizing b t with
  | zero => rfl
  | succ n ih =>
    have hnext : t.nextPrngU32 = b.nextPrngU32 := by simp only [Bus.nextPrngU32, h]
    simp only [Bus.draws, hnext]
    rw [ih (b := b.drawn) (t := t.drawn) hnext]

theorem seed_checkpoint {os : List Ret} {b : Bus} (h : Run machine Always .init os b) :
    b.prngState ≠ 0 ∧
    (∀ buf e, (b.seedStore buf).2 = .error e → (b.seedStore buf).1 = b) ∧
    (∀ buf, (b.stateStore buf).1.prngState = b.prngState) ∧
    ∀ os' t, Run machine Always b os' t → (t.seedStore b.seedShow).2 = .ok b.seedShow.length ∧
      ∀ n, (t.seedStore b.seedShow).1.draws n = b.draws n := by
  have hb := run_ne_zero h
  refine ⟨hb, fun buf e he => seedStore_error he, stateStore_prngState b, fun os' t _ => ?_⟩
  rw [seedStore_seedShow t hb]
  exact ⟨rfl, fun n => draws_congr n rfl⟩

theorem seed_checkpoint_after_draw : ∃ os b, Run machine Always .init os b ∧
    b.seedShow = [50, 55, 48, 51, 54, 57, 10] ∧ ∀ t os', Run machine Always b os' t →
      (t.seedStore b.seedShow).1.draws 1 = b.draws 1 := by
  have hrun : Run machine Always .init ([] ++ [.drew Bus.init.nextPrngU32]) Bus.init.drawn :=
    .step .refl trivial (a := Call.draw) rfl
  exact ⟨_, _, hrun, by decide, fun t os' ht => ((seed_checkpoint hrun).2.2.2 os' t ht).2 1⟩

end VirtRtLab.Core
