import VirtRtLab.Gpio.Authority

/-!
The `gpio_chip` as the AUT sees it: the callbacks that read lines, the loops over a mask, and eight pins that only
the calls of the AUT and the committed injects move.
-/

namespace VirtRtLab.Gpio

open Kernel VirtRtLab.Core Transition

def LINE_DIRECTION_OUT : ℕ := 0
def LINE_DIRECTION_IN : ℕ := 1

def get (d : Dev) (offset : Fin LINES) : UInt8 := (d.lines offset).value

def getDirection (d : Dev) (offset : Fin LINES) : ℕ :=
  if (d.lines offset).isOutput then LINE_DIRECTION_OUT else LINE_DIRECTION_IN

def setBits (mask : ℕ) : List (Fin LINES) := (List.finRange LINES).filter (fun i => mask.testBit i)

def setBit (bits i : ℕ) : ℕ := bits ||| 1 <<< i

def getMultiple (d : Dev) (mask : ℕ) : ℕ :=
  (setBits mask).foldl (fun bits i => if (d.lines i).value ≠ 0 then setBit bits i else bits) 0

def setMultipleCommon (d : Dev) (mask bits : ℕ) : Dev :=
  (setBits mask).foldl (fun d i => d.setLine i (setValue (d.lines i) (bits.testBit i))) d

structure Pin where
  output : Bool
  level : Bool
  deriving DecidableEq

def Pin.set (p : Pin) (value : Bool) : Pin := if p.output then { p with level := value } else p

def Pin.toggle (p : Pin) : Pin := if p.output then p else { p with level := !p.level }

abbrev Pins := Fin LINES → Pin

def Pins.init : Pins := fun _ => ⟨false, false⟩

def Pins.call (p : Pins) : Act → Pins
  | .directionInput i => Function.update p i { p i with output := false }
  | .directionOutput i value => Function.update p i ⟨true, value ≠ 0⟩
  | .set i value => Function.update p i ((p i).set (value ≠ 0))
  | .setMultiple mask bits => fun i => if mask.testBit i then (p i).set (bits.testBit i) else p i
  | _ => p

def Pins.see (p : Pins) : Obs → Pins
  | .commit i _ _ true => Function.update p i (p i).toggle
  | _ => p

def shadow : Observer Sys Act Obs Pins Obs where
  next p _ a r := r.2.foldl Pins.see (p.call a)
  shows _ _ _ r := r.2

def bit (level : Bool) : UInt8 := if level then 1 else 0

def Agrees (d : Dev) (p : Pins) : Prop :=
  ∀ i, (d.lines i).isOutput = (p i).output ∧ (d.lines i).value = bit (p i).level

section Loops

variable {α ι : Type} [DecidableEq ι]

theorem foldl_update (g : ι → α → α) {l : List ι} (hl : l.Nodup) (f : ι → α) (j : ι) :
    l.foldl (fun f i => Function.update f i (g i (f i))) f j = if j ∈ l then g j (f j) else f j := by
  induction l generalizing f with
  | nil => simp
  | cons i l ih =>
    obtain ⟨hi, hl⟩ := List.nodup_cons.mp hl
    rw [List.foldl_cons, ih hl]
    by_cases hj : j = i
    · subst hj
      simp [hi]
    · simp [hj]

theorem mem_setBits {mask : ℕ} {i : Fin LINES} : i ∈ setBits mask ↔ mask.testBit i = true := by
  simp [setBits]

theorem setBits_nodup (mask : ℕ) : (setBits mask).Nodup := (List.nodup_finRange LINES).filter _

theorem setMultipleCommon_lines (d : Dev) (l : List (Fin LINES)) (bits : ℕ) :
    (l.foldl (fun d i => d.setLine i (setValue (d.lines i) (bits.testBit i))) d) =
      { d with lines := l.foldl (fun f i => Function.update f i (setValue (f i) (bits.testBit i))) d.lines } := by
  induction l generalizing d with
  | nil => rfl
  | cons i l ih =>
    rw [List.foldl_cons, ih]
    rfl

theorem setMultiple_loop (d : Dev) (mask bits : ℕ) :
    stepDev d (.setMultiple mask bits) = some (setMultipleCommon d mask bits, []) := by
  have hlines : (setMultipleCommon d mask bits).lines =
      fun i : Fin LINES => if mask.testBit i then setValue (d.lines i) (bits.testBit i) else d.lines i := by
    rw [setMultipleCommon, setMultipleCommon_lines]
    funext i
    have h := foldl_update (fun (j : Fin LINES) line => setValue line (bits.testBit j)) (setBits_nodup mask) d.lines i
    simp only [mem_setBits] at h
    exact h
  simp only [stepDev]
  rw [← hlines, setMultipleCommon, setMultipleCommon_lines]

theorem testBit_setBit (bits i j : ℕ) : (setBit bits i).testBit j = (bits.testBit j || decide (i = j)) := by
  rw [setBit, Nat.testBit_or, Nat.shiftLeft_eq, Nat.one_mul, Nat.testBit_two_pow]

theorem testBit_gather (p : Fin LINES → Prop) [DecidablePred p] (l : List (Fin LINES)) (bits j : ℕ) :
    (l.foldl (fun bits i => if p i then setBit bits i else bits) bits).testBit j = true ↔
      bits.testBit j = true ∨ ∃ i ∈ l, i.val = j ∧ p i := by
  induction l generalizing bits with
  | nil => simp
  | cons i l ih =>
    rw [List.foldl_cons, ih]
    by_cases hp : p i
    · rw [if_pos hp, testBit_setBit]
      simp only [Bool.or_eq_true, decide_eq_true_eq, List.mem_cons]
      grind
    · rw [if_neg hp]
      simp only [List.mem_cons]
      grind

theorem testBit_getMultiple (d : Dev) (mask j : ℕ) : (getMultiple d mask).testBit j = true ↔
    ∃ i : Fin LINES, i.val = j ∧ mask.testBit i = true ∧ get d i ≠ 0 := by
  rw [getMultiple, testBit_gather]
  simp only [Nat.zero_testBit, Bool.false_eq_true, false_or, mem_setBits, get]
  constructor
  · rintro ⟨i, hm, hj, hv⟩
    exact ⟨i, hj, hm, hv⟩
  · rintro ⟨i, hj, hm, hv⟩
    exact ⟨i, hm, hj, hv⟩

end Loops

section Shadow

variable {b b' : Bus} {d d' : Dev} {i : Fin LINES} {a : Act} {o : List Obs} {p : Pins}

theorem bit_injective {x y : Bool} (h : bit x = bit y) : x = y := by
  cases x <;> cases y <;> first | rfl | cases h

theorem Bit.exists_level {v : UInt8} (h : Bit v) : ∃ level, v = bit level := by
  rcases h with rfl | rfl
  · exact ⟨false, rfl⟩
  · exact ⟨true, rfl⟩

theorem Agrees.congr (h : Agrees d p) (hl : ∀ i, (d'.lines i).isOutput = (d.lines i).isOutput ∧
    (d'.lines i).value = (d.lines i).value) : Agrees d' p := by
  intro i
  rw [(hl i).1, (hl i).2]
  exact h i

theorem Agrees.setLine (h : Agrees d p) {line : Line} {q : Pin} (ho : line.isOutput = q.output)
    (hv : line.value = bit q.level) : Agrees (d.setLine i line) (Function.update p i q) := by
  intro j
  by_cases hj : j = i
  · subst hj
    simpa using ⟨ho, hv⟩
  · simpa [hj] using h j

theorem Agrees.keepLine (h : Agrees d p) {line : Line} (ho : line.isOutput = (d.lines i).isOutput)
    (hv : line.value = (d.lines i).value) : Agrees (d.setLine i line) p := by
  have hup : Agrees (d.setLine i line) (Function.update p i (p i)) := h.setLine (ho.trans (h i).1) (hv.trans (h i).2)
  rwa [Function.update_eq_self] at hup

theorem Agrees.setValue (h : Agrees d p) (i : Fin LINES) (value : Bool) :
    (setValue (d.lines i) value).isOutput = ((p i).set value).output ∧
      (setValue (d.lines i) value).value = bit ((p i).set value).level := by
  obtain ⟨hout, hval⟩ := h i
  unfold Gpio.setValue Pin.set
  rw [hout]
  cases ho : (p i).output with
  | true => exact ⟨rfl, rfl⟩
  | false => exact ⟨hout, hval⟩

theorem ApplyStep.pins {pc pc' : ApplyPc} (h : ApplyStep b d i pc b' d' pc' o) (hpc : pc.Bits) (hp : Agrees d p) :
    Agrees d' (o.foldl Pins.see p) := by
  cases h with
  | stale | plain | gate | flip | giveUp => exact hp
  | @commit gen snapVal newVal flipped changed hs hf hc =>
    obtain ⟨hout, hval⟩ := hp i
    obtain ⟨level, rfl⟩ := hpc.2.exists_level
    have hline : ∀ q : Pin, (d.lines i).isOutput = q.output →
        (if (d.lines i).isOutput then (d.lines i).value else bit level) = bit q.level →
          Agrees (commitLine d i gen snapVal (bit level)) (Function.update p i q) := by
      intro q ho hv j
      by_cases hj : j = i
      · subst hj
        simpa [commitLine] using ⟨ho, hv⟩
      · simpa [commitLine, hj] using hp j
    rw [hout, hval] at hc
    rw [hout, hval] at hline
    cases ho : (p i).output with
    | true =>
      rw [ho] at hc hline
      have hch : changed = false := hc
      subst hch
      have := hline (p i) ho.symm rfl
      rwa [Function.update_eq_self] at this
    | false =>
      rw [ho] at hc hline
      by_cases hl : level = (p i).level
      · subst hl
        have hch : changed = false := by
          rw [hc]
          simp
        subst hch
        have := hline (p i) ho.symm rfl
        rwa [Function.update_eq_self] at this
      · have hne : bit level ≠ bit (p i).level := fun he => hl (bit_injective he)
        have hch : changed = true := by
          rw [hc]
          simp [hne]
        subst hch
        refine hline (p i).toggle ?_ ?_
        · simp [Pin.toggle, ho]
        · have hnot : level = !(p i).level := Bool.eq_not_of_ne hl
          simp [Pin.toggle, ho, hnot]

theorem see_returned (o : List Obs) (k : ℕ) (r : Except Errno ℕ) (p : Pins) :
    (o ++ [Obs.returned k r]).foldl Pins.see p = o.foldl Pins.see p := by
  rw [List.foldl_append]
  rfl

theorem InjectStep.pins {k : ℕ} (h : InjectStep b d k b' d' o) (hd : d.Bits) (hp : Agrees d p) :
    Agrees d' (o.foldl Pins.see p) := by
  cases h with
  | apply hk ha => exact (ha.pins (hd.inject k _ hk) hp).congr (fun _ => ⟨rfl, rfl⟩)
  | applied hk ha =>
    rw [see_returned]
    exact (ha.pins (hd.inject k _ hk) hp).congr (fun _ => ⟨rfl, rfl⟩)
  | @snapshot count ℓ val b' hk he =>
    have hset : Agrees (takeSnapshot d ℓ val) p := hp.keepLine rfl rfl
    exact hset.congr (fun _ => ⟨rfl, rfl⟩)
  | @arm count ℓ delayNs hk =>
    have hset : Agrees (d.setLine ℓ { d.lines ℓ with delayTimer := some delayNs }) p := hp.keepLine rfl rfl
    exact hset.congr (fun _ => ⟨rfl, rfl⟩)
  | busUp | busDown | disabled | drop | draw | draw2 => exact hp.congr (fun _ => ⟨rfl, rfl⟩)

theorem WorkStep.pins (h : WorkStep b d i b' d' o) (hd : d.Bits) (hp : Agrees d p) :
    Agrees d' (o.foldl Pins.see p) := by
  cases h with
  | apply ha => exact (ha.pins (hd.line i).work hp).keepLine rfl rfl

theorem DevStep.pins (h : DevStep d a d' o) (hp : Agrees d p) : Agrees d' (o.foldl Pins.see (p.call a)) := by
  cases h with
  | refused ha =>
    cases a with
    | attrStore | resetStore | notify => exact hp
    | _ => cases ha
  | rejected | parsed => exact hp.congr (fun _ => ⟨rfl, rfl⟩)
  | timerExpire | workStart => exact hp.keepLine rfl rfl
  | @directionInput i => exact hp.setLine rfl (hp i).2
  | directionOutput => exact hp.setLine rfl (by simp [bit])
  | @set i value => exact hp.setLine (hp.setValue i _).1 (hp.setValue i _).2
  | @setMultiple mask bits =>
    intro i
    simp only [Pins.call, List.foldl_nil]
    split
    · exact hp.setValue i _
    · exact hp i
  | attrStore | resetStore | reset => exact hp.congr (fun _ => ⟨rfl, rfl⟩)
  | @cancelTimer ℓ =>
    have hset : Agrees (d.setLine ℓ { d.lines ℓ with delayTimer := none }) p := hp.keepLine rfl rfl
    exact hset.congr (fun _ => ⟨rfl, rfl⟩)
  | @cancelWork ℓ =>
    have hset : Agrees (d.setLine ℓ { d.lines ℓ with workQueued := false }) p := hp.keepLine rfl rfl
    exact hset.congr (fun _ => ⟨rfl, rfl⟩)
  | critical => exact hp.congr (fun _ => ⟨rfl, rfl⟩)

theorem machine_pins {s t : Sys} (hs : s.dev.Bits) (hp : Agrees s.dev p) (h : machine s a = some (t, o)) :
    Agrees t.dev (o.foldl Pins.see (p.call a)) := by
  obtain ⟨k, hiFirst, rfl, hi⟩ | ⟨ℓ, rfl, hw⟩ | ⟨b, rfl, -, hd, rfl⟩ | ⟨-, hd⟩ := machine_cases h
  · exact hi.pins hs hp
  · exact hw.pins hs hp
  · rw [hd]
    exact hp
  · exact hd.pins hp

end Shadow

/-- Whatever is injected, delayed, dropped or reset, the AUT reads eight pins: an output keeps the level it was last
driven to, and an input toggles with the commits that change it. -/
theorem chip_shadow {os : List Obs} {s : Sys × Pins} (h : Run (observed machine shadow) Always (start, .init) os s) :
    (∀ i, getDirection s.1.dev i = if (s.2 i).output then LINE_DIRECTION_OUT else LINE_DIRECTION_IN) ∧
    (∀ i, get s.1.dev i = if (s.2 i).level then 1 else 0) ∧
    ∀ mask j, (getMultiple s.1.dev mask).testBit j = true ↔
      ∃ i : Fin LINES, i.val = j ∧ mask.testBit i = true ∧ (s.2 i).level = true := by
  have hok : s.1.dev.Bits ∧ Agrees s.1.dev s.2 := by
    apply h.invariant (fun x => x.1.dev.Bits ∧ Agrees x.1.dev x.2)
    · refine ⟨⟨fun _ => ⟨.inl rfl, .inl rfl, trivial⟩, ?_⟩, fun _ => ⟨rfl, rfl⟩⟩
      rintro k inj ⟨⟩
    · rintro x a y e ⟨hb, hp⟩ _ hm
      obtain ⟨o, ho, hnote, -⟩ := observed_eq_some hm
      refine ⟨machine_bits hb ho, ?_⟩
      rw [hnote]
      exact machine_pins hb hp ho
  obtain ⟨-, hp⟩ := hok
  refine ⟨fun i => ?_, fun i => (hp i).2, fun mask j => ?_⟩
  · rw [getDirection, (hp i).1]
  · rw [testBit_getMultiple]
    have hlevel (i : Fin LINES) : get s.1.dev i ≠ 0 ↔ (s.2 i).level = true := by
      rw [get, (hp i).2]
      cases (s.2 i).level <;> decide
    simp only [hlevel]

theorem chip_shadow_two_lines : ∃ os s, Run (observed machine shadow) Always (start, .init) os s ∧
    (getMultiple s.1.dev 255).testBit 0 = true ∧ (getMultiple s.1.dev 255).testBit 1 = true ∧
    (s.2 0).output = true ∧ getDirection s.1.dev 0 = LINE_DIRECTION_OUT ∧ get s.1.dev 0 = 1 := by
  obtain ⟨os, s, hrun, ho, hl, hl'⟩ := Run.exists_of_exec (M := observed machine shadow) (P := Always)
    (s := (start, .init))
    ([.directionOutput 0 1, .injectStore [48, 58, 48], .inject 0 true, .inject 0 true, .inject 0 true, .inject 0 true,
      .injectStore [49, 58, 49], .inject 1 true, .inject 1 true, .inject 1 true, .inject 1 true, .setMultiple 3 3])
    (fun _ s => (s.2 0).output = true ∧ (s.2 0).level = true ∧ (s.2 1).level = true) (by decide +kernel)
  obtain ⟨hdir, hget, hmul⟩ := chip_shadow hrun
  refine ⟨os, s, hrun, (hmul 255 0).mpr ⟨0, rfl, by decide, hl⟩, (hmul 255 1).mpr ⟨1, rfl, by decide, hl'⟩, ho, ?_, ?_⟩
  · rw [hdir, if_pos ho]
  · rw [hget, if_pos hl]

end VirtRtLab.Gpio
