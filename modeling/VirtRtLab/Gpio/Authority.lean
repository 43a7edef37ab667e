import VirtRtLab.Gpio.Reset

namespace VirtRtLab.Gpio

open Kernel VirtRtLab.Core Transition Generation

def Bit (v : UInt8) : Prop := v = 0 ∨ v = 1

def ApplyPc.Bits : ApplyPc → Prop
  | .flip _ snapVal _ => Bit snapVal
  | .commit _ snapVal newVal => Bit snapVal ∧ Bit newVal
  | _ => True

def InjectPc.Bits : InjectPc → Prop
  | .parsed _ val | .gated _ val => Bit val
  | .apply _ pc => pc.Bits
  | _ => True

structure Line.Bits (line : Line) : Prop where
  value : Bit line.value
  snap : Bit line.snapValue
  work : line.work.Bits

abbrev Dev.Bits (d : Dev) : Prop := d.Each Line.Bits InjectPc.Bits

def Act.drives (ℓ : Fin LINES) : Act → Bool
  | .directionOutput ℓ' _ | .set ℓ' _ => ℓ' = ℓ
  | .setMultiple mask _ => mask.testBit ℓ
  | _ => false

def clears (a : Act) (o : List Obs) : Bool :=
  match a with
  | .resetStore buf => kstrtou32 buf 0 = .ok 0
  | _ => .reset ∈ o

def changedByCommit (s t : Sys) (o : List Obs) : Bool :=
  (List.finRange LINES).any (fun ℓ => !(s.dev.lines ℓ).isOutput && (t.dev.lines ℓ).value != (s.dev.lines ℓ).value &&
    o.any (fun x => x.commitLine == some ℓ))

def counting : Observer Sys Act Obs ℕ Obs where
  next n s a r := if clears a r.2 then 0 else if changedByCommit s r.1 r.2 then n + 1 else n
  shows _ _ _ r := r.2

section

variable {b b' : Bus} {d d' : Dev} {ℓ : Fin LINES} {a : Act} {o : List Obs}

theorem Bit.xor {v : UInt8} (h : Bit v) : Bit (v ^^^ 1) := by
  rcases h with rfl | rfl
  · exact .inr rfl
  · exact .inl rfl

theorem bit_ite {p : Prop} [Decidable p] : Bit (if p then 1 else 0) := by
  split
  · exact .inr rfl
  · exact .inl rfl

theorem parseInject_bit {buf : Bytes} {val : UInt8} (h : parseInject buf = .ok (ℓ, val)) : Bit val := by
  unfold parseInject at h
  dsimp only at h
  generalize (if buf.getLast? = some 10 then buf.length - 1 else buf.length) = len at h
  split at h
  · cases h
  · rename_i sep _
    generalize (buf.take len)[sep + 1]? = c at h
    split at h
    · cases h
    · split at h
      · cases h
      · split at h
        · cases h
        · rename_i hc
          have hbit : Bit (c.getD 0 - 48) := by
            by_cases h48 : c = some 48
            · rw [h48]
              exact .inl rfl
            · have h49 : c = some 49 := by
                by_contra hne
                exact hc ⟨h48, hne⟩
              rw [h49]
              exact .inr rfl
          repeat' split at h
          all_goals cases h
          exact hbit

theorem ApplyStep.bits {pc pc' : ApplyPc} (h : ApplyStep b d ℓ pc b' d' pc' o) (hd : d.Bits) (hpc : pc.Bits) :
    d'.Bits ∧ pc'.Bits := by
  have hline := hd.line ℓ
  cases h with
  | stale | giveUp => exact ⟨hd, trivial⟩
  | plain => exact ⟨hd, hline.snap, hline.snap⟩
  | gate => exact ⟨hd, hline.snap⟩
  | flip hn =>
    refine ⟨hd, hpc, ?_⟩
    rw [hn]
    split
    · exact Bit.xor hpc
    · exact hpc
  | @commit gen snapVal newVal flipped changed hs hf hc =>
    have hset : (d.setLine ℓ { d.lines ℓ with
        applyGen := gen, value := if (d.lines ℓ).isOutput then (d.lines ℓ).value else newVal }).Bits := by
      refine hd.setLine ⟨?_, hline.snap, hline.work⟩
      dsimp only
      split
      · exact hline.value
      · exact hpc.2
    exact ⟨⟨hset.line, hset.inject⟩, trivial⟩

theorem dispatch_bits (ℓ : Fin LINES) (latencyNs jitterNs : UInt64) : (dispatch ℓ latencyNs jitterNs).Bits := by
  unfold dispatch
  repeat' split
  all_goals trivial

theorem InjectStep.bits {k : ℕ} (h : InjectStep b d k b' d' o) (hd : d.Bits) : d'.Bits := by
  cases h with
  | @busUp count ℓ val hk =>
    have hval : Bit val := hd.inject k _ hk
    refine hd.setInject hk ?_
    rintro _ ⟨⟩
    exact hval
  | busDown hk | disabled hk => exact hd.setInject hk (by simp)
  | drop hk he =>
    have hd' : ({ d with statDrops := d.statDrops + 1 } : Dev).Bits := ⟨hd.line, hd.inject⟩
    exact hd'.setInject hk (by simp)
  | @snapshot count ℓ val b' hk he =>
    have hval : Bit val := hd.inject k _ hk
    have hsnap : (takeSnapshot d ℓ val).Bits := hd.setLine ⟨(hd.line ℓ).value, hval, (hd.line ℓ).work⟩
    refine hsnap.setInject hk ?_
    rintro _ ⟨⟩
    exact dispatch_bits ℓ _ _
  | apply hk ha hpc =>
    obtain ⟨hd', hpc'⟩ := ha.bits hd (hd.inject k _ hk)
    rw [← ha.frame.inject?] at hk
    refine hd'.setInject hk ?_
    rintro _ ⟨⟩
    exact hpc'
  | applied hk ha =>
    obtain ⟨hd', -⟩ := ha.bits hd (hd.inject k _ hk)
    rw [← ha.frame.inject?] at hk
    exact hd'.setInject hk (by simp)
  | draw hk | draw2 hk =>
    refine hd.setInject hk ?_
    rintro _ ⟨⟩
    trivial
  | @arm count ℓ delayNs hk =>
    have hset : (d.setLine ℓ { d.lines ℓ with delayTimer := some delayNs }).Bits :=
      hd.setLine ⟨(hd.line ℓ).value, (hd.line ℓ).snap, (hd.line ℓ).work⟩
    exact hset.setInject hk (by simp)

theorem WorkStep.bits (h : WorkStep b d ℓ b' d' o) (hd : d.Bits) : d'.Bits := by
  cases h with
  | apply ha =>
    obtain ⟨he, hpc⟩ := ha.bits hd (hd.line ℓ).work
    exact he.setLine ⟨(he.line ℓ).value, (he.line ℓ).snap, hpc⟩

theorem setValue_bits {line : Line} (value : Bool) (h : line.Bits) : (setValue line value).Bits := by
  unfold setValue
  split
  · exact ⟨bit_ite, h.snap, h.work⟩
  · exact h

theorem DevStep.bits (h : DevStep d a d' o) (hd : d.Bits) : d'.Bits := by
  cases h with
  | refused => exact hd
  | rejected => exact hd.call (by simp)
  | parsed hp =>
    refine hd.call ?_
    rintro _ ⟨⟩
    exact parseInject_bit hp
  | @timerExpire ℓ | @directionInput ℓ => exact hd.setLine ⟨(hd.line ℓ).value, (hd.line ℓ).snap, (hd.line ℓ).work⟩
  | @workStart ℓ => exact hd.setLine ⟨(hd.line ℓ).value, (hd.line ℓ).snap, trivial⟩
  | @directionOutput ℓ => exact hd.setLine ⟨bit_ite, (hd.line ℓ).snap, (hd.line ℓ).work⟩
  | @set ℓ value => exact hd.setLine (setValue_bits _ (hd.line ℓ))
  | setMultiple =>
    refine ⟨fun ℓ => ?_, hd.inject⟩
    dsimp only
    split
    · exact setValue_bits _ (hd.line ℓ)
    · exact hd.line ℓ
  | attrStore | resetStore | reset => exact ⟨hd.line, hd.inject⟩
  | @cancelTimer ℓ =>
    have hset : (d.setLine ℓ { d.lines ℓ with delayTimer := none }).Bits :=
      hd.setLine ⟨(hd.line ℓ).value, (hd.line ℓ).snap, (hd.line ℓ).work⟩
    exact ⟨hset.line, hset.inject⟩
  | @cancelWork ℓ =>
    have hset : (d.setLine ℓ { d.lines ℓ with workQueued := false }).Bits :=
      hd.setLine ⟨(hd.line ℓ).value, (hd.line ℓ).snap, (hd.line ℓ).work⟩
    exact ⟨hset.line, hset.inject⟩
  | critical => exact ⟨fun ℓ => ⟨(hd.line ℓ).value, (hd.line ℓ).snap, (hd.line ℓ).work⟩, hd.inject⟩

theorem machine_bits {s t : Sys} (hs : s.dev.Bits) (h : machine s a = some (t, o)) : t.dev.Bits := by
  obtain ⟨k, hiFirst, -, hi⟩ | ⟨ℓ, -, hw⟩ | ⟨b, -, -, hd, -⟩ | ⟨-, hd⟩ := machine_cases h
  · exact hi.bits hs
  · exact hw.bits hs
  · rw [hd]
    exact hs
  · exact hd.bits hs

def changes (d : Dev) (ℓ : Fin LINES) (newVal : UInt8) : Bool :=
  !(d.lines ℓ).isOutput && decide (newVal ≠ (d.lines ℓ).value)

inductive ValueStep (d : Dev) (a : Act) (o : List Obs) (d' : Dev) : Prop
  | commit {ℓ gen flipped newVal} (ho : .commit ℓ gen flipped (changes d ℓ newVal) ∈ o)
      (hx : ∀ x ∈ o, ∀ ℓ', x.commitLine = some ℓ' → ℓ' = ℓ) (hc : clears a o = false)
      (hd : ∀ ℓ', (d'.lines ℓ').isOutput = (d.lines ℓ').isOutput)
      (hv : ∀ ℓ', (d'.lines ℓ').value = if ℓ' = ℓ ∧ changes d ℓ newVal then newVal else (d.lines ℓ').value)
      (hn : d'.statValueChanges = if changes d ℓ newVal then d.statValueChanges + 1 else d.statValueChanges)
  | other (hx : ∀ x ∈ o, x.commitLine = none)
      (hv : ∀ ℓ, (d'.lines ℓ).value ≠ (d.lines ℓ).value → a.drives ℓ = true ∧ (d'.lines ℓ).isOutput = true)
      (hn : d'.statValueChanges = if clears a o then 0 else d.statValueChanges)

theorem ValueStep.same (hx : ∀ x ∈ o, x.commitLine = none) (hv : ∀ ℓ, (d'.lines ℓ).value = (d.lines ℓ).value)
    (hn : d'.statValueChanges = if clears a o then 0 else d.statValueChanges) : ValueStep d a o d' :=
  .other hx (fun ℓ hne => absurd (hv ℓ) hne) hn

theorem clears_eq_false (hr : .reset ∉ o) (ha : ∀ buf, a ≠ .resetStore buf) : clears a o = false := by
  unfold clears
  split
  · exact absurd rfl (ha _)
  · simpa using hr

theorem ApplyStep.value {pc pc' : ApplyPc} (h : ApplyStep b d ℓ pc b' d' pc' o) (ha : ∀ buf, a ≠ .resetStore buf) :
    ValueStep d a o d' := by
  cases h with
  | @commit gen snapVal newVal flipped changed hs hf hc =>
    subst hc
    have ho : .commit ℓ gen flipped (changes d ℓ newVal) ∈ [Obs.commit ℓ gen flipped (changes d ℓ newVal)] :=
      List.mem_singleton_self _
    refine .commit ho ?_ (clears_eq_false (by simp) ha) ?_ ?_ ?_
    · simp [Obs.commitLine]
    · intro ℓ'
      by_cases hl : ℓ' = ℓ
      · subst hl
        simp [commitLine]
      · simp [commitLine, hl]
    · intro ℓ'
      by_cases hl : ℓ' = ℓ
      · subst hl
        cases ho : (d.lines ℓ').isOutput with
        | true => simp [commitLine, changes, ho]
        | false =>
          by_cases hv : newVal = (d.lines ℓ').value <;> simp [commitLine, changes, ho, hv]
      · simp [commitLine, hl]
    · simp [commitLine, changes]
  | stale | plain | gate | flip | giveUp =>
    refine .same (by simp [Obs.commitLine]) (fun _ => rfl) ?_
    rw [clears_eq_false (by simp) ha]
    rfl

theorem ValueStep.congr {e : Dev} (h : ValueStep d a o d') (hl : ∀ ℓ, (e.lines ℓ).value = (d'.lines ℓ).value ∧
    (e.lines ℓ).isOutput = (d'.lines ℓ).isOutput) (hn : e.statValueChanges = d'.statValueChanges) :
    ValueStep d a o e := by
  cases h with
  | commit ho hx hc hd hv hs =>
    exact .commit ho hx hc (fun ℓ' => (hl ℓ').2.trans (hd ℓ')) (fun ℓ' => (hl ℓ').1.trans (hv ℓ')) (hn.trans hs)
  | other hx hv hs =>
    refine .other hx (fun ℓ hne => ?_) (hn.trans hs)
    rw [(hl ℓ).1] at hne
    rw [(hl ℓ).2]
    exact hv ℓ hne

theorem clears_returned (a : Act) (o : List Obs) (k : ℕ) (r : Except Errno ℕ) :
    clears a (o ++ [.returned k r]) = clears a o := by
  unfold clears
  split <;> simp

theorem ValueStep.returned {k : ℕ} {r : Except Errno ℕ} (h : ValueStep d a o d') :
    ValueStep d a (o ++ [.returned k r]) d' := by
  cases h with
  | commit ho hx hc hd hv hs =>
    refine .commit (List.mem_append_left _ ho) (fun x hm => ?_) ((clears_returned ..).trans hc) hd hv hs
    rcases List.mem_append.mp hm with hm | hm
    · exact hx x hm
    · rw [List.mem_singleton.mp hm]
      exact fun _ he => nomatch he
  | other hx hv hs =>
    refine .other (fun x hm => ?_) hv (by rwa [clears_returned])
    rcases List.mem_append.mp hm with hm | hm
    · exact hx x hm
    · rw [List.mem_singleton.mp hm]
      rfl

theorem InjectStep.value {k : ℕ} (h : InjectStep b d k b' d' o) (ha : ∀ buf, a ≠ .resetStore buf) :
    ValueStep d a o d' := by
  cases h with
  | apply hk hstep hpc => exact (hstep.value ha).congr (fun _ => ⟨rfl, rfl⟩) rfl
  | applied hk hstep => exact (hstep.value ha).returned.congr (fun _ => ⟨rfl, rfl⟩) rfl
  | @snapshot count ℓ val b' hk he =>
    refine .same (by simp [Obs.commitLine]) (fun ℓ' => ?_) ?_
    · by_cases hl : ℓ' = ℓ
      · subst hl
        simp [takeSnapshot]
      · simp [takeSnapshot, hl]
    · rw [clears_eq_false (by simp) ha]
      rfl
  | @arm count ℓ delayNs hk =>
    refine .same (by simp [Obs.commitLine]) (fun ℓ' => ?_) ?_
    · by_cases hl : ℓ' = ℓ
      · subst hl
        simp
      · simp [hl]
    · rw [clears_eq_false (by simp) ha]
      rfl
  | busUp | busDown | disabled | drop | draw | draw2 =>
    refine .same (by simp [Obs.commitLine]) (fun _ => rfl) ?_
    rw [clears_eq_false (by simp) ha]
    rfl

theorem WorkStep.value (h : WorkStep b d ℓ b' d' o) (ha : ∀ buf, a ≠ .resetStore buf) : ValueStep d a o d' := by
  cases h with
  | apply hstep =>
    refine (hstep.value ha).congr (fun ℓ' => ?_) rfl
    by_cases hl : ℓ' = ℓ
    · subst hl
      simp
    · simp [hl]

theorem setLine_value {line : Line} (hl : line.value = (d.lines ℓ).value) (ℓ' : Fin LINES) :
    ((d.setLine ℓ line).lines ℓ').value = (d.lines ℓ').value := by
  by_cases he : ℓ' = ℓ
  · subst he
    simpa using hl
  · simp [he]

theorem setValue_drives {line : Line} {value : Bool} (h : (setValue line value).value ≠ line.value) :
    (setValue line value).isOutput = true := by
  cases ho : line.isOutput with
  | true => simp [setValue, ho]
  | false => simp [setValue, ho] at h

theorem DevStep.value (h : DevStep d a d' o) (ha : ∀ buf, a ≠ .resetStore buf) : ValueStep d a o d' := by
  have hclears (hr : .reset ∉ o) : clears a o = false := clears_eq_false hr ha
  cases h with
  | resetStore => exact absurd rfl (ha _)
  | critical => exact .same (by simp [Obs.commitLine]) (fun _ => rfl) rfl
  | refused | rejected | parsed | attrStore | reset =>
    refine .same (by simp [Obs.commitLine]) (fun _ => rfl) ?_
    rw [hclears (by simp)]
    rfl
  | timerExpire | workStart | directionInput | cancelTimer | cancelWork =>
    refine .same (by simp) (fun ℓ' => ?_) rfl
    apply setLine_value
    rfl
  | @directionOutput ℓ value =>
    refine .other (by simp) (fun ℓ' hne => ?_) rfl
    by_cases hl : ℓ' = ℓ
    · subst hl
      simp [Act.drives]
    · simp [hl] at hne
  | @set ℓ value =>
    refine .other (by simp) (fun ℓ' hne => ?_) rfl
    by_cases hl : ℓ' = ℓ
    · subst hl
      simp only [setLine_lines, Function.update_self] at hne ⊢
      exact ⟨by simp [Act.drives], setValue_drives hne⟩
    · simp [hl] at hne
  | @setMultiple mask bits =>
    refine .other (by simp) (fun ℓ' hne => ?_) rfl
    dsimp only at hne ⊢
    split at hne
    · rename_i hm
      rw [if_pos hm]
      exact ⟨hm, setValue_drives hne⟩
    · exact absurd rfl hne

theorem machine_value {s t : Sys} (h : machine s a = some (t, o)) : ValueStep s.dev a o t.dev := by
  by_cases ha : ∃ buf, a = .resetStore buf
  · obtain ⟨buf, rfl⟩ := ha
    simp only [machine, stepDev] at h
    split at h <;> cases h
    · rename_i hz
      exact .same (by simp) (fun _ => rfl) (by simp [clears, hz])
    · rename_i hz
      have hc : clears (.resetStore buf) [] = false := by simpa [clears] using hz
      refine .same (by simp) (fun _ => rfl) ?_
      rw [hc]
      rfl
  · have ha' : ∀ buf, a ≠ .resetStore buf := fun buf he => ha ⟨buf, he⟩
    obtain ⟨k, hiFirst, -, hi⟩ | ⟨ℓ, -, hw⟩ | ⟨b, -, -, hd, rfl⟩ | ⟨-, hd⟩ := machine_cases h
    · exact hi.value ha'
    · exact hw.value ha'
    · rw [hd]
      exact .same (by simp) (fun _ => rfl) (by rw [clears_eq_false (by simp) ha']; rfl)
    · exact hd.value ha'

theorem changedByCommit_iff {s t : Sys} : changedByCommit s t o = true ↔
    ∃ ℓ, (s.dev.lines ℓ).isOutput = false ∧ (t.dev.lines ℓ).value ≠ (s.dev.lines ℓ).value ∧
      ∃ x ∈ o, x.commitLine = some ℓ := by
  simp [changedByCommit, and_assoc]

theorem ValueStep.changed {s t : Sys} (h : ValueStep s.dev a o t.dev) : t.dev.statValueChanges =
    if clears a o then 0
    else if changedByCommit s t o then s.dev.statValueChanges + 1 else s.dev.statValueChanges := by
  cases h with
  | @commit ℓ gen flipped newVal ho hx hc hd hv hn =>
    have hiff : changedByCommit s t o = changes s.dev ℓ newVal := by
      rw [Bool.eq_iff_iff, changedByCommit_iff]
      constructor
      · rintro ⟨ℓ', -, hne, x, hm, hl⟩
        rw [hv ℓ'] at hne
        by_contra hch
        simp [hch] at hne
      · intro hch
        have hch' := hch
        simp only [changes, Bool.and_eq_true, Bool.not_eq_true', decide_eq_true_eq] at hch'
        refine ⟨ℓ, hch'.1, ?_, _, ho, rfl⟩
        rw [hv ℓ]
        simpa [hch] using hch'.2
    rw [hc, hiff, hn]
    rfl
  | other hx hv hn =>
    have hnot : changedByCommit s t o = false := by
      rw [← Bool.not_eq_true, changedByCommit_iff]
      rintro ⟨ℓ, -, -, x, hm, hl⟩
      rw [hx x hm] at hl
      cases hl
    rw [hn, hnot]
    rfl

end

theorem known_run {os : List Obs} {s : Sys} (h : Run machine Always start os s) (ℓ : Fin LINES) :
    Known view (takes (events ℓ os)) (cell s.dev ℓ) := by
  apply h.history (fun os s => Known view (takes (events ℓ os)) (cell s.dev ℓ))
  · apply known_initial
    · intro w
      cases w <;> rfl
    · rfl
  · intro os t a u o hi _ hm
    rw [events_append, takes_append]
    rcases machine_cell hm ℓ with ⟨hc, he⟩ | hstep
    · rw [hc, he]
      simpa [takes] using hi
    · exact (hi.step hstep).1

theorem snapshot_of_take {ℓ : Fin LINES} {os : List Obs} {gen : ℕ} (h : gen ∈ takes (events ℓ os)) :
    ∃ val, .snapshot ℓ gen val ∈ os := by
  obtain ⟨x, hx, he⟩ := mem_events (mem_takes.mp h)
  obtain ⟨val, rfl⟩ := event_taken he
  exact ⟨val, hx⟩

theorem commit_of_inject {os o : List Obs} {s t : Sys} {a : Act} {ℓ : Fin LINES} {gen : ℕ} {flipped changed : Bool}
    (h : Run machine Always start os s) (hm : machine s a = some (t, o)) (ho : .commit ℓ gen flipped changed ∈ o) :
    ∃ val, .snapshot ℓ gen val ∈ os := by
  have hev : .committed gen ∈ events ℓ o := List.mem_filterMap.mpr ⟨_, ho, by simp [Obs.event]⟩
  rcases machine_cell hm ℓ with ⟨-, he⟩ | hstep
  · rw [he] at hev
    simp at hev
  · exact snapshot_of_take (((known_run h ℓ).step hstep).2 gen hev)

structure Authority (os : List Obs) (s : Sys) (n : ℕ) : Prop where
  bit : ∀ ℓ, (s.dev.lines ℓ).value = 0 ∨ (s.dev.lines ℓ).value = 1
  count : s.dev.statValueChanges = UInt64.ofNat n
  input : ∀ a t o ℓ, machine s a = some (t, o) → (t.dev.lines ℓ).value ≠ (s.dev.lines ℓ).value →
    (s.dev.lines ℓ).isOutput = false → (t.dev.lines ℓ).isOutput = false →
    ∃ gen flipped val, .commit ℓ gen flipped true ∈ o ∧ .snapshot ℓ gen val ∈ os
  other : ∀ a t o ℓ, machine s a = some (t, o) → (t.dev.lines ℓ).value ≠ (s.dev.lines ℓ).value →
    ((s.dev.lines ℓ).isOutput = true ∨ (t.dev.lines ℓ).isOutput = true) →
    a.drives ℓ = true ∧ (t.dev.lines ℓ).isOutput = true
  output : ∀ a t o ℓ gen flipped changed, machine s a = some (t, o) → .commit ℓ gen flipped changed ∈ o →
    (s.dev.lines ℓ).isOutput = true → (t.dev.lines ℓ).value = (s.dev.lines ℓ).value

theorem bits_run {os : List Obs} {s : Sys} (h : Run machine Always start os s) : s.dev.Bits := by
  apply h.invariant (fun s => s.dev.Bits)
  · exact ⟨fun _ => ⟨.inl rfl, .inl rfl, trivial⟩, fun k inj hk => by simp [start, Dev.init, Dev.inject?] at hk⟩
  · intro t a u o hi _ hm
    exact machine_bits hi hm

theorem run_of_counting {os : List Obs} {x : Sys × ℕ}
    (h : Run (observed machine counting) Always (start, 0) os x) : Run machine Always start os x.1 := by
  apply h.history (fun os x => Run machine Always start os x.1)
  · exact .refl
  · intro os x a y o hi _ hm
    obtain ⟨o', hm', -, rfl⟩ := observed_eq_some hm
    exact .step hi trivial hm'

theorem count_run {os : List Obs} {x : Sys × ℕ} (h : Run (observed machine counting) Always (start, 0) os x) :
    x.1.dev.statValueChanges = UInt64.ofNat x.2 := by
  apply h.invariant (fun x => x.1.dev.statValueChanges = UInt64.ofNat x.2)
  · rfl
  · intro x a y o hi _ hm
    obtain ⟨o', hm', hn, -⟩ := observed_eq_some hm
    rw [(machine_value hm').changed, hn, hi]
    unfold counting
    dsimp only
    split
    · rfl
    · split
      · rw [UInt64.ofNat_add]
        rfl
      · rfl

theorem authority_of_line {os : List Obs} {x : Sys × ℕ}
    (h : Run (observed machine counting) Always (start, 0) os x) : Authority os x.1 x.2 := by
  have hrun := run_of_counting h
  constructor
  · intro ℓ
    exact ((bits_run hrun).line ℓ).value
  · exact count_run h
  · intro a t o ℓ hm hne hs ht
    cases machine_value hm with
    | @commit ℓ' gen flipped newVal ho hx hc hd hv hn =>
      rw [hv ℓ] at hne
      obtain ⟨⟨rfl, hch⟩, -⟩ := ite_ne_right_iff.mp hne
      rw [hch] at ho
      obtain ⟨val, hval⟩ := commit_of_inject hrun hm ho
      exact ⟨gen, flipped, val, ho, hval⟩
    | other hx hv hn =>
      have hout := (hv ℓ hne).2
      rw [ht] at hout
      cases hout
  · intro a t o ℓ hm hne hout
    cases machine_value hm with
    | @commit ℓ' gen flipped newVal ho hx hc hd hv hn =>
      rw [hv ℓ] at hne
      obtain ⟨⟨rfl, hch⟩, -⟩ := ite_ne_right_iff.mp hne
      rw [hd ℓ, or_self] at hout
      simp [changes, hout] at hch
    | other hx hv hn => exact hv ℓ hne
  · intro a t o ℓ gen flipped changed hm ho hout
    cases machine_value hm with
    | @commit ℓ' gen' flipped' newVal ho' hx hc hd hv hn =>
      have hl : ℓ = ℓ' := hx _ ho ℓ rfl
      subst hl
      rw [hv ℓ]
      simp [changes, hout]
    | other hx hv hn =>
      have := hx _ ho
      cases this

theorem authority_of_line_direction_change : ∃ os x, Run (observed machine counting) Always (start, 0) os x ∧
    commits (events 0 os) = [1, 2] ∧ x.2 = 1 ∧ Authority os x.1 x.2 := by
  obtain ⟨os, x, hrun, hc, hn⟩ := Run.exists_of_exec (M := observed machine counting) (P := Always) (s := (start, 0))
    ([.attrStore .latencyNs [53], .injectStore injectHigh, .inject 0 true, .inject 0 true, .inject 0 true,
      .directionOutput 0 0, .timerExpire 0, .workStart 0, .work 0, .work 0, .directionInput 0,
      .injectStore injectHigh, .inject 1 true, .inject 1 true, .inject 1 true, .timerExpire 0, .workStart 0, .work 0,
      .work 0])
    (fun os x => commits (events 0 os) = [1, 2] ∧ x.2 = 1) (by decide +kernel)
  exact ⟨os, x, hrun, hc, hn, authority_of_line hrun⟩

end VirtRtLab.Gpio
