import VirtRtLab.Core.AttrText
import VirtRtLab.Uart.Steps

namespace VirtRtLab.Uart

open Kernel VirtRtLab.Core Transition

inductive Config where
  | fault (attr : Attr)
  | bufSz (side : BufSide)
  deriving DecidableEq

def Config.Range : Config → ℕ → Prop
  | .fault attr, v => v ≤ attr.limit
  | .bufSz _, v => v.isPowerOfTwo ∧ 64 ≤ v ∧ v ≤ 65536

def Dev.bufSz (d : Dev) : BufSide → UInt32
  | .tx => d.txBufSz
  | .rx => d.rxBufSz

def Dev.setBufSz (d : Dev) (val : UInt32) : BufSide → Dev
  | .tx => { d with txBufSz := val }
  | .rx => { d with rxBufSz := val }

def Dev.get (d : Dev) : Config → ℕ
  | .fault attr => d.attrs.get attr
  | .bufSz side => (d.bufSz side).toNat

def Dev.set (d : Dev) (c : Config) (v : ℕ) : Dev :=
  match c with
  | .fault attr => { d with attrs := d.attrs.set attr v }
  | .bufSz side => d.setBufSz (UInt32.ofNat v) side

def Dev.attrShow (d : Dev) : Config → Bytes
  | .fault attr => d.attrs.attrShow attr
  | .bufSz side => emitUnsigned (d.bufSz side).toNat

def Dev.busy (d : Dev) : Config → Bool
  | .fault _ => false
  | .bufSz _ => d.wireOpenCount ≠ 0 || d.portActive

def Dev.store (d : Dev) (c : Config) (buf : Bytes) : Except Errno Dev :=
  match c with
  | .fault attr => (d.attrs.store MAX_FAULT_NS MAX_PPM attr buf).map (fun attrs => { d with attrs })
  | .bufSz side =>
    match kstrtou32 buf 0 with
    | .error e => .error e
    | .ok val =>
      if !bufSzValid val then .error .einval
      else if d.wireOpenCount ≠ 0 || d.portActive then .error .ebusy
      else .ok (d.setBufSz val side)

def Dev.storeActs (d : Dev) (c : Config) (buf : Bytes) : List Act :=
  match c with
  | .fault attr => [.attrStore attr buf]
  | .bufSz side =>
    match d.store (.bufSz side) buf with
    | .error _ => [.bufSzStore side buf]
    | .ok _ => [.bufSzStore side buf, .bufSzCommit d.sizers.length]

theorem bufSzValid_iff {val : UInt32} {side : BufSide} :
    bufSzValid val = true ↔ (Config.bufSz side).Range val.toNat := by
  have hmin : val ≥ BUF_SZ_MIN ↔ 64 ≤ val.toNat := UInt32.le_iff_toNat_le
  have hmax : val ≤ BUF_SZ_MAX ↔ val.toNat ≤ 65536 := UInt32.le_iff_toNat_le
  have hpow (h64 : 64 ≤ val.toNat) : val &&& (val - 1) = 0 ↔ val.toNat.isPowerOfTwo := by
    have hone : (1 : UInt32) ≤ val := UInt32.le_iff_toNat_le.mpr (by simpa using (by omega : 1 ≤ val.toNat))
    rw [← UInt32.toNat_inj, UInt32.toNat_and, UInt32.toNat_sub_of_le _ _ hone]
    exact Nat.and_sub_one_eq_zero_iff_isPowerOfTwo (by omega)
  simp only [bufSzValid, Bool.and_eq_true, decide_eq_true_eq, beq_iff_eq, hmin, hmax]
  constructor
  · rintro ⟨⟨h64, hle⟩, hz⟩
    exact ⟨(hpow h64).mp hz, h64, hle⟩
  · rintro ⟨hp, h64, hle⟩
    exact ⟨⟨h64, hle⟩, (hpow h64).mpr hp⟩

structure Dev.InRange (d : Dev) : Prop where
  attrs : d.attrs.InRange
  bufSz : ∀ side, (Config.bufSz side).Range (d.bufSz side).toNat
  sizers : ∀ n ∈ d.sizers, (Config.bufSz n.1).Range n.2.toNat

section

variable {b b' : Bus} {d d' : Dev} {a : Act} {o : List Obs}

theorem Dev.InRange.frame (h : d.InRange) (ha : d'.attrs = d.attrs) (hb : d'.bufSz = d.bufSz)
    (hs : d'.sizers = d.sizers) : d'.InRange := by
  constructor
  · rw [ha]
    exact h.attrs
  · rw [hb]
    exact h.bufSz
  · rw [hs]
    exact h.sizers

theorem WorkStep.inRange (h : WorkStep b d b' d' o) (hd : d.InRange) : d'.InRange := by
  cases h <;> exact hd.frame rfl rfl rfl

theorem DevStep.inRange (h : DevStep b d a d' o) (hd : d.InRange) : d'.InRange := by
  cases h with
  | attrStore hs =>
    obtain ⟨v, hv, rfl⟩ := FaultAttrs.store_ok rfl rfl hs
    exact ⟨hd.attrs.set hv, hd.bufSz, hd.sizers⟩
  | resetAttrs => exact ⟨FaultAttrs.inRange_default, hd.bufSz, hd.sizers⟩
  | @bufSzStore side buf val hs hv hc ha =>
    refine ⟨hd.attrs, hd.bufSz, fun n hn => ?_⟩
    rcases List.mem_append.mp hn with hn | hn
    · exact hd.sizers n hn
    · rw [List.mem_singleton.mp hn]
      exact bufSzValid_iff.mp hv
  | @bufSzTx k val hk =>
    refine ⟨hd.attrs, fun side => ?_, fun n hn => hd.sizers n (List.mem_of_mem_eraseIdx hn)⟩
    cases side with
    | tx => exact hd.sizers _ (List.mem_of_getElem? hk)
    | rx => exact hd.bufSz .rx
  | @bufSzRx k val hk =>
    refine ⟨hd.attrs, fun side => ?_, fun n hn => hd.sizers n (List.mem_of_mem_eraseIdx hn)⟩
    cases side with
    | tx => exact hd.bufSz .tx
    | rx => exact hd.sizers _ (List.mem_of_getElem? hk)
  | @resetStat k st | @resetZero st => cases st <;> exact hd.frame rfl rfl rfl
  | _ => exact hd.frame rfl rfl rfl

theorem machine_inRange {s t : Sys} (hs : s.dev.InRange) (h : machine s a = some (t, o)) : t.dev.InRange := by
  obtain ⟨hiFirst, -, hw⟩ | ⟨x, -, -, hd, -⟩ | ⟨-, hd⟩ := machine_cases h
  · exact hw.inRange hs
  · rw [hd]
    exact hs
  · exact hd.inRange hs

theorem inRange_init : Dev.init.InRange := by
  refine ⟨FaultAttrs.inRange_default, fun side => ?_, by simp [Dev.init]⟩
  rw [← bufSzValid_iff]
  cases side <;> decide

theorem inRange_run {s : Sys} {os : List Obs} (h : Run machine Always start os s) : s.dev.InRange :=
  h.invariant (fun s => s.dev.InRange) inRange_init (fun _ _ _ _ hi _ hm => machine_inRange hi hm)

theorem store_bufSz_ok {side : BufSide} {buf : Bytes} (h : d.store (.bufSz side) buf = .ok d') :
    ∃ val, kstrtou32 buf 0 = .ok val ∧ bufSzValid val = true ∧ d.busy (.bufSz side) = false ∧
      d' = d.setBufSz val side := by
  simp only [Dev.store] at h
  split at h
  · cases h
  · rename_i val hk
    split at h
    · cases h
    · rename_i hv
      split at h
      · cases h
      · rename_i hb
        cases h
        exact ⟨val, hk, by simpa using hv, by simpa [Dev.busy] using hb, rfl⟩

theorem exec_attrStore (s : Sys) (attr : Attr) (buf : Bytes) :
    exec machine Always s [.attrStore attr buf] = some (⟨s.bus, attrStore s.dev attr buf⟩, []) := by
  simp [exec, machine, stepDev]

theorem store_error {s : Sys} {c : Config} {buf : Bytes} {e : Errno} (h : s.dev.store c buf = .error e) :
    exec machine Always s (s.dev.storeActs c buf) = some (s, []) := by
  cases c with
  | fault attr =>
    simp only [Dev.storeActs, exec_attrStore, attrStore]
    simp only [Dev.store] at h
    cases hs : s.dev.attrs.store MAX_FAULT_NS MAX_PPM attr buf with
    | error e' => rfl
    | ok attrs =>
      rw [hs] at h
      cases h
  | bufSz side =>
    have hsame : bufSzStore s.dev side buf = s.dev := by
      simp only [Dev.store] at h
      unfold bufSzStore
      split
      · rfl
      · rename_i val hk
        rw [hk] at h
        dsimp only at h
        split
        · rfl
        · rename_i hv
          rw [if_neg hv] at h
          split
          · rfl
          · rename_i hb
            rw [if_neg hb] at h
            cases h
    simp [Dev.storeActs, h, exec, machine, stepDev, hsame]

theorem store_ok {s : Sys} {c : Config} {buf : Bytes} (h : s.dev.store c buf = .ok d') :
    (∃ v, c.Range v ∧ d' = s.dev.set c v) ∧
      exec machine Always s (s.dev.storeActs c buf) = some (⟨s.bus, d'⟩, []) := by
  cases c with
  | fault attr =>
    simp only [Dev.storeActs, exec_attrStore, attrStore]
    obtain ⟨attrs, hs, rfl⟩ := FaultAttrs.map_eq_ok h
    obtain ⟨v, hv, rfl⟩ := FaultAttrs.store_ok rfl rfl hs
    exact ⟨⟨v, hv, rfl⟩, by rw [hs]⟩
  | bufSz side =>
    obtain ⟨val, hk, hv, hb, rfl⟩ := store_bufSz_ok h
    refine ⟨⟨val.toNat, bufSzValid_iff.mp hv, by simp [Dev.set]⟩, ?_⟩
    have hb' : (decide (s.dev.wireOpenCount ≠ 0) || s.dev.portActive) = false := hb
    have hpend : bufSzStore s.dev side buf = { s.dev with sizers := s.dev.sizers ++ [(side, val)] } := by
      simp only [bufSzStore, hk, hv, hb', Bool.not_true, Bool.false_eq_true, if_false]
    have hcommit : bufSzCommit { s.dev with sizers := s.dev.sizers ++ [(side, val)] } s.dev.sizers.length =
        some (s.dev.setBufSz val side) := by
      cases side <;> simp [bufSzCommit, Dev.setBufSz, List.eraseIdx_append_of_length_le]
    simp [Dev.storeActs, h, exec, machine, stepDev, hpend, hcommit]

theorem bufSzCommit_ok {s t : Sys} {k : ℕ} (hs : s.dev.InRange) (h : machine s (.bufSzCommit k) = some (t, o)) :
    ∃ side v, (Config.bufSz side).Range v ∧
      t = ⟨s.bus, { s.dev.set (.bufSz side) v with sizers := t.dev.sizers }⟩ := by
  obtain ⟨⟨e, o'⟩, he, hr⟩ := Option.map_eq_some_iff.mp h
  obtain ⟨e', hc, he'⟩ := Option.map_eq_some_iff.mp he
  cases he'
  cases hr
  unfold bufSzCommit at hc
  split at hc
  · cases hc
  · rename_i val hk
    cases hc
    exact ⟨.tx, val.toNat, hs.sizers _ (List.mem_of_getElem? hk), by simp [Dev.set, Dev.setBufSz]⟩
  · rename_i val hk
    cases hc
    exact ⟨.rx, val.toNat, hs.sizers _ (List.mem_of_getElem? hk), by simp [Dev.set, Dev.setBufSz]⟩

theorem store_attrShow {c : Config} (hd : d.InRange) (hb : d.busy c = false) :
    d.store c (d.attrShow c) = .ok d := by
  cases c with
  | fault attr =>
    have hstore : d.attrs.store MAX_FAULT_NS MAX_PPM attr (d.attrs.attrShow attr) = .ok d.attrs :=
      FaultAttrs.store_attrShow rfl rfl hd.attrs attr
    simp only [Dev.store, Dev.attrShow, hstore, Except.map]
  | bufSz side =>
    have hv : bufSzValid (d.bufSz side) = true := bufSzValid_iff.mpr (hd.bufSz side)
    have hb' : (decide (d.wireOpenCount ≠ 0) || d.portActive) = false := hb
    simp only [Dev.store, Dev.attrShow, kstrtou32_emit, hv, hb', Bool.not_true, Bool.false_eq_true, if_false]
    cases side <;> rfl

/-- What a store does in state `s`: it fails and changes nothing at all, or changes its attribute and nothing else. -/
structure StoreLaw (s : Sys) : Prop where
  range : ∀ c : Config, c.Range (s.dev.get c)
  failed : ∀ c buf e, s.dev.store c buf = .error e → exec machine Always s (s.dev.storeActs c buf) = some (s, [])
  stored : ∀ c buf d, s.dev.store c buf = .ok d → (∃ v, c.Range v ∧ d = s.dev.set c v) ∧
    exec machine Always s (s.dev.storeActs c buf) = some (⟨s.bus, d⟩, [])
  delayed : ∀ k t o, machine s (.bufSzCommit k) = some (t, o) → ∃ side v, (Config.bufSz side).Range v ∧
    t = ⟨s.bus, { s.dev.set (.bufSz side) v with sizers := t.dev.sizers }⟩
  noop : ∀ c, s.dev.busy c = false → s.dev.store c (s.dev.attrShow c) = .ok s.dev

theorem storeLaw_run {s : Sys} {os : List Obs} (h : Run machine Always start os s) : StoreLaw s := by
  have hs := inRange_run h
  constructor
  · intro c
    cases c with
    | fault attr => exact hs.attrs attr
    | bufSz side => exact hs.bufSz side
  · exact fun _ _ _ => store_error
  · exact fun _ _ _ => store_ok
  · exact fun _ _ _ => bufSzCommit_ok hs
  · exact fun _ => store_attrShow hs

end

end VirtRtLab.Uart
