import Mathlib.Data.List.DropRight
import VirtRtLab.Ctl.Profile
import VirtRtLab.Gpio.Attributes
import VirtRtLab.Kernel.Decimal
import VirtRtLab.Uart.Attributes

/-!
`cmd_get` and `cmd_set` on the sysfs files of a device. What sysfs does with a file that is no setting of the device is
left to the host.
-/

namespace VirtRtLab.Ctl

open Kernel VirtRtLab.Core Transition

abbrev Text := List Char

def isSpace (c : Char) : Bool :=
  (9 ≤ c.val ∧ c.val ≤ 13) ∨ (28 ≤ c.val ∧ c.val ≤ 32) ∨ c.val = 0x85 ∨ c.val = 0xa0 ∨ c.val = 0x1680 ∨
    (0x2000 ≤ c.val ∧ c.val ≤ 0x200a) ∨ c.val = 0x2028 ∨ c.val = 0x2029 ∨ c.val = 0x202f ∨ c.val = 0x205f ∨
    c.val = 0x3000

def strip (t : Text) : Text := (t.dropWhile isSpace).rdropWhile isSpace

-- `write_text` in UTF-8, and `read_text` of a file that holds ASCII
def encode (t : Text) : Bytes := t.flatMap String.utf8EncodeChar

def decode (bs : Bytes) : Text := bs.map (fun c => Char.ofNat c.toNat)

structure Sysfs (S : Type) where
  has : Text → Text → Bool
  read : S → Text → Text → Except String Bytes
  write : S → Text → Text → Bytes → Except Errno S
  strerror : Errno → String

section Commands

variable {S : Type} (fs : Sysfs S)

def sysfsPath (target attr : Text) : String :=
  let dir := if target = "bus".toList then "/buses/vrtlbus0/" else "/devices/" ++ String.ofList target ++ "/"
  SYSFS_ROOT ++ dir ++ String.ofList attr

def notFound (target attr : Text) : Error := ⟨"attribute not found: " ++ sysfsPath target attr, 4⟩

def cmdGet (s : S) (target attr : Text) : Except Error Text :=
  if !fs.has target attr then .error (notFound target attr)
  else
    match fs.read s target attr with
    | .error exc => .error ⟨exc, 4⟩
    | .ok bs => .ok (strip (decode bs))

def assign (target assignment : Text) (s : S) : Except Error S :=
  let invalid := "invalid assignment '" ++ String.ofList assignment
  if '=' ∉ assignment then .error ⟨invalid ++ "': expected attr=value", 2⟩
  else
    let attr := strip (assignment.takeWhile (· ≠ '='))
    let value := (assignment.dropWhile (· ≠ '=')).tail
    if attr = [] then .error ⟨invalid ++ "': attribute name is empty", 2⟩
    else if !fs.has target attr then .error (notFound target attr)
    else
      match fs.write s target attr (encode value) with
      | .error e => .error ⟨"kernel rejected write to " ++ String.ofList attr ++ ": " ++ fs.strerror e, 4⟩
      | .ok s => .ok s

def cmdSet (target : Text) : List Text → S → Except Error Unit × S
  | [], s => (.ok (), s)
  | a :: rest, s =>
    match assign fs target a s with
    | .error e => (.error e, s)
    | .ok s => cmdSet target rest s

end Commands

structure Directory (S C : Type) where
  name : C → Text
  get : S → C → ℕ
  set : S → C → ℕ → S
  shown : S → C → Bytes
  store : S → C → Bytes → Except Errno S

namespace Directory

variable {S C : Type}

structure ServedBy (dir : Directory S C) (fs : Sysfs S) (target : Text) : Prop where
  has : ∀ c, fs.has target (dir.name c) = true
  read : ∀ s c, fs.read s target (dir.name c) = .ok (dir.shown s c)
  write : ∀ s c buf, buf ≠ [] → fs.write s target (dir.name c) buf = dir.store s c buf

structure Lawful [DecidableEq C] (dir : Directory S C) (Range : C → ℕ → Prop) (Ready : S → C → Prop) : Prop where
  name_ne : ∀ c, dir.name c ≠ []
  name_plain : ∀ c, ∀ x ∈ dir.name c, x ≠ '=' ∧ isSpace x = false
  shown : ∀ s c, dir.shown s c = emitUnsigned (dir.get s c)
  store : ∀ s c v, Range c v → Ready s c → dir.store s c (decimal v) = .ok (dir.set s c v)
  ready : ∀ s c c' v, Ready s c → Ready (dir.set s c' v) c
  get_set : ∀ s c c' v, Range c' v → dir.get (dir.set s c' v) c = if c = c' then v else dir.get s c

end Directory

theorem decimal_digit {n : ℕ} {c : UInt8} (hc : c ∈ decimal n) :
    isSpace (Char.ofNat c.toNat) = false ∧ String.utf8EncodeChar (Char.ofNat c.toNat) = [c] := by
  obtain ⟨d, hd, rfl⟩ := mem_decimal hc
  interval_cases d <;> decide

theorem strip_plain {t : Text} (h : ∀ x ∈ t, isSpace x = false) : strip t = t := by
  have hfront : t.dropWhile isSpace = t := by
    cases t with
    | nil => rfl
    | cons x t => rw [List.dropWhile_cons_of_neg (by simp [h x])]
  rw [strip, hfront]
  rcases List.eq_nil_or_concat t with rfl | ⟨t, x, rfl⟩
  · rfl
  · rw [List.concat_eq_append] at h ⊢
    exact List.rdropWhile_concat_neg _ _ _ (by simp [h x])

def printed (n : ℕ) : Text := decode (decimal n)

theorem printed_plain {n : ℕ} : ∀ x ∈ printed n, isSpace x = false := by
  intro x hx
  obtain ⟨c, hc, rfl⟩ := List.mem_map.mp hx
  exact (decimal_digit hc).1

theorem strip_emitUnsigned (n : ℕ) : strip (decode (emitUnsigned n)) = printed n := by
  have hdecode : decode (emitUnsigned n) = printed n ++ ['\n'] := List.map_append
  obtain ⟨x, t, hx⟩ : ∃ x t, printed n = x :: t := by
    apply List.exists_cons_of_ne_nil
    exact fun h => decimal_ne_nil n (List.map_eq_nil_iff.mp h)
  have hspace : isSpace x = false := by
    apply printed_plain (n := n)
    rw [hx]
    exact List.mem_cons_self
  have hfront : (printed n ++ ['\n']).dropWhile isSpace = printed n ++ ['\n'] := by
    rw [hx, List.cons_append, List.dropWhile_cons_of_neg (by simp [hspace])]
  rw [strip, hdecode, hfront, List.rdropWhile_concat_pos _ _ _ (by decide)]
  have hstrip := strip_plain (printed_plain (n := n))
  rw [strip, hx, List.dropWhile_cons_of_neg (by simp [hspace]), ← hx] at hstrip
  exact hstrip

theorem encode_printed (n : ℕ) : encode (printed n) = decimal n := by
  have hall : ∀ bs : Bytes, (∀ c ∈ bs, String.utf8EncodeChar (Char.ofNat c.toNat) = [c]) → encode (decode bs) = bs := by
    intro bs hbs
    induction bs with
    | nil => rfl
    | cons c bs ih =>
      rw [decode, List.map_cons, encode, List.flatMap_cons, hbs c List.mem_cons_self]
      exact congrArg (c :: ·) (ih (fun x hx => hbs x (List.mem_cons_of_mem c hx)))
  exact hall _ (fun c hc => (decimal_digit hc).2)

def assignment (attr value : Text) : Text := attr ++ '=' :: value

section Restore

variable {S C : Type} [DecidableEq C] {dir : Directory S C} {Range : C → ℕ → Prop} {Ready : S → C → Prop} {fs : Sysfs S}
  {target : Text} {saved now : S}

theorem cmdGet_setting (h : dir.Lawful Range Ready) (hfs : dir.ServedBy fs target) (s : S) (c : C) :
    cmdGet fs s target (dir.name c) = .ok (printed (dir.get s c)) := by
  simp only [cmdGet, hfs.has, hfs.read, h.shown, strip_emitUnsigned, Bool.not_true, Bool.false_eq_true, if_false]

theorem assign_setting (h : dir.Lawful Range Ready) (hfs : dir.ServedBy fs target) {s : S} {c : C} {v : ℕ}
    (hv : Range c v) (hr : Ready s c) :
    assign fs target (assignment (dir.name c) (printed v)) s = .ok (dir.set s c v) := by
  have hname : ∀ x ∈ dir.name c, decide (x ≠ '=') = true := fun x hx => by simpa using (h.name_plain c x hx).1
  have htake : (assignment (dir.name c) (printed v)).takeWhile (· ≠ '=') = dir.name c := by
    rw [assignment, List.takeWhile_append_of_pos hname]
    simp
  have hdrop : (assignment (dir.name c) (printed v)).dropWhile (· ≠ '=') = '=' :: printed v := by
    rw [assignment, List.dropWhile_append_of_pos hname]
    simp
  have heq : ¬ '=' ∉ assignment (dir.name c) (printed v) := by simp [assignment]
  have hstrip : strip (dir.name c) = dir.name c := strip_plain (fun x hx => (h.name_plain c x hx).2)
  simp only [assign, if_neg heq, htake, hdrop, hstrip, if_neg (h.name_ne c), hfs.has, Bool.not_true, Bool.false_eq_true,
    if_false, List.tail_cons, encode_printed, hfs.write s c _ (decimal_ne_nil v), h.store s c v hv hr]

def Directory.restore (dir : Directory S C) (saved : S) (cs : List C) (s : S) : S :=
  cs.foldl (fun s c => dir.set s c (dir.get saved c)) s

theorem get_restore (h : dir.Lawful Range Ready) (hsaved : ∀ c, Range c (dir.get saved c)) (cs : List C) (s : S) (c : C) :
    dir.get (dir.restore saved cs s) c = if c ∈ cs then dir.get saved c else dir.get s c := by
  induction cs generalizing s with
  | nil => simp [Directory.restore]
  | cons c' cs ih =>
    have hfold : dir.restore saved (c' :: cs) s = dir.restore saved cs (dir.set s c' (dir.get saved c')) := rfl
    rw [hfold, ih, h.get_set _ _ _ _ (hsaved c')]
    by_cases hmem : c ∈ cs
    · simp [hmem]
    · by_cases he : c = c'
      · simp [he]
      · simp [hmem, he]

theorem cmdSet_restores (h : dir.Lawful Range Ready) (hfs : dir.ServedBy fs target) (hsaved : ∀ c, Range c (dir.get saved c))
    (cs : List C) (hr : ∀ c ∈ cs, Ready now c) :
    cmdSet fs target (cs.map (fun c => assignment (dir.name c) (printed (dir.get saved c)))) now =
      (.ok (), dir.restore saved cs now) := by
  induction cs generalizing now with
  | nil => rfl
  | cons c cs ih =>
    rw [List.map_cons, cmdSet, assign_setting h hfs (hsaved c) (hr c List.mem_cons_self)]
    exact ih (fun c' hc' => h.ready _ _ _ _ (hr c' (List.mem_cons_of_mem c hc')))

end Restore

section Devices

theorem kstrtou64_decimal {v : ℕ} (hv : v < 2 ^ 64) : kstrtou64 (decimal v) 0 = .ok (UInt64.ofNat v) := by
  rw [kstrtou64, kstrtoull_bare hv]
  rfl

theorem kstrtou32_decimal {v : ℕ} (hv : v < 2 ^ 32) : kstrtou32 (decimal v) 0 = .ok (UInt32.ofNat v) := by
  rw [kstrtou32, kstrtoull_bare (by omega)]
  exact if_pos hv

theorem store_decimal {maxNs : UInt64} {maxPpm : UInt32} (hn : maxNs.toNat = 10 ^ 10) (hp : maxPpm.toNat = 10 ^ 6)
    (a : FaultAttrs) {attr : Attr} {v : ℕ} (hv : v ≤ attr.limit) :
    a.store maxNs maxPpm attr (decimal v) = .ok (a.set attr v) := by
  have hns (h : v ≤ 10 ^ 10) : FaultAttrs.u64Store maxNs (decimal v) = .ok (UInt64.ofNat v) := by
    have hle : ¬ UInt64.ofNat v > maxNs := by
      apply UInt64.not_lt.mpr
      rw [UInt64.le_iff_toNat_le, hn]
      exact (Nat.mod_le v _).trans h
    rw [FaultAttrs.u64Store, kstrtou64_decimal (by omega)]
    exact if_neg hle
  have hppm (h : v ≤ 10 ^ 6) : FaultAttrs.u32Store maxPpm (decimal v) = .ok (UInt32.ofNat v) := by
    have hle : ¬ UInt32.ofNat v > maxPpm := by
      apply UInt32.not_lt.mpr
      rw [UInt32.le_iff_toNat_le, hp]
      exact (Nat.mod_le v _).trans h
    rw [FaultAttrs.u32Store, kstrtou32_decimal (by omega)]
    exact if_neg hle
  cases attr with
  | enabled =>
    have hbool : kstrtobool (decimal v) = .ok (decide (v ≠ 0)) := by
      obtain rfl | rfl : v = 0 ∨ v = 1 := by
        have hv' : v ≤ 1 := hv
        omega
      · decide
      · decide
    rw [FaultAttrs.store, hbool]
    rfl
  | latencyNs | jitterNs =>
    rw [FaultAttrs.store, hns hv]
    rfl
  | dropRatePpm | bitflipRatePpm =>
    rw [FaultAttrs.store, hppm hv]
    rfl

theorem get_set (a : FaultAttrs) (attr attr' : Attr) {v : ℕ} (hv : v ≤ attr'.limit) :
    (a.set attr' v).get attr = if attr = attr' then v else a.get attr := by
  by_cases he : attr = attr'
  · subst he
    rw [if_pos rfl]
    cases attr with
    | enabled =>
      obtain rfl | rfl : v = 0 ∨ v = 1 := by
        have hv' : v ≤ 1 := hv
        omega
      · rfl
      · rfl
    | latencyNs | jitterNs =>
      have hv' : v ≤ 10 ^ 10 := hv
      exact Nat.mod_eq_of_lt (by omega)
    | dropRatePpm | bitflipRatePpm =>
      have hv' : v ≤ 10 ^ 6 := hv
      exact Nat.mod_eq_of_lt (by omega)
  · rw [if_neg he]
    cases attr <;> cases attr' <;> first | rfl | exact absurd rfl he

def Attr.fileName : Attr → Text
  | .enabled => "enabled".toList
  | .latencyNs => "latency_ns".toList
  | .jitterNs => "jitter_ns".toList
  | .dropRatePpm => "drop_rate_ppm".toList
  | .bitflipRatePpm => "bitflip_rate_ppm".toList

def fileName : Uart.Config → Text
  | .fault attr => Attr.fileName attr
  | .bufSz .tx => "tx_buf_sz".toList
  | .bufSz .rx => "rx_buf_sz".toList

def uartDirectory : Directory Uart.Dev Uart.Config where
  name := fileName
  get := Uart.Dev.get
  set := Uart.Dev.set
  shown := Uart.Dev.attrShow
  store := Uart.Dev.store

def gpioDirectory : Directory Gpio.Dev Attr where
  name := Attr.fileName
  get d attr := d.attrs.get attr
  set := Gpio.Dev.set
  shown d attr := d.attrs.attrShow attr
  store := Gpio.Dev.store

theorem fileName_plain (c : Uart.Config) : fileName c ≠ [] ∧ ∀ x ∈ fileName c, x ≠ '=' ∧ isSpace x = false := by
  have hall : fileName c ≠ [] ∧ (fileName c).all (fun x => x ≠ '=' ∧ isSpace x = false) = true := by
    rcases c with attr | side
    · cases attr <;> decide
    · cases side <;> decide
  exact ⟨hall.1, fun x hx => of_decide_eq_true (List.all_eq_true.mp hall.2 x hx)⟩

theorem uartDirectory_lawful : uartDirectory.Lawful Uart.Config.Range (fun d c => d.busy c = false) where
  name_ne c := (fileName_plain c).1
  name_plain c := (fileName_plain c).2
  shown d c := by
    rcases c with attr | side
    · cases attr <;> rfl
    · rfl
  store d c v hv hr := by
    rcases c with attr | side
    · have hstore : d.attrs.store Uart.MAX_FAULT_NS Uart.MAX_PPM attr (decimal v) = .ok (d.attrs.set attr v) :=
        store_decimal rfl rfl d.attrs hv
      simp only [uartDirectory, Uart.Dev.store, hstore, Uart.Dev.set, Except.map]
    · have hlt : v < 2 ^ 32 := by have := hv.2.2; omega
      have hnat : (UInt32.ofNat v).toNat = v := Nat.mod_eq_of_lt hlt
      have hrange : (Uart.Config.bufSz side).Range (UInt32.ofNat v).toNat := by
        rw [hnat]
        exact hv
      have hvalid : Uart.bufSzValid (UInt32.ofNat v) = true := Uart.bufSzValid_iff.mpr hrange
      have hidle : (decide (d.wireOpenCount ≠ 0) || d.portActive) = false := hr
      simp only [uartDirectory, Uart.Dev.store, kstrtou32_decimal hlt, hvalid, hidle, Bool.not_true, Bool.false_eq_true,
        if_false, Uart.Dev.set]
  ready d c c' v hr := by
    rcases c' with attr | side
    · cases c <;> exact hr
    · cases c <;> cases side <;> exact hr
  get_set d c c' v hv := by
    rcases c with attr | side <;> rcases c' with attr' | side'
    · have hget := get_set d.attrs attr attr' hv
      simp only [Uart.Config.fault.injEq]
      exact hget
    · rw [if_neg (by rintro ⟨⟩)]
      cases side' <;> rfl
    · rw [if_neg (by rintro ⟨⟩)]
      rfl
    · have hnat : (UInt32.ofNat v).toNat = v := Nat.mod_eq_of_lt (by have := hv.2.2; omega)
      cases side <;> cases side' <;> first | exact hnat | rfl

theorem gpioDirectory_lawful : gpioDirectory.Lawful (fun attr v => v ≤ attr.limit) (fun _ _ => True) where
  name_ne attr := (fileName_plain (.fault attr)).1
  name_plain attr := (fileName_plain (.fault attr)).2
  shown d attr := by cases attr <;> rfl
  store d attr v hv _ := by
    have hstore : d.attrs.store Gpio.MAX_LATENCY_NS Gpio.MAX_PPM attr (decimal v) = .ok (d.attrs.set attr v) :=
      store_decimal rfl rfl d.attrs hv
    simp only [gpioDirectory, Gpio.Dev.store, hstore, Gpio.Dev.set, Except.map]
  ready _ _ _ _ _ := trivial
  get_set d attr attr' v hv := get_set d.attrs attr attr' hv

end Devices

/-- Saving and restoring the settings of a device: the values that `cmd_get` printed in any reachable state, assigned by
one `cmd_set` in any other, in any order, restore these settings and change nothing else. -/
theorem set_restores_get {target : Text} :
    (∀ (fs : Sysfs Uart.Dev) (os : List Uart.Obs) (s : Uart.Sys) (now : Uart.Dev) (cs : List Uart.Config),
      uartDirectory.ServedBy fs target → Run Uart.machine Always Uart.start os s → (∀ c ∈ cs, now.busy c = false) →
      ∃ texts, cs.map (fun c => cmdGet fs s.dev target (fileName c)) = texts.map .ok ∧
        ∃ d, cmdSet fs target (List.zipWith (fun c t => assignment (fileName c) t) cs texts) now = (.ok (), d) ∧
          d = cs.foldl (fun d c => d.set c (s.dev.get c)) now ∧
          ∀ c, d.get c = if c ∈ cs then s.dev.get c else now.get c) ∧
    ∀ (fs : Sysfs Gpio.Dev) (os : List Gpio.Obs) (s : Gpio.Sys) (now : Gpio.Dev) (attrs : List Attr),
      gpioDirectory.ServedBy fs target → Run Gpio.machine Always Gpio.start os s →
      ∃ texts, attrs.map (fun attr => cmdGet fs s.dev target (Attr.fileName attr)) = texts.map .ok ∧
        ∃ d, cmdSet fs target (List.zipWith (fun attr t => assignment (Attr.fileName attr) t) attrs texts) now =
            (.ok (), d) ∧
          d = attrs.foldl (fun d attr => d.set attr (s.dev.attrs.get attr)) now ∧
          ∀ attr, d.attrs.get attr = if attr ∈ attrs then s.dev.attrs.get attr else now.attrs.get attr := by
  constructor
  · intro fs os s now cs hfs hs hidle
    have hrange : ∀ c : Uart.Config, c.Range (s.dev.get c) := (Uart.storeLaw_run hs).range
    refine ⟨cs.map (fun c => printed (s.dev.get c)), ?_, _, ?_, rfl, ?_⟩
    · rw [List.map_map]
      exact List.map_congr_left (fun c _ => cmdGet_setting uartDirectory_lawful hfs s.dev c)
    · rw [List.zipWith_map_right, List.zipWith_self]
      exact cmdSet_restores uartDirectory_lawful hfs hrange cs hidle
    · exact get_restore uartDirectory_lawful hrange cs now
  · intro fs os s now attrs hfs hs
    have hrange : ∀ attr : Attr, s.dev.attrs.get attr ≤ attr.limit := (Gpio.storeLaw_run hs).range
    refine ⟨attrs.map (fun attr => printed (s.dev.attrs.get attr)), ?_, _, ?_, rfl, ?_⟩
    · rw [List.map_map]
      exact List.map_congr_left (fun attr _ => cmdGet_setting gpioDirectory_lawful hfs s.dev attr)
    · rw [List.zipWith_map_right, List.zipWith_self]
      exact cmdSet_restores gpioDirectory_lawful hfs hrange attrs (fun _ _ => trivial)
    · exact get_restore gpioDirectory_lawful hrange attrs now

def uartConfigs : List Uart.Config :=
  [.fault .enabled, .fault .latencyNs, .fault .jitterNs, .fault .dropRatePpm, .fault .bitflipRatePpm, .bufSz .tx,
    .bufSz .rx]

def uartHost : Sysfs Uart.Dev where
  has _ attr := uartConfigs.any (fun c => fileName c = attr)
  read d _ attr := ((uartConfigs.find? (fun c => fileName c = attr)).map d.attrShow).elim (.error "") .ok
  write d _ attr buf :=
    if buf = [] then .ok d
    else ((uartConfigs.find? (fun c => fileName c = attr)).map (d.store · buf)).getD (.error .einval)
  strerror _ := "Invalid argument"

theorem uartHost_serves {target : Text} : uartDirectory.ServedBy uartHost target := by
  have hfind : ∀ c, uartConfigs.find? (fun c' => fileName c' = fileName c) = some c := by
    rintro (attr | side)
    · cases attr <;> decide
    · cases side <;> decide
  constructor
  · intro c
    exact List.any_eq_true.mpr ⟨c, List.mem_of_find?_eq_some (hfind c), by simp [uartDirectory]⟩
  · intro d c
    simp only [uartHost, uartDirectory, hfind, Option.map_some, Option.elim_some]
  · intro d c buf hbuf
    simp only [uartHost, uartDirectory, hfind, Option.map_some, Option.getD_some, if_neg hbuf]

theorem set_restores_get_two_settings : ∃ saved texts d, saved.get (.fault .latencyNs) = 100 ∧ saved.get (.bufSz .tx) = 8192 ∧
    [.fault .latencyNs, .bufSz .tx].map (fun c => cmdGet uartHost saved "uart0".toList (fileName c)) = texts.map .ok ∧
    cmdSet uartHost "uart0".toList (List.zipWith (fun c t => assignment (fileName c) t) [.fault .latencyNs, .bufSz .tx] texts)
      Uart.Dev.init = (.ok (), d) ∧ d.get (.fault .latencyNs) = 100 ∧ d.get (.bufSz .tx) = 8192 := by
  obtain ⟨os, s, hrun, hl, hb⟩ := Run.exists_of_exec (M := Uart.machine) (P := Always) (s := Uart.start)
    [.attrStore .latencyNs [49, 48, 48], .bufSzStore .tx [56, 49, 57, 50], .bufSzCommit 0]
    (fun _ s => s.dev.get (.fault .latencyNs) = 100 ∧ s.dev.get (.bufSz .tx) = 8192) (by decide +kernel)
  obtain ⟨texts, htexts, d, hset, -, hget⟩ := set_restores_get.1 uartHost os s .init
    [.fault .latencyNs, .bufSz .tx] uartHost_serves hrun (by decide)
  refine ⟨s.dev, texts, d, hl, hb, htexts, hset, ?_, ?_⟩
  · rw [hget, if_pos (by decide), hl]
  · rw [hget, if_pos (by decide), hb]

end VirtRtLab.Ctl
