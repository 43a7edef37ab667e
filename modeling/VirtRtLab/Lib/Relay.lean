import Mathlib.Data.List.Basic
import Mathlib.Data.List.Infix

/-!
Sessions of a relay that reads from one side and sends what it read to whoever is connected on the other.
-/

namespace VirtRtLab.Relay

variable {α : Type}

inductive Event (α : Type) where
  | opened
  | read (bs : List α)
  | sent (bs : List α) (whole : Bool)
  | closed

/-- `late` are the bytes sent after a short or failed send, or after the end. -/
structure Session (α : Type) where
  reads : List α := []
  sent : List α := []
  late : List α := []
  failed : Bool := false
  ended : Bool := false

def note : List (Session α) → Event α → List (Session α)
  | ss, .opened => {} :: ss
  | [], .sent bs _ => [{ sent := bs, late := bs, failed := true, ended := true }]
  | [], _ => []
  | s :: ss, .read bs => if s.ended then s :: ss else { s with reads := s.reads ++ bs } :: ss
  | s :: ss, .sent bs whole =>
    { s with sent := s.sent ++ bs, late := if s.failed || s.ended then s.late ++ bs else s.late,
             failed := s.failed || !whole } :: ss
  | s :: ss, .closed => { s with ended := true } :: ss

def sessions (es : List (Event α)) : List (Session α) := es.foldl note []

inductive Turn : Option (List α) → List (Event α) → Option (List α) → Prop
  | silent (φ) : Turn φ [] φ
  | opened : Turn none [.opened] (some [])
  | read (bs) : Turn (some []) [.read bs] (some bs)
  | sentAll (buf) : Turn (some buf) [.sent buf true] (some [])
  | sentShort (buf bs) (h : bs <+: buf) : Turn (some buf) [.sent bs false, .closed] none
  | closed : Turn (some []) [.closed] none

def Over (s : Session α) : Prop := s.sent <+: s.reads ∧ s.late = [] ∧ s.ended = true

structure Current (s : Session α) (buf : List α) : Prop where
  reads : s.reads = s.sent ++ buf
  late : s.late = []
  failed : s.failed = false
  ended : s.ended = false

def Account (ss : List (Session α)) : Option (List α) → Prop
  | none => ∀ s ∈ ss, Over s
  | some buf => ∃ s past, ss = s :: past ∧ Current s buf ∧ ∀ t ∈ past, Over t

theorem account_sessions_nil : Account (sessions ([] : List (Event α))) none := by
  intro s hs
  cases hs

theorem Account.turn {ss : List (Session α)} {φ φ' : Option (List α)} {es : List (Event α)} (h : Account ss φ)
    (ht : Turn φ es φ') : Account (es.foldl note ss) φ' := by
  cases ht with
  | silent => exact h
  | opened => exact ⟨{}, ss, by simp [note], ⟨rfl, rfl, rfl, rfl⟩, h⟩
  | read bs =>
    obtain ⟨s, past, rfl, hs, hp⟩ := h
    refine ⟨{ s with reads := s.reads ++ bs }, past, by simp [note, hs.ended], ?_, hp⟩
    exact ⟨by simp [hs.reads], hs.late, hs.failed, hs.ended⟩
  | sentAll buf =>
    obtain ⟨s, past, rfl, hs, hp⟩ := h
    refine ⟨{ s with sent := s.sent ++ buf }, past, by simp [note, hs.ended, hs.failed], ?_, hp⟩
    exact ⟨by simp [hs.reads], hs.late, hs.failed, hs.ended⟩
  | sentShort buf bs hb =>
    obtain ⟨s, past, rfl, hs, hp⟩ := h
    intro t ht
    simp only [List.foldl_cons, List.foldl_nil, note, hs.failed, hs.ended, Bool.or_self, Bool.false_eq_true,
      ↓reduceIte, List.mem_cons] at ht
    rcases ht with rfl | ht
    · refine ⟨?_, hs.late, rfl⟩
      simp only [hs.reads]
      exact (List.prefix_append_right_inj s.sent).mpr hb
    · exact hp t ht
  | closed =>
    obtain ⟨s, past, rfl, hs, hp⟩ := h
    intro t ht
    simp only [List.foldl_cons, List.foldl_nil, note, List.mem_cons] at ht
    rcases ht with rfl | ht
    · exact ⟨by simp [hs.reads], hs.late, rfl⟩
    · exact hp t ht

theorem Account.fidelity {ss : List (Session α)} {φ : Option (List α)} (h : Account ss φ) {s : Session α}
    (hs : s ∈ ss) : s.sent <+: s.reads ∧ s.late = [] ∧
      (s.sent ≠ s.reads → s.ended = true ∨ ∃ b bs, φ = some (b :: bs)) := by
  cases φ with
  | none =>
    obtain ⟨hp, hl, he⟩ := h s hs
    exact ⟨hp, hl, fun _ => .inl he⟩
  | some buf =>
    obtain ⟨t, past, rfl, ht, hp⟩ := h
    rcases List.mem_cons.mp hs with rfl | hs
    · refine ⟨by simp [ht.reads], ht.late, fun hne => .inr ?_⟩
      cases buf with
      | nil => exact absurd (by simp [ht.reads]) hne
      | cons b bs => exact ⟨b, bs, rfl⟩
    · obtain ⟨hp, hl, he⟩ := hp s hs
      exact ⟨hp, hl, fun _ => .inl he⟩

end VirtRtLab.Relay
