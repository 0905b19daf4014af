import Octo.Foundation.Trace
import Mathlib.Data.List.Perm.Subperm

/-!
# Appending to a snapshot

A register holds a list.  A writer takes a snapshot of it and later overwrites it with the snapshot
followed by entries of its own.  Whether entries are lost is a matter of the order of these two
events alone.

* `replay_serial` — when no write falls between a writer's snapshot and its own write, the register
  is the start followed by every writer's entries.
* `replay_length` — otherwise the register is shorter than that, and stays so.
* `lossless_iff_serial` — nothing is lost exactly in the first case.
-/

namespace Octo.Foundation.Snapshot

open List Function

variable {α : Type}

/-- Writer `i` takes its snapshot, or overwrites the register. -/
inductive Event where
  | read (i : Nat)
  | write (i : Nat)
deriving DecidableEq

inductive Legal : List Event → Prop where
  | nil : Legal []
  | read {log : List Event} (i : Nat) (h : Legal log) (hnew : .read i ∉ log) :
    Legal (log ++ [.read i])
  | write {log : List Event} (i : Nat) (h : Legal log) (hread : .read i ∈ log) :
    Legal (log ++ [.write i])

def Serial (log : List Event) : Prop := ∀ i j, ¬[Event.read i, .write j, .write i].Sublist log

def writers (log : List Event) : List Nat := log.filterMap fun
    | .read _ => none
    | .write i => some i

structure State (α : Type) where
  current : List α
  snapshot : Nat → List α

open Event

section Replay

variable (own : Nat → List α)

def apply (s : State α) : Event → State α
  | .read i => { s with snapshot := update s.snapshot i s.current }
  | .write i => { s with current := s.snapshot i ++ own i }

variable (start : List α)

def replay (log : List Event) : State α := log.foldl (apply own) ⟨start, fun _ => []⟩

def expected (log : List Event) : List α := start ++ (writers log).flatMap own

variable {own start} (s : State α) (i : Nat)

@[simp] theorem apply_read_current :
    (apply own s (.read i)).current = s.current := rfl

@[simp] theorem apply_read_snapshot :
    (apply own s (.read i)).snapshot i = s.current := update_self ..

variable {i : Nat}

theorem apply_read_snapshot_of_ne {k : Nat} (h : k ≠ i) :
    (apply own s (.read i)).snapshot k = s.snapshot k := update_of_ne h ..

@[simp] theorem apply_write_current :
    (apply own s (.write i)).current = s.snapshot i ++ own i := rfl

@[simp] theorem apply_write_snapshot :
    (apply own s (.write i)).snapshot = s.snapshot := rfl

variable (log : List Event)

@[simp] theorem replay_concat (e : Event) :
    replay own start (log ++ [e]) = apply own (replay own start log) e :=
  foldl_concat ..

@[simp] theorem writers_concat_read :
    writers (log ++ [.read i]) = writers log := by
  simp [writers]

@[simp] theorem writers_concat_write :
    writers (log ++ [.write i]) = writers log ++ [i] := by
  simp [writers]

@[simp] theorem expected_concat_read :
    expected own start (log ++ [.read i]) = expected own start log := by
  simp [expected]

@[simp] theorem expected_concat_write :
    expected own start (log ++ [.write i]) = expected own start log ++ own i := by
  simp [expected]

/-! ## Orders of events -/

variable {log : List Event}

theorem read_write_concat {e : Event} {j : Nat} : [read i, .write j].Sublist (log ++ [e]) ↔
      [read i, .write j].Sublist log ∨ .write j = e ∧ .read i ∈ log := by
  have h := concat_sublist_concat (l := [read i]) (m := log) (x := .write j) (e := e)
  simpa using h

theorem serial_concat_read : Serial (log ++ [.read i]) ↔ Serial log := by
  have h : ∀ k j, [read k, .write j, .write k].Sublist (log ++ [.read i]) ↔
      [read k, .write j, .write k].Sublist log := by
    intro k j
    have := concat_sublist_concat (l := [read k, .write j]) (m := log) (x := .write k)
      (e := .read i)
    simpa using this
  simp [Serial, h]

theorem serial_concat_write : Serial (log ++ [.write i]) ↔
      Serial log ∧ ∀ j, ¬[read i, .write j].Sublist log := by
  have h : ∀ k j, [read k, .write j, .write k].Sublist (log ++ [.write i]) ↔
      [read k, .write j, .write k].Sublist log ∨
        k = i ∧ [read k, .write j].Sublist log := by
    intro k j
    have := concat_sublist_concat (l := [read k, .write j]) (m := log) (x := .write k)
      (e := .write i)
    simpa using this
  simp only [Serial, h]
  constructor
  · exact fun hs => ⟨fun k j hk => hs k j (.inl hk), fun j hj => hs i j (.inr ⟨rfl, hj⟩)⟩
  · rintro ⟨hs, hi⟩ k j (hk | ⟨rfl, hk⟩)
    · exact hs k j hk
    · exact hi j hk

/-! ## Serial logs lose nothing -/

theorem replay_serial (h : Legal log) (hs : Serial log) :
    (replay own start log).current = expected own start log ∧
      ∀ i, .read i ∈ log → (∀ j, ¬[read i, .write j].Sublist log) →
        (replay own start log).snapshot i = (replay own start log).current := by
  induction h with
  | nil => exact ⟨by simp [replay, expected, writers], by simp⟩
  | @read log i h hnew ih =>
    obtain ⟨hcurrent, hsnap⟩ := ih (serial_concat_read.1 hs)
    refine ⟨by simpa using hcurrent, fun k hk hquiet => ?_⟩
    rw [replay_concat]
    by_cases hki : k = i
    · subst hki
      simp
    · rw [apply_read_snapshot_of_ne _ hki]
      apply hsnap k
      · simpa [hki] using hk
      · exact fun j hj => hquiet j (read_write_concat.2 (.inl hj))
  | @write log i h hread ih =>
    obtain ⟨hlog, hi⟩ := serial_concat_write.1 hs
    obtain ⟨hcurrent, hsnap⟩ := ih hlog
    refine ⟨?_, fun k hk hquiet => ?_⟩
    · rw [replay_concat, expected_concat_write, apply_write_current, hsnap i hread hi, hcurrent]
    · -- `k` has its snapshot, so the write just made follows it
      have hk' : read k ∈ log := by simpa using hk
      exact absurd (read_write_concat.2 (.inr ⟨rfl, hk'⟩)) (hquiet i)

/-! ## A write in between loses entries for good -/

theorem replay_length (h : Legal log) (hown : ∀ i ∈ writers log, own i ≠ []) :
    (replay own start log).current.length ≤ (expected own start log).length ∧
    (¬Serial log → (replay own start log).current.length < (expected own start log).length) ∧
    ∀ i, .read i ∈ log →
      ((replay own start log).snapshot i).length ≤ (expected own start log).length ∧
      ((¬Serial log ∨ ∃ j, [read i, .write j].Sublist log) →
        ((replay own start log).snapshot i).length < (expected own start log).length) := by
  induction h with
  | nil => exact ⟨by simp [replay, expected], absurd (by simp [Serial]), by simp⟩
  | @read log i h hnew ih =>
    obtain ⟨hle, hlt, hsnap⟩ := ih (by simpa using hown)
    rw [replay_concat, expected_concat_read, serial_concat_read]
    refine ⟨hle, hlt, fun k hk => ?_⟩
    by_cases hki : k = i
    · subst hki
      rw [apply_read_snapshot]
      refine ⟨hle, fun hbehind => hlt ?_⟩
      rcases hbehind with hbad | ⟨j, hj⟩
      · exact hbad
      · rcases read_write_concat.1 hj with hj | ⟨he, -⟩
        · exact absurd (hj.subset (mem_cons_self ..)) hnew
        · cases he
    · rw [apply_read_snapshot_of_ne _ hki]
      obtain ⟨hkle, hklt⟩ := hsnap k (by simpa [hki] using hk)
      refine ⟨hkle, fun hbehind => hklt ?_⟩
      rcases hbehind with hbad | ⟨j, hj⟩
      · exact .inl hbad
      · rcases read_write_concat.1 hj with hj | ⟨he, -⟩
        · exact .inr ⟨j, hj⟩
        · cases he
  | @write log i h hread ih =>
    obtain ⟨hle, hlt, hsnap⟩ := ih fun k hk => hown k (by simp [hk])
    obtain ⟨hile, hilt⟩ := hsnap i hread
    have hpos : 0 < (own i).length := length_pos_iff.2 (hown i (by simp))
    simp only [replay_concat, expected_concat_write, serial_concat_write, length_append,
      apply_write_current, apply_write_snapshot]
    refine ⟨by omega, fun hbad => ?_, fun k hk => ?_⟩
    · have := hilt (by
        by_contra hno
        simp only [not_or, not_not, not_exists] at hno
        exact hbad hno)
      omega
    · obtain ⟨hkle, -⟩ := hsnap k (by simpa using hk)
      exact ⟨by omega, fun _ => by omega⟩

theorem lossless_iff_serial (h : Legal log) (hown : ∀ i ∈ writers log, own i ≠ []) :
    (expected own start log).Subperm (replay own start log).current ↔ Serial log := by
  constructor
  · intro hsub
    by_contra hbad
    exact absurd hsub.length_le (Nat.not_le.2 ((replay_length h hown).2.1 hbad))
  · intro hs
    rw [(replay_serial h hs).1]

end Replay

end Octo.Foundation.Snapshot
