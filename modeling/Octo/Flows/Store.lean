import Mathlib.Logic.Function.Basic
import Octo.Editor.Identity
import Octo.Foundation.Trace

/-!
# The flow store on disk

`app/api/fs/store.ts` of the standalone app: flows are YAML files in one directory.  Every call is a
sequence of file operations, each awaited, and between two of them any other call may run.

* `step` — any number of calls over one directory; `step_cases` says once what a step can do.
* `store_keeps_flows` — as long as a name found free is still free when it is written, and no link
  is followed, a created flow stays, every call keeps to its own files, and none leaves the root.
* `racing_creates_lose_a_flow` — two calls that create flows of one name, of which one is lost.
-/

namespace Octo.FlowStore

open List Function Option Octo.Foundation
open Octo.Editor (isSlugChar dashRuns)

/-! ## Names -/

def isIdChar (c : Char) : Bool := c.isAlphanum || c = '.' || c = '_' || c = '-'

/-- `ID_RE`. -/
def validId (id : String) : Bool :=
  (id.toList.head?.any Char.isAlphanum) && id.toList.all isIdChar &&
    (".yaml".toList.isSuffixOf id.toList || ".yml".toList.isSuffixOf id.toList)

-- `name.trim().toLowerCase()`
variable (lower : String → String)

def slugify (name : String) : String :=
  let dashed := dashRuns false (lower name).toList
  let slug := ((dashed.dropWhile (· = '-')).reverse.dropWhile (· = '-')).reverse
  if slug.isEmpty then "flow" else String.ofList slug

/-- The names `freeId` tries in turn. -/
def candidate (slug : String) : Nat → String
  | 0 => slug ++ ".yaml"
  | n + 1 => slug ++ "-" ++ toString (n + 2) ++ ".yaml"

/-! ## The file system -/

/-- A file, as one reaches it: by its name in the store's directory, or elsewhere by its path. -/
inductive Place where
  | inside (name : String)
  | outside (path : String)
deriving DecidableEq

inductive Entry where
  | file (content : String)
  | dir
  | link (target : Place)
deriving DecidableEq

structure Disk where
  root : String → Option Entry
  outside : String → Option String

def place (id : String) : Place :=
  if '/' ∈ id.toList ∨ id = "" ∨ id = "." ∨ id = ".." then .outside id else .inside id

namespace Disk

def follow (disk : Disk) : Nat → Place → Option Place
  | _, .outside path => some (.outside path)
  | 0, .inside _ => none
  | fuel + 1, .inside name =>
    match disk.root name with
    | some (.link target) => disk.follow fuel target
    | _ => some (.inside name)

def maxLinks : Nat := 40

variable (disk : Disk)

/-- Whether there is something, behind any links. -/
def access (at_ : Place) : Bool := match disk.follow maxLinks at_ with
  | some (.inside name) => (disk.root name).isSome
  | some (.outside path) => (disk.outside path).isSome
  | none => false

/-- Which follows links and fails on a directory. -/
def writeFile (at_ : Place) (content : String) : Option Disk :=
  match disk.follow maxLinks at_ with
  | some (.inside name) =>
    if disk.root name = some .dir then none
    else some { disk with root := update disk.root name (some (.file content)) }
  | some (.outside path) =>
    some { disk with outside := update disk.outside path (some content) }
  | none => none

def readFile (at_ : Place) : Option String := match disk.follow maxLinks at_ with
  | some (.inside name) =>
    match disk.root name with
    | some (.file content) => some content
    | _ => none
  | some (.outside path) => disk.outside path
  | none => none

/-- `rm` with `force`, of the entry itself; it fails on a directory. -/
def rm (name : String) : Option Disk := if disk.root name = some .dir then none
  else some { disk with root := update disk.root name none }

end Disk

/-! ## Calls -/

inductive Call where
  | createFlow (name definition : String)
  | updateFlow (oldId name definition : String)
  | writeFlow (id definition : String)
  | readFlow (id : String)
deriving DecidableEq

inductive Phase where
  /-- `createFlow` makes the root. -/
  | makeRoot
  /-- `freeId` looks for the candidate. -/
  | probe (n : Nat)
  /-- `writeFlow` makes the directory, then writes. -/
  | makeDir (id : String)
  | writeFile (id : String)
  /-- `updateFlow` removes the old file after a rename. -/
  | remove (oldId written : String)
  | readFile (id : String)
  | returned (id : String)
  | failed
deriving DecidableEq

namespace Call

def target : Call → Option String
  | createFlow _ _ => none
  | updateFlow oldId _ _ => some oldId
  | writeFlow id _ => some id
  | readFlow _ => none

def definition : Call → String
  | createFlow _ definition => definition
  | updateFlow _ _ definition => definition
  | writeFlow _ definition => definition
  | readFlow _ => ""

def slug : Call → String
  | createFlow name _ => slugify lower name
  | updateFlow _ name _ => slugify lower name
  | writeFlow _ _ => ""
  | readFlow _ => ""

/-- Whether a call writes a file that `freeId` chooses: a new flow, or a renamed one. -/
def fresh : Call → Bool
  | createFlow _ _ => true
  | updateFlow oldId name _ => slugify lower name ++ ".yaml" ≠ oldId
  | writeFlow _ _ => false
  | readFlow _ => false

end Call

/-- `writeFlow` up to its first file operation: `resolveSafe`. -/
def enterWriteFlow (id : String) : Phase := if validId id then .makeDir id else .failed

variable (call : Call)

def Call.start : Phase := match call with
  | .createFlow _ _ => .makeRoot
  | .updateFlow oldId _ _ =>
    if !validId oldId then .failed
    else if call.fresh lower then .probe 0
    else enterWriteFlow oldId
  | .writeFlow id _ => enterWriteFlow id
  | .readFlow id => if validId id then .readFile id else .failed

def Call.landed (id : String) : Phase := match call with
  | .updateFlow oldId _ _ =>
    if call.fresh lower then .remove oldId id else .returned id
  | _ => .returned id

structure Task where
  call : Call
  phase : Phase
deriving DecidableEq

/-- The next file operation of a call, and where the call is after it. -/
def advance (disk : Disk) (c : Task) : Option (Disk × Phase) := match c.phase with
  | .makeRoot => some (disk, .probe 0)
  | .probe n =>
    let id := candidate (c.call.slug lower) n
    some (disk, if disk.access (place id) then .probe (n + 1) else enterWriteFlow id)
  | .makeDir id => some (disk, .writeFile id)
  | .writeFile id =>
    match disk.writeFile (place id) c.call.definition with
    | some disk' => some (disk', c.call.landed lower id)
    | none => some (disk, .failed)
  | .remove oldId id =>
    match disk.rm oldId with
    | some disk' => some (disk', .returned id)
    | none => some (disk, .failed)
  | .readFile id => some (disk, if (disk.readFile (place id)).isSome then .returned id else .failed)
  | .returned _ => none
  | .failed => none

structure State where
  disk : Disk
  calls : List Task

def State.init (disk : Disk) : State := ⟨disk, []⟩

inductive Action where
  | start (call : Call)
  | run (i : Nat)
deriving DecidableEq

variable (s : State)

def step : Action → Option State
  | .start call => some { s with calls := s.calls ++ [⟨call, call.start lower⟩] }
  | .run i => do
    let c ← s.calls[i]?
    let (disk, phase) ← advance lower s.disk c
    return ⟨disk, s.calls.set i ⟨c.call, phase⟩⟩

/-! ## The condition -/

def Entry.isLink : Option Entry → Bool
  | some (.link _) => true
  | _ => false

/-- A name that was found free is still free when it is written, a file that is addressed is no
link, and what a rename removes is no directory. -/
def Task.Clean (disk : Disk) (c : Task) : Prop := match c.phase with
  | .writeFile id =>
    if c.call.fresh lower then disk.root id = none
    else Entry.isLink (disk.root id) = false
  | .readFile id => Entry.isLink (disk.root id) = false
  | .remove oldId _ => disk.root oldId ≠ some .dir
  | _ => True

def Clean : Action → Prop
  | .start _ => True
  | .run i => ∀ c ∈ s.calls[i]?, c.Clean lower s.disk

def Addresses (id : String) (s : State) : Action → Prop
  | .start _ => False
  | .run i => ∃ c ∈ s.calls[i]?, c.call.target = some id

def touches : Action → Option Place
  | .start _ => none
  | .run i => do
    let c ← s.calls[i]?
    match c.phase with
    | .writeFile id => s.disk.follow Disk.maxLinks (place id)
    | .readFile id => s.disk.follow Disk.maxLinks (place id)
    | _ => none

def Phase.returns : Phase → Option String
  | .remove _ id => some id
  | .returned id => some id
  | _ => none

/-! ## What a step can do -/

theorem place_of_validId {id : String} (h : validId id = true) : place id = .inside id := by
  unfold validId at h
  simp only [Bool.and_eq_true, List.all_eq_true] at h
  obtain ⟨⟨hhead, hall⟩, -⟩ := h
  refine if_neg ?_
  rintro (hslash | rfl | rfl | rfl)
  · exact absurd (hall _ hslash) (by decide)
  · exact absurd hhead (by decide)
  · exact absurd hhead (by decide)
  · exact absurd hhead (by decide)

variable {disk : Disk}

open Disk

theorem follow_inside {name : String} (h : Entry.isLink (disk.root name) = false) :
    disk.follow maxLinks (.inside name) = some (.inside name) := by
  unfold maxLinks follow
  split
  next hlink =>
    rw [hlink] at h
    cases h
  · rfl

/-- What a call knows: the ids it works on are valid, and its own unless `freeId` chose them. -/
def Task.Ok (c : Task) : Prop := match c.phase with
  | .makeRoot => c.call.fresh lower = true
  | .probe _ => c.call.fresh lower = true
  | .makeDir id =>
    validId id = true ∧ (c.call.fresh lower = false → c.call.target = some id)
  | .writeFile id =>
    validId id = true ∧ (c.call.fresh lower = false → c.call.target = some id)
  | .remove oldId _ => c.call.target = some oldId
  | .readFile id => validId id = true ∧ c.call = .readFlow id
  | _ => True

/-- What the next file operation of a call does, when it meets the condition. -/
inductive Effect (disk : Disk) (c : Task) : Disk → Phase → Prop where
  | looked {phase : Phase} (settled : phase.returns ≠ none → ∃ id, c.call = .readFlow id)
      (before : c.phase.returns = none) : Effect disk c disk phase
  | wrote (id : String) (before : c.phase = .writeFile id)
      (own : c.call.fresh lower = true ∧ disk.root id = none ∨ c.call.target = some id) :
      Effect disk c { disk with root := update disk.root id (some (.file c.call.definition)) }
        (c.call.landed lower id)
  | removed (oldId id : String) (before : c.phase = .remove oldId id)
      (own : c.call.target = some oldId) :
      Effect disk c { disk with root := update disk.root oldId none } (.returned id)
  | refused (before : c.phase.returns = none) : Effect disk c disk .failed

def Sound : Prop := ∀ c ∈ s.calls, c.Ok lower

structure Kept (s : State) : Prop where
  /-- A created flow stays under the id returned, until an update or a write addressed to that id
  goes on. -/
  stored : ∀ a (s₁ : State) (i : Nat) (name definition id : String), Clean lower s a →
    step lower s a = some s₁ →
    s.calls[i]? ≠ some ⟨.createFlow name definition, .returned id⟩ →
    s₁.calls[i]? = some ⟨.createFlow name definition, .returned id⟩ →
    ∀ actions t,
      Walk (step lower) (fun s a => Clean lower s a ∧ ¬ Addresses id s a) s₁
        actions t →
      t.disk.root id = some (.file definition)
  /-- A call changes only the file it is addressed to and the file it returns. -/
  own : ∀ a (s₁ : State) name, Clean lower s a → step lower s a = some s₁ →
    s₁.disk.root name ≠ s.disk.root name →
    ∃ i, ∃ c : Task, a = .run i ∧ s₁.calls[i]? = some c ∧
      (c.call.target = some name ∨ c.phase.returns = some name)
  returns : ∀ a (s₁ : State) (i : Nat) (c : Task) id, Clean lower s a →
    step lower s a = some s₁ → s.calls[i]? = some c → c.phase.returns = some id →
    ∃ c' : Task, s₁.calls[i]? = some c' ∧ c'.call = c.call ∧ c'.phase.returns = some id
  inside : ∀ a (s₁ : State), Clean lower s a → step lower s a = some s₁ →
    s₁.disk.outside = s.disk.outside ∧ ∀ p ∈ touches s a, ∃ name, p = .inside name

section Effects

variable {lower}

theorem returns_enterWriteFlow (id : String) : (enterWriteFlow id).returns = none := by
  unfold enterWriteFlow
  split
  · rfl
  · rfl

variable {disk' : Disk} {a : Action} {t : State} {c : Task} {phase : Phase}

theorem advance_cases (hok : c.Ok lower)
    (hclean : c.Clean lower disk)
    (h : advance lower disk c = some (disk', phase)) :
    Effect lower disk c disk' phase := by
  obtain ⟨call, before⟩ := c
  cases before with
  | makeRoot | makeDir id =>
    cases h
    exact .looked (absurd rfl) rfl
  | probe =>
    cases h
    refine .looked (absurd ?_) rfl
    split
    · rfl
    · exact returns_enterWriteFlow _
  | writeFile id =>
    obtain ⟨hvalid, hown⟩ := hok
    have hlink : Entry.isLink (disk.root id) = false ∧
        (call.fresh lower = true ∧ disk.root id = none ∨ call.target = some id) := by
      unfold Task.Clean at hclean
      dsimp only at hclean
      split at hclean
      next hfresh =>
        exact ⟨by rw [hclean]; rfl, .inl ⟨hfresh, hclean⟩⟩
      next hfresh =>
        exact ⟨hclean, .inr (hown (Bool.not_eq_true _ ▸ hfresh))⟩
    unfold advance writeFile at h
    simp only [place_of_validId hvalid, follow_inside hlink.1] at h
    split at h
    next disk₁ hwrite =>
      split at hwrite
      · cases hwrite
      · cases hwrite
        cases h
        exact .wrote id rfl hlink.2
    · cases h
      exact .refused rfl
  | remove oldId id =>
    have hdir : disk.root oldId ≠ some .dir := hclean
    unfold advance rm at h
    simp only [if_neg hdir] at h
    cases h
    exact .removed oldId id rfl hok
  | readFile id =>
    obtain ⟨-, hcall⟩ := hok
    cases h
    exact .looked (fun _ => ⟨id, hcall⟩) rfl
  | returned => cases h
  | failed => cases h

theorem Task.Ok.advance (hok : c.Ok lower)
    (h : advance lower disk c = some (disk', phase)) :
    Task.Ok lower ⟨c.call, phase⟩ := by
  obtain ⟨call, before⟩ := c
  cases before with
  | makeRoot =>
    cases h
    exact hok
  | probe n =>
    have hfresh : call.fresh lower = true := hok
    cases h
    split
    · exact hfresh
    · unfold enterWriteFlow
      split
      next hvalid =>
        refine ⟨hvalid, fun hfalse => ?_⟩
        rw [hfresh] at hfalse
        cases hfalse
      · trivial
  | makeDir =>
    cases h
    exact hok
  | writeFile =>
    unfold FlowStore.advance at h
    dsimp only at h
    split at h
    · cases h
      unfold Call.landed
      split
      · split
        · rfl
        · trivial
      · trivial
    · cases h
      trivial
  | remove =>
    unfold FlowStore.advance at h
    dsimp only at h
    split at h
    · cases h
      trivial
    · cases h
      trivial
  | readFile =>
    cases h
    split
    · trivial
    · trivial
  | returned => cases h
  | failed => cases h

theorem Task.Ok.start :
    Task.Ok lower ⟨call, call.start lower⟩ := by
  have henter : ∀ id, call.target = some id →
      Task.Ok lower ⟨call, enterWriteFlow id⟩ := by
    intro id hid
    unfold enterWriteFlow
    split
    next hvalid =>
      exact ⟨hvalid, fun _ => hid⟩
    · trivial
  cases call with
  | createFlow => rfl
  | updateFlow oldId name definition =>
    unfold Call.start
    dsimp only
    split
    · trivial
    · split
      next hfresh =>
        exact hfresh
      · exact henter oldId rfl
  | writeFlow id => exact henter id rfl
  | readFlow id =>
    unfold Call.start
    dsimp only
    split
    next hvalid =>
      exact ⟨hvalid, rfl⟩
    · trivial

/-! ## Runs -/

variable {s : State}

theorem step_cases (h : step lower s a = some t) : (∃ call, a = .start call ∧
      t = { s with calls := s.calls ++ [⟨call, call.start lower⟩] }) ∨
    ∃ i c disk phase, a = .run i ∧ s.calls[i]? = some c ∧
      advance lower s.disk c = some (disk, phase) ∧
      t = ⟨disk, s.calls.set i ⟨c.call, phase⟩⟩ := by
  cases a with
  | start call =>
    cases h
    exact .inl ⟨call, rfl, rfl⟩
  | run i =>
    obtain ⟨c, hc, h⟩ := bind_eq_some_iff.1 h
    obtain ⟨⟨disk, phase⟩, hadvance, h⟩ := bind_eq_some_iff.1 h
    cases h
    exact .inr ⟨i, c, disk, phase, rfl, hc, hadvance, rfl⟩

theorem sound_of_step (hs : Sound lower s) (h : step lower s a = some t) :
    Sound lower t := by
  obtain ⟨call, rfl, rfl⟩ | ⟨i, c, disk, phase, rfl, hc, hadvance, rfl⟩ := step_cases h
  · exact forall_mem_append.2 ⟨hs, forall_mem_singleton.2 (Task.Ok.start call)⟩
  · intro d hd
    rcases mem_or_eq_of_mem_set hd with hd | rfl
    · exact hs d hd
    · exact (hs c (mem_of_getElem? hc)).advance hadvance

variable {actions : List Action}

theorem sound_of_walk {P : State → Action → Prop}
    (hs : Sound lower s) (h : Walk (step lower) P s actions t) :
    Sound lower t :=
  walk_induction (fun _ _ _ hs _ h => sound_of_step hs h) h hs

theorem effect_of_step (hs : Sound lower s) (hclean : Clean lower s a)
    (h : step lower s a = some t) : (∃ call, a = .start call ∧
      t = { s with calls := s.calls ++ [⟨call, call.start lower⟩] }) ∨
    ∃ i c disk phase, a = .run i ∧ s.calls[i]? = some c ∧
      Effect lower s.disk c disk phase ∧
      t = ⟨disk, s.calls.set i ⟨c.call, phase⟩⟩ := by
  obtain hstart | ⟨i, c, disk, phase, rfl, hc, hadvance, rfl⟩ := step_cases h
  · exact .inl hstart
  · have heffect := advance_cases (hs c (mem_of_getElem? hc)) (hclean c hc) hadvance
    exact .inr ⟨i, c, disk, phase, rfl, hc, heffect, rfl⟩

theorem file_of_step {id content : String} (hs : Sound lower s)
    (hfile : s.disk.root id = some (.file content)) (hclean : Clean lower s a)
    (hother : ¬ Addresses id s a) (h : step lower s a = some t) :
    t.disk.root id = some (.file content) := by
  obtain ⟨call, rfl, rfl⟩ | ⟨i, c, disk, phase, rfl, hc, heffect, rfl⟩ := effect_of_step hs hclean h
  · exact hfile
  · have hid : c.call.target ≠ some id := fun hid => hother ⟨c, hc, hid⟩
    cases heffect with
    | looked => exact hfile
    | refused => exact hfile
    | wrote id' before own =>
      have hne : id ≠ id' := by
        rintro rfl
        rcases own with ⟨-, hnone⟩ | hown
        · rw [hfile] at hnone
          cases hnone
        · exact hid hown
      exact (update_of_ne hne _ _).trans hfile
    | removed oldId id' before own =>
      have hne : id ≠ oldId := by
        rintro rfl
        exact hid own
      exact (update_of_ne hne _ _).trans hfile

theorem file_of_walk {id content : String} (hs : Sound lower s)
    (hfile : s.disk.root id = some (.file content))
    (h : Walk (step lower) (fun s a => Clean lower s a ∧ ¬ Addresses id s a) s actions t) :
    t.disk.root id = some (.file content) := by
  have hboth := walk_induction
    (Q := fun s => Sound lower s ∧ s.disk.root id = some (.file content))
    (fun s a s' hq hp h => ⟨sound_of_step hq.1 h, file_of_step hq.1 hq.2 hp.1 hp.2 h⟩) h
    ⟨hs, hfile⟩
  exact hboth.2

theorem getElem?_set_run {calls : List Task} {i : Nat} {c d : Task} (hc : calls[i]? = some c) :
    (calls.set i d)[i]? = some d := by
  obtain ⟨hi, -⟩ := List.getElem?_eq_some_iff.1 hc
  rw [getElem?_set_self hi]

theorem touches_inside {p : Place} (hs : Sound lower s)
    (hclean : Clean lower s a) (hp : p ∈ touches s a) : ∃ name, p = .inside name := by
  cases a with
  | start => cases hp
  | run =>
    obtain ⟨c, hc, hp⟩ := bind_eq_some_iff.1 hp
    have hok := hs c (mem_of_getElem? hc)
    have hclean := hclean c hc
    obtain ⟨call, phase⟩ := c
    cases phase with
    | writeFile id =>
      have hlink : Entry.isLink (s.disk.root id) = false := by
        unfold Task.Clean at hclean
        dsimp only at hclean
        split at hclean
        · rw [hclean]
          rfl
        · exact hclean
      dsimp only at hp
      rw [place_of_validId hok.1, follow_inside hlink] at hp
      exact ⟨id, (Option.some.inj hp).symm⟩
    | readFile id =>
      dsimp only at hp
      rw [place_of_validId hok.1, follow_inside hclean] at hp
      exact ⟨id, (Option.some.inj hp).symm⟩
    | _ => cases hp

theorem returns_landed (id : String) :
    (call.landed lower id).returns = some id := by
  unfold Call.landed
  split
  · split
    · rfl
    · rfl
  · rfl

theorem file_of_created {name definition id : String}
    (hcall : c.call = .createFlow name definition)
    (h : Effect lower disk c disk' (.returned id)) :
    disk'.root id = some (.file definition) := by
  generalize hphase : Phase.returned id = phase at h
  cases h with
  | looked settled =>
    subst hphase
    obtain ⟨id', hread⟩ := settled (by simp [Phase.returns])
    rw [hcall] at hread
    cases hread
  | refused => cases hphase
  | wrote =>
    rw [hcall] at hphase ⊢
    cases hphase
    exact update_self _ _ _
  | removed oldId id' before own =>
    rw [hcall] at own
    cases own

theorem returns_of_effect {id : String}
    (hreturns : c.phase.returns = some id) (h : Effect lower disk c disk' phase) :
    phase.returns = some id := by
  cases h with
  | looked settled before | refused before | wrote id' before own =>
    rw [before] at hreturns
    cases hreturns
  | removed oldId id' before =>
    rw [before] at hreturns
    exact hreturns

theorem kept_of_sound (hs : Sound lower s) : Kept lower s where
  stored := by
    intro a s₁ i name definition id hclean h hbefore hafter actions t hwalk
    refine file_of_walk (sound_of_step hs h) ?_ hwalk
    obtain ⟨call, rfl, rfl⟩ | ⟨j, c, disk, phase, rfl, hc, heffect, rfl⟩ :=
      effect_of_step hs hclean h
    · -- A call that just came in is not back.
      by_cases hi : i < s.calls.length
      · rw [getElem?_append_left hi] at hafter
        exact absurd hafter hbefore
      · rw [getElem?_append_right (by omega), getElem?_singleton] at hafter
        split at hafter
        · cases hafter
        · cases hafter
    · by_cases hij : j = i
      · subst hij
        rw [getElem?_set_run hc] at hafter
        obtain ⟨call, before⟩ := c
        cases hafter
        exact file_of_created rfl heffect
      · rw [getElem?_set_ne hij] at hafter
        exact absurd hafter hbefore
  own := by
    intro a s₁ name hclean h hchanged
    obtain ⟨call, rfl, rfl⟩ | ⟨i, c, disk, phase, rfl, hc, heffect, rfl⟩ :=
      effect_of_step hs hclean h
    · exact absurd rfl hchanged
    · refine ⟨i, ⟨c.call, phase⟩, rfl, getElem?_set_run hc, ?_⟩
      cases heffect with
      | looked => exact absurd rfl hchanged
      | refused => exact absurd rfl hchanged
      | wrote id =>
        by_cases hname : name = id
        · subst hname
          exact .inr (returns_landed c.call name)
        · exact absurd (update_of_ne hname _ _) hchanged
      | removed oldId id before own =>
        by_cases hname : name = oldId
        · exact .inl (hname ▸ own)
        · exact absurd (update_of_ne hname _ _) hchanged
  returns := by
    intro a s₁ i c id hclean h hi hreturns
    obtain ⟨call, rfl, rfl⟩ | ⟨j, d, disk, phase, rfl, hd, heffect, rfl⟩ :=
      effect_of_step hs hclean h
    · obtain ⟨hlt, -⟩ := List.getElem?_eq_some_iff.1 hi
      exact ⟨c, (getElem?_append_left hlt).trans hi, rfl, hreturns⟩
    · by_cases hij : j = i
      · subst hij
        cases hd.symm.trans hi
        exact ⟨_, getElem?_set_run hd, rfl, returns_of_effect hreturns heffect⟩
      · exact ⟨c, (getElem?_set_ne hij).trans hi, rfl, hreturns⟩
  inside := by
    intro a s₁ hclean h
    refine ⟨?_, fun p hp => touches_inside hs hclean hp⟩
    obtain ⟨call, rfl, rfl⟩ | ⟨i, c, disk, phase, rfl, hc, heffect, rfl⟩ :=
      effect_of_step hs hclean h
    · rfl
    · cases heffect with
      | looked => rfl
      | refused => rfl
      | wrote => rfl
      | removed => rfl

end Effects

/-- **The store keeps its flows.** -/
theorem store_keeps_flows (disk : Disk) (actions : List Action) (s : State)
    (h : Walk (step lower) (Clean lower) (.init disk) actions s) :
    Kept lower s := by
  have hinit : Sound lower (.init disk) := fun c hc => nomatch hc
  exact kept_of_sound (sound_of_walk hinit h)

/-! ## Two calls at once -/

def emptyDisk : Disk := ⟨fun _ => none, fun _ => none⟩

instance (disk : Disk) (c : Task) : Decidable (c.Clean lower disk) := by
  obtain ⟨call, phase⟩ := c
  cases phase <;> dsimp only [Task.Clean] <;> infer_instance

instance (s : State) (a : Action) : Decidable (Clean lower s a) := by
  cases a <;> dsimp only [Clean] <;> infer_instance

/-- Two flows are created at once, then one of them is renamed. -/
def savedRun : List Action :=
  [.start (.createFlow "orders" "first"), .start (.createFlow "cart" "second"), .run 0, .run 1, .run 1,
    .run 0, .run 0, .run 1, .run 1, .run 0, .start (.updateFlow "cart.yaml" "basket" "third")] ++
  List.replicate 4 (.run 2)

theorem savedRun_enabled :
    (walkTo (step id) (Clean id) (.init emptyDisk) savedRun).isSome = true := by decide

theorem savedRun_keeps_flows : ∃ s, Walk (step id) (Clean id) (.init emptyDisk) savedRun s ∧
      s.calls.map Task.phase =
        [.returned "orders.yaml", .returned "cart.yaml", .returned "basket.yaml"] ∧ Kept id s := by
  have hwalk := walk_of_walkTo (some_get savedRun_enabled).symm
  exact ⟨_, hwalk, by decide, store_keeps_flows id emptyDisk savedRun _ hwalk⟩

instance (id : String) (s : State) (a : Action) : Decidable (Addresses id s a) := by
  cases a <;> dsimp only [Addresses] <;> infer_instance

def twoCreates : List Action :=
  [.start (.createFlow "orders" "first"), .start (.createFlow "Orders!" "second"),
    .run 0, .run 1, .run 0, .run 1, .run 0, .run 0]

theorem twoCreates_enabled :
    (walkTo (step fun s => String.ofList (s.toList.map Char.toLower)) (fun _ _ => True)
      (.init emptyDisk) twoCreates).isSome = true := by decide +kernel

theorem secondCreate_enabled :
    (walkTo (step fun s => String.ofList (s.toList.map Char.toLower))
      (fun s a => ¬ Addresses "orders.yaml" s a) (Option.get _ twoCreates_enabled)
      [.run 1, .run 1]).isSome = true := by decide +kernel

/-- The second call overwrites the flow the first one has stored and returned. -/
theorem racing_creates_lose_a_flow : ∃ lower s t,
      Walk (step lower) (fun _ _ => True) (.init emptyDisk) twoCreates s ∧
      s.calls[0]? = some ⟨.createFlow "orders" "first", .returned "orders.yaml"⟩ ∧
      s.disk.root "orders.yaml" = some (.file "first") ∧
      Walk (step lower) (fun s a => ¬ Addresses "orders.yaml" s a) s [.run 1, .run 1] t ∧
      t.disk.root "orders.yaml" = some (.file "second") := by
  refine ⟨_, _, _, walk_of_walkTo (some_get twoCreates_enabled).symm, by decide, by decide,
    walk_of_walkTo (some_get secondCreate_enabled).symm, by decide +kernel⟩

end Octo.FlowStore
