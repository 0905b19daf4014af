import Mathlib.Logic.Denumerable
import Mathlib.Logic.Equiv.List
import Octo.Engine.Process
import Octo.Runtime.Calls

/-!
# Flows of blocks that call each other

The flows of a service without forks, run by their workers: the code of `Engine.Process`, in which a
`flow-ref` parks its worker until the call is back.

* `acyclic_service` — the flows a flow can call are those its `flow-ref` blocks name.
* `acyclic_calls_never_deadlock` — flows whose call graph has no cycle never deadlock.
-/

namespace Octo.Runtime.Drain

open List Option Engine Relation.TransGen
open Octo.Foundation (Walk walk_induction walkTo walk_of_walkTo)
open Octo.Foundation.Split (exists_split)
open Octo.Engine (Block Flow Code Frame Result Choice NoFork Inside runChain)

/-! ## Code -/

/-- The flow that a `flow-ref` block names, and whether it is one-way. -/
def flowRef (b : Block) : Option (String × Bool) := match b.own with
  | .leaf settings =>
    if b.type = "flow-ref" then
      match settings "flow", settings "oneWay" with
      | some (.str flow), some (.bool oneWay) => some (flow, oneWay)
      | some (.str flow), _ => some (flow, false)
      | _, _ => none
    else none
  | _ => none

structure ServedFlow extends FlowSpec where
  root : Flow
  errorPath : Option Flow

def ServedFlow.blocks (f : ServedFlow) : List Block :=
  f.root.blocks ++ Engine.blocksOf f.errorPath.toList

/-- Where a worker stands with a message: in its code, or parked in a `flow-ref`. -/
inductive Cursor where
  | running (code : Code)
  | parked (frames : List Frame)

def Cursor.blocks : Cursor → List Block
  | .running code => code.blocks
  | .parked frames => Engine.framesBlocks frames

def outcomeOf : Result → Outcome Unit
  | .message => .completed ()
  | .dropped => .dropped
  | .failed => .failed ""

/-- `flowRef.Process`: the new event id may fail, else the call parks the worker. -/
def callFlow (c : Choice) (frames : List Frame) (flow : String) (oneWay : Bool) : Cmd Cursor Unit :=
  if c.result = .failed then .step (.running ⟨.ret .failed, frames⟩)
  else .ref oneWay 0 flow () (.parked frames)

/-- The end of a flow, or a step of its code.  The flows here do not fork. -/
def proceed (c : Choice) : Code → Option (Cmd Cursor Unit)
  | ⟨.ret r, []⟩ => some (.finish (outcomeOf r))
  | code =>
    match Engine.next c code with
    | .step code => some (.step (.running code))
    | _ => none

def Cursor.next (c : Choice) : Cursor → Option (Cmd Cursor Unit)
  | .parked _ => none
  | .running ⟨.call b, frames⟩ =>
    match flowRef b with
    | some (flow, oneWay) => some (callFlow c frames flow oneWay)
    | none => proceed c ⟨.call b, frames⟩
  | .running code => proceed c code

/-- A worker whose call is back goes on: a failed call is the block's error, a result or a drop lets
the message through. -/
def Cursor.resume (o : Outcome Unit) : Cursor → Cursor
  | .parked frames => .running ⟨.ret (if o.kind = .failed then .failed else .message), frames⟩
  | .running code => .running code

def choiceOf (n : Nat) : Choice := let p := Denumerable.ofNat (Nat × Nat × List Nat) n
  ⟨[Result.message, .dropped, .failed].getD p.1 .message, p.2.1, p.2.2⟩

def service (flows : List ServedFlow) : System Cursor Unit where
  flows := flows.map ServedFlow.toFlowSpec
  start flow _ := match flows[flow]? with
    | some f => .running (runChain [.root f.errorPath] f.root.blocks)
    | none => .running ⟨.ret .message, []⟩
  next _ choice cursor := cursor.next (choiceOf choice)
  resume _ _ o cursor := cursor.resume o

/-! ## What a worker's step can do -/

variable {flows : List ServedFlow}

/-- What `Cursor.next` does: a step to blocks it held or that are directly inside them, the call of a
`flow-ref` it held, or the end. -/
inductive Advance (code : Code) : Cmd Cursor Unit → Prop where
  | step (code' : Code) (blocks : ∀ a ∈ code'.blocks, a ∈ code.blocks ∨
      ∃ b ∈ code.blocks, a ∈ b.children) : Advance code (.step (.running code'))
  | ref (b : Block) (frames : List Frame) (flow : String) (oneWay : Bool) (block : b ∈ code.blocks)
      (names : flowRef b = some (flow, oneWay))
      (blocks : ∀ a ∈ Engine.framesBlocks frames, a ∈ code.blocks) :
      Advance code (.ref oneWay 0 flow () (.parked frames))
  | finish (o : Outcome Unit) : Advance code (.finish o)

variable {cmd : Cmd Cursor Unit} {code : Code}

theorem advance_of_proceed {c : Choice}
    (h : proceed c code = some cmd) : Advance code cmd := by
  unfold proceed at h
  split at h
  · cases h
    exact .finish _
  · split at h
    next hnext =>
      cases h
      exact .step _ fun a ha => next_blocks hnext ha
    · cases h

theorem advance_of_next {c : Choice} {cursor : Cursor}
    (h : cursor.next c = some cmd) : ∃ code, cursor = .running code ∧ Advance code cmd := by
  unfold Cursor.next at h
  split at h
  · cases h
  next b frames =>
    refine ⟨_, rfl, ?_⟩
    split at h
    next flow oneWay href =>
      cases h
      unfold callFlow
      split
      · exact .step _ fun a ha => .inl (by simpa using .inr ha)
      · exact .ref b frames flow oneWay (by simp) href fun a ha => by simpa using .inr ha
    · exact advance_of_proceed h
  · exact ⟨_, rfl, advance_of_proceed h⟩

theorem exists_next (h : ∀ b ∈ code.blocks, NoFork b) (c : Choice) :
    ∃ cmd, (Cursor.running code).next c = some cmd := by
  have hproceed : ∃ cmd, proceed c code = some cmd := by
    unfold proceed
    split
    · exact ⟨_, rfl⟩
    next hend =>
      cases hnext : next c code with
      | step => exact ⟨_, rfl⟩
      | fork =>
        obtain ⟨b, hb, hfork, -⟩ := next_fork hnext
        exact absurd hfork (h b hb b .refl)
      | finish =>
        -- only the end of the code finishes
        unfold Engine.next at hnext
        split at hnext
        · unfold callBlock at hnext
          split at hnext <;> cases hnext
        · exact absurd rfl (hend _)
        · cases hnext
  unfold Cursor.next
  split
  next heq =>
    cases heq
  · split
    · exact ⟨_, rfl⟩
    next heq _ _ =>
      cases heq
      exact hproceed
  next heq =>
    cases heq
    exact hproceed

/-! ## The call graph -/

/-- A flow has a `flow-ref` block, at any depth of its root or its error path, that names another. -/
def Calls (flows : List ServedFlow) (f g : Nat) : Prop :=
  ∃ served ∈ flows[f]?, ∃ b ∈ served.blocks, ∃ a, Inside b a ∧
    ∃ name oneWay, flowRef a = some (name, oneWay) ∧ (service flows).named name = some g

open Cursor

theorem blocks_of_visits {f : Nat} {cursor : Cursor} (h : Visits (service flows) f cursor) :
    ∀ a ∈ cursor.blocks, ∃ served ∈ flows[f]?, ∃ b ∈ served.blocks, Inside b a := by
  induction h with
  | start data =>
    intro a ha
    simp only [service] at ha
    split at ha
    next served hserved =>
      refine ⟨served, hserved, a, ?_, .refl⟩
      simpa [blocks, ServedFlow.blocks, Engine.Frame.blocks, framesBlocks] using ha
    · cases ha
  | step choice _ next ih =>
    obtain ⟨code, rfl, hadvance⟩ := advance_of_next next
    cases hadvance with
    | step code' blocks =>
      intro a ha
      rcases blocks a ha with hold | ⟨b, hb, hchild⟩
      · exact ih a hold
      · obtain ⟨served, hserved, r, hr, hinside⟩ := ih b hb
        exact ⟨served, hserved, r, hr, hinside.tail hchild⟩
  | ref choice _ next ih =>
    obtain ⟨code, rfl, hadvance⟩ := advance_of_next next
    cases hadvance with
    | ref b frames flow oneWay block names blocks => exact fun a ha => ih a (blocks a ha)
  | @resume b tag o _ ih =>
    cases b with
    | parked => exact ih
    | running => exact ih

theorem calls_of_refers {f g : Nat} (h : Refers (service flows) f g) : Calls flows f g := by
  obtain ⟨b, choice, oneWay, tag, name, data, b', hvisits, hnext, hnamed⟩ := h
  obtain ⟨code, rfl, hadvance⟩ := advance_of_next hnext
  cases hadvance with
  | ref a frames _ _ block names =>
    obtain ⟨served, hserved, r, hr, hinside⟩ := blocks_of_visits hvisits a block
    exact ⟨served, hserved, r, hr, a, hinside, name, oneWay, names, hnamed⟩

theorem acyclic_service (h : ∀ f, ¬Relation.TransGen (Calls flows) f f) : Acyclic (service flows) :=
  fun f hcycle =>
    h f (mono (fun _ _ hrefers => calls_of_refers hrefers) _ _ hcycle)

/-! ## Parked workers -/

def Call.underWay (c : Call Unit) : Bool := match c.phase with
  | .returned _ => false
  | _ => true

def outstanding (calls : List (Call Unit)) (i : Nat) : Nat :=
  calls.countP fun c => c.owner = i && c.underWay

def Cursor.waits : Cursor → Nat
  | .parked _ => 1
  | .running _ => 0

def parkedAt (hs : List (Handling Cursor Unit)) (i : Nat) : Nat :=
  (hs[i]?.map fun h => h.state.waits).getD 0

def Parking (w : Work Cursor Unit) : Prop := ∀ i, outstanding w.calls i = parkedAt w.handlings i

open Call

section Parking

variable {w : Work Cursor Unit} {i j : Nat} {c c' : Call Unit} {k : Handling Cursor Unit}

theorem underWay_iff : c.underWay = true ↔ ∀ o, c.phase ≠ .returned o := by
  unfold underWay
  split <;> simp_all

theorem outstanding_set {calls : List (Call Unit)} (c' : Call Unit) (i : Nat)
    (hc : calls[j]? = some c) (howner : c'.owner = c.owner) :
    outstanding (calls.set j c') i + (if c.owner = i ∧ c.underWay then 1 else 0) =
      outstanding calls i + (if c.owner = i ∧ c'.underWay then 1 else 0) := by
  obtain ⟨l₁, l₂, rfl, -, hset⟩ := exists_split hc
  unfold outstanding
  rw [hset]
  simp only [countP_append, countP_cons, howner, Bool.and_eq_true, decide_eq_true_eq]
  omega

theorem parkedAt_set {hs : List (Handling Cursor Unit)} {k' : Handling Cursor Unit}
    (hk : hs[j]? = some k) :
    parkedAt (hs.set j k') i = if i = j then k'.state.waits else parkedAt hs i := by
  have hlt : j < hs.length := (List.getElem?_eq_some_iff.1 hk).1
  unfold parkedAt
  by_cases hij : i = j
  · subst hij
    simp [hlt]
  · rw [if_neg hij, getElem?_set_ne (Ne.symm hij)]

theorem parking_setCall (h : Parking w) (hc : w.calls[j]? = some c) (howner : c'.owner = c.owner)
    (hway : c.underWay = true) (hway' : c'.underWay = true) :
    Parking { w with calls := w.calls.set j c' } := by
  intro i
  have hset := outstanding_set c' i hc howner
  rw [hway, hway'] at hset
  have hold := h i
  simp only
  omega

theorem parking_answer (h : Parking w) (hc : w.calls[j]? = some c) (hway : c.underWay = true)
    (o : Outcome Unit) : Parking (w.answer (service flows) j c o) := by
  intro i
  have hset := outstanding_set { c with phase := .returned o } i hc rfl
  rw [hway] at hset
  have hold := h i
  have hparked : parkedAt (w.answer (service flows) j c o).handlings i =
      if i = c.owner then 0 else parkedAt w.handlings i := by
    unfold parkedAt Work.answer
    simp only [getElem?_modify]
    by_cases hi : i = c.owner
    · subst hi
      cases hk : w.handlings[c.owner]? with
      | none => simp
      | some k =>
        cases hstate : k.state <;> simp [service, hstate, resume, waits]
    · simp [hi, Ne.symm hi]
  have hone : parkedAt w.handlings i ≤ 1 := by
    unfold parkedAt
    cases w.handlings[i]? with
    | none => simp
    | some k => cases hstate : k.state <;> simp [hstate, waits]
  rw [hparked]
  show outstanding (w.calls.set j { c with phase := .returned o }) i = _
  by_cases hi : i = c.owner
  · subst hi
    simp [underWay] at hset ⊢
    omega
  · simp [hi, Ne.symm hi] at hset ⊢
    omega

theorem parking_execute (h : Parking w)
    (hk : w.handlings[j]? = some k) (hstate : k.state = .running code) (hcmd : Advance code cmd) :
    Parking (w.execute j k cmd) := by
  have hwaits : parkedAt w.handlings j = 0 := by simp [parkedAt, hk, hstate, waits]
  intro i
  have hold := h i
  cases hcmd with
  | step code' =>
    show outstanding w.calls i = parkedAt (w.handlings.set j _) i
    rw [parkedAt_set hk]
    split
    next hij =>
      subst hij
      exact hold.trans hwaits
    · exact hold
  | ref =>
    show outstanding (w.calls ++ [_]) i = parkedAt (w.handlings.set j _) i
    rw [parkedAt_set hk]
    unfold outstanding at hold ⊢
    rw [countP_append, hold]
    by_cases hij : i = j
    · subst hij
      simp [hwaits, underWay, waits]
    · simp [hij, Ne.symm hij]
  | finish o =>
    have hcalls : outstanding (w.calls.map (Work.offer k.message.id o)) i =
        outstanding w.calls i := by
      unfold outstanding
      rw [countP_map]
      congr 1
      funext c
      simp [underWay]
    show outstanding (w.calls.map (Work.offer k.message.id o)) i = parkedAt (w.handlings.set j _) i
    rw [hcalls, parkedAt_set hk]
    split
    next hij =>
      subst hij
      rw [hold, hwaits, hstate]
      rfl
    · exact hold

end Parking

theorem parking_of_effect {s s' : State Cursor Unit} {a : Action Unit}
    (heffect : Effect (service flows) s a s') (h : Parking s.work) : Parking s'.work := by
  cases heffect with
  | accept => exact h
  | cancel | shutdown | stopFailed | stopSource | close | await | leave => exact h
  | take flow =>
    intro i
    rw [h i]
    unfold parkedAt
    rcases Nat.lt_trichotomy i s.work.handlings.length with hlt | rfl | hgt
    · rw [getElem?_append_left hlt]
    · simp only [getElem?_concat_length, getElem?_length, service]
      cases flows[flow]? <;> rfl
    · rw [getElem?_eq_none (by omega), getElem?_eq_none (by simp; omega)]
  | move i choice k cmd handling running next =>
    obtain ⟨code, hstate, hadvance⟩ := advance_of_next next
    exact parking_execute h handling hstate hadvance
  | found i c flow call phase =>
    exact parking_setCall h call rfl (by simp [underWay, phase]) (by simp [underWay])
  | sent i c flow call phase =>
    exact parking_setCall h call rfl
      (by simp [underWay, phase]) (by simp [underWay])
  | fired i c flow call phase =>
    exact parking_answer h call
      (by simp [underWay, phase]) .dropped
  | missing i c call phase | gone i c flow err call phase =>
    exact parking_answer h call (by simp [underWay, phase]) _
  | gaveUp i c err call phase => exact parking_answer h call (underWay_iff.2 phase) _
  | received i c flow o call phase =>
    exact parking_answer h call (by simp [underWay, phase]) _

theorem parking_of_reaches {actions : List (Action Unit)} {s : State Cursor Unit}
    (h : Reaches (service flows) actions s) : Parking s.work :=
  walk_induction
    (fun _ _ _ hs _ hstep => parking_of_effect (step_cases hstep) hs) h fun _ => rfl

/-! ## Progress -/

def ServedFlow.ForkFree (f : ServedFlow) : Prop := ∀ b ∈ f.blocks, NoFork b

theorem lively_service (hfork : ∀ f ∈ flows, f.ForkFree) : Lively (service flows) := by
  intro actions s hreach i k hk hrunning hcalls
  have hvisits := (sound_of_walk hreach).work.visits k (mem_of_getElem? hk)
  have hnone : outstanding s.work.calls i = 0 := by
    unfold outstanding
    rw [countP_eq_zero]
    intro c hc hway
    simp only [Bool.and_eq_true, decide_eq_true_eq] at hway
    obtain ⟨o, ho⟩ := hcalls c hc hway.1
    exact underWay_iff.1 hway.2 o ho
  cases hstate : k.state with
  | parked =>
    have hone := parking_of_reaches hreach i
    simp [hnone, parkedAt, hk, hstate, waits] at hone
  | running code =>
    rw [hstate] at hvisits
    have hfree : ∀ b ∈ code.blocks, NoFork b := by
      intro b hb
      obtain ⟨served, hserved, r, hr, hinside⟩ := blocks_of_visits hvisits b hb
      exact fun a ha => hfork served (mem_of_getElem? hserved) r hr a (hinside.trans ha)
    obtain ⟨cmd, hcmd⟩ := exists_next hfree (choiceOf 0)
    exact ⟨0, cmd, hcmd⟩

/-- **Acyclic flow calls never deadlock.** In fork-free flows whose `flow-ref` graph has no cycle,
while an accepted message is unfinished some worker can take a step. -/
theorem acyclic_calls_never_deadlock (flows : List ServedFlow) (hfork : ∀ f ∈ flows, f.ForkFree)
    (hacyclic : ∀ f, ¬Relation.TransGen (Calls flows) f f) {actions : List (Action Unit)}
    {s : State Cursor Unit}
    (h : Walk (step (service flows)) (fun _ a => a ≠ .cancel) initial actions s)
    (flow : Nat) (m : Message Unit) (haccepted : (flow, m) ∈ s.accepted)
    (hunfinished : ¬∃ e ∈ s.work.events, e.flow = flow ∧ e.message = m) :
    ∃ a : Action Unit, a.ofWorkers = true ∧ (step (service flows) s a).isSome = true := by
  have hreach : Reaches (service flows) actions s := h.mono fun _ _ _ => trivial
  have hflight := ((sound_of_walk hreach).accepted _ haccepted).resolve_right hunfinished
  exact exists_step_of_inFlight (acyclic_service hacyclic) (lively_service hfork) hreach hflight

/-- `orders` refers to the source-less flow `enrich`; one worker and one slot each. -/
def orderFlows : List ServedFlow :=
  [⟨⟨"orders", false, 1, 1, Nat.one_pos, Nat.one_pos⟩,
      ⟨"orders", [⟨"", "flow-ref", .leaf fun k => if k = "flow" then some (.str "enrich") else none, {}⟩]⟩,
      none⟩,
    ⟨⟨"enrich", true, 1, 1, Nat.one_pos, Nat.one_pos⟩, ⟨"enrich", [Engine.logBlock]⟩, none⟩]

theorem inside_of_children {b a : Block} (h : b.children = []) (ha : Inside b a) : a = b := by
  rcases Relation.ReflTransGen.cases_head ha with rfl | ⟨c, hc, -⟩
  · rfl
  · rw [h] at hc
    cases hc

theorem children_orderFlows : ∀ f ∈ orderFlows, ∀ b ∈ f.blocks, b.children = [] ∧ b.own ≠ .fork := by
  simp [orderFlows, ServedFlow.blocks, blocksOf, logBlock, Engine.Block.children]

theorem calls_orderFlows {f g : Nat} (h : Calls orderFlows f g) : f = 0 ∧ g = 1 := by
  obtain ⟨served, hserved, b, hb, a, hinside, name, oneWay, hname, hnamed⟩ := h
  have hmem := mem_of_getElem? hserved
  rw [inside_of_children (children_orderFlows served hmem b hb).1 hinside] at hname
  match f, hserved with
  | 0, hserved =>
    cases hserved
    simp only [ServedFlow.blocks, blocksOf, toList_none, flatMap_nil,
      append_nil, mem_singleton] at hb
    rw [hb] at hname
    cases hname
    exact ⟨rfl, (Option.some.inj hnamed).symm⟩
  | 1, hserved =>
    cases hserved
    simp only [ServedFlow.blocks, blocksOf, toList_none, flatMap_nil,
      append_nil, mem_singleton] at hb
    rw [hb] at hname
    cases hname

theorem acyclic_orderFlows : ∀ f, ¬Relation.TransGen (Calls orderFlows) f f := by
  intro f hcycle
  obtain ⟨g, hfirst, -⟩ := head'_iff.1 hcycle
  obtain ⟨h, -, hlast⟩ := tail'_iff.1 hcycle
  have hzero := (calls_orderFlows hfirst).1
  have hone := (calls_orderFlows hlast).2
  omega

/-- A message of `orders` is parked in the call of `enrich`, whose channel is full. -/
def parkedRun : List (Action Unit) := [.accept 0 (), .take 0, .move 0 0, .lookup 0, .push 0]

theorem parkedRun_enabled :
    (walkTo (step (service orderFlows)) (fun _ a => a ≠ .cancel) initial parkedRun).isSome = true := by
  decide +kernel

theorem parked_caller_goes_on : ∃ s : State Cursor Unit,
    (s.work.channel 1).length = (service orderFlows).buffer 1 ∧
    ∃ a : Action Unit, a.ofWorkers = true ∧ (step (service orderFlows) s a).isSome = true := by
  have hfork : ∀ f ∈ orderFlows, f.ForkFree := by
    intro f hf b hb a ha
    obtain ⟨hchildren, hown⟩ := children_orderFlows f hf b hb
    exact inside_of_children hchildren ha ▸ hown
  have hwalk := walk_of_walkTo (some_get parkedRun_enabled).symm
  refine ⟨_, ?_, acyclic_calls_never_deadlock orderFlows hfork acyclic_orderFlows hwalk
    0 ⟨0, ()⟩ ?_ ?_⟩
  · decide +kernel
  · decide +kernel
  · decide +kernel

end Octo.Runtime.Drain
