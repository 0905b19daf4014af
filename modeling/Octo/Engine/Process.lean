import Octo.Engine.Builder
import Octo.Foundation.ForkJoin

/-!
# Running a built flow

`Process` of every block kind as code that runs in small steps.  The stack of `Frame`s holds what
each enclosing block does with the result of its sub-flow.  Expressions, models and leaf blocks
are answered by a `Choice` of the environment, so every behaviour they can have is covered.  A
fork hands its branches to the shared pool and waits for all of them: the code is a program of the
fork-join library, with `boundFlow.handle` as its entry.

* `flow_progress` — a bound flow in whose run no step parks the last unparked pool worker never
  deadlocks silently; once the last one is parked, the pool never moves again.
* `nested_fork_deadlocks` — a fork inside a fork's branch does so on a pool of one worker.
-/

namespace Octo.Engine

open List Octo.Foundation Octo.Foundation.ForkJoin

/-! ## Code -/

/-- The result of `Process`: a message, none, or an error. -/
inductive Result where
  | message
  | dropped
  | failed
deriving DecidableEq

/-- What the environment answers in one step: how a leaf, an expression or a model call ends, which
branch or how many items are picked, and which tools a model calls. -/
structure Choice where
  result : Result := .message
  pick : Nat := 0
  calls : List Nat := []
deriving DecidableEq

/-- What an enclosing block does with the result of the flow it runs. -/
inductive Frame where
  | chain (rest : List Block)
  | scope (alternative : List Block)
  | each (body : List Block) (left : Nat)
  | enrich
  | cache
  | agent (tools : List Flow) (guardrail : Option Flow) (turns : Nat) (calls : List Nat)
  | retry (main alternative : List Block) (attempts : Nat)
  | root (errorPath : Option Flow)

inductive Control where
  | call (block : Block)
  | ret (result : Result)

structure Code where
  control : Control
  frames : List Frame

variable (frames : List Frame)

/-- `Flow.Process` from the given blocks on. -/
def runChain : List Block → Code
  | [] => ⟨.ret .message, frames⟩
  | b :: rest => ⟨.call b, .chain rest :: frames⟩

/-- `Flow.Process` of a flow that may be absent; the message then passes through. -/
def runOptional : Option Flow → Code
  | none => ⟨.ret .message, frames⟩
  | some f => runChain frames f.blocks

def fallback : Option Flow → Code
  | none => ⟨.ret .failed, frames⟩
  | some f => runChain frames f.blocks

variable (c : Choice)

/-- One turn of the agent loop: the model fails, refuses, finishes or calls tools. -/
def agentTurn (tools : List Flow) (guardrail : Option Flow) (frames : List Frame) :
    Nat → Code
  | 0 => fallback frames guardrail
  | turns + 1 =>
    match c.result, c.calls with
    | .failed, _ => ⟨.ret .failed, frames⟩
    | .dropped, _ => fallback frames guardrail
    | .message, [] => ⟨.ret .message, frames⟩
    | .message, calls => ⟨.ret .message, .agent tools guardrail turns calls :: frames⟩

def exhausted : List Block → Code
  | [] => ⟨.ret .failed, frames⟩
  | alternative => runChain frames alternative

def evaluated (frames : List Frame) (code : Code) : Code :=
  if c.result = .failed then ⟨.ret .failed, frames⟩ else code

variable (b : Block)

/-- `Process` of a block. -/
def callBlock (frames : List Frame) : Cmd Code Flow := match b.own with
  | .leaf _ => .step ⟨.ret c.result, frames⟩
  | .handleErrors => .step (runChain (.scope b.slots.error :: frames) b.slots.process)
  | .fork => .fork b.slots.branches ⟨.ret .message, frames⟩
  | .ifBlock _ =>
    .step (evaluated c frames
      (runOptional frames (if c.pick = 0 then b.slots.then' else b.slots.else')))
  | .switch _ =>
    .step (evaluated c frames (runOptional frames ((b.slots.cases[c.pick]?).or b.slots.default')))
  | .foreach _ _ =>
    .step (evaluated c frames
      ⟨.ret .message, .each ((b.slots.body.map (·.blocks)).getD []) c.pick :: frames⟩)
  | .enrich _ _ => .step (runOptional (.enrich :: frames) b.slots.body)
  | .cacheScope _ _ =>
    -- a pick of zero is a fresh hit
    .step (evaluated c frames (if c.pick = 0 then ⟨.ret .message, frames⟩
        else runOptional (.cache :: frames) b.slots.body))
  | .aiRouter _ _ _ =>
    .step (evaluated c frames (runOptional frames ((b.slots.routes[c.pick]?).or b.slots.default')))
  | .aiAgent _ _ _ maxIterations _ =>
    .step (agentTurn c b.slots.tools b.slots.default' frames maxIterations.toNat)
  | .aiRetry _ _ maxAttempts =>
    .step (runChain (.retry b.slots.process b.slots.error maxAttempts.toNat :: frames)
      b.slots.process)

def returnTo (r : Result) (frames : List Frame) : Frame → Code
  | .chain rest => if r = .message then runChain frames rest else ⟨.ret r, frames⟩
  | .scope alternative => if r = .failed then runChain frames alternative else ⟨.ret r, frames⟩
  | .each body left =>
    match r, left with
    | .message, left + 1 => runChain (.each body left :: frames) body
    | _, _ => ⟨.ret r, frames⟩
  | .enrich => if r = .message then evaluated c frames ⟨.ret r, frames⟩ else ⟨.ret r, frames⟩
  | .cache => ⟨.ret r, frames⟩
  | .agent tools guardrail turns calls =>
    -- the result of a tool goes to the model, whatever it is
    match calls with
    | [] => agentTurn c tools guardrail frames turns
    | call :: rest => runOptional (.agent tools guardrail turns rest :: frames) tools[call]?
  | .retry main alternative attempts =>
    match r, attempts with
    | .failed, 0 => exhausted frames alternative
    | .failed, attempts + 1 =>
      if c.result = .failed then exhausted frames alternative
      else runChain (.retry main alternative attempts :: frames) main
    | _, _ => ⟨.ret r, frames⟩
  | .root errorPath =>
    match r, errorPath with
    | .failed, some path => runChain frames path.blocks
    | _, _ => ⟨.ret r, frames⟩

def next : Code → Cmd Code Flow
  | ⟨.call b, frames⟩ => callBlock c b frames
  | ⟨.ret r, []⟩ => .finish (r = .failed)
  | ⟨.ret r, frame :: frames⟩ => .step (returnTo c r frames frame)

/-! ## The pool and the bound flow -/

/-- Its worker count and the capacity of its queue. -/
structure Pool where
  workers : Nat
  queue : Nat
  workers_pos : 0 < workers
  queue_pos : 0 < queue

/-- Non-positive sizes are the defaults, 8 workers and a queue of 64. -/
def Pool.new (workers queue : Int) : Pool where
  workers := if workers ≤ 0 then 8 else workers.toNat
  queue := if queue ≤ 0 then 64 else queue.toNat
  workers_pos := by
    split
    · decide
    · omega
  queue_pos := by
    split
    · decide
    · omega

/-- The root flow, its error path, and who runs them. -/
structure BoundFlow where
  root : Flow
  errorPath : Option Flow
  workers : Nat
  pool : Pool

namespace BoundFlow

variable (bf : BoundFlow)

/-- `boundFlow.handle` as a program, with the branches of a fork as tasks and the first error of a
branch as the fork's result. -/
def program : Program Code Flow Choice where
  entry := runChain [.root bf.errorPath] bf.root.blocks
  start branch := runChain [] branch.blocks
  next := next
  resume failed code := ⟨.ret (if failed then .failed else .message), code.frames⟩

/-- With the messages the source will send. -/
def start (messages : Nat) : State Code Flow := initial bf.workers bf.pool.workers messages

def Step : State Code Flow → State Code Flow → Prop := ForkJoin.Step bf.program bf.pool.queue

def SlackStep (s s' : State Code Flow) : Prop := bf.Step s s' ∧ Slack s'

/-- All started messages are finished, or a step is enabled, or `Submit` panicked. -/
def Progress : State Code Flow → Prop := ForkJoin.Progress bf.program bf.pool.queue

end BoundFlow

instance : Nonempty Choice := ⟨{}⟩

theorem slack_of_idle {s : State Code Flow} (h : ⟨.pool, none, .idle⟩ ∈ s.workers) : Slack s := by
  refine ⟨_, h, rfl, ?_⟩
  rintro ⟨g, code, hs, -⟩
  cases hs

theorem slack_start (bf : BoundFlow) (messages : Nat) : Slack (bf.start messages) := by
  have hpos := bf.pool.workers_pos
  simp only [BoundFlow.start, initial]
  exact slack_of_idle (mem_append_right _ (mem_replicate.2 ⟨by omega, rfl⟩))

/-- **No silent deadlock while the pool has slack.** -/
theorem flow_progress (bf : BoundFlow) (messages : Nat) :
    (∀ s, Relation.ReflTransGen bf.SlackStep (bf.start messages) s → bf.Progress s) ∧
    (∀ s s', Relation.ReflTransGen bf.Step (bf.start messages) s → ¬ Slack s →
      Relation.ReflTransGen bf.Step s s' → ¬ Slack s') := by
  have hinv : ∀ s, Relation.ReflTransGen bf.Step (bf.start messages) s → Inv s := fun s h =>
    inv_of_reaches (inv_initial _ _ _) h
  constructor
  · intro s h
    have hreach : Relation.ReflTransGen bf.Step (bf.start messages) s :=
      Relation.ReflTransGen.mono (fun _ _ hstep => hstep.1) _ _ h
    have hslack : Slack s := by
      rcases Relation.ReflTransGen.cases_tail h with rfl | ⟨m, -, hstep⟩
      · exact slack_start bf messages
      · exact hstep.2
    exact progress_of_slack (hinv s hreach) hslack
  · intro s s' hs hstarved h
    induction h with
    | refl => exact hstarved
    | tail hm hstep ih => exact starved_step (hinv _ (hs.trans hm)) hstep ih

def logBlock : Block := ⟨"", "log", .leaf fun _ => none, {}⟩

def forkBlock (branch : List Block) : Block := ⟨"", "fork", .fork, { branches := [⟨"", branch⟩] }⟩

def nestedForks : BoundFlow where
  root := ⟨"nested", [forkBlock [forkBlock [logBlock]]]⟩
  errorPath := none
  workers := 1
  pool := Pool.new 1 0

/-- The flow worker takes the message, forks and waits; the pool worker takes the branch, forks and
waits. -/
def nestedSchedule : List (Nat × Choice) :=
  [(0, {}), (0, {}), (0, {}), (0, {}), (1, {}), (1, {}), (1, {}), (1, {})]

theorem nested_fork_waits :
    ∃ s, Relation.ReflTransGen nestedForks.SlackStep (nestedForks.start 1) s ∧ s.queue.length = 1 ∧
      nestedForks.Progress s := by
  have hidle : ∀ w, (⟨.pool, none, .idle⟩ : Worker Code Flow) ∈ [w, ⟨.pool, none, .idle⟩] := by simp
  have hreach : Relation.ReflTransGen nestedForks.SlackStep (nestedForks.start 1) _ :=
    .head ⟨⟨0, {}, rfl⟩, slack_of_idle (hidle _)⟩ <| .head ⟨⟨0, {}, rfl⟩, slack_of_idle (hidle _)⟩ <|
      .head ⟨⟨0, {}, rfl⟩, slack_of_idle (hidle _)⟩ <| .single ⟨⟨0, {}, rfl⟩, slack_of_idle (hidle _)⟩
  exact ⟨_, hreach, rfl, (flow_progress nestedForks 1).1 _ hreach⟩

/-- The only pool worker waits for a branch that only it could run. -/
theorem nested_fork_deadlocks :
    ∃ s, run nestedForks.program nestedForks.pool.queue (nestedForks.start 1) nestedSchedule =
      some s ∧ ¬ nestedForks.Progress s := by
  refine ⟨_, rfl, ?_⟩
  rintro (h | ⟨s', i, c, h⟩ | h)
  · have hidle := h _ (mem_cons_self)
    cases hidle
  · match i with
    | 0 => cases h
    | 1 => cases h
    | i + 2 => cases h
  · cases h

/-! ## Forks without forks in their branches -/

def blocksOf (flows : List Flow) : List Block := flows.flatMap (·.blocks)

@[simp] theorem blocksOf_append (fs gs : List Flow) :
    blocksOf (fs ++ gs) = blocksOf fs ++ blocksOf gs := flatMap_append

def Block.children : List Block := b.slots.process ++ b.slots.error ++
  blocksOf (b.slots.branches ++ b.slots.then'.toList ++ b.slots.else'.toList ++ b.slots.cases ++
    b.slots.default'.toList ++ b.slots.body.toList ++ b.slots.routes ++ b.slots.tools)

def Frame.blocks : Frame → List Block
  | .chain rest => rest
  | .scope alternative => alternative
  | .each body _ => body
  | .enrich => []
  | .cache => []
  | .agent tools guardrail _ _ => blocksOf (tools ++ guardrail.toList)
  | .retry main alternative _ => main ++ alternative
  | .root errorPath => blocksOf errorPath.toList

def Control.blocks : Control → List Block
  | .call b => [b]
  | .ret _ => []

def Code.blocks (code : Code) : List Block := code.control.blocks ++ code.frames.flatMap (·.blocks)

def framesBlocks : List Block := frames.flatMap (·.blocks)

@[simp] theorem framesBlocks_cons (f : Frame) (frames : List Frame) :
    framesBlocks (f :: frames) = f.blocks ++ framesBlocks frames := rfl

@[simp] theorem blocks_ret (r : Result) (frames : List Frame) :
    Code.blocks ⟨.ret r, frames⟩ = framesBlocks frames := rfl

@[simp] theorem blocks_call (frames : List Frame) :
    Code.blocks ⟨.call b, frames⟩ = b :: framesBlocks frames := rfl

variable (frames : List Frame)

open Frame

@[simp] theorem blocks_runChain (blocks : List Block) :
    (runChain frames blocks).blocks = blocks ++ framesBlocks frames := by
  cases blocks <;> simp [runChain, blocks]

@[simp] theorem blocks_runOptional (f : Option Flow) :
    (runOptional frames f).blocks = blocksOf f.toList ++ framesBlocks frames := by
  cases f <;> simp [runOptional, blocksOf]

@[simp] theorem blocks_fallback (f : Option Flow) :
    (fallback frames f).blocks = blocksOf f.toList ++ framesBlocks frames := by
  cases f <;> simp [fallback, blocksOf]

@[simp] theorem blocks_exhausted (alternative : List Block) :
    (exhausted frames alternative).blocks = alternative ++ framesBlocks frames := by
  cases alternative <;> simp [exhausted]

variable {frames : List Frame} {c : Choice}

theorem mem_evaluated {code : Code} {b : Block}
    (h : b ∈ (evaluated c frames code).blocks) : b ∈ code.blocks ∨ b ∈ framesBlocks frames := by
  unfold evaluated at h
  split at h
  · exact .inr h
  · exact .inl h

theorem mem_agentTurn {tools : List Flow} {guardrail : Option Flow} {turns : Nat} {b : Block}
    (h : b ∈ (agentTurn c tools guardrail frames turns).blocks) :
    b ∈ blocksOf (tools ++ guardrail.toList) ∨ b ∈ framesBlocks frames := by
  rw [blocksOf_append, mem_append]
  unfold agentTurn at h
  split at h
  · rw [blocks_fallback, mem_append] at h
    tauto
  · split at h <;>
      simp only [blocks_ret, blocks_fallback, framesBlocks_cons, blocks, blocksOf_append,
        mem_append] at h <;> tauto

theorem mem_blocksOf_getElem {flows : List Flow} {i : Nat} {b : Block}
    (h : b ∈ blocksOf flows[i]?.toList) : b ∈ blocksOf flows := by
  simp only [blocksOf, mem_flatMap, Option.mem_toList] at h ⊢
  obtain ⟨f, hf, hb⟩ := h
  exact ⟨f, mem_of_getElem? hf, hb⟩

theorem mem_blocksOf_or {flows : List Flow} {i : Nat} {f : Option Flow} {b : Block}
    (h : b ∈ blocksOf (flows[i]?.or f).toList) : b ∈ blocksOf flows ∨ b ∈ blocksOf f.toList := by
  cases hi : flows[i]? with
  | none =>
    rw [hi] at h
    exact .inr h
  | some =>
    refine .inl (mem_blocksOf_getElem (i := i) ?_)
    rw [hi] at h ⊢
    exact h

variable {a : Block}

theorem mem_callBlock {b : Block} {code : Code}
    (h : callBlock c b frames = .step code) (ha : a ∈ code.blocks) :
    a ∈ b.children ∨ a ∈ framesBlocks frames := by
  simp only [Block.children, blocksOf_append, mem_append]
  unfold callBlock at h
  split at h <;> cases h
  · exact .inr ha
  · simp only [blocks_runChain, framesBlocks_cons, mem_append] at ha
    tauto
  · have ha := mem_evaluated ha
    rw [blocks_runOptional, mem_append] at ha
    split at ha <;> tauto
  · have ha := mem_evaluated ha
    rw [blocks_runOptional, mem_append] at ha
    have := @mem_blocksOf_or b.slots.cases c.pick b.slots.default' a
    tauto
  · have ha := mem_evaluated ha
    have hbody : (b.slots.body.map (·.blocks)).getD [] = blocksOf b.slots.body.toList := by
      cases b.slots.body <;> simp [blocksOf]
    simp only [blocks_ret, framesBlocks_cons, hbody, mem_append] at ha
    tauto
  · simp only [blocks_runOptional, mem_append] at ha
    tauto
  · have ha := mem_evaluated ha
    split at ha <;>
      simp only [blocks_ret, blocks_runOptional, mem_append] at ha <;> tauto
  · have ha := mem_evaluated ha
    rw [blocks_runOptional, mem_append] at ha
    have := @mem_blocksOf_or b.slots.routes c.pick b.slots.default' a
    tauto
  · have ha := mem_agentTurn ha
    simp only [blocksOf_append, mem_append] at ha
    tauto
  · simp only [blocks_runChain, framesBlocks_cons, blocks, mem_append] at ha
    tauto

theorem mem_returnTo {r : Result} {f : Frame}
    (ha : a ∈ (returnTo c r frames f).blocks) : a ∈ f.blocks ∨ a ∈ framesBlocks frames := by
  unfold returnTo at ha
  split at ha
  case h_4 =>
    split at ha
    · exact .inr ((mem_evaluated ha).elim id id)
    · exact .inr ha
  case h_6 tools guardrail turns calls =>
    split at ha
    · exact mem_agentTurn ha
    · simp only [blocks_runOptional, framesBlocks_cons, blocks, mem_append] at ha ⊢
      rcases ha with ha | ha
      · exact .inl (by simp [mem_blocksOf_getElem ha])
      · exact ha
  all_goals
    try split at ha
    all_goals
      try split at ha
      all_goals
        simp_all [blocks, blocksOf] <;> tauto

/-- **Step.** Code goes on with blocks it already held, or blocks directly inside one of them. -/
theorem next_blocks {code code' : Code} (h : next c code = .step code')
    (ha : a ∈ code'.blocks) : a ∈ code.blocks ∨ ∃ b ∈ code.blocks, a ∈ b.children := by
  unfold next at h
  split at h
  next b frames =>
    rcases mem_callBlock h ha with hchild | hframes
    · exact .inr ⟨b, by simp, hchild⟩
    · exact .inl (by simp [hframes])
  · cases h
  next r frame frames =>
    cases h
    rcases mem_returnTo ha with hframe | hframes
    · exact .inl (by simp [hframe])
    · exact .inl (by simp [hframes])

theorem next_fork {code code' : Code} {tasks : List Flow}
    (h : next c code = .fork tasks code') :
    ∃ b ∈ code.blocks, b.own = .fork ∧ tasks = b.slots.branches ∧
      ∀ a ∈ code'.blocks, a ∈ code.blocks := by
  unfold next at h
  split at h
  next b frames =>
    unfold callBlock at h
    split at h <;> cases h
    exact ⟨b, by simp, ‹_›, rfl, fun a ha => by simp_all⟩
  · cases h
  · cases h

def Inside : Block → Block → Prop := Relation.ReflTransGen fun b a => a ∈ b.children

def NoFork : Prop := ∀ a, Inside b a → a.own ≠ .fork

end Octo.Engine
