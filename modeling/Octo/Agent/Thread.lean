import Octo.Agent.Memory
import Octo.Config.Types
import Octo.Foundation.Traverse

/-!
# The agent loop and the life of a memory thread

`aiAgent.Process` with its three exits, what each exit persists, and the sequence of runs that
share one thread.

* `life_wellFormed_iff` — every list sent is well formed exactly when every run that a later run
  reads back saves cleanly: a refusal carries no tool calls, and a run cut off at its iteration cap
  is not pruned past its last call.
-/

namespace Octo.Agent

open List
open Octo.Foundation.Traverse (mapM_map_eq)

/-! ## The configured block -/

/-- A memory-enabled `ai-agent` block as the builder leaves it: the names of its tool branches, a
positive iteration cap and a positive token budget. -/
structure AIAgent where
  branches : List String
  maxIterations : Nat
  memoryMaxTokens : Int
  memoryCompaction : Compaction
  iterations_pos : 0 < maxIterations
  tokens_pos : 0 < memoryMaxTokens

def defaultAgentIterations : Nat := 8

def defaultMemoryMaxTokens : Int := 8000

/-- The strategy named by `memoryCompaction`; the empty name is pruning. -/
def parseCompaction (compaction : String) : Except String Compaction :=
  if compaction = "" ∨ compaction = "prune" then .ok .prune
  else if compaction = "summarize" then .ok .summarize
  else .error ("ai-agent memoryCompaction must be \"prune\" or \"summarize\", got "
    ++ compaction.quote)

/-! ## One run -/

inductive LLMStopReason where
  | endTurn
  | toolUse
  | maxTokens
  | refusal
  | other (reason : String)
deriving DecidableEq

/-- `core.LLMResponse`: `raw` is the assistant turn to append, carrying the same tool calls. -/
structure LLMResponse where
  text : String
  toolCalls : List LLMToolCall
  stopReason : LLMStopReason
  raw : LLMMessage
  raw_role : raw.role = .assistant
  raw_toolCalls : raw.toolCalls = toolCalls

/-- What becomes of a tool call whose name is a branch of the block. -/
inductive BranchOutcome where
  | invalidArguments (err : String)
  | failed (err : String)
  | dropped
  | encodeFailed (err : String)
  | body (content : String)

def errorResult (id content : String) : LLMToolResult :=
  { toolCallID := id, content := content, isError := true }

def runTool (a : AIAgent) (call : LLMToolCall) (outcome : BranchOutcome) : LLMToolResult :=
  if call.name ∈ a.branches then
    match outcome with
    | .invalidArguments err => errorResult call.id ("invalid arguments: " ++ err)
    | .failed err => errorResult call.id err
    | .dropped => errorResult call.id "tool produced no result"
    | .encodeFailed err => errorResult call.id ("encode result: " ++ err)
    | .body content => { toolCallID := call.id, content := content }
  else errorResult call.id ("unknown tool " ++ call.name.quote)

/-- One run of a block on the thread, with everything it meets: the encoded input body, the reply to
each request of the loop (`none` when `Complete` fails), the outcome of each call, the reply to a
summary request, and whether the store can be read and written. -/
structure Invocation where
  agent : AIAgent
  body : String
  reply : Nat → Option LLMResponse
  outcome : Nat → Nat → BranchOutcome
  summary : Messages → Option String
  loads : Bool := true
  saves : Bool := true

/-- The exits of `aiAgent.Process`. -/
inductive Exit where
  | failed
  | refused (resp : LLMResponse)
  | finished (resp : LLMResponse)
  | capped

/-- What the loop leaves: the lists it sent, its exit, and the accumulated conversation. -/
structure Outcome where
  requests : List Messages
  exit : Exit
  messages : Messages

/-- The tool turn answering the calls of iteration `iter`. -/
def Invocation.toolTurn (i : Invocation) (iter : Nat) (calls : List LLMToolCall) : LLMMessage :=
  { role := .tool
    toolResults := calls.mapIdx fun k call => runTool i.agent call (i.outcome iter k) }

/-- The loop of `aiAgent.Process`, with `fuel` iterations left. -/
def Invocation.loop (i : Invocation) : Nat → Nat → Messages → Outcome
  | 0, _, messages => { requests := [], exit := .capped, messages := messages }
  | fuel + 1, iter, messages =>
    match i.reply iter with
    | none => { requests := [messages], exit := .failed, messages := messages }
    | some resp =>
      let replied := messages ++ [resp.raw]
      if resp.stopReason = .refusal then
        { requests := [messages], exit := .refused resp, messages := replied }
      else if resp.toolCalls = [] then
        { requests := [messages], exit := .finished resp, messages := replied }
      else
        let out := i.loop fuel (iter + 1) (replied ++ [i.toolTurn iter resp.toolCalls])
        { out with requests := messages :: out.requests }

/-- The thread's transcript and the task for this input. -/
def Invocation.initConversation (i : Invocation) (history : Messages) : Messages :=
  history ++ [.user ("Accomplish the task for this input message body:\n" ++ i.body)]

/-- The loop of a run that found `history` stored. -/
def Invocation.process (i : Invocation) (history : Messages) : Outcome :=
  i.loop i.agent.maxIterations 0 (i.initConversation history)

def Invocation.compact (i : Invocation) (messages : Messages) : Compacted :=
  compactMemory i.summary messages i.agent.memoryMaxTokens i.agent.memoryCompaction

open Invocation

section Store

-- How `encoding/json` gives back a raw argument it has written, `none` when the argument is not
-- valid JSON and the transcript cannot be encoded.
variable (codec : Option String → Option String)

/-- One turn as `loadMemory` reads back what `saveMemory` wrote. -/
def storedMessage (m : LLMMessage) : Option LLMMessage :=
  (m.toolCalls.mapM fun c => (codec c.input).map fun raw => { c with input := some raw }).map
    fun calls => { m with toolCalls := calls }

/-- A transcript as `loadMemory` reads back what `saveMemory` wrote. -/
def storedTranscript (msgs : Messages) : Option Messages :=
  msgs.mapM (storedMessage codec)

/-- The thread's entry: the transcript it decodes to, `none` when the thread is new. -/
abbrev Store := Option Messages

/-- `loadMemory`: a missing thread is an empty transcript. -/
def Store.history (store : Store) : Messages := store.getD []

/-- `saveMemory` as `persistMemory` uses it: a failure leaves the entry and is only logged. -/
def Invocation.save (i : Invocation) (store : Store) (msgs : Messages) : Store :=
  if i.saves then (storedTranscript codec msgs).or store else store

/-- A run on the thread: the entry it leaves and the message lists it sent. -/
def Invocation.run (i : Invocation) (store : Store) : Store × List Messages :=
  if i.loads then
    let out := i.process store.history
    match out.exit with
    | .failed => (store, out.requests)
    | _ =>
      let compacted := i.compact out.messages
      (i.save codec store compacted.msgs, out.requests ++ compacted.requests)
  else (store, [])

def life (store : Store) : List Invocation → List Messages
  | [] => []
  | i :: rest => (i.run codec store).2 ++ life (i.run codec store).1 rest

def trace (store : Store) : List Invocation → List (Store × Invocation)
  | [] => []
  | i :: rest => (store, i) :: trace (i.run codec store).1 rest

/-! ## What the loop leaves -/

@[simp] theorem runTool_toolCallID (a : AIAgent) (call : LLMToolCall) (outcome : BranchOutcome) :
    (runTool a call outcome).toolCallID = call.id := by
  unfold runTool errorResult
  split
  · split <;> rfl
  · rfl

theorem toolTurn_answers (i : Invocation) (iter : Nat) (resp : LLMResponse) :
    Answers (i.toolTurn iter resp.toolCalls) resp.raw := by
  refine ⟨rfl, ?_⟩
  rw [resp.raw_toolCalls]
  apply List.ext_getElem
  · simp [toolTurn]
  · intro k h₁ h₂
    simp [toolTurn]

theorem LLMResponse.asks_iff (resp : LLMResponse) : resp.raw.Asks ↔ resp.toolCalls ≠ [] := by
  simp [LLMMessage.Asks, resp.raw_role, resp.raw_toolCalls]

theorem LLMResponse.plain_iff (resp : LLMResponse) : resp.raw.Plain ↔ resp.toolCalls = [] := by
  rw [LLMMessage.Plain, resp.asks_iff]
  simp [resp.raw_role]

def Outcome.Ends (out : Outcome) : Prop := match out.exit with
  | .failed => True
  | .refused resp => ∃ l, out.messages = l ++ [resp.raw] ∧ WellFormed l
  | .finished resp =>
    ∃ l, out.messages = l ++ [resp.raw] ∧ WellFormed l ∧ resp.toolCalls = []
  | .capped => ∃ l a t, out.messages = l ++ [a, t] ∧ WellFormed l ∧ a.Asks ∧ Answers t a

/-- **The loop**: on a well-formed conversation it sends well-formed lists only, and it ends in one
of the four ways. -/
theorem loop_spec (i : Invocation) : ∀ (fuel iter : Nat) (messages : Messages),
    WellFormed messages → (∀ req ∈ (i.loop fuel iter messages).requests, WellFormed req) ∧
      (fuel ≠ 0 → (i.loop fuel iter messages).Ends)
  | 0, _, _, _ => ⟨by simp [loop], absurd rfl⟩
  | fuel + 1, iter, messages, hwf => by
    unfold loop
    split
    · exact ⟨by simpa using hwf, fun _ => trivial⟩
    next resp _ =>
      split
      · exact ⟨by simpa using hwf, fun _ => ⟨messages, rfl, hwf⟩⟩
      · split
        next hcalls =>
          exact ⟨by simpa using hwf, fun _ => ⟨messages, rfl, hwf, hcalls⟩⟩
        next hcalls =>
          have hasks : resp.raw.Asks := resp.asks_iff.2 hcalls
          have hanswers := toolTurn_answers i iter resp
          have hnext : WellFormed (messages ++ [resp.raw] ++ [i.toolTurn iter resp.toolCalls]) := by
            rw [append_assoc, wellFormed_append hwf]
            exact .inl ⟨hasks, hanswers, trivial⟩
          obtain ⟨hreqs, hends⟩ := loop_spec i fuel (iter + 1) _ hnext
          refine ⟨?_, fun _ => ?_⟩
          · intro req hreq
            rcases mem_cons.1 hreq with rfl | hreq
            · exact hwf
            · exact hreqs req hreq
          · cases fuel with
            | zero => exact ⟨messages, _, _, by simp [loop], hwf, hasks, hanswers⟩
            | succ => exact hends (by simp)

theorem process_head (i : Invocation) (history : Messages) :
    i.initConversation history ∈ (i.process history).requests := by
  have hpos := i.agent.iterations_pos
  unfold process
  generalize i.agent.maxIterations = fuel at hpos
  cases fuel with
  | zero => omega
  | succ =>
    unfold loop
    split
    · simp
    · split
      · simp
      · split <;> simp

theorem initConversation_wellFormed (i : Invocation) (history : Messages) :
    WellFormed (i.initConversation history) ↔ WellFormed history :=
  wellFormed_concat_plain (LLMMessage.plain_user _) history

theorem process_spec (i : Invocation) {history : Messages} (h : WellFormed history) :
    (∀ req ∈ (i.process history).requests, WellFormed req) ∧ (i.process history).Ends := by
  obtain ⟨hreqs, hends⟩ := loop_spec i i.agent.maxIterations 0 _
    ((initConversation_wellFormed i history).2 h)
  exact ⟨hreqs, hends (Nat.ne_of_gt i.agent.iterations_pos)⟩

/-! ## What a run saves -/

def shape (m : LLMMessage) : LLMRole × List String × List String :=
  (m.role, m.toolCalls.map (·.id), m.toolResults.map (·.toolCallID))

theorem asks_of_shape {m m' : LLMMessage} (h : shape m = shape m') : m.Asks ↔ m'.Asks := by
  simp only [shape, Prod.mk.injEq] at h
  obtain ⟨hrole, hcalls, -⟩ := h
  have hlength : m.toolCalls.length = m'.toolCalls.length := by
    simpa using congrArg List.length hcalls
  simp [LLMMessage.Asks, hrole, ← length_eq_zero_iff, hlength]

theorem wellFormed_of_shape : ∀ l l' : Messages, l.map shape = l'.map shape →
    WellFormed l → WellFormed l'
  | [], l', h, _ => by
    rw [map_eq_nil_iff.1 h.symm]
    trivial
  | m :: rest, [], h, _ => by simp at h
  | m :: rest, m' :: rest', h, hwf => by
    simp only [map_cons, List.cons.injEq] at h
    obtain ⟨hm, hrest⟩ := h
    have hrole : m.role = m'.role := congrArg (·.1) hm
    rcases hwf.cases with ⟨hp, hr⟩ | ⟨ha, t, tail, rfl, ht, hr⟩
    · have hp' : m'.Plain := ⟨hrole ▸ hp.1, fun ha => hp.2 ((asks_of_shape hm).2 ha)⟩
      exact (wellFormed_cons_plain hp' _).2 (wellFormed_of_shape rest rest' hrest hr)
    · cases rest' with
      | nil => simp at hrest
      | cons t' tail' =>
        simp only [map_cons, List.cons.injEq] at hrest
        obtain ⟨htt, htail⟩ := hrest
        have hcalls : m.toolCalls.map (·.id) = m'.toolCalls.map (·.id) := congrArg (·.2.1) hm
        have hresults : t.toolResults.map (·.toolCallID) = t'.toolResults.map (·.toolCallID) :=
          congrArg (·.2.2) htt
        have ht' : Answers t' m' :=
          ⟨(congrArg (·.1) htt : t.role = t'.role) ▸ ht.1, by rw [← hresults, ht.2, hcalls]⟩
        exact (wellFormed_cons_asks ((asks_of_shape hm).1 ha) _).2
          ⟨t', tail', rfl, ht', wellFormed_of_shape tail tail' htail hr⟩

theorem storedMessage_shape {m m' : LLMMessage} (h : storedMessage codec m = some m') :
    shape m' = shape m := by
  simp only [storedMessage, Option.map_eq_some_iff] at h
  obtain ⟨calls, hcalls, rfl⟩ := h
  have hids : calls.map (·.id) = m.toolCalls.map (·.id) := by
    refine mapM_map_eq ?_ _ _ hcalls
    intro a b hab
    simp only [Option.map_eq_some_iff] at hab
    obtain ⟨raw, -, rfl⟩ := hab
    rfl
  simp [shape, hids]

theorem storedTranscript_wellFormed {msgs saved : Messages}
    (h : storedTranscript codec msgs = some saved) : WellFormed saved ↔ WellFormed msgs := by
  have hshape := mapM_map_eq (fun _ _ => storedMessage_shape codec) msgs saved h
  exact ⟨wellFormed_of_shape saved msgs hshape, wellFormed_of_shape msgs saved hshape.symm⟩

/-- **When the saved transcript is well formed**: a refusal must carry no calls, or be folded into a
summary; a conversation cut off at the cap must be summarized, or its last call and answer must fit
the budget. -/
def Outcome.SavesCleanly (out : Outcome) (i : Invocation) : Prop :=
  let budget := i.agent.memoryMaxTokens
  match out.exit with
  | .failed => True
  | .finished _ => True
  | .refused resp =>
    resp.toolCalls = [] ∨ (Over budget out.messages ∧
        Summarized i.summary budget i.agent.memoryCompaction out.messages ∧
        budget.tdiv 2 < estimateTokens [resp.raw])
  | .capped =>
    Summarized i.summary budget i.agent.memoryCompaction out.messages ∨
      (estimateTokens (out.messages.drop (out.messages.length - 2)) : Int) ≤ budget

variable {l : Messages}

theorem compact_plain (i : Invocation) {p : LLMMessage} (h : WellFormed l)
    (hp : p.Plain) : WellFormed (i.compact (l ++ [p])).msgs := by
  have hwf : WellFormed (l ++ [p]) := (wellFormed_append h _).2 hp
  unfold compact
  rcases compactMemory_cases i.summary (l ++ [p]) i.agent.memoryMaxTokens
      i.agent.memoryCompaction with ⟨-, heq⟩ | ⟨-, -, s, heq⟩ | ⟨-, -, heq⟩
  · rw [heq]
    exact hwf
  · rw [heq]
    exact wellFormed_summarized hwf s _
  · rw [heq]
    exact pruneMemory_final hp hwf

theorem compact_unanswered_iff (i : Invocation) {a : LLMMessage}
    (ha : a.Asks) : WellFormed (i.compact (l ++ [a])).msgs ↔
      Over i.agent.memoryMaxTokens (l ++ [a]) ∧
        Summarized i.summary i.agent.memoryMaxTokens i.agent.memoryCompaction (l ++ [a]) ∧
        i.agent.memoryMaxTokens.tdiv 2 < estimateTokens [a] := by
  unfold compact
  rcases compactMemory_cases i.summary (l ++ [a]) i.agent.memoryMaxTokens
      i.agent.memoryCompaction with ⟨hunder, heq⟩ | ⟨hover, hsum, s, heq⟩ | ⟨-, hnot, heq⟩
  · rw [heq]
    exact iff_of_false (not_wellFormed_unanswered ha l) (fun h => hunder h.1)
  · rw [heq, wellFormed_cons_plain (LLMMessage.plain_user s), wellFormed_kept_unanswered_iff ha]
    exact ⟨fun h => ⟨hover, hsum, h⟩, fun h => h.2.2⟩
  · rw [heq]
    exact iff_of_false (pruneMemory_unanswered ha) (fun h => hnot h.2.1)

theorem compact_answered_iff (i : Invocation) {a t : LLMMessage}
    (h : WellFormed l) (ha : a.Asks) (ht : Answers t a) :
    WellFormed (i.compact (l ++ [a, t])).msgs ↔
      Summarized i.summary i.agent.memoryMaxTokens i.agent.memoryCompaction (l ++ [a, t]) ∨
        (estimateTokens [a, t] : Int) ≤ i.agent.memoryMaxTokens := by
  have hwf : WellFormed (l ++ [a, t]) := (wellFormed_append h _).2 (.inl ⟨ha, ht, trivial⟩)
  unfold compact
  rcases compactMemory_cases i.summary (l ++ [a, t]) i.agent.memoryMaxTokens
      i.agent.memoryCompaction with ⟨hunder, heq⟩ | ⟨-, hsum, s, heq⟩ | ⟨-, hnot, heq⟩
  · rw [heq]
    refine iff_of_true hwf (.inr ?_)
    have hle := estimateTokens_suffix (suffix_append l [a, t])
    have hpos := i.agent.tokens_pos
    unfold Over at hunder
    omega
  · rw [heq]
    exact iff_of_true (wellFormed_summarized hwf s _) (.inl hsum)
  · rw [heq, pruneMemory_answered_iff h ha ht]
    exact ⟨.inr, fun h => h.resolve_left hnot⟩

/-- **What a run hands to the store** is well formed exactly when it saves cleanly. -/
theorem compact_wellFormed_iff (i : Invocation) {out : Outcome} (hends : out.Ends)
    (hexit : out.exit ≠ .failed) :
    WellFormed (i.compact out.messages).msgs ↔ out.SavesCleanly i := by
  obtain ⟨requests, exit, messages⟩ := out
  cases exit with
  | failed => exact absurd rfl hexit
  | finished resp =>
    obtain ⟨l, rfl, hl, hcalls⟩ := hends
    exact iff_of_true (compact_plain i hl (resp.plain_iff.2 hcalls)) trivial
  | refused resp =>
    obtain ⟨l, rfl, hl⟩ := hends
    by_cases hcalls : resp.toolCalls = []
    · exact iff_of_true (compact_plain i hl (resp.plain_iff.2 hcalls)) (.inl hcalls)
    · show _ ↔ _ ∨ _
      rw [compact_unanswered_iff i (resp.asks_iff.2 hcalls), or_iff_right hcalls]
  | capped =>
    obtain ⟨l, a, t, rfl, hl, ha, ht⟩ := hends
    show _ ↔ _ ∨ _
    rw [compact_answered_iff i hl ha ht]
    simp

/-! ## The life of a thread -/

/-- A run after which the thread can be read back: if it reaches the store at all, it saves
cleanly. -/
def Invocation.Clean (i : Invocation) (store : Store) : Prop := let out := i.process store.history
  i.loads = true → i.saves = true → (storedTranscript codec (i.compact out.messages).msgs).isSome →
    out.SavesCleanly i

variable {store : Store}

theorem save_wellFormed_iff (i : Invocation) (h : WellFormed store.history)
    (msgs : Messages) : WellFormed (i.save codec store msgs).history ↔
      (i.saves = true → (storedTranscript codec msgs).isSome → WellFormed msgs) := by
  unfold save
  split
  next hsaves =>
    cases hstored : storedTranscript codec msgs with
    | none => simp [h]
    | some => simpa [hsaves, Store.history] using storedTranscript_wellFormed codec hstored
  next hsaves =>
    simp [h, hsaves]

theorem run_cases (i : Invocation) (store : Store) :
    (i.loads ≠ true ∧ i.run codec store = (store, [])) ∨
    (i.loads = true ∧ (i.process store.history).exit = .failed ∧
      i.run codec store = (store, (i.process store.history).requests)) ∨
    (i.loads = true ∧ (i.process store.history).exit ≠ .failed ∧ i.run codec store =
        (i.save codec store (i.compact (i.process store.history).messages).msgs,
          (i.process store.history).requests
            ++ (i.compact (i.process store.history).messages).requests)) := by
  unfold run
  split
  next hloads =>
    dsimp only
    split
    next hexit =>
      exact .inr (.inl ⟨hloads, hexit, rfl⟩)
    next hexit =>
      exact .inr (.inr ⟨hloads, hexit, rfl⟩)
  next hloads =>
    exact .inl ⟨hloads, rfl⟩

/-- **One run** from a well-formed entry sends well-formed lists only, and leaves one exactly when
it is clean. -/
theorem run_spec (i : Invocation) (h : WellFormed store.history) :
    (∀ req ∈ (i.run codec store).2, WellFormed req) ∧
      (WellFormed (i.run codec store).1.history ↔ i.Clean codec store) := by
  obtain ⟨hreqs, hends⟩ := process_spec i h
  rcases run_cases codec i store with ⟨hloads, hrun⟩ | ⟨hloads, hexit, hrun⟩ | ⟨hloads, hexit, hrun⟩
  · rw [hrun]
    exact ⟨by simp, iff_of_true h fun hl => absurd hl hloads⟩
  · rw [hrun]
    refine ⟨hreqs, iff_of_true h fun _ _ _ => ?_⟩
    simp [Outcome.SavesCleanly, hexit]
  · rw [hrun]
    constructor
    · exact forall_mem_append.2 ⟨hreqs, compactMemory_requests _ _ _ _⟩
    · rw [save_wellFormed_iff codec i h, compact_wellFormed_iff i hends hexit]
      exact ⟨fun hs _ => hs, fun hc => hc hloads⟩

theorem run_ill_formed (i : Invocation) (h : ¬ WellFormed store.history)
    (hloads : i.loads = true) : ∃ req ∈ (i.run codec store).2, ¬ WellFormed req := by
  refine ⟨i.initConversation store.history, ?_, fun hwf =>
    h ((initConversation_wellFormed i _).1 hwf)⟩
  have hmem := process_head i store.history
  rcases run_cases codec i store with ⟨hnot, -⟩ | ⟨-, -, hrun⟩ | ⟨-, -, hrun⟩
  · exact absurd hloads hnot
  · rw [hrun]
    exact hmem
  · rw [hrun]
    exact mem_append_left _ hmem

theorem run_of_not_loads (i : Invocation) (store : Store) (h : i.loads ≠ true) :
    i.run codec store = (store, []) := by
  unfold run
  rw [if_neg h]

theorem life_ill_formed (store : Store) (h : ¬ WellFormed store.history) :
    ∀ runs : List Invocation, (∀ req ∈ life codec store runs, WellFormed req) ↔
      ∀ x ∈ trace codec store runs, x.2.loads ≠ true
  | [] => by simp [life, trace]
  | i :: rest => by
    by_cases hloads : i.loads = true
    · obtain ⟨req, hreq, hbad⟩ := run_ill_formed codec i h hloads
      refine iff_of_false (fun hall => hbad (hall req ?_)) fun hall => ?_
      · exact mem_append_left _ hreq
      · exact hall (store, i) (by simp [trace]) hloads
    · simp only [life, trace, run_of_not_loads codec i store hloads, nil_append, forall_mem_cons]
      rw [life_ill_formed store h rest]
      exact ⟨fun hall => ⟨hloads, hall⟩, fun hall => hall.2⟩

theorem life_wellFormed_of_store : ∀ (runs : List Invocation) (store : Store),
    WellFormed store.history → ((∀ req ∈ life codec store runs, WellFormed req) ↔
        (trace codec store runs).Pairwise fun x y => y.2.loads = true → x.2.Clean codec x.1)
  | [], _, _ => by simp [life, trace]
  | i :: rest, store, h => by
    obtain ⟨hreqs, hnext⟩ := run_spec codec i h
    have hsplit : (∀ req ∈ life codec store (i :: rest), WellFormed req) ↔
        ∀ req ∈ life codec (i.run codec store).1 rest, WellFormed req := by
      simp only [life, forall_mem_append]
      exact ⟨fun hall => hall.2, fun hall => ⟨hreqs, hall⟩⟩
    rw [hsplit, trace, pairwise_cons]
    by_cases hclean : i.Clean codec store
    · rw [life_wellFormed_of_store rest _ (hnext.2 hclean)]
      exact ⟨fun hall => ⟨fun _ _ _ => hclean, hall⟩, fun hall => hall.2⟩
    · -- the entry left is ill formed: the later runs may only fail to load it
      rw [life_ill_formed codec _ (fun hwf => hclean (hnext.1 hwf)) rest]
      constructor
      · intro hnone
        refine ⟨fun y hy hloads => absurd hloads (hnone y hy), ?_⟩
        exact pairwise_of_forall_mem_list fun x _ y hy hloads => absurd hloads (hnone y hy)
      · intro hall y hy hloads
        exact hclean (hall.1 y hy hloads)

/-- **Conversations over a thread's life.** -/
theorem life_wellFormed_iff (runs : List Invocation) :
    (∀ req ∈ life codec none runs, WellFormed req) ↔
      (trace codec none runs).Pairwise fun x y => y.2.loads = true → x.2.Clean codec x.1 :=
  life_wellFormed_of_store codec runs none trivial

end Store

section Turns

/-! ## What a run adds -/

theorem loop_append (i : Invocation) (pre : Messages) :
    ∀ (fuel iter : Nat) (messages : Messages),
      (i.loop fuel iter (pre ++ messages)).messages = pre ++ (i.loop fuel iter messages).messages ∧
        (i.loop fuel iter (pre ++ messages)).exit = (i.loop fuel iter messages).exit
  | 0, _, _ => ⟨rfl, rfl⟩
  | fuel + 1, iter, messages => by
    unfold loop
    split
    · exact ⟨rfl, rfl⟩
    next resp _ =>
      split
      · exact ⟨append_assoc .., rfl⟩
      · split
        · exact ⟨append_assoc .., rfl⟩
        · have ih := loop_append i pre fuel (iter + 1)
            (messages ++ [resp.raw] ++ [i.toolTurn iter resp.toolCalls])
          simpa [append_assoc] using ih

variable (i : Invocation)

def Invocation.turns : Messages := (i.process []).messages

theorem process_messages (history : Messages) :
    (i.process history).messages = history ++ i.turns :=
  (loop_append i history i.agent.maxIterations 0 (i.initConversation [])).1

variable {messages : Messages}

theorem loop_ne_nil (h : messages ≠ [])
    (fuel iter : Nat) : (i.loop fuel iter messages).messages ≠ [] := by
  have happend := (loop_append i messages fuel iter []).1
  rw [append_nil] at happend
  rw [happend]
  exact append_ne_nil_of_left_ne_nil h _

theorem turns_ne_nil : i.turns ≠ [] := by
  apply loop_ne_nil i
  simp [initConversation]

theorem compact_of_not_over
    (h : ¬Over i.agent.memoryMaxTokens messages) : (i.compact messages).msgs = messages := by
  unfold Over at h
  unfold compact compactMemory
  rw [if_pos (by omega)]

end Turns

/-! ## Two ways to break a thread -/

def smallAgent : AIAgent :=
  { branches := ["lookup"], maxIterations := 1, memoryMaxTokens := 10, memoryCompaction := .prune
    iterations_pos := by decide, tokens_pos := by decide }

def callReply (stopReason : LLMStopReason) : LLMResponse :=
  { text := "", toolCalls := [⟨"call-1", "lookup", none⟩], stopReason := stopReason
    raw := { role := .assistant, toolCalls := [⟨"call-1", "lookup", none⟩] }
    raw_role := rfl, raw_toolCalls := rfl }

/-- A run in which the model always gives this reply and the tool returns `content`. -/
def smallRun (stopReason : LLMStopReason) (content : String) : Invocation :=
  { agent := smallAgent, body := "1", reply := fun _ => some (callReply stopReason)
    outcome := fun _ _ => .body content, summary := fun _ => none }

/-- A nil argument is written, and read back, as `null`. -/
def plainCodec (input : Option String) : Option String := some (input.getD "null")

/-- A refusal that carries a call is saved unanswered, and a run cut off at its cap is pruned to the
answer alone; the next run sends either on. -/
theorem thread_sends_ill_formed :
    (∃ req ∈ life plainCodec none [smallRun .refusal "", smallRun .endTurn ""],
      ¬ WellFormed req) ∧ (∃ req ∈ life plainCodec none
        [smallRun .toolUse "a result that is longer than forty characters",
          smallRun .endTurn ""],
      ¬ WellFormed req) := by
  constructor
  · decide +kernel
  · decide +kernel

end Octo.Agent
