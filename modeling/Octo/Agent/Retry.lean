import Octo.Agent.Thread

/-!
# The repair dialog of ai-retry

`aiRetry.Process` and `aiRetry.revise` of `ai.go`: the protected chain is run again after each
revision of the model, and the dialog grows by the reply and by the answer to one call of it.

* `process_answered_iff` — every request is well formed exactly when each reply that is followed by
  another request holds a single call.
* `retry_attempts` — how often the model is asked.
* `two_calls_unanswered` — a reply with two calls leaves one of them without an answer.
-/

namespace Octo.Agent

open List

def reviseToolName : String := "revise_message"

/-- A failed step, with all that the block meets: whether the `k`-th run of the protected chain
fails, `stateText` after it, the reply to the `k`-th request, whether `applyRevision` takes the
`k`-th revision, and what the error chain does. -/
structure AIRetry where
  maxAttempts : Nat
  fails : Nat → Bool
  stateText : Nat → String
  reply : Nat → Option LLMResponse
  applies : Nat → Bool
  alternative : Option Bool

/-- How `aiRetry.Process` ends: with the message of the `k`-th run, with what the error chain
returns, or with the last error. -/
inductive RetryExit where
  | passed (run : Nat)
  | alternative (ok : Bool)
  | failed

/-- What `aiRetry.Process` sends to the model, and how it ends. -/
structure Repair where
  requests : List Messages
  exit : RetryExit

variable (r : AIRetry)

def AIRetry.opening : LLMMessage :=
  .user ("The step failed.\n" ++ r.stateText 0 ++
    "\nCall revise_message to retry. Fix the body and/or set any missing variables the failing " ++
    "step needs (e.g. a variable referenced as vars.<name> that is absent above) via the " ++
    "\"variables\" field.")

def AIRetry.feedback (run : Nat) (call : LLMToolCall) : LLMMessage :=
  { role := .tool
    toolResults := [errorResult call.id ("That revision did not fix it; the step failed again.\n" ++
      r.stateText run ++ "\nCall revise_message again with a different fix.")] }

/-- The end of `aiRetry.Process` once it gives up. -/
def AIRetry.giveUp : RetryExit := match r.alternative with
  | some ok => .alternative ok
  | none => .failed

def AIRetry.loop (r : AIRetry) : Nat → Nat → Messages → Repair
  | 0, _, _ => ⟨[], r.giveUp⟩
  | left + 1, attempt, convo =>
    match r.reply attempt with
    | none => ⟨[convo], r.giveUp⟩
    | some resp =>
      match resp.toolCalls.find? (·.name = reviseToolName) with
      | none => ⟨[convo], r.giveUp⟩
      | some call =>
        if r.applies attempt then
          if r.fails (attempt + 1) then
            let next := r.loop left (attempt + 1)
              (convo ++ [resp.raw, r.feedback (attempt + 1) call])
            ⟨convo :: next.requests, next.exit⟩
          else ⟨[convo], .passed (attempt + 1)⟩
        else ⟨[convo], r.giveUp⟩

def AIRetry.process : Repair :=
  if r.fails 0 then r.loop r.maxAttempts 0 [r.opening] else ⟨[], .passed 0⟩

/-! ## Dialogs -/

def AnswersOnce (t m : LLMMessage) : Prop :=
  t.role = .tool ∧ (t.toolResults.map (·.toolCallID)).Perm (m.toolCalls.map (·.id))

def Answered : Messages → Prop
  | [] => True
  | m :: rest => (m.Asks → ∃ t rest', rest = t :: rest' ∧ AnswersOnce t m) ∧ Answered rest

theorem Answered.append {convo : Messages} (h : Answered convo)
    (more : Messages) : Answered (convo ++ more) ↔ Answered more := by
  induction convo with
  | nil => rfl
  | cons m rest ih =>
    refine ⟨fun hall => (ih h.2).1 hall.2, fun hmore => ⟨fun hasks => ?_, (ih h.2).2 hmore⟩⟩
    obtain ⟨t, rest', rfl, ht⟩ := h.1 hasks
    exact ⟨t, rest' ++ more, rfl, ht⟩

variable (r : AIRetry)

open AIRetry

theorem answered_opening : Answered [r.opening] := by
  simp [Answered, opening, LLMMessage.user, LLMMessage.Asks]

theorem answered_round_iff {r : AIRetry} {run : Nat} {resp : LLMResponse} {call : LLMToolCall}
    (hcall : call ∈ resp.toolCalls) :
    Answered [resp.raw, r.feedback run call] ↔ resp.toolCalls.length = 1 := by
  have hasks : resp.raw.Asks :=
    ⟨resp.raw_role, resp.raw_toolCalls ▸ ne_nil_of_mem hcall⟩
  have htool : ¬ (r.feedback run call).Asks := by simp [feedback, LLMMessage.Asks]
  constructor
  · rintro ⟨hanswer, -⟩
    obtain ⟨t, rest, heq, -, hperm⟩ := hanswer hasks
    cases heq
    simpa [feedback, resp.raw_toolCalls, eq_comm] using hperm.length_eq
  · intro hone
    obtain ⟨only, honly⟩ := length_eq_one_iff.1 hone
    have hid : call = only := by simpa [honly] using hcall
    refine ⟨fun _ => ⟨_, [], rfl, rfl, ?_⟩, fun h => absurd h htool, trivial⟩
    simp [feedback, errorResult, resp.raw_toolCalls, honly, hid]

/-- **One attempt.** The dialog is sent; it goes on with the reply and the answer to a call of it,
or nothing more is sent. -/
theorem loop_cases (left attempt : Nat) (convo : Messages) :
    (r.loop (left + 1) attempt convo).requests = [convo] ∨
      ∃ resp call, r.reply attempt = some resp ∧ call ∈ resp.toolCalls ∧
        (r.loop (left + 1) attempt convo).requests = convo :: (r.loop left (attempt + 1)
            (convo ++ [resp.raw, r.feedback (attempt + 1) call])).requests := by
  rw [loop]
  split
  · exact .inl rfl
  next resp hreply =>
    split
    · exact .inl rfl
    next call hfind =>
      split
      · split
        · exact .inr ⟨resp, call, hreply, mem_of_find?_eq_some hfind, rfl⟩
        · exact .inl rfl
      · exact .inl rfl

def SingleCalls (attempt : Nat) (requests : List Messages) : Prop :=
  ∀ j, j + 1 < requests.length →
    ∀ resp, r.reply (attempt + j) = some resp → resp.toolCalls.length = 1

theorem singleCalls_cons {r : AIRetry} {attempt : Nat} {convo next : Messages}
    {later : List Messages} {resp : LLMResponse} (hreply : r.reply attempt = some resp) :
    SingleCalls r attempt (convo :: next :: later) ↔
      resp.toolCalls.length = 1 ∧ SingleCalls r (attempt + 1) (next :: later) := by
  constructor
  · refine fun h => ⟨h 0 (by simp) resp hreply, fun j hj other hother => ?_⟩
    refine h (j + 1) (by simpa using hj) other ?_
    rwa [← Nat.add_assoc, Nat.add_right_comm]
  · rintro ⟨hone, hlater⟩ j hj other hother
    cases j with
    | zero =>
      cases hreply.symm.trans hother
      exact hone
    | succ j =>
      refine hlater j (by simpa using hj) other ?_
      rwa [Nat.add_right_comm]

theorem loop_answered_iff (left : Nat) :
    ∀ (attempt : Nat) (convo : Messages), Answered convo →
      ((∀ req ∈ (r.loop left attempt convo).requests, Answered req) ↔
        SingleCalls r attempt (r.loop left attempt convo).requests) := by
  induction left with
  | zero =>
    intro attempt convo _
    exact iff_of_true (fun req h => nomatch h) (fun j h => nomatch h)
  | succ left ih =>
    intro attempt convo hconvo
    rcases loop_cases r left attempt convo with hlast | ⟨resp, call, hreply, hcall, hmore⟩
    · rw [hlast]
      exact iff_of_true (by simpa using hconvo) fun j hj => absurd hj (by simp)
    · set convo' := convo ++ [resp.raw, r.feedback (attempt + 1) call] with hconvo'
      have hround : Answered convo' ↔ resp.toolCalls.length = 1 := by
        rw [hconvo.append, answered_round_iff hcall]
      rw [hmore, forall_mem_cons]
      cases left with
      | zero => exact iff_of_true ⟨hconvo, fun req h => nomatch h⟩ fun j hj => absurd hj (by
          simp [loop])
      | succ left =>
        have hhead : ∃ later, (r.loop (left + 1) (attempt + 1) convo').requests =
            convo' :: later := by
          rcases loop_cases r left (attempt + 1) convo' with h | ⟨_, _, -, -, h⟩
          · exact ⟨_, h⟩
          · exact ⟨_, h⟩
        obtain ⟨later, hlater⟩ := hhead
        have hih := ih (attempt + 1) convo'
        rw [hlater] at hih ⊢
        rw [singleCalls_cons hreply, ← hround]
        constructor
        · rintro ⟨-, hall⟩
          have hfirst := hall convo' mem_cons_self
          exact ⟨hfirst, (hih hfirst).1 hall⟩
        · rintro ⟨hfirst, hsingle⟩
          exact ⟨hconvo, (hih hfirst).2 hsingle⟩

/-- **The repair dialog.** -/
theorem process_answered_iff (r : AIRetry) : (∀ req ∈ r.process.requests, Answered req) ↔
      ∀ j, j + 1 < r.process.requests.length →
        ∀ resp, r.reply j = some resp → resp.toolCalls.length = 1 := by
  unfold process
  split
  · simpa [SingleCalls] using loop_answered_iff r r.maxAttempts 0 _ (answered_opening r)
  · simp

/-- A reply that calls `revise_message` with these ids. -/
def revising (ids : List String) : LLMResponse :=
  let calls := ids.map fun id => ⟨id, reviseToolName, some "\x7b\x7d"⟩
  ⟨"", calls, .toolUse, { role := .assistant, toolCalls := calls }, rfl, rfl⟩

/-- **An unanswered call.** The model revises twice in one reply, and the next request answers the
first call only. -/
theorem two_calls_unanswered :
    ∃ req ∈ (AIRetry.process ⟨3, fun _ => true, fun _ => "", fun _ => some (revising ["a", "b"]),
      fun _ => true, none⟩).requests, ¬ Answered req := by
  refine ⟨_, .tail _ (.head _), ?_⟩
  rw [(answered_opening _).append]
  exact fun h => absurd ((answered_round_iff (by decide)).1 h) (by decide)

theorem AIRetry.loop_exit (r : AIRetry) : ∀ left attempt convo,
    (∀ j ≤ attempt, r.fails j = true) →
    (r.loop left attempt convo).requests.length ≤ left ∧
      ∀ k, (r.loop left attempt convo).exit = .passed k →
        k = attempt + (r.loop left attempt convo).requests.length ∧
        r.fails k = false ∧ ∀ j < k, r.fails j = true := by
  intro left
  have hgive : ∀ k, r.giveUp ≠ .passed k := by
    intro k
    unfold giveUp
    split <;> simp
  induction left with
  | zero => intro attempt convo _; simp [loop, hgive]
  | succ left ih =>
    intro attempt convo hfails
    rw [loop]
    split
    · simp [hgive]
    · split
      · simp [hgive]
      next resp _ _ call _ =>
        split
        · split
          next hfail =>
            obtain ⟨hlen, hexit⟩ := ih (attempt + 1)
              (convo ++ [resp.raw, r.feedback (attempt + 1) call]) fun j hj => by
                obtain hj | rfl := Nat.le_succ_iff.1 hj
                · exact hfails j hj
                · exact hfail
            refine ⟨Nat.succ_le_succ hlen, fun k hk => ?_⟩
            obtain ⟨hcount, h⟩ := hexit k hk
            exact ⟨by rw [hcount, length_cons]; omega, h⟩
          next hpass =>
            refine ⟨by simp, ?_⟩
            rintro _ ⟨⟩
            exact ⟨rfl, by simpa using hpass, fun j hj => hfails j (Nat.le_of_lt_succ hj)⟩
        · simp [hgive]

/-- **Attempts of ai-retry**: the model is asked at most `maxAttempts` times, and a run that passes is
the first one that does not fail, after one request for each that did. -/
theorem retry_attempts (r : AIRetry) :
    r.process.requests.length ≤ r.maxAttempts ∧
      ∀ k, r.process.exit = .passed k → k = r.process.requests.length ∧
        r.fails k = false ∧ ∀ j < k, r.fails j = true := by
  unfold AIRetry.process
  split
  next h =>
    have hloop := r.loop_exit r.maxAttempts 0 [r.opening] (by simpa using h)
    simpa using hloop
  next h =>
    refine ⟨Nat.zero_le _, ?_⟩
    rintro _ ⟨⟩
    exact ⟨rfl, by simpa using h, by simp⟩

end Octo.Agent
