import Mathlib.Logic.Basic

/-!
# Calling a flow directly and through a queue

A two-way `flow-ref` (`flowref.go`, `flowregistry.go`) and a `queue-dispatch` that awaits its reply
(`dispatch.go`, `source.go` and the standalone `queues.go`) both run a chain on a copy of the
caller's message and fold the outcome back. Nothing shuts down, no buffer is full and no timeout
expires before the called flow ends.

* `dispatch_agrees_iff` — the two agree exactly when a called flow that drops the message leaves it
  as the caller has it.
* `dropped_body_returned` — a chain that sets the body and then drops the message.
-/

namespace Octo.Runtime.Dispatch

variable {V : Type}

/-! ## Messages and chains -/

/-- As far as a call reads and writes it. -/
structure Message (V : Type) where
  eventID : String
  body : V
  vars : String → Option V

/-- The JSON round trip of a body in `Message.Clone`; a body that cannot be encoded is kept. -/
structure Codec (V : Type) where
  roundTrip : V → V
  roundTrip_roundTrip : ∀ v, roundTrip (roundTrip v) = roundTrip v

def Message.clone (codec : Codec V) (msg : Message V) : Message V :=
  { msg with body := codec.roundTrip msg.body }

/-- What a run of a chain returns, and how it leaves the message it was given. -/
structure Run (V : Type) where
  result : Except String (Option (Message V))
  left : Message V

structure BoundFlow (V : Type) where
  name : String
  root : Message V → Run V
  errorPath : Option (Message V → Run V)

inductive FlowEvent (V : Type) where
  | completed (result : Message V)
  | dropped (result : Message V)
  | failed (err : String)

/-- Given the value it builds from the name and the error. -/
def setErrorVariable (errorValue : String → String → V) (msg : Message V) (name err : String) :
    Message V :=
  { msg with
    vars := fun k => if k = "error" then some (errorValue name err) else msg.vars k }

/-- The terminal event it publishes. -/
def BoundFlow.handle (bf : BoundFlow V) (errorValue : String → String → V) (msg : Message V) :
    FlowEvent V :=
  let run := bf.root msg
  match run.result with
  | .ok (some out) => .completed out
  | .ok none => .dropped run.left
  | .error err =>
    match bf.errorPath with
    | none => .failed err
    | some path =>
      let alt := path (setErrorVariable errorValue run.left bf.name err)
      match alt.result with
      | .ok (some out) => .completed out
      | .ok none => .dropped alt.left
      | .error altErr => .failed ("error path: " ++ altErr)

def fold (msg result : Message V) : Message V := { msg with
    body := result.body
    vars := fun k => (result.vars k).or (msg.vars k) }

/-! ## The two calls -/

section Calls

variable (codec : Codec V) (bf : BoundFlow V) (errorValue : String → String → V) (msg : Message V)

/-- `flowRegistry.Call` and `onFlowEvent`: a dropped message has no result. -/
def call : Except String (Option (Message V)) :=
  match bf.handle errorValue msg with
  | .completed result => .ok (some result)
  | .dropped _ => .ok none
  | .failed err => .error err

/-- `flowRef.Process`, two-way, with the id that `Rekey` draws. -/
def flowRef (id : String) (msg : Message V) : Except String (Message V) :=
  match call bf errorValue { msg.clone codec with eventID := id } with
  | .error err => .error ("flow-ref " ++ bf.name.quote ++ ": " ++ err)
  | .ok none => .ok msg
  | .ok (some result) => .ok (fold msg result)

/-- `source.handle` and `awaitResult`: completed and dropped events are both answered with their
message. -/
def sourceHandle : Except String (Message V) :=
  match bf.handle errorValue msg with
  | .completed result => .ok result
  | .dropped result => .ok result
  | .failed err => .error err

/-- `queues.Request` against the one consumer of the subject; a handler that fails sends no reply. -/
def request : Except String (Message V) :=
  match sourceHandle bf errorValue (msg.clone codec) with
  | .ok reply => .ok reply
  | .error _ => .error "queues: no reply before deadline"

/-- `dispatch.Process` with `awaitReply`, to a subject that is not empty. -/
def dispatch (subject id : String) (msg : Message V) : Except String (Message V) :=
  match request codec bf errorValue { msg.clone codec with eventID := id } with
  | .error err => .error ("queue-dispatch request to " ++ subject.quote ++ ": " ++ err)
  | .ok reply => .ok (fold msg reply)

end Calls

def SameEnd : Except String (Message V) → Except String (Message V) → Prop
  | .ok m, .ok n => m.body = n.body ∧ ∀ k, m.vars k = n.vars k
  | .error _, .error _ => True
  | _, _ => False

/-- The message has the body of the caller's, and no variable that the caller does not have with
the same value. -/
def Within (left msg : Message V) : Prop :=
  left.body = msg.body ∧ ∀ k v, left.vars k = some v → msg.vars k = some v

theorem clone_clone (codec : Codec V) (msg : Message V) (id : String) :
    Message.clone codec { msg.clone codec with eventID := id } =
      { msg.clone codec with eventID := id } := by
  simp [Message.clone, codec.roundTrip_roundTrip]

theorem fold_same_iff (msg left : Message V) :
    (msg.body = (fold msg left).body ∧ ∀ k, msg.vars k = (fold msg left).vars k) ↔
      Within left msg := by
  refine and_congr eq_comm (forall_congr' fun k => ?_)
  show msg.vars k = (left.vars k).or (msg.vars k) ↔ _
  cases left.vars k with
  | none => simp
  | some => simp

/-- **A call through a queue and a direct call.** -/
theorem dispatch_agrees_iff (codec : Codec V) (bf : BoundFlow V)
    (errorValue : String → String → V) (subject id : String) (msg : Message V) :
    SameEnd (flowRef codec bf errorValue id msg) (dispatch codec bf errorValue subject id msg) ↔
      ∀ left, bf.handle errorValue { msg.clone codec with eventID := id } = .dropped left →
        Within left msg := by
  unfold dispatch request sourceHandle flowRef call
  rw [clone_clone]
  cases bf.handle errorValue { msg.clone codec with eventID := id } with
  | completed => simp [SameEnd]
  | dropped left => simpa [SameEnd] using fold_same_iff msg left
  | failed => simp [SameEnd]

def setAndDrop : BoundFlow Nat := ⟨"sub", fun msg => ⟨.ok none, { msg with body := 1 }⟩, none⟩

/-- **A dropped message comes back.** -/
theorem dropped_body_returned :
    (flowRef ⟨id, fun _ => rfl⟩ setAndDrop (fun _ _ => 0) "sub-1" ⟨"1", 0, fun _ => none⟩).map
        Message.body = .ok 0 ∧
      (dispatch ⟨id, fun _ => rfl⟩ setAndDrop (fun _ _ => 0) "jobs" "sub-1"
        ⟨"1", 0, fun _ => none⟩).map Message.body = .ok 1 :=
  ⟨rfl, rfl⟩

end Octo.Runtime.Dispatch
