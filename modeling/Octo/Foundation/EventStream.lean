import Mathlib.Data.List.Basic

/-!
# Event streams

How a browser reads `text/event-stream`: lines end in a line feed, a carriage return or both, a line
is a field and its value, and an empty line dispatches the event gathered so far.

* `receive` — the messages in a block of the stream, after what was read before it.
* `receive_block` — a block with an id and one line of data is one message, whatever came before.
-/

namespace Octo.Foundation.EventStream

open List

structure Message where
  lastEventId : String
  data : String
deriving DecidableEq

structure Reader where
  lastEventId : String := ""
  eventType : List Char := []
  data : List Char := []
deriving DecidableEq

def endedLines : List Char → List Char → List (List Char)
  | _, [] => []
  | line, '\r' :: '\n' :: rest => line :: endedLines [] rest
  | line, '\r' :: rest => line :: endedLines [] rest
  | line, '\n' :: rest => line :: endedLines [] rest
  | line, c :: rest => endedLines (line ++ [c]) rest

/-- The name and the value of a field: one space after the colon is dropped. -/
def field (line : List Char) : List Char × List Char := (line.takeWhile (· ≠ ':'),
    match line.dropWhile (· ≠ ':') with
    | ':' :: ' ' :: value => value
    | ':' :: value => value
    | _ => [])

namespace Reader

variable (r : Reader)

/-- A field is processed; `retry` and unknown fields are ignored. -/
def process (name value : List Char) : Reader :=
  if name = "data".toList then { r with data := r.data ++ value ++ ['\n'] }
  else if name = "event".toList then { r with eventType := value }
  else if name = "id".toList ∧ Char.ofNat 0 ∉ value then
    { r with lastEventId := String.ofList value }
  else r

def dispatch : List Message × Reader :=
  let rest : Reader := { r with eventType := [], data := [] }
  if r.data = [] ∨ (r.eventType ≠ [] ∧ r.eventType ≠ "message".toList) then ([], rest)
  else ([⟨r.lastEventId, String.ofList r.data.dropLast⟩], rest)

def line (l : List Char) : List Message × Reader := match l with
  | [] => r.dispatch
  | ':' :: _ => ([], r)
  | _ => ([], r.process (field l).1 (field l).2)

def lines (r : Reader) : List (List Char) → List Message × Reader
  | [] => ([], r)
  | l :: rest =>
    let (first, r₁) := r.line l
    let (others, r₂) := r₁.lines rest
    (first ++ others, r₂)

end Reader

def receive (r : Reader) (block : String) : List Message × Reader :=
  r.lines (endedLines [] block.toList)

def OneLine (text : List Char) : Prop := ∀ c ∈ text, c ≠ '\r' ∧ c ≠ '\n'

instance (text : List Char) : Decidable (OneLine text) :=
  List.decidableBAll (fun c => c ≠ '\r' ∧ c ≠ '\n') text

/-! ## A block of one message -/

theorem endedLines_oneLine : ∀ (text start rest : List Char), OneLine text →
      endedLines start (text ++ '\n' :: rest) = (start ++ text) :: endedLines [] rest
  | [], start, rest, _ => by
    rw [nil_append, append_nil, endedLines]
  | c :: text, start, rest, h => by
    have hc := h c mem_cons_self
    have ih := endedLines_oneLine text (start ++ [c]) rest fun d hd => h d (mem_cons_of_mem c hd)
    rw [cons_append, endedLines]
    · rw [ih, append_assoc]
      rfl
    · exact fun _ heq => absurd heq hc.1
    · exact hc.1
    · exact hc.2

theorem oneLine_append {a b : List Char} (ha : OneLine a) (hb : OneLine b) : OneLine (a ++ b) :=
  forall_mem_append.2 ⟨ha, hb⟩

theorem field_written (name value : List Char) (h : ':' ∉ name) :
    field (name ++ ':' :: ' ' :: value) = (name, value) := by
  have hname : ∀ c ∈ name, decide (c ≠ ':') = true := by
    intro c hc
    refine decide_eq_true ?_
    rintro rfl
    exact h hc
  unfold field
  rw [takeWhile_append_of_pos hname, dropWhile_append_of_pos hname]
  simp

open Reader

theorem receive_block (r : Reader) {id data : String} (hid : OneLine id.toList)
    (hnull : Char.ofNat 0 ∉ id.toList) (hdata : OneLine data.toList)
    (hr : r.eventType = [] ∧ r.data = []) :
    receive r ("id: " ++ id ++ "\ndata: " ++ data ++ "\n\n") =
      ([⟨id, data⟩], { lastEventId := id }) := by
  have hidLine : OneLine ("id: ".toList ++ id.toList) := oneLine_append (by decide) hid
  have hdataLine : OneLine ("data: ".toList ++ data.toList) := oneLine_append (by decide) hdata
  have hblock : ("id: " ++ id ++ "\ndata: " ++ data ++ "\n\n").toList =
      ("id: ".toList ++ id.toList) ++ '\n' :: (("data: ".toList ++ data.toList) ++ '\n' ::
        ([] ++ '\n' :: [])) := by
    simp
  have hlines : endedLines [] ("id: " ++ id ++ "\ndata: " ++ data ++ "\n\n").toList =
      ["id".toList ++ ':' :: ' ' :: id.toList, "data".toList ++ ':' :: ' ' :: data.toList, []] := by
    rw [hblock, endedLines_oneLine _ _ _ hidLine, endedLines_oneLine _ _ _ hdataLine]
    rfl
  have hidStep : r.line ("id".toList ++ ':' :: ' ' :: id.toList) =
      ([], { r with lastEventId := id }) := by
    have hfield := field_written "id".toList id.toList (by decide)
    show ([], r.process (field ("id".toList ++ ':' :: ' ' :: id.toList)).1
      (field ("id".toList ++ ':' :: ' ' :: id.toList)).2) = _
    rw [hfield]
    simp [process, hnull]
  have hdataStep : ∀ r₁ : Reader, r₁.line ("data".toList ++ ':' :: ' ' :: data.toList) =
      ([], { r₁ with data := r₁.data ++ data.toList ++ ['\n'] }) := by
    intro r₁
    have hfield := field_written "data".toList data.toList (by decide)
    show ([], r₁.process (field ("data".toList ++ ':' :: ' ' :: data.toList)).1
      (field ("data".toList ++ ':' :: ' ' :: data.toList)).2) = _
    rw [hfield]
    simp [process]
  rw [receive, hlines]
  simp only [lines, hidStep, hdataStep]
  simp [line, dispatch, hr.1, hr.2]

end Octo.Foundation.EventStream
