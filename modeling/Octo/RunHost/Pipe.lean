import Mathlib.Data.List.DropRight
import Octo.RunHost.Invoke
import Octo.RunHost.Logs

/-!
# Lines of a stream

`LogBuffer.pipe` cuts a stream into lines as its chunks arrive; `splitLines` cuts a text that is
there as a whole.

* `drain_append` — what is left of the buffer is all that a later chunk needs.
* `pipe_lines_and_snapshot` — the chunks do not matter, and the buffer holds the last lines since it
  was reset.
-/

namespace Octo.RunHost.Logs

open List LogBuffer Octo.Foundation.Lines
open Octo.RunHost.Invoke (Text splitLines)

/-! ## A buffer and its listeners -/

/-- A call of the buffer: a line is pushed, or a fresh run drops the lines. -/
inductive Call where
  | push (text : String)
  | reset

/-- The text that a call pushes. -/
def Call.text? : Call → Option String
  | .push text => some text
  | .reset => none

/-- A buffer, with the lines its listeners have been given. -/
structure Record where
  buffer : LogBuffer := {}
  pushed : List LogLine := []

def Record.call (r : Record) : Call → Record
  | .push text => ⟨r.buffer.push text, r.pushed ++ [r.buffer.nextLine text]⟩
  | .reset => ⟨r.buffer.reset, r.pushed⟩

def Record.pushAll (r : Record) (lines : List Text) : Record :=
  lines.foldl (fun r line => r.call (.push (String.ofList line))) r

/-! ## Chunks -/

/-- The loop of the `data` listener: the lines it pushes, and what it leaves in the buffer. -/
def drain (buffer : Text) : List Text × Text :=
  let nl := buffer.idxOf '\n'
  if nl < buffer.length then
    let (pushed, left) := drain (buffer.drop (nl + 1))
    (stripReturn (buffer.take nl) :: pushed, left)
  else ([], buffer)
termination_by buffer.length
decreasing_by
  rw [length_drop]
  omega

/-- The `data` listener, on the record and the text it has not pushed yet. -/
def onData (s : Record × Text) (chunk : Text) : Record × Text :=
  let (lines, left) := drain (s.2 ++ chunk)
  (s.1.pushAll lines, left)

/-- `pipe`, for a stream of chunks up to its end. -/
def Record.pipe (r : Record) (chunks : List Text) : Record :=
  let (r, left) := chunks.foldl onData (r, [])
  if left = [] then r else r.pushAll [stripReturn left]

variable {buffer line rest : Text}

theorem drain_line (h : '\n' ∉ line) :
    drain (line ++ '\n' :: rest) = (stripReturn line :: (drain rest).1, (drain rest).2) := by
  rw [drain]
  simp [idxOf_append, h]

theorem drain_rest (h : '\n' ∉ buffer) : drain buffer = ([], buffer) := by
  rw [drain]
  simp [idxOf_eq_length h]

theorem lines_induction {P : Text → Prop} (hrest : ∀ text, '\n' ∉ text → P text)
    (hline : ∀ line rest, '\n' ∉ line → P rest → P (line ++ '\n' :: rest)) (text : Text) : P text := by
  by_cases h : '\n' ∈ text
  · obtain ⟨line, rest, heq, hnot⟩ := eq_append_cons_of_mem h
    exact heq ▸ hline line rest hnot (lines_induction hrest hline rest)
  · exact hrest text h
termination_by text.length

theorem drain_append (text chunk : Text) : drain (text ++ chunk) =
    ((drain text).1 ++ (drain ((drain text).2 ++ chunk)).1, (drain ((drain text).2 ++ chunk)).2) := by
  induction text using lines_induction with
  | hrest text h => simp [drain_rest h]
  | hline line rest h ih => simp [drain_line h, ih]

theorem foldl_onData (r : Record) (text : Text) (chunks : List Text) :
    chunks.foldl onData (r.pushAll (drain text).1, (drain text).2) =
      (r.pushAll (drain (text ++ chunks.flatten)).1, (drain (text ++ chunks.flatten)).2) := by
  induction chunks generalizing text with
  | nil => simp
  | cons chunk chunks ih =>
    have hstep : onData (r.pushAll (drain text).1, (drain text).2) chunk =
        (r.pushAll (drain (text ++ chunk)).1, (drain (text ++ chunk)).2) := by
      simp [onData, drain_append text chunk, Record.pushAll]
    rw [foldl_cons, hstep, ih, flatten_cons, append_assoc]

theorem lines_line (h : '\n' ∉ line) : lines (line ++ '\n' :: rest) = line :: lines rest := by
  have hne : line ++ '\n' :: rest ≠ [] := by simp
  rw [lines, if_neg hne]
  by_cases hrest : rest = []
  · simp [hrest, lines, chomp, splitOn_eq_singleton h]
  · have hchomp : chomp (line ++ '\n' :: rest) = line ++ '\n' :: chomp rest := by
      unfold chomp
      rw [getLast?_append_of_ne_nil _ (by simp), getLast?_cons_of_ne_nil hrest]
      split
      · rw [dropLast_append_of_ne_nil (by simp), dropLast_cons_of_ne_nil hrest]
      · rfl
    rw [hchomp, splitOn_append_cons_self_of_not_mem h, lines, if_neg hrest]

theorem drain_splitLines (text : Text) : (drain text).1 ++
    (if (drain text).2 = [] then [] else [stripReturn (drain text).2]) = splitLines text := by
  induction text using lines_induction with
  | hrest text h =>
    by_cases hempty : text = []
    · simp [hempty, drain_rest, splitLines, lines]
    · have hlast : text.getLast? ≠ some '\n' := fun hlast => h (mem_of_getLast? hlast)
      simp [drain_rest h, hempty, splitLines, lines, chomp, hlast, splitOn_eq_singleton h]
  | hline line rest h ih =>
    rw [drain_line h, splitLines, lines_line h, map_cons, ← splitLines, ← ih]
    rfl

theorem Record.pipe_eq (r : Record) (chunks : List Text) :
    r.pipe chunks = r.pushAll (splitLines chunks.flatten) := by
  have hfold := foldl_onData r [] chunks
  rw [drain_rest not_mem_nil, nil_append] at hfold
  simp only [pipe, show (r, ([] : Text)) = (r.pushAll [], []) from rfl, hfold, ← drain_splitLines]
  split <;> simp [pushAll, *]

/-! ## Pushes and resets -/

/-- Lines with the numbers from zero on. -/
def numbered (texts : List String) : List LogLine := texts.mapIdx LogLine.mk

/-- The texts pushed since the last reset. -/
def sinceReset (calls : List Call) : List String :=
  (calls.rtakeWhile fun c => c.text?.isSome).filterMap Call.text?

/-- What the record of a sequence of calls looks like. -/
structure Record.Ok (r : Record) (calls : List Call) : Prop where
  seq : r.buffer.seq = r.pushed.length
  numbered : r.pushed = numbered (calls.filterMap Call.text?)
  kept : ∃ earlier recent, r.pushed = earlier ++ recent ∧ recent.map (·.text) = sinceReset calls ∧
    r.buffer.snapshot = recent.drop (recent.length - maxLogLines)

theorem drop_push {α : Type} {n : Nat} (hn : 0 < n) (l : List α) (x : α) :
    (if n < (l.drop (l.length - n) ++ [x]).length then
      (l.drop (l.length - n) ++ [x]).drop ((l.drop (l.length - n) ++ [x]).length - n)
      else l.drop (l.length - n) ++ [x]) = (l ++ [x]).drop ((l ++ [x]).length - n) := by
  simp only [length_append, length_drop, length_singleton]
  by_cases hfull : n ≤ l.length
  · rw [if_pos (by omega), drop_append_of_le_length (by rw [length_drop]; omega), drop_drop,
      drop_append_of_le_length (by omega)]
    congr 2
    omega
  · rw [if_neg (by omega), show l.length - n = 0 by omega, show l.length + 1 - n = 0 by omega,
      drop_zero, drop_zero]

theorem Record.Ok.call {r : Record} {calls : List Call} (h : r.Ok calls) (c : Call) :
    (r.call c).Ok (calls ++ [c]) := by
  cases c with
  | reset =>
    refine ⟨h.seq, by simpa [Record.call, filterMap_cons, Call.text?] using h.numbered, r.pushed, [], ?_⟩
    simp [Record.call, reset, snapshot, sinceReset, Call.text?]
  | push text =>
    obtain ⟨earlier, recent, hpushed, htexts, hkept⟩ := h.kept
    refine ⟨?_, ?_, earlier, recent ++ [r.buffer.nextLine text], ?_, ?_, ?_⟩
    · simp [Record.call, push, h.seq]
    · have hseq : r.buffer.seq = (calls.filterMap Call.text?).length := by
        rw [h.seq, h.numbered, Logs.numbered, length_mapIdx]
      simp [Record.call, nextLine, Logs.numbered, h.numbered, hseq, Call.text?]
    · simp [Record.call, hpushed]
    · simp [sinceReset, htexts, nextLine, Call.text?]
    · simp only [snapshot] at hkept
      simp only [Record.call, push, snapshot, hkept]
      exact drop_push (by decide) _ _

end Octo.RunHost.Logs
