import Mathlib.Data.List.Sort
import Mathlib.Logic.Function.Basic
import Octo.Foundation.EventStream
import Octo.Foundation.Trace

/-!
# The log panel

`LogBuffer` (`run-host/src/logbuffer.ts`), the route that streams it (`api/run/logs/route.ts`), the
reaper's removal of a session (`reaper.ts`) and `openStream` of the editor (`run/RunContext.tsx`): a
line that is pushed gets the next number of its buffer and goes to the open stream, a stream starts
with the lines still buffered, and the editor drops numbers it has passed.

A session has one buffer.  When a namespace loses its session, the next call makes another with a
new buffer, which counts from zero again; the editor's cursor and its open stream stay.

* `step` — the buffers of a namespace, one stream at a time and the editor's log list.
* `panel_shows_lines_once` — as long as the session stays and no line is lost on the way, the log
  list holds the lines that are due, once each and in the order of their pushes.
* `reaped_session_mutes_panel` — a run after a reap whose lines never show.
-/

namespace Octo.RunHost.Logs

open List Function Option Nat List.Pairwise Octo.Foundation Octo.Foundation.EventStream

/-! ## The buffer -/

structure LogLine where
  seq : Nat
  text : String
deriving DecidableEq

def maxLogLines : Nat := 5000

/-- Without its listeners. -/
structure LogBuffer where
  logs : List LogLine := []
  seq : Nat := 0
deriving DecidableEq

namespace LogBuffer

variable (b : LogBuffer)

def nextLine (text : String) : LogLine := ⟨b.seq, text⟩

def push (text : String) : LogBuffer := let logs := b.logs ++ [b.nextLine text]
  { logs := if maxLogLines < logs.length then logs.drop (logs.length - maxLogLines) else logs
    seq := b.seq + 1 }

def reset : LogBuffer := { b with logs := [] }

def snapshot : List LogLine := b.logs

end LogBuffer

def block (line : LogLine) : String :=
  "id: " ++ toString line.seq ++ "\ndata: " ++ line.text ++ "\n\n"

/-! ## The editor and the server -/

/-- An open stream: the buffer its listener is on, the blocks on the way, and what the browser has
read of it. -/
structure Stream where
  buffer : Nat
  flight : List String
  reader : Reader := {}
deriving DecidableEq

abbrev Shown := Option Int × String

/-- The buffers of the sessions a namespace has had, the session it has, and the editor. `logs` is
the log list without its cap, `due` the lines pushed to the namespace's buffer while the editor was
connected or in it when it connected. -/
structure State where
  buffers : Nat → LogBuffer := fun _ => {}
  created : Nat := 0
  current : Option Nat := none
  stream : Option Stream := none
  lastSeq : Int := -1
  logs : List Shown := []
  due : List (Nat × LogLine) := []

namespace State

variable (s : State)

/-- The buffer of the namespace's session, which is made if there is none. -/
def session : State × Nat := match s.current with
  | some b => (s, b)
  | none => ({ s with created := s.created + 1, current := some s.created }, s.created)

/-- `push` to a buffer, with its listener. -/
def push (b : Nat) (text : String) : State := let line := (s.buffers b).nextLine text
  { s with
    buffers := update s.buffers b ((s.buffers b).push text)
    stream := s.stream.map fun st =>
      if st.buffer = b then { st with flight := st.flight ++ [block line] } else st
    due := if s.stream.isSome ∧ s.current = some b then s.due ++ [(b, line)] else s.due }

/-- `GET /api/run/logs`. -/
def connect : State :=
  let (s, b) := s.session
  let lines := (s.buffers b).logs
  { s with
    stream := some { buffer := b, flight := lines.map block }
    due := s.due ++ (lines.filter fun l => (b, l) ∉ s.due).map fun l => (b, l) }

/-- The callback of `openStream`. -/
def onLine (seq : Option Int) (text : String) : State := match seq with
  | none => { s with logs := s.logs ++ [(none, text)] }
  | some n =>
    if n ≤ s.lastSeq then s
    else { s with lastSeq := n, logs := s.logs ++ [(some n, text)] }

end State

inductive Action where
  | touch
  /-- A line of a runner, of `start` or of the reaper. -/
  | push (buffer : Nat) (text : String)
  /-- `start` drops the lines of the run before. -/
  | reset (buffer : Nat)
  /-- `reapIdle` deletes the session. -/
  | reap
  | connect
  | receive
  | disconnect
deriving DecidableEq

-- `Number`, of a string; `none` where the result is not finite
variable (number : String → Option Int)

def step (s : State) : Action → Option State
  | .touch => some s.session.1
  | .push b text => if b < s.created then some (s.push b text) else none
  | .reset b =>
    if b < s.created then
      some { s with buffers := update s.buffers b (s.buffers b).reset }
    else none
  | .reap => if s.current.isSome then some { s with current := none } else none
  | .connect => if s.stream.isNone then some s.connect else none
  | .receive =>
    match s.stream with
    | some ⟨b, first :: rest, reader⟩ =>
      let (messages, reader) := EventStream.receive reader first
      some (messages.foldl (fun s m => s.onLine (number m.lastEventId) m.data)
        { s with stream := some ⟨b, rest, reader⟩ })
    | _ => none
  | .disconnect => if s.stream.isSome then some { s with stream := none } else none

/-! ## The condition -/

def State.waiting (s : State) : List (Nat × LogLine) := s.due.drop s.logs.length

/-- A pushed text has no line break; the session is not reaped under the editor or replaced; a line
it waits for while not connected stays buffered. -/
def Clean (s : State) : Action → Prop
  | .touch => True
  | .push b text =>
    OneLine text.toList ∧
      (s.stream = none → ∀ w ∈ s.waiting, w.1 = b → w.2 ∈ ((s.buffers b).push text).logs)
  | .reset b => s.stream = none → ∀ w ∈ s.waiting, w.1 ≠ b
  | .reap => s.stream = none ∧ s.waiting = []
  | .connect => ∀ d ∈ s.due, s.current = some d.1
  | .receive => True
  | .disconnect => ∀ w ∈ s.waiting, w.2 ∈ (s.buffers w.1).logs

def entry (d : Nat × LogLine) : Shown := (some d.2.seq, d.2.text)

structure Shows (s : State) : Prop where
  /-- The lines are due once each, in the order in which they were pushed to one buffer. -/
  ordered : s.due.Pairwise fun a b => a.1 = b.1 ∧ a.2.seq < b.2.seq
  shown : s.logs = (s.due.take s.logs.length).map entry
  /-- The others are on the way, or in the buffer when the editor is not connected. -/
  coming : ∀ w ∈ s.waiting, match s.stream with
    | some st => block w.2 ∈ st.flight
    | none => s.current = some w.1 ∧ w.2 ∈ (s.buffers w.1).logs

/-! ## Buffers -/

/-- The lines of a buffer are numbered in order, below its counter, and each is one line. -/
structure LogBuffer.Ok (b : LogBuffer) : Prop where
  sorted : b.logs.Pairwise fun l m => l.seq < m.seq
  below : ∀ l ∈ b.logs, l.seq < b.seq
  oneLine : ∀ l ∈ b.logs, OneLine l.text.toList

open LogBuffer

theorem LogBuffer.Ok.nil (n : Nat) : Ok ⟨[], n⟩ :=
  ⟨.nil, fun _ h => (nomatch h), fun _ h => (nomatch h)⟩

variable {b : LogBuffer}

theorem LogBuffer.Ok.mono (hb : b.Ok) {lines : List LogLine} {n : Nat} (hlines : lines <+ b.logs)
    (hseq : b.seq ≤ n) : Ok ⟨lines, n⟩ where
  sorted := hb.sorted.sublist hlines
  below l hl := lt_of_lt_of_le (hb.below l (hlines.subset hl)) hseq
  oneLine l hl := hb.oneLine l (hlines.subset hl)

theorem LogBuffer.Ok.append (hb : b.Ok) {text : String} (htext : OneLine text.toList) :
    Ok ⟨b.logs ++ [b.nextLine text], b.seq + 1⟩ where
  sorted := by
    refine pairwise_append.2 ⟨hb.sorted, pairwise_singleton _ _, fun l hl m hm => ?_⟩
    rw [mem_singleton.1 hm]
    exact hb.below l hl
  below := forall_mem_append.2
    ⟨fun l hl => lt_succ_of_lt (hb.below l hl), forall_mem_singleton.2 (lt_succ_self _)⟩
  oneLine := forall_mem_append.2 ⟨hb.oneLine, forall_mem_singleton.2 htext⟩

theorem LogBuffer.push_suffix (b : LogBuffer) (text : String) :
    (b.push text).logs <:+ b.logs ++ [b.nextLine text] := by
  unfold push
  dsimp only
  split
  · exact drop_suffix _ _
  · exact suffix_refl _

theorem LogBuffer.mem_push {text : String} {l : LogLine}
    (h : l ∈ (b.push text).logs) : l ∈ b.logs ∨ l = b.nextLine text := by
  simpa using (b.push_suffix text).subset h

theorem LogBuffer.Ok.push (hb : b.Ok) {text : String} (htext : OneLine text.toList) :
    (b.push text).Ok :=
  (hb.append htext).mono (b.push_suffix text).sublist (le_refl _)

/-! ## Blocks -/

theorem oneLine_toString (n : Nat) : OneLine (toString n).toList := by
  intro c hc
  rw [toString_eq_ofList_toDigits, String.toList_ofList] at hc
  have hdigit := isDigit_of_mem_toDigits (by decide) (by decide) hc
  refine ⟨?_, ?_⟩
  · rintro rfl
    exact absurd hdigit (by decide)
  · rintro rfl
    exact absurd hdigit (by decide)

theorem null_not_mem_toString (n : Nat) : Char.ofNat 0 ∉ (toString n).toList := by
  intro hc
  rw [toString_eq_ofList_toDigits, String.toList_ofList] at hc
  exact absurd (isDigit_of_mem_toDigits (by decide) (by decide) hc) (by decide)

open EventStream

theorem receive_line {reader : Reader} {l : LogLine} (hl : OneLine l.text.toList)
    (hr : reader.eventType = [] ∧ reader.data = []) : receive reader (block l) =
      ([⟨toString l.seq, l.text⟩], { lastEventId := toString l.seq }) :=
  receive_block reader (oneLine_toString l.seq) (null_not_mem_toString l.seq) hl hr

/-! ## The invariant -/

/-- An open stream is on the buffer of the namespace's session; of the blocks on the way, those past
the editor's cursor are the lines it waits for. -/
structure Open (s : State) (st : Stream) (lines : List LogLine) : Prop where
  current : s.current = some st.buffer
  reader : st.reader.eventType = [] ∧ st.reader.data = []
  flight : st.flight = lines.map block
  ok : LogBuffer.Ok ⟨lines, (s.buffers st.buffer).seq⟩
  waiting : (lines.filter fun l => s.lastSeq < l.seq).map (fun l => (st.buffer, l)) = s.waiting
  home : ∀ d ∈ s.due, d.1 = st.buffer
  due : ∀ l ∈ (s.buffers st.buffer).logs, (st.buffer, l) ∈ s.due

/-- The log list holds the first of the due lines, and the cursor is past those and before the
others. -/
structure Progress (due : List (Nat × LogLine)) (logs : List Shown) (lastSeq : Int) : Prop where
  ordered : due.Pairwise fun a b => a.1 = b.1 ∧ a.2.seq < b.2.seq
  shown : logs = (due.take logs.length).map entry
  arrived : ∀ d ∈ due.take logs.length, (d.2.seq : Int) ≤ lastSeq
  ahead : ∀ w ∈ due.drop logs.length, lastSeq < w.2.seq
  cursor : lastSeq = -1 ∨ ∃ d ∈ due, lastSeq = d.2.seq

structure Inv (s : State) : Prop where
  buffers : ∀ b, (s.buffers b).Ok
  progress : Progress s.due s.logs s.lastSeq
  below : ∀ d ∈ s.due, d.2.seq < (s.buffers d.1).seq
  newer : ∀ b, ∀ l ∈ (s.buffers b).logs, (b, l) ∈ s.due ∨ ∀ d ∈ s.due, d.1 = b → d.2.seq < l.seq
  opened : ∀ st, s.stream = some st → ∃ lines, Open s st lines
  closed : s.stream = none → ∀ w ∈ s.waiting, s.current = some w.1 ∧ w.2 ∈ (s.buffers w.1).logs

theorem Inv.init : Inv {} where
  buffers := fun _ => .nil 0
  progress := ⟨nil, rfl, fun _ h => (nomatch h), fun _ h => (nomatch h), .inl rfl⟩
  below := fun _ h => nomatch h
  newer := fun _ _ h => nomatch h
  opened := fun _ h => nomatch h
  closed := fun _ _ h => nomatch h

namespace Progress

variable {due more : List (Nat × LogLine)} {logs : List Shown} {lastSeq : Int}

variable (h : Progress due logs lastSeq)
include h

theorem length_le : logs.length ≤ due.length := by
  have hlen := congrArg length h.shown
  rw [length_map, length_take] at hlen
  omega

theorem append
    (hmore : more.Pairwise fun a b => a.1 = b.1 ∧ a.2.seq < b.2.seq)
    (hpast : ∀ d ∈ due, ∀ m ∈ more, d.1 = m.1 ∧ d.2.seq < m.2.seq) :
    Progress (due ++ more) logs lastSeq where
  ordered := pairwise_append.2 ⟨h.ordered, hmore, hpast⟩
  shown := by
    rw [take_append_of_le_length h.length_le]
    exact h.shown
  arrived := by
    rw [take_append_of_le_length h.length_le]
    exact h.arrived
  ahead := by
    rw [List.drop_append_of_le_length h.length_le]
    intro w hw
    rcases List.mem_append.1 hw with hw | hw
    · exact h.ahead w hw
    · rcases h.cursor with hnone | ⟨d, hd, hlast⟩
      · omega
      · have hlt := (hpast d hd w hw).2
        omega
  cursor := by
    rcases h.cursor with hnone | ⟨d, hd, hlast⟩
    · exact .inl hnone
    · exact .inr ⟨d, mem_append_left _ hd, hlast⟩

theorem next {w : Nat × LogLine} {rest : List (Nat × LogLine)}
    (hw : due.drop logs.length = w :: rest) :
    Progress due (logs ++ [entry w]) w.2.seq ∧ due.drop (logs ++ [entry w]).length = rest := by
  have hmem : w ∈ due := mem_of_mem_drop (hw ▸ mem_cons_self)
  have hget : due[logs.length]? = some w := by
    rw [← head?_drop, hw]
    rfl
  have htake : due.take (logs ++ [entry w]).length = due.take logs.length ++ [w] := by
    rw [length_append, length_singleton, take_add_one, hget]
    rfl
  have hdrop : due.drop (logs ++ [entry w]).length = rest := by
    rw [length_append, ← drop_drop, hw]
    rfl
  have hrest : (w :: rest).Pairwise fun a b => a.1 = b.1 ∧ a.2.seq < b.2.seq :=
    hw ▸ h.ordered.sublist (drop_sublist _ _)
  refine ⟨⟨h.ordered, ?_, ?_, ?_, .inr ⟨w, hmem, rfl⟩⟩, hdrop⟩
  · rw [htake, List.map_append, ← h.shown]
    rfl
  · rw [htake]
    refine forall_mem_append.2 ⟨fun d hd => ?_, forall_mem_singleton.2 le_rfl⟩
    have hle := h.arrived d hd
    have hahead := h.ahead w (hw ▸ mem_cons_self)
    omega
  · rw [hdrop]
    intro v hv
    have hlt := ((pairwise_cons.1 hrest).1 v hv).2
    omega

end Progress

theorem Inv.shows {s : State} (h : Inv s) : Shows s where
  ordered := h.progress.ordered
  shown := h.progress.shown
  coming := by
    intro w hw
    cases hst : s.stream with
    | none => exact h.closed hst w hw
    | some st =>
      obtain ⟨lines, hopen⟩ := h.opened st hst
      rw [← hopen.waiting] at hw
      obtain ⟨l, hl, rfl⟩ := List.mem_map.1 hw
      dsimp only
      rw [hopen.flight]
      exact mem_map_of_mem (mem_of_mem_filter hl)

/-! ## One lemma for each action -/

section Steps

variable {s : State}

theorem Inv.waiting_of_current_none (h : Inv s) (hcurrent : s.current = none) :
    s.stream = none ∧ s.waiting = [] := by
  have hstream : s.stream = none := by
    cases hst : s.stream with
    | none => rfl
    | some st =>
      obtain ⟨lines, hopen⟩ := h.opened st hst
      cases hcurrent.symm.trans hopen.current
  refine ⟨hstream, eq_nil_iff_forall_not_mem.2 fun w hw => ?_⟩
  have hw := (h.closed hstream w hw).1
  rw [hcurrent] at hw
  cases hw

theorem Inv.withSession (h : Inv s) (hstream : s.stream = none) (hwaiting : s.waiting = [])
    (created : Nat) (current : Option Nat) :
    Inv { s with created := created, current := current } := by
  refine { h with opened := ?_, closed := ?_ }
  · intro st hst
    cases hstream.symm.trans hst
  · intro _ w hw
    have hw : w ∈ s.waiting := hw
    rw [hwaiting] at hw
    cases hw

theorem Inv.session (h : Inv s) : Inv s.session.1 := by
  unfold State.session
  split
  · exact h
  next hcurrent =>
    obtain ⟨hstream, hwaiting⟩ := h.waiting_of_current_none hcurrent
    exact h.withSession hstream hwaiting _ _

theorem session_spec (s : State) :
    s.session.1.current = some s.session.2 ∧ s.session.1.due = s.due ∧
      s.session.1.stream = s.stream := by
  unfold State.session
  split
  next b hb =>
    exact ⟨hb, rfl, rfl⟩
  · exact ⟨rfl, rfl, rfl⟩

variable {b : Nat} {text : String}

/-- A buffer whose listener is not told of a new line. -/
theorem Inv.withBuffer (h : Inv s) {buf : LogBuffer} (hok : buf.Ok)
    (hseq : (s.buffers b).seq ≤ buf.seq)
    (hnew : ∀ l ∈ buf.logs, l ∈ (s.buffers b).logs ∨ (s.buffers b).seq ≤ l.seq)
    (hopened : ∀ st, s.stream = some st → st.buffer = b → ∀ l ∈ buf.logs, l ∈ (s.buffers b).logs)
    (hclosed : s.stream = none → ∀ w ∈ s.waiting, w.1 = b → w.2 ∈ buf.logs) :
    Inv { s with buffers := update s.buffers b buf } := by
  have hseq : ∀ c, (s.buffers c).seq ≤ (update s.buffers b buf c).seq :=
    (forall_update_iff s.buffers fun c buf => (s.buffers c).seq ≤ buf.seq).2 ⟨hseq, fun _ _ => le_refl _⟩
  refine ⟨(forall_update_iff s.buffers fun _ => Ok).2 ⟨hok, fun c _ => h.buffers c⟩, h.progress,
    fun d hd => lt_of_lt_of_le (h.below d hd) (hseq d.1), ?_, fun st hst => ?_, fun hst w hw => ?_⟩
  · refine (forall_update_iff s.buffers fun c buf => ∀ l ∈ buf.logs,
      (c, l) ∈ s.due ∨ ∀ d ∈ s.due, d.1 = c → d.2.seq < l.seq).2 ⟨fun l hl => ?_, fun c _ => h.newer c⟩
    rcases hnew l hl with hold | hge
    · exact h.newer b l hold
    · exact .inr fun d hd hdb => lt_of_lt_of_le (hdb ▸ h.below d hd) hge
  · obtain ⟨lines, hopen⟩ := h.opened st hst
    refine ⟨lines, { hopen with ok := ?_, due := ?_ }⟩
    · exact hopen.ok.mono (Sublist.refl _) (hseq st.buffer)
    · exact fun l hl => hopen.due l ((forall_update_iff s.buffers
        fun c buf => st.buffer = c → ∀ l ∈ buf.logs, l ∈ (s.buffers c).logs).2
        ⟨hopened st hst, fun _ _ _ _ hl => hl⟩ st.buffer rfl l hl)
  · obtain ⟨hcurrent, hmem⟩ := h.closed hst w hw
    exact ⟨hcurrent, (forall_update_iff s.buffers fun c buf => w.1 = c → w.2 ∈ buf.logs).2
      ⟨hclosed hst w hw, fun c _ hc => hc ▸ hmem⟩ w.1 rfl⟩

variable (h : Inv s)
include h

theorem Inv.reset (hclean : Clean s (.reset b)) :
    Inv { s with buffers := update s.buffers b (s.buffers b).reset } := by
  refine h.withBuffer (.nil _) (le_refl _) nofun (fun _ _ _ => nofun) fun hst w hw hb => ?_
  exact absurd hb (hclean hst w hw)

theorem Inv.reap (hclean : Clean s .reap) : Inv { s with current := none } :=
  h.withSession hclean.1 hclean.2 _ _

theorem Inv.disconnect (hclean : Clean s .disconnect) :
    Inv { s with stream := none } := by
  refine { h with opened := fun st hst => (nomatch hst), closed := ?_ }
  intro _ w hw
  cases hst : s.stream with
  | none => exact h.closed hst w hw
  | some st =>
    obtain ⟨lines, hopen⟩ := h.opened st hst
    have hhome := hopen.home w (mem_of_mem_drop hw)
    refine ⟨?_, hclean w hw⟩
    rw [hhome]
    exact hopen.current

theorem Inv.push_unheard (hclean : Clean s (.push b text))
    (hother : ∀ st, s.stream = some st → st.buffer ≠ b) :
    Inv { s with buffers := update s.buffers b ((s.buffers b).push text) } := by
  refine h.withBuffer ((h.buffers b).push hclean.1) (le_succ _) (fun l hl => ?_)
    (fun st hst hb => absurd hb (hother st hst)) hclean.2
  rcases mem_push hl with hl | rfl
  · exact .inl hl
  · exact .inr (le_refl _)

theorem Inv.lastSeq_lt (hhome : ∀ d ∈ s.due, d.1 = b) :
    s.lastSeq < (s.buffers b).seq := by
  rcases h.progress.cursor with hnone | ⟨d, hd, hlast⟩
  · omega
  · have hbelow := h.below d hd
    rw [hhome d hd] at hbelow
    omega

omit h

theorem push_heard_eq {st : Stream} (hst : s.stream = some st)
    (hcurrent : s.current = some st.buffer) : s.push st.buffer text = { s with
        buffers := update s.buffers st.buffer ((s.buffers st.buffer).push text)
        stream := some
          { st with flight := st.flight ++ [block ((s.buffers st.buffer).nextLine text)] }
        due := s.due ++ [(st.buffer, (s.buffers st.buffer).nextLine text)] } := by
  unfold State.push
  simp [hst, hcurrent]

theorem Inv.push_heard (h : Inv s) {st : Stream} (hst : s.stream = some st)
    (htext : OneLine text.toList) : Inv (s.push st.buffer text) := by
  obtain ⟨lines, hopen⟩ := h.opened st hst
  have hlast := h.lastSeq_lt hopen.home
  have hnext : (update s.buffers st.buffer ((s.buffers st.buffer).push text)
      st.buffer).seq = (s.buffers st.buffer).seq + 1 := by
    rw [update_self]
    rfl
  -- The new line has the number of the counter, so it is past everything that was pushed.
  have hpast : ∀ d ∈ s.due, ∀ m ∈ [(st.buffer, (s.buffers st.buffer).nextLine text)],
      d.1 = m.1 ∧ d.2.seq < m.2.seq := by
    intro d hd m hm
    rw [mem_singleton.1 hm]
    have hbelow := h.below d hd
    rw [hopen.home d hd] at hbelow
    exact ⟨hopen.home d hd, hbelow⟩
  have hdue : ∀ l ∈ ((s.buffers st.buffer).push text).logs,
      (st.buffer, l) ∈ s.due ++ [(st.buffer, (s.buffers st.buffer).nextLine text)] := by
    intro l hl
    rcases mem_push hl with hl | rfl
    · exact mem_append_left _ (hopen.due l hl)
    · exact mem_append_right _ mem_cons_self
  rw [push_heard_eq hst hopen.current]
  refine
    { buffers := ?_, progress := ?_, below := ?_, newer := ?_, opened := ?_
      closed := fun hnone => nomatch hnone }
  · exact (forall_update_iff s.buffers fun _ => Ok).2
      ⟨(h.buffers st.buffer).push htext, fun c _ => h.buffers c⟩
  · exact h.progress.append (pairwise_singleton _ _) hpast
  · refine forall_mem_append.2 ⟨fun d hd => ?_, forall_mem_singleton.2 ?_⟩
    · have hbelow := h.below d hd
      rw [hopen.home d hd] at hbelow ⊢
      exact hnext ▸ lt_succ_of_lt hbelow
    · rw [hnext]
      exact lt_succ_self _
  · refine (forall_update_iff s.buffers fun c buf => ∀ l ∈ buf.logs,
      (c, l) ∈ s.due ++ [(st.buffer, (s.buffers st.buffer).nextLine text)] ∨
        ∀ d ∈ s.due ++ [(st.buffer, (s.buffers st.buffer).nextLine text)],
          d.1 = c → d.2.seq < l.seq).2 ⟨fun l hl => .inl (hdue l hl), ?_⟩
    intro c hc l _
    refine .inr fun d hd hdc => absurd hdc ?_
    rcases List.mem_append.1 hd with hd | hd
    · rw [hopen.home d hd]
      exact hc.symm
    · rw [mem_singleton.1 hd]
      exact hc.symm
  · rintro _ ⟨⟩
    refine ⟨lines ++ [(s.buffers st.buffer).nextLine text], ?_⟩
    exact
      { current := hopen.current
        reader := hopen.reader
        flight := by
          rw [List.map_append, ← hopen.flight]
          rfl
        ok := hnext ▸ hopen.ok.append htext
        waiting := by
          have hnew : decide (s.lastSeq < ((s.buffers st.buffer).nextLine text).seq) = true :=
            decide_eq_true hlast
          rw [State.waiting, List.drop_append_of_le_length h.progress.length_le, filter_append,
            List.map_append, hopen.waiting, filter_singleton, hnew]
          rfl
        home := forall_mem_append.2 ⟨hopen.home, forall_mem_singleton.2 rfl⟩
        due := by
          dsimp only
          rw [update_self]
          exact hdue }

theorem Inv.push (h : Inv s) (hclean : Clean s (.push b text)) : Inv (s.push b text) := by
  by_cases hheard : ∃ st, s.stream = some st ∧ st.buffer = b
  · obtain ⟨st, hst, rfl⟩ := hheard
    exact h.push_heard hst hclean.1
  · have hother : ∀ st, s.stream = some st → st.buffer ≠ b := fun st hst hb =>
      hheard ⟨st, hst, hb⟩
    have hpush : s.push b text =
        { s with buffers := update s.buffers b ((s.buffers b).push text) } := by
      unfold State.push
      cases hst : s.stream with
      | none => simp
      | some st =>
        obtain ⟨lines, hopen⟩ := h.opened st hst
        simp [hother st hst, hopen.current]
    rw [hpush]
    exact h.push_unheard hclean hother

theorem Inv.snapshot_waiting (h : Inv s) (hstream : s.stream = none) (hhome : ∀ d ∈ s.due, d.1 = b) :
    ((s.buffers b).logs.filter fun l => s.lastSeq < l.seq) =
      s.waiting.map (·.2) ++ (s.buffers b).logs.filter fun l => (b, l) ∉ s.due := by
  have hlt : ∀ l ∈ (s.buffers b).logs, (b, l) ∉ s.due → ∀ d ∈ s.due, d.2.seq < l.seq := by
    intro l hl hnot d hd
    rcases h.newer b l hl with hdue | hnew
    · exact absurd hdue hnot
    · exact hnew d hd (hhome d hd)
  have hwaiting : s.waiting.Pairwise fun a b => a.1 = b.1 ∧ a.2.seq < b.2.seq :=
    h.progress.ordered.sublist (drop_sublist _ _)
  refine eq_of_mem_iff
    ((h.buffers b).sorted.sublist filter_sublist) ?_ ?_
  · refine pairwise_append.2 ⟨?_, (h.buffers b).sorted.sublist filter_sublist, ?_⟩
    · exact pairwise_map.2 (hwaiting.imp And.right)
    · intro l hl m hm
      obtain ⟨w, hw, rfl⟩ := List.mem_map.1 hl
      obtain ⟨hm, hnot⟩ := List.mem_filter.1 hm
      exact hlt m hm (of_decide_eq_true hnot) w (mem_of_mem_drop hw)
  · intro l
    rw [List.mem_filter, List.mem_append, List.mem_filter, List.mem_map, decide_eq_true_eq,
      decide_eq_true_eq]
    constructor
    · rintro ⟨hl, hpast⟩
      by_cases hdue : (b, l) ∈ s.due
      · rw [← take_append_drop s.logs.length s.due] at hdue
        rcases List.mem_append.1 hdue with harrived | hw
        · have hle : l.seq ≤ s.lastSeq := h.progress.arrived _ harrived
          omega
        · exact .inl ⟨(b, l), hw, rfl⟩
      · exact .inr ⟨hl, hdue⟩
    · rintro (⟨w, hw, rfl⟩ | ⟨hl, hnot⟩)
      · have hbuffered := (h.closed hstream w hw).2
        rw [hhome w (mem_of_mem_drop hw)] at hbuffered
        exact ⟨hbuffered, h.progress.ahead w hw⟩
      · refine ⟨hl, ?_⟩
        rcases h.progress.cursor with hnone | ⟨d, hd, hlast⟩
        · omega
        · have := hlt l hl hnot d hd
          omega

theorem connect_eq (s : State) :
    s.connect =
      { s.session.1 with
        stream := some
          { buffer := s.session.2, flight := (s.session.1.buffers s.session.2).logs.map block }
        due := s.session.1.due ++ ((s.session.1.buffers s.session.2).logs.filter
          fun l => (s.session.2, l) ∉ s.session.1.due).map fun l => (s.session.2, l) } := rfl

theorem Inv.connect (h : Inv s) (hstream : s.stream = none) (hclean : Clean s .connect) :
    Inv s.connect := by
  obtain ⟨hcurrent, hdue, hsame⟩ := session_spec s
  have h' := h.session
  have hhome : ∀ d ∈ s.session.1.due, d.1 = s.session.2 := by
    intro d hd
    rw [hdue] at hd
    have hd := hclean d hd
    unfold State.session
    rw [hd]
  rw [connect_eq]
  rw [← hsame] at hstream
  generalize s.session = p at *
  obtain ⟨t, b⟩ := p
  dsimp only at *
  have hbuffer := h'.buffers b
  have hmem : ∀ l ∈ (t.buffers b).logs.filter (fun l => (b, l) ∉ t.due),
      l ∈ (t.buffers b).logs ∧ (b, l) ∉ t.due := by
    intro l hl
    rwa [List.mem_filter, decide_eq_true_eq] at hl
  have hall : ∀ l ∈ (t.buffers b).logs,
      (b, l) ∈ t.due ++ ((t.buffers b).logs.filter fun l => (b, l) ∉ t.due).map (b, ·) := by
    intro l hl
    by_cases hold : (b, l) ∈ t.due
    · exact mem_append_left _ hold
    · exact mem_append_right _
        (mem_map_of_mem (List.mem_filter.2 ⟨hl, decide_eq_true hold⟩))
  have hhome' : ∀ d ∈ t.due ++ ((t.buffers b).logs.filter fun l => (b, l) ∉ t.due).map (b, ·),
      d.1 = b :=
    forall_mem_append.2 ⟨hhome, forall_mem_map.2 fun _ _ => rfl⟩
  refine
    { buffers := h'.buffers, progress := ?_, below := ?_, newer := ?_, opened := ?_
      closed := fun hnone => nomatch hnone }
  · refine h'.progress.append ?_ ?_
    · exact pairwise_map.2
        ((hbuffer.sorted.sublist filter_sublist).imp fun hlt => ⟨rfl, hlt⟩)
    · intro d hd m hm
      obtain ⟨l, hl, rfl⟩ := List.mem_map.1 hm
      obtain ⟨hl, hnot⟩ := hmem l hl
      refine ⟨hhome d hd, ?_⟩
      rcases h'.newer b l hl with hdue | hnew
      · exact absurd hdue hnot
      · exact hnew d hd (hhome d hd)
  · refine forall_mem_append.2 ⟨h'.below, forall_mem_map.2 fun l hl => ?_⟩
    exact hbuffer.below l (hmem l hl).1
  · intro c l hl
    by_cases hc : c = b
    · subst hc
      exact .inl (hall l hl)
    · exact .inr fun d hd hdc => absurd ((hhome' d hd).symm.trans hdc).symm hc
  · rintro _ ⟨⟩
    refine ⟨(t.buffers b).logs, ?_⟩
    exact
      { current := hcurrent
        reader := ⟨rfl, rfl⟩
        flight := rfl
        ok := hbuffer
        waiting := by
          have hwaiting : t.waiting.map (fun w => (b, w.2)) = t.waiting := by
            refine (map_congr_left fun w hw => ?_).trans (map_id _)
            rw [← hhome w (mem_of_mem_drop hw)]
            rfl
          show _ = List.drop t.logs.length (t.due ++ _)
          rw [h'.snapshot_waiting hstream hhome, List.map_append, List.map_map,
            List.drop_append_of_le_length h'.progress.length_le]
          exact congrArg (· ++ _) hwaiting
        home := hhome'
        due := hall }

theorem onLine_some (s : State) (n : Int) (text : String) :
    s.onLine (some n) text = if n ≤ s.lastSeq then s
      else { s with lastSeq := n, logs := s.logs ++ [(some n, text)] } := rfl

theorem Inv.receive (h : Inv s) {first : String} {rest : List String} {reader : Reader}
    (hst : s.stream = some ⟨b, first :: rest, reader⟩)
    (hnumber : ∀ n : Nat, number (toString n) = some (n : Int)) :
    Inv ((receive reader first).1.foldl
      (fun s m => s.onLine (number m.lastEventId) m.data)
      { s with stream := some ⟨b, rest, (receive reader first).2⟩ }) := by
  obtain ⟨lines, hopen⟩ := h.opened _ hst
  cases lines with
  | nil => cases hopen.flight
  | cons l lines =>
    obtain ⟨hfirst, hrest⟩ : first = block l ∧ rest = lines.map block :=
      cons.inj hopen.flight
    have hltall := (pairwise_cons.1 hopen.ok.sorted).1
    have hok : Ok ⟨lines, (s.buffers b).seq⟩ := hopen.ok.mono (sublist_cons_self l lines) (le_refl _)
    have hwaiting := hopen.waiting
    rw [filter_cons] at hwaiting
    rw [hfirst, receive_line (hopen.ok.oneLine l mem_cons_self) hopen.reader]
    simp only [foldl_cons, foldl_nil, hnumber, onLine_some]
    split
    · -- The editor has passed this number: the block is one of a replay.
      rename_i hle
      rw [if_neg (decide_eq_true_iff.not.2 (Int.not_lt.2 hle))] at hwaiting
      refine { h with opened := ?_, closed := fun hnone => nomatch hnone }
      rintro _ ⟨⟩
      exact ⟨lines, hopen.current, ⟨rfl, rfl⟩, hrest, hok, hwaiting, hopen.home, hopen.due⟩
    next hgt =>
      rw [if_pos (decide_eq_true (Int.not_le.1 hgt))] at hwaiting
      obtain ⟨hprogress, hdrop⟩ := h.progress.next hwaiting.symm
      -- Every line behind this one has a higher number.
      have hbehind : (lines.filter fun m => (l.seq : Int) < m.seq) =
          lines.filter fun m => s.lastSeq < m.seq := by
        refine filter_congr fun m hm => ?_
        have hlt := hltall m hm
        rw [decide_eq_true (by omega),
          decide_eq_true (by omega)]
      refine
        { buffers := h.buffers, progress := hprogress, below := h.below, newer := h.newer
          opened := ?_, closed := fun hnone => nomatch hnone }
      rintro _ ⟨⟩
      refine ⟨lines, hopen.current, ⟨rfl, rfl⟩, hrest, hok, ?_, hopen.home, hopen.due⟩
      rw [hbehind]
      exact hdrop.symm

end Steps

/-! ## Runs -/

variable {number}

theorem inv_of_step (hnumber : ∀ n : Nat, number (toString n) = some (n : Int)) {s t : State}
    {a : Action} (h : Inv s) (hclean : Clean s a) (hstep : step number s a = some t) : Inv t := by
  cases a with
  | touch =>
    cases hstep
    exact h.session
  | push =>
    obtain ⟨-, hstep⟩ := ite_none_right_eq_some.1 hstep
    cases hstep
    exact h.push hclean
  | reset =>
    obtain ⟨-, hstep⟩ := ite_none_right_eq_some.1 hstep
    cases hstep
    exact h.reset hclean
  | reap =>
    obtain ⟨-, hstep⟩ := ite_none_right_eq_some.1 hstep
    cases hstep
    exact h.reap hclean
  | connect =>
    obtain ⟨hstream, hstep⟩ := ite_none_right_eq_some.1 hstep
    cases hstep
    exact h.connect (isNone_iff_eq_none.1 hstream) hclean
  | receive =>
    unfold step at hstep
    dsimp only at hstep
    split at hstep
    next b first rest reader hst =>
      cases hstep
      exact h.receive number hst hnumber
    · cases hstep
  | disconnect =>
    obtain ⟨-, hstep⟩ := ite_none_right_eq_some.1 hstep
    cases hstep
    exact h.disconnect hclean

variable (number)

/-- **The log panel.** In every run whose steps meet the condition, the log list holds the lines
that are due, each once and in the order of their pushes, up to those still on the way. -/
theorem panel_shows_lines_once (hnumber : ∀ n : Nat, number (toString n) = some (n : Int))
    (actions : List Action) (s : State) (h : Walk (step number) Clean {} actions s) : Shows s :=
  (walk_induction (fun _ _ _ h hclean hstep => inv_of_step hnumber h hclean hstep) h Inv.init).shows

/-! ## A replay, and a session that is reaped -/

def digits (text : String) : Option Int := some (Nat.ofDigitChars 10 text.toList 0)

theorem digits_toString (n : Nat) : digits (toString n) = some (n : Int) := by
  rw [digits, toString_eq_ofList_toDigits, String.toList_ofList,
    ofDigitChars_toDigits (by decide) (by decide)]

instance (s : State) (a : Action) : Decidable (Clean s a) := by
  cases a <;> dsimp only [Clean] <;> infer_instance

def replayed : List Action :=
  [.connect, .push 0 "one", .receive, .push 0 "two", .disconnect, .push 0 "three", .connect,
    .receive, .receive, .receive]

theorem replayed_enabled : (walkTo (step digits) Clean {} replayed).isSome = true := by decide

theorem replayed_shows_lines_once :
    ∃ s, Walk (step digits) Clean {} replayed s ∧
      s.logs = [(some 0, "one"), (some 1, "two"), (some 2, "three")] ∧ Shows s := by
  have hwalk := walk_of_walkTo (some_get replayed_enabled).symm
  exact ⟨_, hwalk, by decide, panel_shows_lines_once digits digits_toString replayed _ hwalk⟩

def reaped : List Action :=
  [.connect, .push 0 "one", .receive, .disconnect, .reap, .connect, .push 1 "two", .receive]

theorem reaped_enabled : (walkTo (step digits) (fun _ _ => True) {} reaped).isSome = true := by
  decide

/-- The line of the second run is due and has arrived, but it does not show. -/
theorem reaped_session_mutes_panel :
    ∃ s, Walk (step digits) (fun _ _ => True) {} reaped s ∧
      s.due = [(0, ⟨0, "one"⟩), (1, ⟨0, "two"⟩)] ∧ s.stream.map (·.flight) = some [] ∧
      s.logs = [(some 0, "one")] := by
  have hwalk := walk_of_walkTo (some_get reaped_enabled).symm
  exact ⟨_, hwalk, by decide, by decide, by decide⟩

end Octo.RunHost.Logs
