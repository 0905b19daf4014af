import Mathlib.Data.Fintype.EquivFin
import Mathlib.Order.WellFounded
import Mathlib.Logic.Relation
import Octo.Foundation.Split
import Octo.Runtime.Drain

/-!
# Flows that call each other

What holds in every state of a service, also while it shuts down: where a message can be, what a
parked caller waits for, and what a call returns.

* `step_cases` — everything one step can do.
-/

namespace Octo.Runtime.Drain

open Option (bind_eq_some_iff ite_none_right_eq_some some)

open List Function Handling Work
open Octo.Foundation (Walk walk_induction)
open Octo.Foundation.Split (forall_mem_set exists_split mem_modify map_modify)

variable {β δ : Type} {sys : System β δ} {s s' : State β δ}

/-! ## What a step can do -/

/-- The call at `i` returns with an outcome. -/
def State.answer (sys : System β δ) (s : State β δ) (i : Nat) (c : Call δ) (o : Outcome δ) :
    State β δ :=
  { s with work := s.work.answer sys i c o }

inductive Effect (sys : System β δ) (s : State β δ) : Action δ → State β δ → Prop where
  | accept (flow : Nat) (data : δ) (live : s.stopped flow = false)
      (room : (s.work.channel flow).length < sys.buffer flow) :
      Effect sys s (.accept flow data) { s with
        work := { s.work.enqueue flow ⟨s.work.nextID, data⟩ with nextID := s.work.nextID + 1 }
        accepted := s.took flow ⟨s.work.nextID, data⟩ }
  | take (flow : Nat) (m : Message δ) (rest : List (Message δ))
      (channel : s.work.channel flow = m :: rest) (free : s.work.busy flow < sys.workers flow) :
      Effect sys s (.take flow) { s with work := { s.work with
        channel := update s.work.channel flow rest
        handlings := s.work.handlings ++ [⟨flow, m, sys.start flow m.data, false⟩] } }
  | move (i choice : Nat) (h : Handling β δ) (cmd : Cmd β δ)
      (handling : s.work.handlings[i]? = some h) (running : h.done = false)
      (next : sys.next h.flow choice h.state = some cmd) :
      Effect sys s (.move i choice) { s with work := s.work.execute i h cmd }
  | found (i : Nat) (c : Call δ) (flow : Nat) (call : s.work.calls[i]? = some c)
      (phase : c.phase = .looking) (named : sys.named c.flow = some flow)
      (live : s.stopped flow = false) :
      Effect sys s (.lookup i) { s with work := { s.work with
        calls := s.work.calls.set i { c with phase := .sending flow } } }
  | missing (i : Nat) (c : Call δ) (call : s.work.calls[i]? = some c)
      (phase : c.phase = .looking)
      (gone : ∀ flow, sys.named c.flow = some flow → s.stopped flow = true) :
      Effect sys s (.lookup i)
        (s.answer sys i c (.failed (aboutFlow "flow" c.flow " is not registered")))
  | sent (i : Nat) (c : Call δ) (flow : Nat) (call : s.work.calls[i]? = some c)
      (phase : c.phase = .sending flow) (twoWay : c.oneWay = false)
      (opened : s.closed flow = false)
      (room : (s.work.channel flow).length < sys.buffer flow) :
      Effect sys s (.push i) { s with
        work := { s.work.enqueue flow c.message with
          calls := s.work.calls.set i { c with phase := .waiting flow } }
        accepted := s.took flow c.message }
  | fired (i : Nat) (c : Call δ) (flow : Nat) (call : s.work.calls[i]? = some c)
      (phase : c.phase = .sending flow) (oneWay : c.oneWay = true)
      (opened : s.closed flow = false)
      (room : (s.work.channel flow).length < sys.buffer flow) :
      Effect sys s (.push i) { s with
        work := (s.work.enqueue flow c.message).answer sys i c .dropped
        accepted := s.took flow c.message }
  | gone (i : Nat) (c : Call δ) (flow : Nat) (err : String) (call : s.work.calls[i]? = some c)
      (phase : c.phase = .sending flow) (closed : s.closed flow = true) :
      Effect sys s (.gone i) (s.answer sys i c (.failed err))
  | gaveUp (i : Nat) (c : Call δ) (err : String) (call : s.work.calls[i]? = some c)
      (phase : ∀ o, c.phase ≠ .returned o) (cancelled : s.cancelled = true) :
      Effect sys s (.giveUp i) (s.answer sys i c (.failed err))
  | received (i : Nat) (c : Call δ) (flow : Nat) (o : Outcome δ)
      (call : s.work.calls[i]? = some c) (phase : c.phase = .waiting flow)
      (reply : c.reply = some o) :
      Effect sys s (.receive i) (s.answer sys i c o)
  | cancel : Effect sys s .cancel { s with cancelled := true }
  | shutdown (main : s.main = .serving) (cancelled : s.cancelled = true) :
      Effect sys s .shutdown { s with main := .stopping sys.orderForStart.reverse }
  | stopFailed (flow : Nat) (rest : List Nat) (main : s.main = .stopping (flow :: rest)) :
      Effect sys s (.stopSource true) { s with main := .stopping rest }
  | stopSource (flow : Nat) (rest : List Nat) (main : s.main = .stopping (flow :: rest)) :
      Effect sys s (.stopSource false) { s with
        stopped := update s.stopped flow true, main := .closing flow rest }
  | close (flow : Nat) (rest : List Nat) (main : s.main = .closing flow rest) :
      Effect sys s .close { s with
        closed := update s.closed flow true, main := .waiting flow rest }
  | await (flow : Nat) (rest : List Nat) (main : s.main = .waiting flow rest)
      (drained : s.work.channel flow = []) (idle : s.work.busy flow = 0) :
      Effect sys s .await { s with main := .stopping rest }
  | leave (main : s.main = .stopping []) : Effect sys s .leave { s with main := .returned }

variable {a : Action δ}

theorem step_cases (h : step sys s a = some s') : Effect sys s a s' := by
  cases a with
  | accept flow data =>
    simp only [step, accept, ite_none_right_eq_some, some.injEq] at h
    obtain ⟨⟨hlive, hroom⟩, rfl⟩ := h
    exact .accept flow data hlive hroom
  | take flow =>
    rw [step] at h
    unfold take at h
    split at h
    · cases h
    next m rest hchannel =>
      simp only [ite_none_right_eq_some, some.injEq] at h
      obtain ⟨hfree, rfl⟩ := h
      exact .take flow m rest hchannel hfree
  | move i choice =>
    rw [step] at h
    unfold move at h
    split at h
    next k hk =>
      simp only [Option.ite_none_left_eq_some, Bool.not_eq_true, Option.map_eq_some_iff] at h
      obtain ⟨hrunning, cmd, hnext, rfl⟩ := h
      exact .move i choice k cmd hk hrunning hnext
    · cases h
  | lookup i =>
    obtain ⟨c, hc, h⟩ := bind_eq_some_iff.1 h
    unfold lookup at h
    split at h
    next hphase =>
      split at h
      next flow hflow =>
        obtain ⟨hnamed, hlive⟩ := Option.filter_eq_some_iff.1 hflow
        cases h
        exact .found i c flow hc hphase hnamed (by simpa using hlive)
      next hnone =>
        cases h
        refine .missing i c hc hphase fun flow hnamed => ?_
        rw [hnamed] at hnone
        simpa [Option.filter] using hnone
    · cases h
  | push i =>
    obtain ⟨c, hc, h⟩ := bind_eq_some_iff.1 h
    unfold push at h
    split at h
    next flow hphase =>
      simp only [ite_none_right_eq_some, some.injEq] at h
      obtain ⟨⟨hopened, hroom⟩, rfl⟩ := h
      by_cases hway : c.oneWay
      · rw [if_pos hway]
        exact .fired i c flow hc hphase hway hopened hroom
      · rw [if_neg hway]
        exact .sent i c flow hc hphase (by simpa using hway) hopened hroom
    · cases h
  | gone i =>
    obtain ⟨c, hc, h⟩ := bind_eq_some_iff.1 h
    unfold gone at h
    split at h
    next flow hphase =>
      simp only [ite_none_right_eq_some, some.injEq] at h
      obtain ⟨hclosed, rfl⟩ := h
      exact .gone i c flow _ hc hphase hclosed
    · cases h
  | giveUp i =>
    obtain ⟨c, hc, h⟩ := bind_eq_some_iff.1 h
    unfold giveUp at h
    split at h
    next hcancelled =>
      split at h <;> cases h <;> exact .gaveUp i c _ hc (by simp_all) hcancelled
    · cases h
  | receive i =>
    obtain ⟨c, hc, h⟩ := bind_eq_some_iff.1 h
    unfold receive at h
    split at h
    next flow o hphase hreply =>
      cases h
      exact .received i c flow o hc hphase hreply
    · cases h
  | cancel =>
    simp only [step, Option.ite_none_left_eq_some, some.injEq] at h
    obtain ⟨-, rfl⟩ := h
    exact .cancel
  | shutdown =>
    simp only [step, ite_none_right_eq_some, some.injEq] at h
    obtain ⟨⟨hmain, hcancelled⟩, rfl⟩ := h
    exact .shutdown hmain hcancelled
  | stopSource failed =>
    rw [step] at h
    unfold stopSource at h
    split at h
    next flow rest hmain =>
      cases failed with
      | true =>
        simp only [if_true, Option.ite_none_left_eq_some, some.injEq] at h
        obtain ⟨-, rfl⟩ := h
        exact .stopFailed flow rest hmain
      | false =>
        cases h
        exact .stopSource flow rest hmain
    · cases h
  | close =>
    rw [step] at h
    unfold close at h
    split at h
    · cases h
      exact .close _ _ ‹_›
    · cases h
  | await =>
    rw [step] at h
    unfold await at h
    split at h
    · simp only [ite_none_right_eq_some, some.injEq] at h
      obtain ⟨⟨hdrained, hidle⟩, rfl⟩ := h
      exact .await _ _ ‹_› hdrained hidle
    · cases h
  | leave =>
    simp only [step, ite_none_right_eq_some, some.injEq] at h
    obtain ⟨hmain, rfl⟩ := h
    exact .leave hmain

/-! ## Where a message is -/

def Handling.ticket (h : Handling β δ) : Nat × Message δ × Bool := (h.flow, h.message, h.done)

variable (w : Work β δ)

def Work.tickets : List (Nat × Message δ × Bool) := w.handlings.map Handling.ticket

def Work.InFlight (flow : Nat) (m : Message δ) : Prop :=
  m ∈ w.channel flow ∨ (flow, m, false) ∈ w.tickets

section Work

variable {w : Work β δ} {flow g : Nat} {m x : Message δ}

theorem busy_eq_zero : w.busy flow = 0 ↔ ∀ m, (flow, m, false) ∉ w.tickets := by
  unfold busy tickets
  rw [countP_eq_zero]
  constructor
  · intro h m hm
    obtain ⟨k, hk, heq⟩ := mem_map.1 hm
    simp only [ticket, Prod.mk.injEq] at heq
    exact h k hk (by simp [heq.1, heq.2.2])
  · intro h k hk hbusy
    simp only [Bool.and_eq_true, decide_eq_true_eq, Bool.not_eq_true'] at hbusy
    refine h k.message (mem_map.2 ⟨k, hk, ?_⟩)
    rw [ticket, hbusy.1, hbusy.2]

theorem map_set_of_eq {α γ : Type} {f : α → γ} {l : List α} {i : Nat} {a b : α}
    (ha : l[i]? = some a) (hf : f b = f a) : (l.set i b).map f = l.map f := by
  obtain ⟨l₁, l₂, rfl, -, hset⟩ := exists_split ha
  simp [hset, hf]

theorem tickets_answer (i : Nat) (c : Call δ) (o : Outcome δ) :
    (w.answer sys i c o).tickets = w.tickets := by
  apply map_modify
  intro h
  rfl

theorem inFlight_answer (i : Nat) (c : Call δ) (o : Outcome δ) :
    (w.answer sys i c o).InFlight g x ↔ w.InFlight g x := by
  unfold Work.InFlight
  rw [tickets_answer]
  rfl

theorem mem_enqueue :
    x ∈ (w.enqueue flow m).channel g ↔ x ∈ w.channel g ∨ (g = flow ∧ x = m) := by
  unfold enqueue
  by_cases hg : g = flow
  · subst hg
    simp
  · simp [hg]

theorem inFlight_enqueue :
    (w.enqueue flow m).InFlight g x ↔ w.InFlight g x ∨ (g = flow ∧ x = m) :=
  (or_congr_left mem_enqueue).trans or_right_comm

theorem inFlight_take {rest : List (Message δ)} {b : β} (h : w.channel flow = m :: rest) :
    Work.InFlight { w with
      channel := update w.channel flow rest
      handlings := w.handlings ++ [⟨flow, m, b, false⟩] } g x ↔ w.InFlight g x := by
  unfold Work.InFlight tickets
  simp only [map_append, mem_append, map_singleton, mem_singleton]
  by_cases hg : g = flow
  · subst hg
    simp only [update_self, h, mem_cons, ticket, Prod.mk.injEq, true_and,
      and_true]
    rw [← or_assoc, or_comm, ← or_assoc]
  · simp [hg, ticket]

theorem inFlight_execute {i : Nat} {h : Handling β δ} (cmd : Cmd β δ)
    (hi : w.handlings[i]? = some h) : ((w.execute i h cmd).InFlight g x → w.InFlight g x) ∧
      (w.InFlight g x → (w.execute i h cmd).InFlight g x ∨
        ∃ o, cmd = .finish o ∧ g = h.flow ∧ x = h.message) := by
  cases cmd with
  | step b =>
    have htickets : (w.execute i h (.step b)).tickets = w.tickets := map_set_of_eq hi rfl
    unfold Work.InFlight
    rw [htickets]
    exact ⟨id, .inl⟩
  | ref oneWay tag name data b =>
    have htickets : (w.execute i h (.ref oneWay tag name data b)).tickets = w.tickets :=
      map_set_of_eq hi rfl
    unfold Work.InFlight
    rw [htickets]
    exact ⟨id, .inl⟩
  | finish o =>
    obtain ⟨l₁, l₂, hl, -, hset⟩ := exists_split hi
    have hbefore : w.tickets = l₁.map ticket ++ h.ticket :: l₂.map ticket := by
      unfold tickets
      rw [hl, map_append, map_cons]
    have hafter : (w.execute i h (.finish o)).tickets =
        l₁.map ticket ++ (h.flow, h.message, true) :: l₂.map ticket := by
      unfold tickets execute
      rw [hset, map_append]
      rfl
    unfold Work.InFlight
    rw [hbefore, hafter]
    simp only [mem_append, mem_cons, ticket, Prod.mk.injEq,
      Bool.false_eq_true, and_false, false_or]
    constructor
    · rintro (hin | hin | hin)
      · exact .inl hin
      · exact .inr (.inl hin)
      · exact .inr (.inr (.inr hin))
    · rintro (hin | hin | hin | hin)
      · exact .inl (.inl hin)
      · exact .inl (.inr (.inl hin))
      · exact .inr ⟨o, rfl, hin.1, hin.2.1⟩
      · exact .inl (.inr (.inr hin))

end Work

/-! ## The call graph -/

inductive Visits (sys : System β δ) (flow : Nat) : β → Prop where
  | start (data : δ) : Visits sys flow (sys.start flow data)
  | step {b b' : β} (choice : Nat) (before : Visits sys flow b)
      (next : sys.next flow choice b = some (.step b')) : Visits sys flow b'
  | ref {b b' : β} {oneWay : Bool} {tag : Nat} {name : String} {data : δ} (choice : Nat)
      (before : Visits sys flow b)
      (next : sys.next flow choice b = some (.ref oneWay tag name data b')) : Visits sys flow b'
  | resume {b : β} (tag : Nat) (o : Outcome δ) (before : Visits sys flow b) :
      Visits sys flow (sys.resume flow tag o b)

/-- A flow has a `flow-ref` to another. -/
def Refers (sys : System β δ) (f g : Nat) : Prop :=
  ∃ b choice oneWay tag name data b', Visits sys f b ∧
    sys.next f choice b = some (.ref oneWay tag name data b') ∧ sys.named name = some g

def Acyclic (sys : System β δ) : Prop := ∀ f, ¬Relation.TransGen (Refers sys) f f

/-! ## The invariant of the work -/

/-- A message, with the flow it is for: on a channel, with a worker, of a call or of an event. -/
inductive Work.Knows (sys : System β δ) (w : Work β δ) : Option Nat → Message δ → Prop where
  | channel {flow : Nat} {m : Message δ} (h : m ∈ w.channel flow) : Knows sys w (some flow) m
  | handling {k : Handling β δ} (h : k ∈ w.handlings) : Knows sys w (some k.flow) k.message
  | call {c : Call δ} (h : c ∈ w.calls) : Knows sys w (sys.named c.flow) c.message
  | event {e : Event δ} (h : e ∈ w.events) : Knows sys w (some e.flow) e.message

structure Work.Ids (sys : System β δ) (w : Work β δ) : Prop where
  fresh : ∀ g m, w.Knows sys g m → m.id < w.nextID
  unique : ∀ g g' m m', w.Knows sys g m → w.Knows sys g' m' → m.id = m'.id → g = g' ∧ m = m'

/-- What holds of a call: it sends to the flow of its caller's `flow-ref`, its message is with that
flow until there is a reply, and the reply is the outcome of an event. -/
structure Work.CallOk (sys : System β δ) (w : Work β δ) (c : Call δ) : Prop where
  owner : ∃ f, (w.handlings.map Handling.flow)[c.owner]? = some f ∧
    ∀ g, sys.named c.flow = some g → Refers sys f g
  target : ∀ g, c.phase = .sending g ∨ c.phase = .waiting g → sys.named c.flow = some g
  parked : ∀ g, c.phase = .waiting g → c.reply.isSome ∨ w.InFlight g c.message
  reply : ∀ o, c.reply = some o → ∃ e ∈ w.events, e.message.id = c.message.id ∧ e.outcome = o

structure Work.Ok (sys : System β δ) (w : Work β δ) : Prop where
  visits : ∀ h ∈ w.handlings, Visits sys h.flow h.state
  ids : w.Ids sys
  inside : ∀ g m, w.InFlight g m → g < sys.flows.length
  calls : ∀ c ∈ w.calls, w.CallOk sys c

section Invariant

variable {w w' : Work β δ} {flow : Nat} {m : Message δ} {i : Nat} {c : Call δ}

/-- A step that draws no id and brings no message that was not known. -/
theorem Work.Ids.mono (h : w.Ids sys) (hid : w'.nextID = w.nextID)
    (channel : ∀ g, ∀ m ∈ w'.channel g, w.Knows sys (some g) m)
    (handling : ∀ k ∈ w'.handlings, w.Knows sys (some k.flow) k.message)
    (call : ∀ c ∈ w'.calls, w.Knows sys (sys.named c.flow) c.message)
    (event : ∀ e ∈ w'.events, w.Knows sys (some e.flow) e.message) : w'.Ids sys := by
  have hknows : ∀ {g m}, w'.Knows sys g m → w.Knows sys g m := by
    intro g m hm
    cases hm with
    | channel hm => exact channel _ m hm
    | handling hk => exact handling _ hk
    | call hc => exact call _ hc
    | event he => exact event _ he
  constructor
  · intro g m hm
    rw [hid]
    exact h.fresh g m (hknows hm)
  · intro g g' m m' hm hm'
    exact h.unique g g' m m' (hknows hm) (hknows hm')

/-- A step that draws an id, for one new message. -/
theorem Work.Ids.cons (g₀ : Option Nat) (data : δ) (h : w.Ids sys) (hid : w'.nextID = w.nextID + 1)
    (hknows : ∀ g m, w'.Knows sys g m → w.Knows sys g m ∨ g = g₀ ∧ m = ⟨w.nextID, data⟩) :
    w'.Ids sys := by
  constructor
  · intro g m hm
    rcases hknows g m hm with hold | ⟨-, rfl⟩
    · have := h.fresh g m hold
      omega
    · rw [hid]
      exact Nat.lt_succ_self _
  · intro g g' m m' hm hm' heq
    rcases hknows g m hm with hold | ⟨rfl, rfl⟩ <;> rcases hknows g' m' hm' with hold' | ⟨rfl, rfl⟩
    · exact h.unique g g' m m' hold hold' heq
    · exact absurd heq (h.fresh g m hold).ne
    · exact absurd heq.symm (h.fresh g' m' hold').ne
    · exact ⟨rfl, rfl⟩

theorem Work.CallOk.mono (h : w.CallOk sys c)
    (howner : ∀ j f : Nat, (w.handlings.map Handling.flow)[j]? = some f →
      (w'.handlings.map Handling.flow)[j]? = some f)
    (hflight : ∀ g, w.InFlight g c.message → w'.InFlight g c.message)
    (hevents : ∀ e ∈ w.events, e ∈ w'.events) : w'.CallOk sys c where
  owner := by
    obtain ⟨f, hf, hrefers⟩ := h.owner
    exact ⟨f, howner _ f hf, hrefers⟩
  target := h.target
  parked := fun g hphase => (h.parked g hphase).imp_right (hflight g)
  reply := by
    intro o ho
    obtain ⟨e, he, heq⟩ := h.reply o ho
    exact ⟨e, hevents e he, heq⟩

theorem Work.Ok.enqueue {n : Nat} (h : w.Ok sys) (hflow : flow < sys.flows.length)
    (hids : Work.Ids sys { w.enqueue flow m with nextID := n }) :
    Work.Ok sys { w.enqueue flow m with nextID := n } where
  visits := h.visits
  ids := hids
  inside := by
    intro g x hx
    rcases inFlight_enqueue.1 hx with hold | ⟨rfl, -⟩
    · exact h.inside g x hold
    · exact hflow
  calls := by
    intro c hc
    apply (h.calls c hc).mono
    · exact fun _ _ hf => hf
    · exact fun g hold => inFlight_enqueue.2 (.inl hold)
    · exact fun _ he => he

theorem Work.Ok.take {rest : List (Message δ)} (h : w.Ok sys)
    (hchannel : w.channel flow = m :: rest) : Work.Ok sys { w with
      channel := update w.channel flow rest
      handlings := w.handlings ++ [⟨flow, m, sys.start flow m.data, false⟩] } where
  visits := forall_mem_append.2 ⟨h.visits, forall_mem_singleton.2 (.start m.data)⟩
  ids := by
    refine h.ids.mono rfl (fun g x hx => ?_) ?_ (fun _ hc => .call hc) fun _ he => .event he
    · by_cases hg : g = flow
      · subst hg
        simp only [update_self] at hx
        exact .channel (hchannel ▸ mem_cons_of_mem m hx)
      · simp only [update_of_ne hg] at hx
        exact .channel hx
    · refine forall_mem_append.2 ⟨fun _ hk => .handling hk, forall_mem_singleton.2 ?_⟩
      exact .channel (hchannel ▸ mem_cons_self)
  inside := fun g x hx => h.inside g x ((inFlight_take hchannel).1 hx)
  calls := by
    intro c hc
    apply (h.calls c hc).mono
    · intro j f hf
      rw [map_append, getElem?_append_left (List.getElem?_eq_some_iff.1 hf).1]
      exact hf
    · exact fun g hx => (inFlight_take hchannel).2 hx
    · exact fun _ he => he

theorem Work.Ok.setCall {c' : Call δ} (h : w.Ok sys) (hc : w.calls[i]? = some c)
    (hflow : c'.flow = c.flow) (hmessage : c'.message = c.message) (hok : w.CallOk sys c') :
    Work.Ok sys { w with calls := w.calls.set i c' } where
  visits := h.visits
  ids := by
    refine h.ids.mono rfl (fun _ _ hx => .channel hx) (fun _ hk => .handling hk) ?_ fun _ he => .event he
    refine forall_mem_set (fun _ hc => .call hc) ?_
    rw [hflow, hmessage]
    exact .call (mem_of_getElem? hc)
  inside := h.inside
  calls := by
    intro d hd
    exact (forall_mem_set h.calls hok d hd).mono (fun _ _ hf => hf) (fun _ hx => hx) fun _ he => he

theorem Work.Ok.setHandlings {hs : List (Handling β δ)} (h : w.Ok sys)
    (htickets : hs.map ticket = w.tickets)
    (hvisits : ∀ k ∈ hs, Visits sys k.flow k.state) : Work.Ok sys { w with handlings := hs } where
  visits := hvisits
  ids := by
    refine h.ids.mono rfl (fun _ _ hx => .channel hx) (fun k hk => ?_) (fun _ hc => .call hc) fun _ he => .event he
    obtain ⟨k', hk', heq⟩ := mem_map.1 (htickets ▸ mem_map_of_mem hk)
    simp only [ticket, Prod.mk.injEq] at heq
    rw [← heq.1, ← heq.2.1]
    exact .handling hk'
  inside := by
    intro g x hx
    unfold Work.InFlight at hx
    rw [tickets, htickets] at hx
    exact h.inside g x hx
  calls := by
    have hflows : hs.map Handling.flow = w.handlings.map Handling.flow := by
      have := congrArg (List.map Prod.fst) htickets
      simpa [tickets, comp_def, ticket] using this
    intro c hc
    apply (h.calls c hc).mono
    · intro j f hf
      rwa [hflows]
    · intro g hx
      unfold Work.InFlight
      rwa [tickets, htickets]
    · exact fun _ he => he

theorem Work.Ok.answer (h : w.Ok sys) (hc : w.calls[i]? = some c) (o : Outcome δ) :
    (w.answer sys i c o).Ok sys := by
  have hcall := h.calls c (mem_of_getElem? hc)
  have hset : Work.Ok sys { w with calls := w.calls.set i { c with phase := .returned o } } :=
    h.setCall hc rfl rfl ⟨hcall.owner, by simp, by simp, hcall.reply⟩
  apply hset.setHandlings
  · exact tickets_answer i c o
  · intro k hk
    rcases mem_modify hk with hk | ⟨k', hk', rfl⟩
    · exact h.visits k hk
    · exact .resume c.tag o (h.visits k' (mem_of_getElem? hk'))

variable {k : Handling β δ}

theorem Work.Ok.step {choice : Nat} {b : β} (h : w.Ok sys) (hk : w.handlings[i]? = some k)
    (hnext : sys.next k.flow choice k.state = some (.step b)) :
    (w.execute i k (.step b)).Ok sys := by
  apply h.setHandlings
  · exact map_set_of_eq hk rfl
  · exact forall_mem_set h.visits (.step choice (h.visits k (mem_of_getElem? hk)) hnext)

theorem Work.Ok.ref {choice tag : Nat} {oneWay : Bool} {name : String} {data : δ} {b : β}
    (h : w.Ok sys) (hk : w.handlings[i]? = some k)
    (hnext : sys.next k.flow choice k.state = some (.ref oneWay tag name data b)) :
    (w.execute i k (.ref oneWay tag name data b)).Ok sys := by
  have hvisits := h.visits k (mem_of_getElem? hk)
  have hcall : Work.Ok sys { w with
      nextID := w.nextID + 1
      calls := w.calls ++ [⟨i, tag, oneWay, name, ⟨w.nextID, data⟩, .looking, none⟩] } := by
    constructor
    · exact h.visits
    · apply h.ids.cons (sys.named name) data
      · rfl
      intro g x hx
      cases hx with
      | channel hx => exact .inl (.channel hx)
      | handling hx => exact .inl (.handling hx)
      | call hc =>
        rcases mem_append.1 hc with hc | hc
        · exact .inl (.call hc)
        · rw [mem_singleton.1 hc]
          exact .inr ⟨rfl, rfl⟩
      | event he => exact .inl (.event he)
    · exact h.inside
    · refine forall_mem_append.2 ⟨fun c hc => ?_, forall_mem_singleton.2 ?_⟩
      · exact (h.calls c hc).mono (fun _ _ hf => hf) (fun _ hx => hx) fun _ he => he
      · refine ⟨⟨k.flow, ?_, fun g hg => ?_⟩, by simp, by simp, by simp⟩
        · simp [hk]
        · exact ⟨k.state, choice, oneWay, tag, name, data, b, hvisits, hnext, hg⟩
  apply hcall.setHandlings
  · exact map_set_of_eq hk rfl
  · exact forall_mem_set h.visits (.ref choice hvisits hnext)

variable (id : Nat) (o : Outcome δ)

theorem offer_cases (c : Call δ) : offer id o c = c ∨
      c.message.id = id ∧ offer id o c = { c with reply := c.reply.or (some o) } := by
  unfold offer
  split
  · exact .inl rfl
  · split
    · exact .inr ⟨‹_›, rfl⟩
    · exact .inl rfl

@[simp] theorem offer_flow (c : Call δ) :
    (offer id o c).flow = c.flow := by
  rcases offer_cases id o c with h | ⟨-, h⟩ <;> rw [h]

@[simp] theorem offer_message (c : Call δ) :
    (offer id o c).message = c.message := by
  rcases offer_cases id o c with h | ⟨-, h⟩ <;> rw [h]

@[simp] theorem offer_phase (c : Call δ) :
    (offer id o c).phase = c.phase := by
  rcases offer_cases id o c with h | ⟨-, h⟩ <;> rw [h]

@[simp] theorem offer_owner (c : Call δ) :
    (offer id o c).owner = c.owner := by
  rcases offer_cases id o c with h | ⟨-, h⟩ <;> rw [h]

theorem offer_isSome {id g : Nat} (hphase : c.phase = .waiting g)
    (hid : c.message.id = id) : (offer id o c).reply.isSome := by
  unfold offer
  rw [hphase]
  simp [hid]

theorem Work.CallOk.finish {o : Outcome δ} (h : w.CallOk sys c) (hk : w.handlings[i]? = some k) :
    (w.execute i k (.finish o)).CallOk sys (offer k.message.id o c) where
  owner := by
    obtain ⟨f, hf, hrefers⟩ := h.owner
    refine ⟨f, ?_, by simpa using hrefers⟩
    rw [offer_owner, ← hf]
    exact congrArg (·[c.owner]?) (map_set_of_eq hk rfl)
  target := by simpa using h.target
  parked := by
    intro g hphase
    rw [offer_phase] at hphase
    rw [offer_message]
    rcases h.parked g hphase with hreply | hflight
    · refine .inl ?_
      rcases offer_cases k.message.id o c with heq | ⟨-, heq⟩
      · rwa [heq]
      · simp [heq]
    · rcases (inFlight_execute (.finish o) hk).2 hflight with hstill | ⟨-, -, -, hm⟩
      · exact .inr hstill
      · exact .inl (offer_isSome o hphase (congrArg Message.id hm))
  reply := by
    intro o' ho'
    have hold : ∀ e ∈ w.events, e ∈ (w.execute i k (.finish o)).events :=
      fun e he => mem_append_left _ he
    rw [offer_message]
    rcases offer_cases k.message.id o c with heq | ⟨hid, heq⟩
    · obtain ⟨e, he, hout⟩ := h.reply o' (heq ▸ ho')
      exact ⟨e, hold e he, hout⟩
    · rw [heq] at ho'
      cases hreply : c.reply with
      | some =>
        rw [hreply] at ho'
        obtain ⟨e, he, hout⟩ := h.reply o' (hreply.trans ho')
        exact ⟨e, hold e he, hout⟩
      | none =>
        rw [hreply] at ho'
        cases ho'
        exact ⟨_, mem_append_right _ mem_cons_self, hid.symm, rfl⟩

theorem Work.Ok.finish (h : w.Ok sys) (hk : w.handlings[i]? = some k) (o : Outcome δ) :
    (w.execute i k (.finish o)).Ok sys where
  visits := forall_mem_set h.visits (h.visits k (mem_of_getElem? hk))
  ids := by
    have hknown : w.Knows sys (some k.flow) k.message := .handling (mem_of_getElem? hk)
    refine h.ids.mono rfl (fun _ _ hx => .channel hx) (forall_mem_set (fun _ hk => .handling hk) hknown)
      (fun c hc => ?_) (forall_mem_append.2 ⟨fun _ he => .event he, forall_mem_singleton.2 hknown⟩)
    obtain ⟨c, hold, rfl⟩ := mem_map.1 hc
    rw [offer_flow, offer_message]
    exact .call hold
  inside := fun g x hx => h.inside g x ((inFlight_execute (.finish o) hk).1 hx)
  calls := by
    intro c hc
    obtain ⟨c, hold, rfl⟩ := mem_map.1 hc
    exact (h.calls c hold).finish hk

end Invariant

/-! ## The invariant of the service -/

variable {flow : Nat}

theorem lt_of_room {n : Nat} (h : n < sys.buffer flow) : flow < sys.flows.length := by
  by_contra hge
  have hnone : sys.flows[flow]? = none := getElem?_eq_none (Nat.le_of_not_lt hge)
  simp [System.buffer, hnone] at h

theorem named_lt {name : String} {g : Nat} (h : sys.named name = some g) : g < sys.flows.length :=
  (findIdx?_eq_some_iff_findIdx_eq.1 h).1

theorem buffer_pos (h : flow < sys.flows.length) : 0 < sys.buffer flow := by
  simp [System.buffer, getElem?_eq_getElem h, FlowSpec.buffer_pos]

theorem workers_pos (h : flow < sys.flows.length) : 0 < sys.workers flow := by
  simp [System.workers, getElem?_eq_getElem h, FlowSpec.workers_pos]

def Work.Holds (flow : Nat) (m : Message δ) : Prop :=
  w.InFlight flow m ∨ ∃ e ∈ w.events, e.flow = flow ∧ e.message = m

structure Sound (sys : System β δ) (s : State β δ) : Prop where
  work : s.work.Ok sys
  accepted : ∀ p ∈ s.accepted, s.work.Holds p.1 p.2

theorem ok_sent {w : Work β δ} {i : Nat} {c : Call δ} (h : w.Ok sys)
    (hc : w.calls[i]? = some c) (hphase : c.phase = .sending flow) :
    (w.enqueue flow c.message).Ok sys := by
  have hmem := mem_of_getElem? hc
  have hnamed := (h.calls c hmem).target flow (.inl hphase)
  apply h.enqueue (named_lt hnamed)
  refine h.ids.mono rfl (fun g x hx => ?_) (fun _ hk => .handling hk) (fun _ hc => .call hc) fun _ he => .event he
  rcases mem_enqueue.1 hx with hx | ⟨rfl, rfl⟩
  · exact .channel hx
  · exact hnamed ▸ .call hmem

variable (heffect : Effect sys s a s')
include heffect

theorem ok_of_effect (h : s.work.Ok sys) : s'.work.Ok sys := by
  cases heffect with
  | accept flow data live room =>
    apply h.enqueue (lt_of_room room)
    apply h.ids.cons (some flow) data
    · rfl
    intro g x hx
    cases hx with
    | channel hx => exact (mem_enqueue.1 hx).imp .channel fun hx => ⟨congrArg some hx.1, hx.2⟩
    | handling hk => exact .inl (.handling hk)
    | call hd => exact .inl (.call hd)
    | event he => exact .inl (.event he)
  | take flow m rest channel => exact h.take channel
  | move i choice k cmd handling running next =>
    cases cmd with
    | step => exact h.step handling next
    | ref => exact h.ref handling next
    | finish o => exact h.finish handling o
  | found i c flow call phase named =>
    have hcall := h.calls c (mem_of_getElem? call)
    refine h.setCall call rfl rfl ⟨hcall.owner, ?_, by simp, hcall.reply⟩
    intro g hg
    simp only [CallPhase.sending.injEq, reduceCtorEq, or_false] at hg
    exact hg ▸ named
  | sent i c flow call phase =>
    have hsent := ok_sent h call phase
    have hcall := hsent.calls c (mem_of_getElem? call)
    refine hsent.setCall call rfl rfl ⟨hcall.owner, ?_, ?_, hcall.reply⟩
    · intro g hg
      simp only [reduceCtorEq, CallPhase.waiting.injEq, false_or] at hg
      exact hg ▸ hcall.target flow (.inl phase)
    · intro g hg
      cases hg
      exact .inr (inFlight_enqueue.2 (.inr ⟨rfl, rfl⟩))
  | fired i c flow call phase => exact (ok_sent h call phase).answer call _
  | missing i c call | gone i c flow err call | gaveUp i c err call | received i c flow o call =>
    exact h.answer call _
  | cancel | shutdown | stopFailed | stopSource | close | await | leave => exact h

theorem holds_of_effect {g : Nat} {x : Message δ}
    (h : s.work.Holds g x) : s'.work.Holds g x := by
  cases heffect with
  | accept | sent => exact h.imp_left fun hx => inFlight_enqueue.2 (.inl hx)
  | take flow m rest channel => exact h.imp_left (inFlight_take channel).2
  | move i choice k cmd handling =>
    rcases h with hx | ⟨e, he, heq⟩
    · rcases (inFlight_execute cmd handling).2 hx with hx | ⟨o, rfl, rfl, rfl⟩
      · exact .inl hx
      · exact .inr ⟨_, mem_append_right _ mem_cons_self, rfl, rfl⟩
    · refine .inr ⟨e, ?_, heq⟩
      cases cmd with
      | step | ref => exact he
      | finish => exact mem_append_left _ he
  | fired =>
    refine h.imp_left fun hx => ?_
    rw [inFlight_answer, inFlight_enqueue]
    exact .inl hx
  | missing | gone | gaveUp | received =>
    refine h.imp_left fun hx => ?_
    exact (inFlight_answer _ _ _).2 hx
  | found | cancel | shutdown | stopFailed | stopSource | close | await | leave => exact h

theorem accepted_of_effect {p : Nat × Message δ} (h : p ∈ s'.accepted) :
    p ∈ s.accepted ∨ s'.work.InFlight p.1 p.2 := by
  have htook : ∀ flow m, p ∈ s.took flow m → p ∈ s.accepted ∨ p = (flow, m) := by
    intro flow m hp
    unfold State.took at hp
    split at hp
    · exact .inl hp
    · exact (mem_cons.1 hp).symm
  cases heffect with
  | accept flow data | sent i c flow =>
    refine (htook _ _ h).imp_right fun hp => ?_
    rw [hp]
    exact inFlight_enqueue.2 (.inr ⟨rfl, rfl⟩)
  | fired =>
    refine (htook _ _ h).imp_right fun hp => ?_
    rw [hp, inFlight_answer, inFlight_enqueue]
    exact .inr ⟨rfl, rfl⟩
  | take | move | found | missing | gone | gaveUp | received => exact .inl h
  | cancel | shutdown | stopFailed | stopSource | close | await | leave => exact .inl h

theorem sound_of_effect (h : Sound sys s) : Sound sys s' := by
  refine ⟨ok_of_effect heffect h.work, fun p hp => ?_⟩
  rcases accepted_of_effect heffect hp with hold | hnew
  · exact holds_of_effect heffect (h.accepted p hold)
  · exact .inl hnew

omit heffect

theorem sound_initial : Sound sys initial where
  work := {
    visits := by simp [initial]
    ids := by
      have hnone : ∀ g m, ¬Work.Knows sys initial.work g m := by
        intro g m h
        cases h with
        | channel h | handling h | call h | event h => cases h
      exact ⟨fun g m h => absurd h (hnone g m), fun g _ m _ h => absurd h (hnone g m)⟩
    inside := by simp [initial, Work.InFlight, tickets]
    calls := by simp [initial] }
  accepted := by simp [initial]

variable {actions : List (Action δ)}

theorem sound_of_walk {P : State β δ → Action δ → Prop}
    (h : Walk (step sys) P initial actions s) : Sound sys s :=
  walk_induction
    (fun _ _ _ hsound _ hstep => sound_of_effect (step_cases hstep) hsound) h sound_initial

/-! ## Progress -/

def Reaches (sys : System β δ) (actions : List (Action δ)) (s : State β δ) : Prop :=
  Walk (step sys) (fun _ _ => True) initial actions s

def Action.ofWorkers : Action δ → Bool
  | .take _ | .move _ _ | .lookup _ | .push _ | .gone _ | .giveUp _ | .receive _ => true
  | _ => false

def Lively (sys : System β δ) : Prop :=
  ∀ actions s, Reaches sys actions s → ∀ i k, s.work.handlings[i]? = some k → k.done = false →
    (∀ c ∈ s.work.calls, c.owner = i → ∃ o, c.phase = .returned o) →
    ∃ choice cmd, sys.next k.flow choice k.state = some cmd

theorem exists_last_flow (hacyclic : Acyclic sys) {P : Nat → Prop} {n f : Nat}
    (hlt : ∀ f, P f → f < n) (hf : P f) : ∃ f, P f ∧ ∀ g, Refers sys f g → ¬P g := by
  let r : Fin n → Fin n → Prop := fun a b => Relation.TransGen (Refers sys) b a
  have : Std.Irrefl r := ⟨fun a => hacyclic a⟩
  have hwf : WellFounded r := Finite.wellFounded_of_trans_of_irrefl r
  obtain ⟨a, ha, hmin⟩ := hwf.has_min {a | P a} ⟨⟨f, hlt f hf⟩, hf⟩
  exact ⟨a, ha, fun g hg hp => hmin ⟨g, hlt g hp⟩ hp (.single hg)⟩

theorem call_can_go_on {i : Nat} {c : Call δ} (h : s.work.CallOk sys c)
    (hc : s.work.calls[i]? = some c) (hphase : ∀ o, c.phase ≠ .returned o)
    (hidle : ∀ g, sys.named c.flow = some g → ∀ m, ¬s.work.InFlight g m) :
    ∃ a : Action δ, a.ofWorkers = true ∧ (step sys s a).isSome = true := by
  cases hcase : c.phase with
  | looking =>
    refine ⟨.lookup i, rfl, ?_⟩
    simp only [step, hc, Option.bind_some, lookup, hcase]
    split <;> rfl
  | sending g =>
    have hnamed := h.target g (.inl hcase)
    have hempty : s.work.channel g = [] :=
      eq_nil_iff_forall_not_mem.2 fun m hm => hidle g hnamed m (.inl hm)
    cases hclosed : s.closed g with
    | true =>
      refine ⟨.gone i, rfl, ?_⟩
      simp [step, hc, gone, hcase, hclosed]
    | false =>
      refine ⟨.push i, rfl, ?_⟩
      simp [step, hc, push, hcase, hclosed, hempty, buffer_pos (named_lt hnamed)]
  | waiting g =>
    rcases h.parked g hcase with hreply | hflight
    · obtain ⟨o, ho⟩ := Option.isSome_iff_exists.1 hreply
      refine ⟨.receive i, rfl, ?_⟩
      simp [step, hc, receive, hcase, ho]
    · exact absurd hflight (hidle g (h.target g (.inr hcase)) c.message)
  | returned o => exact absurd hcase (hphase o)

/-- **No deadlock**: while a message is in flight, some worker can go on, if calls are acyclic and
blocks return. -/
theorem exists_step_of_inFlight {g : Nat} {m : Message δ}
    (hacyclic : Acyclic sys) (hlively : Lively sys) (hreach : Reaches sys actions s)
    (h : s.work.InFlight g m) : ∃ a : Action δ, a.ofWorkers = true ∧ (step sys s a).isSome = true := by
  have hok := (sound_of_walk hreach).work
  -- a flow at work all of whose callees are idle
  have hlt : ∀ f, (∃ m, s.work.InFlight f m) → f < sys.flows.length :=
    fun f ⟨m, hm⟩ => hok.inside f m hm
  obtain ⟨f, ⟨x, hx⟩, hlast⟩ := exists_last_flow hacyclic hlt ⟨m, h⟩
  have hidle : ∀ g, Refers sys f g → ∀ m, ¬s.work.InFlight g m :=
    fun g hg m hm => hlast g hg ⟨m, hm⟩
  by_cases hbusy : s.work.busy f = 0
  · -- no worker is at work, so there is one for the next message of the channel
    have hchannel : x ∈ s.work.channel f := hx.resolve_right (busy_eq_zero.1 hbusy x)
    obtain ⟨y, rest, heq⟩ := exists_cons_of_ne_nil (ne_nil_of_mem hchannel)
    refine ⟨.take f, rfl, ?_⟩
    simp [step, take, heq, hbusy, workers_pos (hlt f ⟨x, hx⟩)]
  · obtain ⟨k, hk, hrunning⟩ := countP_pos_iff.1 (Nat.pos_of_ne_zero hbusy)
    simp only [Bool.and_eq_true, decide_eq_true_eq, Bool.not_eq_true'] at hrunning
    obtain ⟨i, hi⟩ := getElem?_of_mem hk
    by_cases hcalls : ∀ c ∈ s.work.calls, c.owner = i → ∃ o, c.phase = .returned o
    · obtain ⟨choice, cmd, hnext⟩ := hlively actions s hreach i k hi hrunning.2 hcalls
      refine ⟨.move i choice, rfl, ?_⟩
      simp [step, move, hi, hrunning.2, hnext]
    · push Not at hcalls
      obtain ⟨c, hc, howner, hphase⟩ := hcalls
      have hcall := hok.calls c hc
      obtain ⟨j, hj⟩ := getElem?_of_mem hc
      -- the flow of the call is one the caller refers to
      obtain ⟨f', hf', hrefers⟩ := hcall.owner
      rw [howner, getElem?_map, hi, Option.map_some, some.injEq] at hf'
      rw [← hf', hrunning.1] at hrefers
      exact call_can_go_on hcall hj hphase fun g hg => hidle g (hrefers g hg)

end Octo.Runtime.Drain
