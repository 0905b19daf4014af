import Octo.Runtime.Bus

/-!
# Replies reach the caller that sent the message

Three kinds of pending maps listen on one bus and match on the event id alone.  The argument is
about where a message with a given id can be: an id is drawn once, and from then on at most one
place holds a message with it, on its way to one flow.

* `step_cases` — everything one step can do.
* `reply_correlation` — **every interleaving**: each handling publishes one started event and then
  one terminal event under its own id, and a caller receives at most one outcome, the one of the
  very message it sent.
-/

namespace Octo.Runtime.Bus

open List Option Handling Caller State Octo.Foundation.Split

variable {δ : Type} {t : Tuning} {s s' : State δ}

def Caller.id (c : Caller δ) : String := c.message.eventID

variable (h : Handling δ)

def Handling.id : String := h.message.eventID

/-- Whether the message of a caller is still with it. -/
def Caller.holds (c : Caller δ) : Bool := match c.phase with
  | .sending => true
  | _ => false

/-- The terminal event of a handling, once its flow has ended. -/
def Handling.terminal : Option (FlowEvent δ) := match h.phase with
  | .running => none
  | .publishing ev _ | .delivering ev _ _ _ => some ev

/-- The events of a handling. -/
def Handling.trace : List (FlowEvent δ) :=
  startedEvent h.flow h.message :: h.terminal.toList

/-! ## What a step can do -/

/-- What may become of a handling: its next phase, the events published so far and the callers. -/
inductive Advance (s : State δ) (h : Handling δ) :
    HandlingPhase δ → List (FlowEvent δ) → List (Caller δ) → Prop where
  | finish (kind : FlowEventKind) (data : δ) (err : String) (subscribers : List Registry)
      (phase : h.phase = .running) (terminal : kind ≠ .started) :
      Advance s h (.publishing (terminalEvent h kind data err) subscribers)
        (s.events ++ [terminalEvent h kind data err]) s.callers
  | skip {ev : FlowEvent δ} {r : Registry} {rest : List Registry}
      (phase : h.phase = .publishing ev (r :: rest)) :
      Advance s h (.publishing ev rest) s.events s.callers
  | found {ev : FlowEvent δ} {r : Registry} {rest : List Registry} {i : Nat}
      (phase : h.phase = .publishing ev (r :: rest)) (pending : s.pending r ev.eventID = some i) :
      Advance s h (.delivering ev r i rest) s.events s.callers
  | deliver {ev : FlowEvent δ} {r : Registry} {rest : List Registry} {i : Nat}
      (phase : h.phase = .delivering ev r i rest) :
      Advance s h (.publishing ev rest) s.events (s.callers.modify i (·.offer (replyOf r ev)))

/-- Everything a step can do. -/
inductive Effect (s : State δ) : State δ → Prop where
  | channel (id flow : String) (data : δ) (fresh : id ∉ s.issued) :
      Effect s { s with
        issued := id :: s.issued
        channels := s.channels ++ [(flow, ⟨id, data⟩)] }
  | queue (id subject : String) (data : δ) (fresh : id ∉ s.issued) :
      Effect s { s with
        issued := id :: s.issued
        queues := s.queues ++ [(subject, ⟨id, data⟩)] }
  | topic (id : String) (data : δ) (fresh : id ∉ s.issued) :
      Effect s { s with issued := id :: s.issued, topics := s.topics ++ [⟨id, data⟩] }
  | call (id flow : String) (registry : Registry) (data : δ) (owner : Option Nat)
      (fresh : id ∉ s.issued) :
      Effect s ({ s with issued := id :: s.issued }.track
        (newCaller registry flow ⟨id, data⟩ owner))
  | consume (registry : Registry) (subject flow : String) (m : Message δ)
      (a b : List (String × Message δ)) (queues : s.queues = a ++ (subject, m) :: b) :
      Effect s ({ s with queues := a ++ b }.track (newCaller registry flow m none))
  | send (a b : List (Caller δ)) (c : Caller δ) (callers : s.callers = a ++ c :: b)
      (phase : c.phase = .sending) :
      Effect s { s with
        callers := a ++ { c with phase := .waiting } :: b
        channels := s.channels ++ [(c.flow, c.message)] }
  | receive (a b : List (Caller δ)) (c : Caller δ) (r : Reply δ)
      (callers : s.callers = a ++ c :: b) (phase : c.phase = .waiting) (reply : c.reply = some r) :
      Effect s ({ s with
        callers := a ++ { c with phase := .returned (some r), reply := none } :: b }.forget c)
  | giveUp (a b : List (Caller δ)) (c : Caller δ) (callers : s.callers = a ++ c :: b)
      (phase : ∀ r, c.phase ≠ .returned r) :
      Effect s ({ s with callers := a ++ { c with phase := .returned none } :: b }.forget c)
  | take (flow : String) (m : Message δ) (a b : List (String × Message δ))
      (channels : s.channels = a ++ (flow, m) :: b) :
      Effect s { s with
        channels := a ++ b
        handlings := s.handlings ++ [⟨flow, m, .running⟩]
        events := s.events ++ [startedEvent flow m] }
  | advance (a b : List (Handling δ)) (h : Handling δ) {p : HandlingPhase δ}
      {events : List (FlowEvent δ)} {callers : List (Caller δ)}
      (handlings : s.handlings = a ++ h :: b) (next : Advance s h p events callers) :
      Effect s { s with
        handlings := a ++ { h with phase := p } :: b
        events := events
        callers := callers }

theorem push_eq_some {flow : String} {m : Message δ} (h : s.push t flow m = some s') :
    s' = { s with channels := s.channels ++ [(flow, m)] } := by
  unfold push at h
  split at h
  · cases h
    rfl
  · cases h

theorem create_cases {id : String} {origin : Origin δ} (fresh : id ∉ s.issued)
    (h : create t { s with issued := id :: s.issued } id origin = some s') : Effect s s' := by
  cases origin with
  | timer flow data =>
    rw [push_eq_some h]
    exact .channel id flow data fresh
  | refSend i flow data =>
    simp only [create] at h
    split at h
    · rw [push_eq_some h]
      exact .channel id flow data fresh
    · cases h
  | dispatch i subject data =>
    simp only [create] at h
    split at h <;> cases h
    exact .queue id subject data fresh
  | publish i data =>
    simp only [create] at h
    split at h <;> cases h
    exact .topic id data fresh
  | event i flow =>
    obtain ⟨m, -, hpush⟩ := bind_eq_some_iff.1 h
    rw [push_eq_some hpush]
    exact .channel id flow m.data fresh
  | call flow data =>
    cases h
    exact .call id flow .calls data none fresh
  | refCall i flow data =>
    simp only [create] at h
    split at h <;> cases h
    exact .call id flow .calls data (some i) fresh
  | request connector flow data =>
    cases h
    exact .call id flow (.http connector) data none fresh

theorem step_cases {action : Action δ} (h : step t s action = some s') : Effect s s' := by
  cases action with
  | create =>
    simp only [step] at h
    split at h
    · cases h
    · exact create_cases ‹_› h
  | consume connector subject flow =>
    obtain ⟨⟨⟨subject', m⟩, rest⟩, htake, h⟩ := bind_eq_some_iff.1 h
    cases h
    obtain ⟨hp, a, b, hq, rfl⟩ := takeFirst_split htake
    exact .consume _ subject' flow m a b hq
  | send i =>
    obtain ⟨c, hc, h⟩ := bind_eq_some_iff.1 h
    obtain ⟨a, b, hcallers, -, hset⟩ := exists_split hc
    split at h
    · rw [push_eq_some h, hset]
      exact .send a b c hcallers ‹_›
    · cases h
  | receive i =>
    obtain ⟨c, hc, h⟩ := bind_eq_some_iff.1 h
    obtain ⟨a, b, hcallers, -, hset⟩ := exists_split hc
    split at h <;> cases h
    rw [hset]
    exact .receive a b c _ hcallers ‹_› ‹_›
  | giveUp i =>
    obtain ⟨c, hc, h⟩ := bind_eq_some_iff.1 h
    obtain ⟨a, b, hcallers, -, hset⟩ := exists_split hc
    split at h <;> cases h
    rw [hset]
    exact .giveUp a b c hcallers ‹_›
  | take flow =>
    obtain ⟨-, h⟩ := ite_none_right_eq_some.1 h
    obtain ⟨⟨⟨flow', m⟩, rest⟩, htake, h⟩ := bind_eq_some_iff.1 h
    cases h
    obtain ⟨hp, a, b, hchannels, rfl⟩ := takeFirst_split htake
    obtain rfl : flow' = flow := by simpa using hp
    exact .take flow' m a b hchannels
  | finish i kind data err subscribers =>
    obtain ⟨x, hx, h⟩ := bind_eq_some_iff.1 h
    obtain ⟨a, b, hhandlings, -, hset⟩ := exists_split hx
    split at h
    · obtain ⟨⟨hkind, -⟩, h⟩ := ite_none_right_eq_some.1 h
      cases h
      rw [hset]
      exact .advance a b x hhandlings (.finish kind data err subscribers ‹_› hkind)
    · cases h
  | lookup i =>
    obtain ⟨x, hx, h⟩ := bind_eq_some_iff.1 h
    obtain ⟨a, b, hhandlings, -, hset⟩ := exists_split hx
    split at h <;> cases h
    rename_i ev r rest hphase
    rw [hset]
    cases hl : s.listener r ev with
    | none => exact .advance a b x hhandlings (.skip hphase)
    | some c => exact .advance a b x hhandlings (.found hphase (ite_none_left_eq_some.1 hl).2)
  | deliver i =>
    obtain ⟨x, hx, h⟩ := bind_eq_some_iff.1 h
    obtain ⟨a, b, hhandlings, -, hset⟩ := exists_split hx
    split at h <;> cases h
    rw [hset]
    exact .advance a b x hhandlings (.deliver ‹_›)

/-! ## One place for each id -/

/-- How many places hold a message with this id. -/
def places (s : State δ) (e : String) : Nat :=
  s.channels.countP (·.2.eventID = e) + s.queues.countP (·.2.eventID = e) +
    s.callers.countP (fun c => c.holds && decide (c.id = e)) + s.handlings.countP (·.id = e)

/-- How many callers there are for an id, those to come from the queues included. -/
def claimants (s : State δ) (e : String) : Nat :=
  s.queues.countP (·.2.eventID = e) + s.callers.countP (·.id = e)

/-- One place and one caller for each id, and none for an id that was not drawn. -/
structure Unique (s : State δ) : Prop where
  places : ∀ e, places s e ≤ 1
  claimants : ∀ e, claimants s e ≤ 1
  fresh : ∀ e, e ∉ s.issued → Bus.places s e = 0 ∧ Bus.claimants s e = 0

variable (u : Unique s)
include u

/-- A step that draws an id. -/
theorem Unique.draw {id : String} (hissued : s'.issued = id :: s.issued)
    (hid : Bus.places s' id ≤ 1 ∧ Bus.claimants s' id ≤ 1)
    (hother : ∀ e, e ≠ id → Bus.places s' e = Bus.places s e ∧
      Bus.claimants s' e = Bus.claimants s e) : Unique s' := by
  refine ⟨fun e => ?_, fun e => ?_, fun e he => ?_⟩
  · by_cases h : e = id
    · exact h ▸ hid.1
    · exact (hother e h).1 ▸ u.places e
  · by_cases h : e = id
    · exact h ▸ hid.2
    · exact (hother e h).2 ▸ u.claimants e
  · rw [hissued, mem_cons, not_or] at he
    rw [(hother e he.1).1, (hother e he.1).2]
    exact u.fresh e he.2

/-- A step that draws none and adds no place and no caller. -/
theorem Unique.move (hissued : s'.issued = s.issued)
    (hle : ∀ e, Bus.places s' e ≤ Bus.places s e ∧ Bus.claimants s' e ≤ Bus.claimants s e) :
    Unique s' := by
  refine ⟨fun e => ?_, fun e => ?_, fun e he => ?_⟩
  · exact Nat.le_trans (hle e).1 (u.places e)
  · exact Nat.le_trans (hle e).2 (u.claimants e)
  · rw [hissued] at he
    have hzero := u.fresh e he
    have hle := hle e
    omega

theorem Unique.handlings_le (e : String) : s.handlings.countP (·.id = e) ≤ 1 :=
  Nat.le_trans (Nat.le_add_left ..) (u.places e)

theorem Unique.callers_le (e : String) : s.callers.countP (·.id = e) ≤ 1 :=
  Nat.le_trans (Nat.le_add_left ..) (u.claimants e)

omit u

theorem offer_id (c : Caller δ) (r : Reply δ) : (c.offer r).id = c.id := by
  unfold offer
  split <;> rfl

theorem offer_holds (c : Caller δ) (r : Reply δ) : (c.offer r).holds = c.holds := by
  unfold offer
  split <;> rfl

@[simp] theorem newCaller_id (r : Registry) (flow : String) (m : Message δ) (o : Option Nat) :
    (newCaller r flow m o).id = m.eventID := rfl

@[simp] theorem newCaller_holds (r : Registry) (flow : String) (m : Message δ) (o : Option Nat) :
    (newCaller r flow m o).holds = true := rfl

variable {c : Caller δ} {r : Registry}

theorem settled_le {a b : List (Caller δ)} {c' : Caller δ} (callers : s.callers = a ++ c :: b)
    (hcallers : s'.callers = a ++ c' :: b) (hid : c'.id = c.id) (hholds : c'.holds = false)
    (hc : s'.channels = s.channels) (hq : s'.queues = s.queues) (hh : s'.handlings = s.handlings)
    (e : String) : Bus.places s' e ≤ Bus.places s e ∧ Bus.claimants s' e ≤ Bus.claimants s e := by
  simp only [Bus.places, Bus.claimants, callers, hcallers, hc, hq, hh, countP_append,
    countP_cons, hid, hholds, Bool.false_and]
  simp only [Bool.false_eq_true, if_false]
  omega

section Advance

variable {h : Handling δ} {p : HandlingPhase δ} {events : List (FlowEvent δ)}
  {callers : List (Caller δ)} (next : Advance s h p events callers)
include next

theorem Advance.map {β : Type} {g : Caller δ → β} (hg : ∀ c r, g (c.offer r) = g c) :
    callers.map g = s.callers.map g := by
  cases next with
  | deliver => exact map_modify (fun c => hg c _) s.callers _
  | _ => rfl

theorem Advance.countP {q : Caller δ → Bool} (hq : ∀ c r, q (c.offer r) = q c) :
    callers.countP q = s.callers.countP q := by
  have hmap := congrArg (List.countP id) (next.map hq)
  rw [countP_map, countP_map] at hmap
  exact hmap

theorem Advance.terminal {ev : FlowEvent δ} (hev : h.terminal = some ev) :
    ({ h with phase := p }).terminal = some ev := by
  cases next <;> simp_all [Handling.terminal]

end Advance

theorem Effect.unique (u : Unique s) (h : Effect s s') : Unique s' := by
  cases h with
  | channel id flow data fresh | queue id subject data fresh =>
    have hzero := u.fresh id fresh
    refine u.draw rfl ?_ fun e he => ?_
    · simp only [Bus.places, Bus.claimants] at hzero ⊢
      simp
      omega
    · simp [Bus.places, Bus.claimants, Ne.symm he]
  | topic id data fresh =>
    have hzero := u.fresh id fresh
    refine u.draw rfl ?_ fun e he => ⟨rfl, rfl⟩
    simp only [Bus.places, Bus.claimants] at hzero ⊢
    omega
  | call id flow registry data owner fresh =>
    have hzero := u.fresh id fresh
    refine u.draw rfl ?_ fun e he => ?_
    · simp only [Bus.places, Bus.claimants, track, countP_append] at hzero ⊢
      rw [countP_singleton, countP_singleton]
      simp only [newCaller_holds, newCaller_id, decide_true, Bool.and_self, if_true]
      omega
    · simp [Bus.places, Bus.claimants, track, Ne.symm he]
  | consume registry subject flow m a b queues =>
    refine u.move rfl fun e => ?_
    by_cases he : m.eventID = e
    · simp [Bus.places, Bus.claimants, track, queues, he]
      omega
    · simp [Bus.places, Bus.claimants, track, queues, he]
  | send a b c callers phase =>
    refine u.move rfl fun e => ?_
    have hholds : c.holds = true := by simp [holds, phase]
    have hwaits : ({ c with phase := .waiting }).holds = false := rfl
    have hid : ({ c with phase := .waiting }).id = c.message.eventID := rfl
    have hid' : c.id = c.message.eventID := rfl
    by_cases he : c.message.eventID = e
    · simp [Bus.places, Bus.claimants, callers, hholds, hwaits, hid, hid', he]
      omega
    · simp [Bus.places, Bus.claimants, callers, hid, hid', he]
  | receive a b c r callers phase reply | giveUp a b c callers phase =>
    refine u.move rfl fun e => ?_
    apply settled_le callers <;> rfl
  | take flow m a b channels =>
    refine u.move rfl fun e => ?_
    have hid : (⟨flow, m, .running⟩ : Handling δ).id = m.eventID := rfl
    simp only [Bus.places, Bus.claimants, channels, countP_append, countP_cons, countP_nil, hid]
    omega
  | advance a b x handlings next =>
    refine u.move rfl fun e => ?_
    have hid : ∀ p, ({ x with phase := p }).id = x.id := fun _ => rfl
    have hholds := next.countP (q := fun c => c.holds && decide (c.id = e)) fun c r => by
      rw [offer_holds, offer_id]
    have hids := next.countP (q := (·.id = e)) fun c r => by rw [offer_id]
    simp only [Bus.places, Bus.claimants, handlings, hholds, hids, countP_append, countP_cons, hid]
    omega

theorem unique_initial : Unique (initial : State δ) :=
  ⟨fun e => by simp [places, initial], fun e => by simp [claimants, initial],
    fun e _ => by simp [places, claimants, initial]⟩

/-! ## Callers and the messages on their way -/

/-- What a caller keeps for life: its pending map, the flow it calls and its message. -/
structure Ticket (δ : Type) where
  registry : Registry
  flow : String
  message : Message δ

def Caller.ticket (c : Caller δ) : Ticket δ := ⟨c.registry, c.flow, c.message⟩

def tickets (s : State δ) : List (Ticket δ) := s.callers.map (·.ticket)

/-- The messages that are in a channel or handled, with their flows. -/
def sent (s : State δ) : List (String × Message δ) :=
  s.channels ++ s.handlings.map fun h => (h.flow, h.message)

theorem offer_ticket (c : Caller δ) (r : Reply δ) : (c.offer r).ticket = c.ticket := by
  unfold offer
  split <;> rfl

/-- A step either leaves the callers, or what was sent, as it is. -/
theorem Effect.carriers (h : Effect s s') :
    (tickets s' = tickets s ∧ ∀ p ∈ sent s', p ∈ sent s ∨ p.2.eventID ∉ s.issued ∨
      ∃ c ∈ s.callers, p = (c.flow, c.message)) ∨
    (sent s' = sent s ∧ ∃ k, tickets s' = tickets s ++ [k] ∧
      (k.message.eventID ∉ s.issued ∨ ∃ q ∈ s.queues, q.2 = k.message)) := by
  cases h with
  | channel id flow data fresh =>
    refine .inl ⟨rfl, fun p hp => ?_⟩
    simp only [sent, append_assoc, mem_append, mem_singleton] at hp ⊢
    rcases hp with hp | rfl | hp
    · exact .inl (.inl hp)
    · exact .inr (.inl fresh)
    · exact .inl (.inr hp)
  | queue id subject data fresh | topic id data fresh => exact .inl ⟨rfl, fun p hp => .inl hp⟩
  | call id flow registry data owner fresh =>
    exact .inr ⟨rfl, _, map_append, .inl fresh⟩
  | consume registry subject flow m a b queues =>
    exact .inr ⟨rfl, _, map_append, .inr ⟨(subject, m), by simp [queues], rfl⟩⟩
  | send a b c callers =>
    refine .inl ⟨by simp [tickets, callers, ticket], fun p hp => ?_⟩
    simp only [sent, append_assoc, mem_append, mem_singleton] at hp ⊢
    rcases hp with hp | rfl | hp
    · exact .inl (.inl hp)
    · exact .inr (.inr ⟨c, by simp [callers], rfl⟩)
    · exact .inl (.inr hp)
  | receive a b c r callers phase reply | giveUp a b c callers phase =>
    exact .inl ⟨by simp [tickets, forget, callers, ticket], fun p hp => .inl hp⟩
  | take flow m a b channels =>
    refine .inl ⟨rfl, fun p hp => .inl ?_⟩
    simp only [sent, channels, map_append, mem_append, mem_cons, map_cons] at hp ⊢
    tauto
  | advance a b x handlings next =>
    exact .inl ⟨next.map offer_ticket, fun p hp => .inl (by simpa [sent, handlings] using hp)⟩

/-- A message that was sent under the id of a caller is the caller's own. -/
def Carried (s : State δ) : Prop :=
  ∀ k ∈ tickets s, ∀ p ∈ sent s, p.2.eventID = k.message.eventID → p = (k.flow, k.message)

theorem Unique.ticket_eq (u : Unique s) {k k' : Ticket δ} (hk : k ∈ tickets s)
    (hk' : k' ∈ tickets s) (hid : k.message.eventID = k'.message.eventID) : k = k' := by
  obtain ⟨c, hc, rfl⟩ := mem_map.1 hk
  obtain ⟨c', hc', rfl⟩ := mem_map.1 hk'
  rw [eq_of_countP_le_one (u.callers_le c'.id) hc hc' (decide_eq_true hid) (decide_eq_true rfl)]

theorem Unique.ticket_issued (u : Unique s) {k : Ticket δ} (hk : k ∈ tickets s) :
    k.message.eventID ∈ s.issued := by
  by_contra hnot
  obtain ⟨c, hc, rfl⟩ := mem_map.1 hk
  have hzero := (u.fresh _ hnot).2
  have hpos : 0 < s.callers.countP (·.id = c.id) := countP_pos_iff.2 ⟨c, hc, decide_eq_true rfl⟩
  have : Bus.claimants s c.id = 0 := hzero
  unfold Bus.claimants at this
  omega

theorem sent_places {p : String × Message δ} (hp : p ∈ sent s) :
    s.queues.countP (·.2.eventID = p.2.eventID) + 1 ≤ Bus.places s p.2.eventID := by
  unfold Bus.places
  rcases mem_append.1 hp with hp | hp
  · have : 0 < s.channels.countP (·.2.eventID = p.2.eventID) :=
      countP_pos_iff.2 ⟨p, hp, decide_eq_true rfl⟩
    omega
  · obtain ⟨h, hh, rfl⟩ := mem_map.1 hp
    have : 0 < s.handlings.countP (·.id = h.message.eventID) :=
      countP_pos_iff.2 ⟨h, hh, decide_eq_true rfl⟩
    dsimp only
    omega

theorem Effect.carried (u : Unique s) (hcar : Carried s) (h : Effect s s') : Carried s' := by
  intro k hk p hp hid
  rcases h.carriers with ⟨htickets, hsent⟩ | ⟨hsent, k₀, htickets, hnew⟩
  · rw [htickets] at hk
    rcases hsent p hp with hp | hfresh | ⟨c, hc, rfl⟩
    · exact hcar k hk p hp hid
    · rw [hid] at hfresh
      exact absurd (u.ticket_issued hk) hfresh
    · rw [← u.ticket_eq (mem_map_of_mem hc) hk hid]
      rfl
  · rw [hsent] at hp
    have hplaces := sent_places hp
    rw [htickets, mem_append, mem_singleton] at hk
    rcases hk with hk | rfl
    · exact hcar k hk p hp hid
    · -- the new caller's message was nowhere else
      rw [hid] at hplaces
      rcases hnew with hfresh | ⟨q, hq, hqm⟩
      · have hzero := (u.fresh _ hfresh).1
        omega
      · have hle := u.places k.message.eventID
        have hpos : 0 < s.queues.countP (·.2.eventID = k.message.eventID) :=
          countP_pos_iff.2 ⟨q, hq, decide_eq_true (by rw [hqm])⟩
        omega

/-! ## Pending entries, deliveries and outcomes -/

/-- The caller with this number waits in this pending map for this id. -/
def Waits (s : State δ) (i : Nat) (r : Registry) (e : String) : Prop :=
  ∃ k, (tickets s)[i]? = some k ∧ k.registry = r ∧ k.message.eventID = e

/-- A pending entry and a delivery point at a caller that waits there for that id, and a terminal
event is the handling's own. -/
structure Entries (s : State δ) : Prop where
  pending : ∀ r e i, s.pending r e = some i → Waits s i r e
  terminal : ∀ h ∈ s.handlings, ∀ ev, h.terminal = some ev →
    ev.eventID = h.id ∧ ev.flow = h.flow ∧ ev.kind ≠ .started
  delivering : ∀ h ∈ s.handlings, ∀ ev r i rest, h.phase = .delivering ev r i rest →
    Waits s i r h.id

variable {i : Nat} {e : String}

theorem Effect.waits (h : Effect s s') (hw : Waits s i r e) : Waits s' i r e := by
  obtain ⟨k, hk, hkr⟩ := hw
  rcases h.carriers with ⟨htickets, -⟩ | ⟨-, k₀, htickets, -⟩
  · exact ⟨k, by rw [htickets]; exact hk, hkr⟩
  · refine ⟨k, ?_, hkr⟩
    rw [htickets, getElem?_append_left (List.getElem?_eq_some_iff.1 hk).1]
    exact hk

theorem track_pending (h : (s.track c).pending r e = some i) :
    s.pending r e = some i ∨ Waits (s.track c) i r e := by
  simp only [track] at h
  split at h
  next heq =>
    cases h
    obtain ⟨rfl, rfl⟩ := heq
    exact .inr ⟨c.ticket, by simp [tickets, track], rfl, rfl⟩
  · exact .inl h

theorem forget_pending (h : (s.forget c).pending r e = some i) : s.pending r e = some i := by
  simp only [forget] at h
  split at h
  · cases h
  · exact h

theorem Effect.pending (h : Effect s s') (hp : s'.pending r e = some i) :
    s.pending r e = some i ∨ Waits s' i r e := by
  cases h with
  | call => exact track_pending hp
  | consume => exact track_pending hp
  | receive => exact .inl (forget_pending hp)
  | giveUp => exact .inl (forget_pending hp)
  | _ => exact .inl hp

theorem Effect.handling (h : Effect s s') {x' : Handling δ} (hx' : x' ∈ s'.handlings) :
    x' ∈ s.handlings ∨ x'.phase = .running ∨ ∃ x ∈ s.handlings, ∃ p events callers,
      Advance s x p events callers ∧ x' = { x with phase := p } := by
  cases h with
  | take =>
    rcases mem_append.1 hx' with hx' | hx'
    · exact .inl hx'
    · rw [mem_singleton.1 hx']
      exact .inr (.inl rfl)
  | advance a b x handlings next =>
    simp only [handlings, mem_append, mem_cons] at hx' ⊢
    rcases hx' with hx' | rfl | hx'
    · exact .inl (.inl hx')
    · exact .inr (.inr ⟨x, .inr (.inl rfl), _, _, _, next, rfl⟩)
    · exact .inl (.inr (.inr hx'))
  | _ => exact .inl hx'

theorem Effect.entries (en : Entries s) (h : Effect s s') : Entries s' := by
  refine ⟨fun r e i hp => ?_, fun x' hx' ev hev => ?_, fun x' hx' ev r i rest hphase => ?_⟩
  · rcases h.pending hp with hp | hw
    · exact h.waits (en.pending r e i hp)
    · exact hw
  · rcases h.handling hx' with hx | hrun | ⟨x, hx, p, events, callers, next, rfl⟩
    · exact en.terminal x' hx ev hev
    · simp [Handling.terminal, hrun] at hev
    · cases next with
      | finish kind data err subs phase hkind =>
        cases hev
        exact ⟨rfl, rfl, hkind⟩
      | skip phase | found phase pending | deliver phase =>
        exact en.terminal x hx ev (by simpa [Handling.terminal, phase] using hev)
  · rcases h.handling hx' with hx | hrun | ⟨x, hx, p, events, callers, next, rfl⟩
    · exact h.waits (en.delivering x' hx ev r i rest hphase)
    · rw [hrun] at hphase
      cases hphase
    · cases next with
      | found phase pending =>
        cases hphase
        -- the entry just looked up is the one for the event's id, the handling's own
        have hid := (en.terminal x hx ev (by simp [Handling.terminal, phase])).1
        exact h.waits (hid ▸ en.pending r ev.eventID i pending)
      | _ => cases hphase

/-- The reply is in the caller's channel, or was returned. -/
def Caller.Got (c : Caller δ) (r : Reply δ) : Prop :=
  c.reply = some r ∨ c.phase = .returned (some r)

/-- What a caller got is the outcome of the handling with its id. -/
def Outcomes (s : State δ) : Prop := ∀ c ∈ s.callers, ∀ r, c.Got r →
    ∃ h ∈ s.handlings, h.id = c.id ∧ ∃ ev, h.terminal = some ev ∧ r = replyOf c.registry ev

theorem Effect.handlings_grow (h : Effect s s') {x : Handling δ} (hx : x ∈ s.handlings) :
    ∃ x' ∈ s'.handlings, x'.id = x.id ∧ ∀ ev, x.terminal = some ev → x'.terminal = some ev := by
  cases h with
  | take => exact ⟨x, mem_append_left _ hx, rfl, fun _ => id⟩
  | advance a b y handlings next =>
    rw [handlings, mem_append, mem_cons] at hx
    rcases hx with hx | rfl | hx
    · exact ⟨x, by simp [hx], rfl, fun _ => id⟩
    · exact ⟨_, mem_append_right _ mem_cons_self, rfl, fun _ => next.terminal⟩
    · exact ⟨x, by simp [hx], rfl, fun _ => id⟩
  | _ => exact ⟨x, hx, rfl, fun _ => id⟩

theorem Effect.got (h : Effect s s') {c' : Caller δ} (hc' : c' ∈ s'.callers) {r : Reply δ}
    (hgot : c'.Got r) : (∃ c ∈ s.callers, c.ticket = c'.ticket ∧ c.Got r) ∨
    ∃ x ∈ s.handlings, ∃ ev registry i rest, x.phase = .delivering ev registry i rest ∧
      (tickets s)[i]? = some c'.ticket ∧ r = replyOf registry ev := by
  have hnew : ∀ {registry : Registry} {flow : String} {m : Message δ} {o : Option Nat},
      c' ∈ s.callers ++ [newCaller registry flow m o] → c' ∈ s.callers := by
    intro registry flow m o hmem
    rcases mem_append.1 hmem with hmem | hmem
    · exact hmem
    · rw [mem_singleton.1 hmem] at hgot
      rcases hgot with hgot | hgot <;> cases hgot
  have hsplit : ∀ {a b : List (Caller δ)} {c y : Caller δ}, s.callers = a ++ c :: b →
      c' ∈ a ++ y :: b → c' = y ∧ c ∈ s.callers ∨ c' ∈ s.callers := by
    intro a b c y hs hmem
    simp only [hs, mem_append, mem_cons] at hmem ⊢
    tauto
  cases h with
  | call id flow registry data owner fresh | consume registry subject flow m a b queues =>
    exact .inl ⟨c', hnew hc', rfl, hgot⟩
  | send a b c callers phase | giveUp a b c callers phase =>
    rcases hsplit callers hc' with ⟨rfl, hc⟩ | hc'
    · refine .inl ⟨c, hc, rfl, ?_⟩
      rcases hgot with hgot | hgot
      · exact .inl hgot
      · cases hgot
    · exact .inl ⟨c', hc', rfl, hgot⟩
  | receive a b c r₀ callers phase reply =>
    rcases hsplit callers hc' with ⟨rfl, hc⟩ | hc'
    · refine .inl ⟨c, hc, rfl, .inl ?_⟩
      rcases hgot with hgot | hgot
      · cases hgot
      · cases hgot
        exact reply
    · exact .inl ⟨c', hc', rfl, hgot⟩
  | advance a b x handlings next =>
    cases next with
    | @deliver ev registry rest i phase =>
      rcases mem_modify hc' with hc' | ⟨c, hc, rfl⟩
      · exact .inl ⟨c', hc', rfl, hgot⟩
      · have hticket : (tickets s)[i]? = some (c.offer (replyOf registry ev)).ticket := by
          rw [offer_ticket, tickets, getElem?_map, hc]
          rfl
        unfold offer at hgot
        split at hgot
        · rcases hgot with hgot | hgot
          · cases hgot
            exact .inr ⟨x, by simp [handlings], ev, registry, i, rest, phase, hticket, rfl⟩
          · exact .inl ⟨c, mem_of_getElem? hc, (offer_ticket _ _).symm, .inr hgot⟩
        · exact .inl ⟨c, mem_of_getElem? hc, (offer_ticket _ _).symm, hgot⟩
    | _ => exact .inl ⟨c', hc', rfl, hgot⟩
  | _ => exact .inl ⟨c', hc', rfl, hgot⟩

theorem Effect.outcomes (en : Entries s) (ho : Outcomes s) (h : Effect s s') : Outcomes s' := by
  intro c' hc' r hgot
  -- the handling the outcome belongs to was there before the step
  obtain ⟨x, hx, hid, ev, hev, hr⟩ : ∃ x ∈ s.handlings, x.id = c'.id ∧
      ∃ ev, x.terminal = some ev ∧ r = replyOf c'.registry ev := by
    rcases h.got hc' hgot with ⟨c, hc, hticket, hgot⟩ |
      ⟨x, hx, ev, registry, i, rest, hphase, hticket, hr⟩
    · obtain ⟨x, hx, hid, ev, hev, hr⟩ := ho c hc r hgot
      simp only [ticket, Ticket.mk.injEq] at hticket
      exact ⟨x, hx, by rw [hid, Caller.id, hticket.2.2, Caller.id], ev, hev, hticket.1 ▸ hr⟩
    · obtain ⟨k, hk, hkr, hke⟩ := en.delivering x hx ev registry i rest hphase
      rw [hticket] at hk
      cases hk
      exact ⟨x, hx, hke.symm, ev, by simp [Handling.terminal, hphase], by rw [hr, ← hkr]; rfl⟩
  obtain ⟨x', hx', hid', hterminal⟩ := h.handlings_grow hx
  exact ⟨x', hx', hid'.trans hid, ev, hterminal ev hev, hr⟩

/-! ## The events of a handling -/

/-- Under each id the bus has the events of its handlings. -/
def Logged (s : State δ) : Prop :=
  ∀ e, s.events.filter (·.eventID = e) = (s.handlings.filter (·.id = e)).flatMap (·.trace)

theorem Effect.logged (u : Unique s) (hl : Logged s) (h : Effect s s') : Logged s' := by
  cases h with
  | take flow m =>
    intro e
    have hid : (⟨flow, m, .running⟩ : Handling δ).id = m.eventID := rfl
    rw [filter_append, hl e]
    by_cases he : m.eventID = e <;> simp [startedEvent, hid, he, trace, Handling.terminal]
  | advance a b x handlings next =>
    intro e
    have hid : ∀ p, ({ x with phase := p }).id = x.id := fun _ => rfl
    cases next with
    | finish kind data err subs phase =>
      have hev : (terminalEvent x kind data err).eventID = x.id := rfl
      rw [filter_append, hl e, handlings]
      by_cases he : x.id = e
      · -- no other handling has this id, so the event comes last
        have hle := handlings ▸ u.handlings_le e
        obtain ⟨ha, hb⟩ := filter_eq_nil_of_countP_le_one hle (decide_eq_true he)
        simp [hb, hev, hid, he, trace, Handling.terminal, phase]
      · simp [hev, hid, he]
    | skip phase | found phase pending | deliver phase =>
      rw [hl e, handlings]
      by_cases he : x.id = e <;> simp [hid, he, trace, Handling.terminal, phase]
  | _ => exact hl

/-! ## Every interleaving -/

/-- What holds in every reachable state. -/
structure Correlated (s : State δ) : Prop where
  unique : Unique s
  carried : Carried s
  entries : Entries s
  outcomes : Outcomes s
  logged : Logged s

theorem correlated_initial : Correlated (initial : State δ) where
  unique := unique_initial
  carried k hk := by simp [tickets, initial] at hk
  entries := ⟨fun r e i hp => by simp [initial] at hp, fun h hh => by simp [initial] at hh,
    fun h hh => by simp [initial] at hh⟩
  outcomes c hc := by simp [initial] at hc
  logged e := by simp [initial]

theorem Effect.correlated (inv : Correlated s) (h : Effect s s') : Correlated s' where
  unique := h.unique inv.unique
  carried := h.carried inv.unique inv.carried
  entries := h.entries inv.entries
  outcomes := h.outcomes inv.entries inv.outcomes
  logged := h.logged inv.unique inv.logged

/-- The run lemma: what each effect preserves holds after every interleaving. -/
theorem run_keeps {p : State δ → Prop} (hp : ∀ s s', p s → Effect s s' → p s') :
    ∀ (actions : List (Action δ)) (s s' : State δ), p s → run t s actions = some s' → p s'
  | [], s, s', hs, h => by
    cases h
    exact hs
  | a :: rest, s, s', hs, h => by
    obtain ⟨m, hm, hrest⟩ := bind_eq_some_iff.1 h
    exact run_keeps hp rest m s' (hp s m hs (step_cases hm)) hrest

theorem offer_phase (c : Caller δ) (r : Reply δ) : (c.offer r).phase = c.phase := by
  unfold offer
  split <;> rfl

theorem Effect.returned (h : Effect s s') {r : Option (Reply δ)}
    (hc : s.callers[i]? = some c) (hr : c.phase = .returned r) :
    ∃ c', s'.callers[i]? = some c' ∧ c'.phase = .returned r := by
  have hlt := (List.getElem?_eq_some_iff.1 hc).1
  have hsplit : ∀ {a b : List (Caller δ)} {x y : Caller δ}, s.callers = a ++ x :: b →
      (∀ r, x.phase ≠ .returned r) →
      ∃ c', (a ++ y :: b)[i]? = some c' ∧ c'.phase = .returned r := by
    intro a b x y hs hx
    rw [hs] at hc
    have hi : i ≠ a.length := by
      rintro rfl
      simp only [getElem?_append_right (Nat.le_refl _), Nat.sub_self,
        getElem?_cons_zero, some.injEq] at hc
      exact hx r (hc ▸ hr)
    exact ⟨c, by rw [← getElem?_replace x y hi]; exact hc, hr⟩
  cases h with
  | call id flow registry data owner fresh | consume registry subject flow m a b queues =>
    exact ⟨c, by rw [track, getElem?_append_left hlt]; exact hc, hr⟩
  | send a b x callers phase => exact hsplit callers (by simp [phase])
  | receive a b x r₀ callers phase => exact hsplit callers (by simp [phase])
  | giveUp a b x callers phase => exact hsplit callers phase
  | advance a b x handlings next =>
    have hmap := congrArg (·[i]?) (next.map offer_phase)
    rw [getElem?_map, getElem?_map, hc] at hmap
    exact map_eq_some_iff.1 (hmap.trans (congrArg some hr))
  | _ => exact ⟨c, hc, hr⟩

/-- **Reply correlation.** In every interleaving:

* a handled message has one started event under its id, followed by one terminal event under its
  id once its flow has ended;
* a caller that returned with an outcome got the one of the handling of the message it sent;
* no two handlings and no two callers share an id, so that outcome belongs to no sub-invocation
  and to no other caller;
* a caller that returned never receives anything again. -/
theorem reply_correlation (t : Tuning) (actions : List (Action δ)) (s : State δ)
    (h : run t initial actions = some s) : (∀ x ∈ s.handlings,
      s.events.filter (·.eventID = x.id) = startedEvent x.flow x.message :: x.terminal.toList ∧
      (x.terminal = none ↔ x.phase = .running) ∧
      ∀ ev, x.terminal = some ev → ev.eventID = x.id ∧ ev.flow = x.flow ∧ ev.kind ≠ .started) ∧
    (∀ c ∈ s.callers, ∀ r, c.phase = .returned (some r) →
      ∃ x ∈ s.handlings, x.flow = c.flow ∧ x.message = c.message ∧
        ∃ ev ∈ s.events, x.terminal = some ev ∧ r = replyOf c.registry ev) ∧
    (s.handlings.map (·.id)).Nodup ∧ (s.callers.map (·.id)).Nodup ∧
    (∀ (more : List (Action δ)) (s' : State δ), run t s more = some s' →
      ∀ (i : Nat) (c : Caller δ) (r : Option (Reply δ)), s.callers[i]? = some c →
        c.phase = .returned r → ∃ c', s'.callers[i]? = some c' ∧ c'.phase = .returned r) := by
  have inv : Correlated s :=
    run_keeps (fun _ _ inv h => h.correlated inv) actions _ _ correlated_initial h
  have hevents : ∀ x ∈ s.handlings, s.events.filter (·.eventID = x.id) = x.trace := by
    intro x hx
    obtain ⟨a, b, hs⟩ := append_of_mem hx
    rw [inv.logged x.id, hs]
    obtain ⟨ha, hb⟩ := filter_eq_nil_of_countP_le_one (p := fun y : Handling δ => y.id = x.id)
      (hs ▸ inv.unique.handlings_le x.id) (decide_eq_true rfl)
    simp [ha, hb]
  refine ⟨fun x hx => ⟨hevents x hx, ?_, inv.entries.terminal x hx⟩, fun c hc r hr => ?_,
    nodup_of_countP_le_one inv.unique.handlings_le,
    nodup_of_countP_le_one inv.unique.callers_le, ?_⟩
  · unfold Handling.terminal
    split <;> simp_all
  · obtain ⟨x, hx, hid, ev, hev, hreply⟩ := inv.outcomes c hc r (.inr hr)
    have hown := inv.carried c.ticket (mem_map_of_mem hc) (x.flow, x.message)
      (mem_append_right _ (mem_map_of_mem hx)) hid
    have hmem : ev ∈ s.events.filter (·.eventID = x.id) := by
      rw [hevents x hx, trace, hev]
      simp
    exact ⟨x, hx, congrArg Prod.fst hown, congrArg Prod.snd hown, ev, (mem_filter.1 hmem).1,
      hev, hreply⟩
  · intro more s' hmore i c r hc hr
    exact run_keeps (p := fun s' => ∃ c', s'.callers[i]? = some c' ∧ c'.phase = .returned r)
      (fun _ _ ⟨_, hc, hr⟩ heff => heff.returned hc hr) more s s' ⟨c, hc, hr⟩ hmore

def smallTuning : Tuning := ⟨fun _ => 1, fun _ => 1⟩

/-- An http request to the flow `a`, which calls the flow `b` and folds its result in. -/
def nestedRequest : List (Action Nat) :=
  [.create "1" (.request "web" "a" 7), .send 0, .take "a",
    .create "2" (.refCall 0 "b" 7), .send 1, .take "b",
    .finish 1 .completed 8 "" [.calls, .http "web"], .lookup 1, .deliver 1, .lookup 1,
    .receive 1, .finish 0 .completed 9 "" [.calls, .http "web"], .lookup 0, .lookup 0, .deliver 0,
    .receive 0]

theorem nestedRequest_correlated : ∃ s, run smallTuning initial nestedRequest = some s ∧
      s.callers.map (fun c => (c.id, c.phase)) =
        [("1", .returned (some ⟨some .completed, some ⟨"1", 9⟩, none⟩)),
          ("2", .returned (some ⟨none, some ⟨"2", 8⟩, none⟩))] ∧
      (s.callers.map (·.id)).Nodup :=
  ⟨_, rfl, rfl, (reply_correlation smallTuning nestedRequest _ rfl).2.2.2.1⟩

end Octo.Runtime.Bus
