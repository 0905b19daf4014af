import Octo.Runtime.Calls

/-!
# Draining at shutdown

A message that a channel took before the cancellation is to end as it would have ended without it.
The steps of the workers do not depend on the shutdown, but for the calls: `flowRegistry.Call` and
`Send` give up on the cancelled context, and a flow that is stopped first is gone for the others.

* `shutdown_drains` — a run in which no call gives up on the cancelled context or finds its flow
  stopped, and no source fails to stop, drains.
* `cancelled_call_fails` — a call that gives up turns a completed message into a failed one.
-/

namespace Octo.Runtime.Drain

open List Option
open Octo.Foundation (Walk walk_induction walkTo walk_of_walkTo)
open Octo.Foundation.Split (forall_mem_set mem_modify)

variable {β δ : Type} {sys : System β δ} {s s' : State β δ}

/-! ## The condition, and runs without the cancellation -/

/-- A step that the shutdown does not hinder: no call gives up on the cancelled context or finds its
flow stopped or its channel closed, and a source that is stopped stops. -/
def Unhindered (sys : System β δ) (s : State β δ) : Action δ → Prop
  | .giveUp _ | .gone _ | .stopSource true => False
  | .lookup i => ∀ c ∈ s.work.calls[i]?, ∀ flow ∈ sys.named c.flow, s.stopped flow = false
  | _ => True

instance (sys : System β δ) (s : State β δ) : (a : Action δ) → Decidable (Unhindered sys s a)
  | .giveUp _ | .gone _ | .stopSource true => .isFalse id
  | .lookup i => inferInstanceAs
      (Decidable (∀ c ∈ s.work.calls[i]?, ∀ flow ∈ sys.named c.flow, s.stopped flow = false))
  | .accept _ _ | .take _ | .move _ _ | .push _ | .receive _ | .cancel | .shutdown
  | .stopSource false | .close | .await | .leave => .isTrue trivial

def Action.ofShutdown : Action δ → Bool
  | .cancel | .shutdown | .stopSource _ | .close | .await | .leave => true
  | _ => false

structure Serving (s : State β δ) : Prop where
  cancelled : s.cancelled = false
  main : s.main = .serving
  stopped : ∀ f, s.stopped f = false
  closed : ∀ f, s.closed f = false

theorem serving_initial : Serving (initial : State β δ) := ⟨rfl, rfl, fun _ => rfl, fun _ => rfl⟩

variable {a : Action δ} (h : Effect sys s a s')
include h

theorem serving_of_effect (hs : Serving s) (ha : a ≠ .cancel) :
    Serving s' := by
  have hserving := hs.main
  cases h with
  | accept | take | move | found | missing | sent | fired | gone | gaveUp | received =>
    exact ⟨hs.cancelled, hs.main, hs.stopped, hs.closed⟩
  | cancel => exact absurd rfl ha
  | shutdown main cancelled => exact absurd (hs.cancelled.symm.trans cancelled) (by decide)
  | stopFailed flow rest main | stopSource flow rest main | close flow rest main
  | await flow rest main | leave main => exact absurd (hserving.symm.trans main) (by simp)

theorem enabled_of_effect {t : State β δ} (hfree : Unhindered sys s a)
    (hwork : a.ofShutdown = false) (ht : Serving t) (heq : t.work = s.work) :
    ∃ t', step sys t a = some t' ∧ Serving t' ∧ t'.work = s'.work := by
  have hserving : ∀ (w : Work β δ) (acc : List (Nat × Message δ)),
      Serving { t with work := w, accepted := acc } :=
    fun _ _ => ⟨ht.cancelled, ht.main, ht.stopped, ht.closed⟩
  cases h with
  | accept flow data live room =>
    refine ⟨_, ?_, hserving _ (t.took flow ⟨s.work.nextID, data⟩), rfl⟩
    simp [step, accept, ht.stopped, heq, room]
  | take flow m rest channel free =>
    refine ⟨_, ?_, hserving _ t.accepted, rfl⟩
    simp [step, take, heq, channel, free]
  | move i choice k cmd handling running next =>
    refine ⟨_, ?_, hserving _ t.accepted, rfl⟩
    simp [step, move, heq, handling, running, next]
  | found i c flow call phase named =>
    refine ⟨_, ?_, hserving _ t.accepted, rfl⟩
    simp [step, lookup, heq, call, phase, named, ht.stopped, Option.filter]
  | missing i c call phase gone =>
    -- the flow is not stopped, so there is none
    have hnone : sys.named c.flow = none := by
      cases hnamed : sys.named c.flow with
      | none => rfl
      | some flow => exact absurd (gone flow hnamed) (by simp [hfree c call flow hnamed])
    refine ⟨_, ?_, hserving _ t.accepted, rfl⟩
    simp [step, lookup, heq, call, phase, hnone, State.answer]
  | sent i c flow call phase twoWay opened room =>
    refine ⟨_, ?_, hserving _ (t.took flow c.message), rfl⟩
    simp [step, push, heq, call, phase, twoWay, ht.closed, room, Work.enqueue]
  | fired i c flow call phase oneWay opened room =>
    refine ⟨_, ?_, hserving _ (t.took flow c.message), rfl⟩
    simp [step, push, heq, call, phase, oneWay, ht.closed, room]
  | received i c flow o call phase reply =>
    refine ⟨_, ?_, hserving _ t.accepted, rfl⟩
    simp [step, receive, heq, call, phase, reply, State.answer]
  | gone | gaveUp => exact hfree.elim
  | cancel | shutdown | stopFailed | stopSource | close | await | leave => cases hwork

theorem work_of_shutdown (ha : a.ofShutdown = true) : s'.work = s.work := by
  cases h <;> first | rfl | cases ha

omit h

variable {actions : List (Action δ)}

/-- **Without the shutdown, the workers do the same**: the other steps of a run that it does not
hinder are a run of a service that is not told to stop. -/
theorem erase_shutdown {t : State β δ}
    (h : Walk (step sys) (Unhindered sys) s actions s') (ht : Serving t) (heq : t.work = s.work) :
    ∃ t', Walk (step sys) (fun _ a => a ≠ .cancel) t (actions.filter (!·.ofShutdown)) t' ∧
      t'.work = s'.work := by
  induction h generalizing t with
  | nil => exact ⟨t, .nil t, heq⟩
  | @cons s r s' a rest hfree henabled _ ih =>
    have heffect := step_cases henabled
    cases ha : a.ofShutdown with
    | true =>
      rw [filter_cons_of_neg (by simp [ha])]
      exact ih ht (heq.trans (work_of_shutdown heffect ha).symm)
    | false =>
      rw [filter_cons_of_pos (by simp [ha])]
      obtain ⟨t₁, hstep, hserving, hwork⟩ := enabled_of_effect heffect hfree ha ht heq
      obtain ⟨t', hwalk, heq'⟩ := ih hserving hwork
      refine ⟨t', .cons ?_ hstep hwalk, heq'⟩
      rintro rfl
      cases ha

/-! ## The flows that are still to stop -/

/-- The flows that `stopFlows` has not finished with. -/
def Main.pending (sys : System β δ) : Main → List Nat
  | .serving => sys.orderForStart.reverse
  | .stopping rest => rest
  | .closing flow rest | .waiting flow rest => flow :: rest
  | .returned => []

/-- How far the flows are stopped: a flow that `stopFlows` is done with is closed and empty. -/
structure Winding (sys : System β δ) (s : State β δ) : Prop where
  stopped : ∀ g, s.closed g = true → s.stopped g = true
  closing : ∀ g rest, s.main = .closing g rest → s.stopped g = true
  waiting : ∀ g rest, s.main = .waiting g rest → s.closed g = true
  drained : ∀ g < sys.flows.length, g ∈ s.main.pending sys ∨
    s.closed g = true ∧ ∀ m, ¬s.work.InFlight g m

variable {g : Nat}

theorem mem_orderForStart : g ∈ sys.orderForStart ↔ g < sys.flows.length := by
  unfold System.orderForStart
  cases h : sys.implicit g <;> simp [h]

theorem winding_initial : Winding sys initial where
  stopped := by simp [initial]
  closing := by simp [initial]
  waiting := by simp [initial]
  drained := fun g hg => .inl (mem_reverse.2 (mem_orderForStart.2 hg))

variable (heffect : Effect sys s a s')
include heffect

theorem open_of_arrival {m : Message δ}
    (h : ∀ g, s.closed g = true → s.stopped g = true) (hnew : s'.work.InFlight g m) :
    s.work.InFlight g m ∨ s.closed g = false := by
  cases heffect with
  | accept flow data live =>
    refine (inFlight_enqueue.1 hnew).imp_right fun heq => ?_
    rw [heq.1]
    by_contra hclosed
    rw [h flow (by simpa using hclosed)] at live
    cases live
  | take flow m rest channel => exact .inl ((inFlight_take channel).1 hnew)
  | move i choice k cmd handling => exact .inl ((inFlight_execute cmd handling).1 hnew)
  | sent =>
    refine (inFlight_enqueue.1 hnew).imp_right fun heq => ?_
    rwa [heq.1]
  | fired =>
    rw [inFlight_answer, inFlight_enqueue] at hnew
    refine hnew.imp_right fun heq => ?_
    rwa [heq.1]
  | missing | gone | gaveUp | received => exact .inl ((inFlight_answer _ _ _).1 hnew)
  | found | cancel | shutdown | stopFailed | stopSource | close | await | leave => exact .inl hnew

theorem frame_of_worker (ha : a.ofShutdown = false) :
    s'.main = s.main ∧ s'.stopped = s.stopped ∧ s'.closed = s.closed := by
  cases heffect <;> first | exact ⟨rfl, rfl, rfl⟩ | cases ha

theorem winding_of_worker (h : Winding sys s)
    (hmain : s'.main = s.main) (hstopped : s'.stopped = s.stopped) (hclosed : s'.closed = s.closed) :
    Winding sys s' where
  stopped := by
    rw [hstopped, hclosed]
    exact h.stopped
  closing := by
    rw [hmain, hstopped]
    exact h.closing
  waiting := by
    rw [hmain, hclosed]
    exact h.waiting
  drained := by
    rw [hmain, hclosed]
    intro g hg
    refine (h.drained g hg).imp_right fun ⟨hshut, hempty⟩ => ⟨hshut, fun m hm => ?_⟩
    rcases open_of_arrival heffect h.stopped hm with hold | hopen
    · exact hempty m hold
    · exact absurd (hshut.symm.trans hopen) (by decide)

theorem winding_of_shutdown (h : Winding sys s)
    (hfree : Unhindered sys s a) (ha : a.ofShutdown = true) : Winding sys s' := by
  have hdrained := h.drained
  cases heffect with
  | accept | take | move | found | missing | sent | fired | received | gone | gaveUp => cases ha
  | cancel => exact ⟨h.stopped, h.closing, h.waiting, h.drained⟩
  | stopFailed => exact hfree.elim
  | shutdown main cancelled | leave main =>
    rw [main] at hdrained
    exact ⟨h.stopped, by simp, by simp, hdrained⟩
  | stopSource flow rest main =>
    rw [main] at hdrained
    refine ⟨fun g hg => ?_, fun g rest' heq => ?_, by simp, hdrained⟩
    · by_cases hflow : g = flow
      · simp [hflow]
      · simpa [hflow] using h.stopped g hg
    · cases heq
      simp
  | close flow rest main =>
    rw [main] at hdrained
    have hstopped := h.closing flow rest main
    refine ⟨fun g hg => ?_, by simp, fun g rest' heq => ?_, fun g hg => ?_⟩
    · by_cases hflow : g = flow
      · exact hflow ▸ hstopped
      · exact h.stopped g (by simpa [hflow] using hg)
    · cases heq
      simp
    · refine (hdrained g hg).imp_right fun ⟨hshut, hempty⟩ => ⟨?_, hempty⟩
      by_cases hflow : g = flow <;> simp [hflow, hshut]
  | await flow rest main drained idle =>
    rw [main] at hdrained
    refine ⟨h.stopped, by simp, by simp, fun g hg => ?_⟩
    rcases hdrained g hg with hpending | hdone
    · rcases mem_cons.1 hpending with rfl | hrest
      · refine .inr ⟨h.waiting g rest main, fun m hm => ?_⟩
        rcases hm with hm | hm
        · rw [drained] at hm
          cases hm
        · exact busy_eq_zero.1 idle m hm
      · exact .inl hrest
    · exact .inr hdone

theorem winding_of_effect (h : Winding sys s)
    (hfree : Unhindered sys s a) : Winding sys s' := by
  cases ha : a.ofShutdown with
  | false =>
    obtain ⟨hmain, hstopped, hclosed⟩ := frame_of_worker heffect ha
    exact winding_of_worker heffect h hmain hstopped hclosed
  | true => exact winding_of_shutdown heffect h hfree ha

omit heffect

/-! ## The results of two-way calls -/

def Work.Ended (w : Work β δ) (g : Nat) (c : Call δ) (o : Outcome δ) : Prop :=
  ∃ e ∈ w.events, e.flow = g ∧ e.message = c.message ∧ e.outcome = o

def Work.Results (sys : System β δ) (w : Work β δ) : Prop :=
  ∀ c ∈ w.calls, c.oneWay = false → ∀ g, sys.named c.flow = some g →
    ∀ o, c.phase = .returned o → w.Ended g c o

variable {w : Work β δ} {c : Call δ}

theorem ended_of_reply {o : Outcome δ} (h : w.Ok sys)
    (hc : c ∈ w.calls) (hnamed : sys.named c.flow = some g) (hreply : c.reply = some o) :
    w.Ended g c o := by
  obtain ⟨e, he, hid, hout⟩ := (h.calls c hc).reply o hreply
  obtain ⟨hflow, hmessage⟩ := h.ids.unique _ _ _ _ (.event he) (.call hc) hid
  rw [hnamed, Option.some.injEq] at hflow
  exact ⟨e, he, hflow, hmessage, hout⟩

variable {i : Nat}

theorem results_setCall (h : w.Results sys)
    (hnew : c.oneWay = false → ∀ g, sys.named c.flow = some g →
      ∀ o, c.phase = .returned o → w.Ended g c o) :
    Work.Results sys { w with calls := w.calls.set i c } :=
  forall_mem_set h hnew

theorem results_answer {o : Outcome δ} (h : w.Results sys)
    (hnew : c.oneWay = false → ∀ g, sys.named c.flow = some g → w.Ended g c o) :
    (w.answer sys i c o).Results sys := by
  refine results_setCall h fun hway g hg o' ho' => ?_
  cases ho'
  exact hnew hway g hg

@[simp] theorem offer_oneWay (id : Nat) (o : Outcome δ) (c : Call δ) :
    (Work.offer id o c).oneWay = c.oneWay := by
  rcases offer_cases id o c with h | ⟨-, h⟩ <;> rw [h]

theorem results_execute {k : Handling β δ} (cmd : Cmd β δ)
    (h : w.Results sys) : (w.execute i k cmd).Results sys := by
  cases cmd with
  | step => exact h
  | ref =>
    refine forall_mem_append.2 ⟨h, forall_mem_singleton.2 ?_⟩
    intro _ _ _ o ho
    cases ho
  | finish =>
    intro c hc hway g hg o' ho'
    obtain ⟨d, hd, rfl⟩ := mem_map.1 hc
    simp only [offer_oneWay, offer_flow, offer_phase] at hway hg ho'
    obtain ⟨e, he, heq⟩ := h d hd hway g hg o' ho'
    rw [Work.Ended, offer_message]
    exact ⟨e, mem_append_left _ he, heq⟩

theorem results_of_effect (heffect : Effect sys s a s') (hok : s.work.Ok sys)
    (hfree : Unhindered sys s a) (h : s.work.Results sys) : s'.work.Results sys := by
  cases heffect with
  | move i choice k cmd => exact results_execute cmd h
  | found => exact results_setCall h (by simp)
  | sent i c flow =>
    exact results_setCall h (by simp)
  | missing i c call phase gone =>
    -- the flow of the call is not stopped, so the name is of no flow
    refine results_answer h fun _ g hg => ?_
    exact absurd ((hfree c call g hg).symm.trans (gone g hg)) (by decide)
  | fired i c flow call phase oneWay =>
    refine results_answer h fun htwo => ?_
    exact absurd (htwo.symm.trans oneWay) (by decide)
  | received i c flow o call phase reply =>
    exact results_answer h fun _ g hg => ended_of_reply hok (mem_of_getElem? call) hg reply
  | gone | gaveUp | stopFailed => exact hfree.elim
  | accept | take | cancel | shutdown | stopSource | close | await | leave => exact h

/-! ## Draining -/

structure Drains (sys : System β δ) (actions : List (Action δ)) (s : State β δ) : Prop where
  /-- Every message that ended, ended in the same kind of event in the run without the shutdown. -/
  kinds : ∃ t, Walk (step sys) (fun _ a => a ≠ .cancel) initial (actions.filter (!·.ofShutdown)) t ∧
    ∀ e ∈ s.work.events, ∃ e' ∈ t.work.events,
      e'.flow = e.flow ∧ e'.message = e.message ∧ e'.outcome.kind = e.outcome.kind
  results : s.work.Results sys
  /-- When `Service.Run` is back, every accepted message has ended. -/
  settled : s.main = .returned → ∀ p ∈ s.accepted,
    ∃ e ∈ s.work.events, e.flow = p.1 ∧ e.message = p.2
  /-- If the blocks return, a worker can go on until every accepted message has ended. -/
  progress : Lively sys → (∀ a : Action δ, a.ofWorkers = true → step sys s a = none) →
    ∀ p ∈ s.accepted, ∃ e ∈ s.work.events, e.flow = p.1 ∧ e.message = p.2

structure Draining (sys : System β δ) (s : State β δ) : Prop where
  sound : Sound sys s
  winding : Winding sys s
  results : s.work.Results sys

theorem draining_of_walk
    (h : Walk (step sys) (Unhindered sys) initial actions s) : Draining sys s := by
  apply walk_induction _ h
  · exact ⟨sound_initial, winding_initial, by simp [Work.Results, initial]⟩
  · intro s a s' hs hfree hstep
    have heffect := step_cases hstep
    exact ⟨sound_of_effect heffect hs.sound, winding_of_effect heffect hs.winding hfree,
      results_of_effect heffect hs.sound.work hfree hs.results⟩

/-- **Shutdown drains**: in a run whose steps the shutdown does not hinder, every message that ended
did so in the same kind of event as without the shutdown, two-way calls get their results, and no
accepted message is left behind. -/
theorem shutdown_drains (sys : System β δ) (hacyclic : Acyclic sys) {actions : List (Action δ)}
    {s : State β δ} (h : Walk (step sys) (Unhindered sys) initial actions s) :
    Drains sys actions s := by
  have hs := draining_of_walk h
  refine ⟨?_, hs.results, ?_, ?_⟩
  · obtain ⟨t, hwalk, heq⟩ := erase_shutdown h serving_initial rfl
    exact ⟨t, hwalk, fun e he => ⟨e, heq ▸ he, rfl, rfl, rfl⟩⟩
  · intro hmain p hp
    rcases hs.sound.accepted p hp with hflight | hended
    · -- all flows are closed and empty
      have hdrained := hs.winding.drained p.1 (hs.sound.work.inside _ _ hflight)
      rw [hmain] at hdrained
      rcases hdrained with hpending | ⟨-, hempty⟩
      · cases hpending
      · exact absurd hflight (hempty p.2)
    · exact hended
  · intro hlively hstuck p hp
    rcases hs.sound.accepted p hp with hflight | hended
    · have hreach : Reaches sys actions s := h.mono fun _ _ _ => trivial
      obtain ⟨a, ha, hsome⟩ := exists_step_of_inFlight hacyclic hlively hreach hflight
      rw [hstuck a ha] at hsome
      cases hsome
    · exact hended

/-! ## A flow that calls another -/

/-- Where the handling of a message stands: before its `flow-ref`, parked in it, or behind it. -/
inductive Stage where
  | before
  | parked
  | behind (failed : Bool)
deriving DecidableEq

/-- `orders` refers to the source-less flow `enrich`, and ends as it does. -/
def relay : System Stage Unit where
  flows := [⟨"orders", false, 1, 1, Nat.one_pos, Nat.one_pos⟩,
    ⟨"enrich", true, 1, 1, Nat.one_pos, Nat.one_pos⟩]
  start flow _ := if flow = 0 then .before else .behind false
  next _ _ stage :=
    match stage with
    | .before => some (.ref false 0 "enrich" () .parked)
    | .parked => none
    | .behind false => some (.finish (.completed ()))
    | .behind true => some (.finish (.failed "flow-ref"))
  resume _ _ o _ := .behind (o.kind = .failed)

theorem visits_before {f : Nat} {stage : Stage} (h : Visits relay f stage)
    (hstage : stage = .before) : f = 0 := by
  cases h with
  | start =>
    by_contra hf
    simp [relay, hf] at hstage
  | @step b _ choice _ next =>
    match b, next with
    | .behind false, next => cases next
    | .behind true, next => cases next
  | @ref b _ _ _ _ _ choice _ next =>
    match b, next with
    | .before, next =>
      cases next
      cases hstage
    | .behind false, next => cases next
    | .behind true, next => cases next
  | resume => cases hstage

theorem refers_relay {f : Nat} (h : Refers relay f g) : f = 0 ∧ g = 1 := by
  obtain ⟨b, choice, oneWay, tag, name, data, b', hvisits, hnext, hnamed⟩ := h
  match b, hnext with
  | .before, hnext =>
    cases hnext
    exact ⟨visits_before hvisits rfl, (Option.some.inj hnamed).symm⟩
  | .behind false, hnext => cases hnext
  | .behind true, hnext => cases hnext

theorem acyclic_relay : Acyclic relay := by
  intro f hcycle
  obtain ⟨g, hfirst, -⟩ := Relation.TransGen.head'_iff.1 hcycle
  obtain ⟨h, -, hlast⟩ := Relation.TransGen.tail'_iff.1 hcycle
  have hzero := (refers_relay hfirst).1
  have hone := (refers_relay hlast).2
  omega

/-- A message of `orders` is parked in `enrich` at the cancellation; both end, and the flows stop. -/
def drainedRun : List (Action Unit) :=
  [.accept 0 (), .take 0, .move 0 0, .lookup 0, .push 0, .cancel, .take 1, .move 1 0, .receive 0,
    .move 0 0, .shutdown, .stopSource false, .close, .await, .stopSource false, .close, .await, .leave]

theorem drainedRun_enabled :
    (walkTo (step relay) (Unhindered relay) initial drainedRun).isSome = true := by decide

theorem drainedRun_drains : ∃ s, s.main = .returned ∧ s.accepted = [(1, ⟨1, ()⟩), (0, ⟨0, ()⟩)] ∧
    Drains relay drainedRun s := by
  have hwalk := walk_of_walkTo (some_get drainedRun_enabled).symm
  refine ⟨_, ?_, ?_, shutdown_drains relay acyclic_relay hwalk⟩
  · decide
  · decide

/-- `orders` calls `enrich`, and sees the cancelled context before the reply. -/
def cancelledRun : List (Action Unit) :=
  [.accept 0 (), .take 0, .move 0 0, .lookup 0, .push 0, .cancel, .giveUp 0, .move 0 0]

theorem cancelledRun_enabled :
    (walkTo (step relay) (fun _ _ => True) initial cancelledRun).isSome = true := by decide

/-- What holds of `relay` while it is not told to stop: nothing fails. -/
structure Unfailing (w : Work Stage Unit) : Prop where
  handlings : ∀ k ∈ w.handlings, k.state ≠ .behind true
  calls : ∀ c ∈ w.calls, c.flow = "enrich" ∧ ∀ o, c.reply = some o → o.kind ≠ .failed
  events : ∀ e ∈ w.events, e.outcome.kind ≠ .failed

theorem unfailing_answer {w : Work Stage Unit} {c : Call Unit} {o : Outcome Unit}
    (h : Unfailing w) (hc : c ∈ w.calls) (ho : o.kind ≠ .failed) :
    Unfailing (w.answer relay i c o) where
  handlings := by
    intro k hk
    rcases mem_modify hk with hk | ⟨k', -, rfl⟩
    · exact h.handlings k hk
    · simp [relay, ho]
  calls := forall_mem_set h.calls (h.calls c hc)
  events := h.events

theorem unfailing_execute {w : Work Stage Unit} {choice : Nat} {k : Handling Stage Unit}
    {cmd : Cmd Stage Unit} (h : Unfailing w) (hk : k ∈ w.handlings)
    (hnext : relay.next k.flow choice k.state = some cmd) : Unfailing (w.execute i k cmd) := by
  have hset : ∀ k' ∈ w.handlings.set i { k with state := .parked }, k'.state ≠ .behind true :=
    forall_mem_set h.handlings (by simp)
  cases hstate : k.state with
  | before =>
    rw [hstate] at hnext
    cases hnext
    refine ⟨hset, forall_mem_append.2 ⟨h.calls, ?_⟩, h.events⟩
    exact forall_mem_singleton.2 ⟨rfl, by simp⟩
  | parked =>
    rw [hstate] at hnext
    cases hnext
  | behind failed =>
    cases failed with
    | true => exact absurd hstate (h.handlings k hk)
    | false =>
      rw [hstate] at hnext
      cases hnext
      refine ⟨forall_mem_set h.handlings (h.handlings k hk), fun c hc => ?_, fun e he => ?_⟩
      · obtain ⟨d, hd, rfl⟩ := mem_map.1 hc
        rw [offer_flow]
        refine ⟨(h.calls d hd).1, fun o ho => ?_⟩
        rcases offer_cases k.message.id (.completed ()) d with heq | ⟨-, heq⟩
        · exact (h.calls d hd).2 o (heq ▸ ho)
        · rw [heq] at ho
          rcases or_eq_some_iff.1 ho with ho | ⟨-, ho⟩
          · exact (h.calls d hd).2 o ho
          · cases ho
            decide
      · rcases mem_append.1 he with he | he
        · exact h.events e he
        · rw [mem_singleton.1 he]
          simp [Outcome.kind]

theorem unfailing_of_effect {s s' : State Stage Unit} {a : Action Unit}
    (heffect : Effect relay s a s') (hs : Serving s) (h : Unfailing s.work) :
    Unfailing s'.work := by
  have hset : ∀ (i : Nat) (c : Call Unit) (phase : CallPhase Unit), s.work.calls[i]? = some c →
      ∀ d ∈ s.work.calls.set i { c with phase }, d.flow = "enrich" ∧
        ∀ o, d.reply = some o → o.kind ≠ .failed := by
    intro i c phase hc
    exact forall_mem_set h.calls (h.calls c (mem_of_getElem? hc))
  cases heffect with
  | accept => exact ⟨h.handlings, h.calls, h.events⟩
  | take flow =>
    refine ⟨forall_mem_append.2 ⟨h.handlings, ?_⟩, h.calls, h.events⟩
    refine forall_mem_singleton.2 ?_
    by_cases hflow : flow = 0 <;> simp [relay, hflow]
  | move i choice k cmd handling running next =>
    exact unfailing_execute h (mem_of_getElem? handling) next
  | found i c flow call | sent i c flow call => exact ⟨h.handlings, hset i c _ call, h.events⟩
  | fired i c flow call =>
    have hsent : Unfailing (s.work.enqueue flow c.message) := ⟨h.handlings, h.calls, h.events⟩
    exact unfailing_answer hsent (mem_of_getElem? call) (by decide)
  | received i c flow o call phase reply =>
    have hmem := mem_of_getElem? call
    exact unfailing_answer h hmem ((h.calls c hmem).2 o reply)
  | missing i c call phase gone =>
    have hnamed : relay.named c.flow = some 1 := by
      rw [(h.calls c (mem_of_getElem? call)).1]
      decide
    exact absurd ((hs.stopped 1).symm.trans (gone 1 hnamed)) (by decide)
  | gone i c flow err call phase closed =>
    exact absurd ((hs.closed flow).symm.trans closed) (by decide)
  | gaveUp i c err call phase cancelled => exact absurd (hs.cancelled.symm.trans cancelled) (by decide)
  | cancel | shutdown | stopFailed | stopSource | close | await | leave => exact h

theorem unfailing_of_walk {actions : List (Action Unit)} {s : State Stage Unit}
    (h : Walk (step relay) (fun _ a => a ≠ .cancel) initial actions s) : Unfailing s.work := by
  have hboth : Serving s ∧ Unfailing s.work := by
    apply walk_induction _ h
    · exact ⟨serving_initial, by simp [initial], by simp [initial], by simp [initial]⟩
    · intro s a s' hs ha hstep
      have heffect := step_cases hstep
      exact ⟨serving_of_effect heffect hs.1 ha, unfailing_of_effect heffect hs.1 hs.2⟩
  exact hboth.2

/-- **A draining message fails**: it was accepted before the cancellation, the call graph is
acyclic, and without a cancellation no message ever fails. -/
theorem cancelled_call_fails : Acyclic relay ∧
    (∃ s, Reaches relay cancelledRun s ∧ (0, ⟨0, ()⟩) ∈ s.accepted ∧
      ∃ e ∈ s.work.events, e.flow = 0 ∧ e.message = ⟨0, ()⟩ ∧ e.outcome.kind = .failed) ∧
    ∀ actions t, Walk (step relay) (fun _ a => a ≠ .cancel) initial actions t →
      ∀ e ∈ t.work.events, e.outcome.kind ≠ .failed := by
  refine ⟨acyclic_relay, ?_, fun actions t h => (unfailing_of_walk h).events⟩
  refine ⟨_, walk_of_walkTo (some_get cancelledRun_enabled).symm, ?_, ?_⟩
  · decide
  · decide

end Octo.Runtime.Drain
