import Mathlib.Data.List.Perm.Subperm
import Octo.Runtime.Lifecycle
import Octo.Runtime.Sources

/-!
# What a service leaves running

When `Service.Run` returns, whatever failed on the way, the connectors that started are stopped in
reverse order.  A flow is another matter: `boundFlow.start` starts the pool and the workers before the
source, and `startFlows` does not report a flow whose source fails; `boundFlow.stop` returns when the
source fails to stop, before it closes the channel.

* `nothing_left_iff` — `Run` leaves nothing behind exactly when no source fails to start or to stop.
* `failed_source_leaks_workers` — a source that fails to start leaves its workers behind.
-/

namespace Octo.Runtime.Lifecycle

open List (append_nil filterMap_append mem_append mem_map mem_map_of_mem mem_reverse range)

open Octo.Types Prod Octo.Config Octo.Engine
open Octo.Foundation (Program)
open Octo.Foundation.Program (ask Makes makes_done makes_ask_bind makes_bind
  makes_bind_done)

/-! ## What is left behind -/

/-- The part of a run a call belongs to: connectors start and flows are built, flows start, run and
stop, connectors stop. -/
inductive Phase where
  | setup
  | flows
  | teardown
  deriving DecidableEq

def Op.phase : Op → Phase
  | .startConnector _ _ | .newSource _ _ | .buildRoot _ _ => .setup
  | .stopConnector _ => .teardown
  | _ => .flows

def startedConnector : Sigma Answer → Option Nat
  | ⟨.startConnector n _, .ok _⟩ => some n
  | _ => none

def stoppedConnector (c : Sigma Answer) : Option Nat := match c.1 with
  | .stopConnector n => some n
  | _ => none

inductive Stage where
  | poolStarted
  | workersSpawned
  | inputClosed
  | workersEnded
  | poolStopped
  deriving DecidableEq

def Op.stage : Op → Option (Nat × Stage)
  | .startPool f => some (f, .poolStarted)
  | .spawnWorkers f => some (f, .workersSpawned)
  | .closeInput f => some (f, .inputClosed)
  | .awaitWorkers f => some (f, .workersEnded)
  | .stopPool f => some (f, .poolStopped)
  | _ => none

def stages (f : Nat) (calls : Calls) : List Stage :=
  calls.filterMap fun c => c.1.stage.bind fun s => if s.1 = f then some s.2 else none

def sourceFailed : Sigma Answer → Bool
  | ⟨.startSource _, .error _⟩ | ⟨.register _ (.error _), _⟩ | ⟨.stopSource _, .error _⟩ => true
  | _ => false

/-- Every flow whose pool or workers were started had its channel closed, its workers ended and its
pool stopped, in this order, once each. -/
def WoundDown (calls : Calls) : Prop :=
  ∀ f, .poolStarted ∈ stages f calls ∨ .workersSpawned ∈ stages f calls →
    stages f calls = [.poolStarted, .workersSpawned, .inputClosed, .workersEnded, .poolStopped]

/-- The connectors that started are stopped in reverse order, each one once, with no call about a
flow after a stop, and every flow is wound down. -/
structure NothingLeft (calls : Calls) : Prop where
  stopped : calls.filterMap stoppedConnector = (calls.filterMap startedConnector).reverse
  once : (calls.filterMap startedConnector).Nodup
  after : calls.Pairwise fun a b => ¬(a.1.phase = .teardown ∧ b.1.phase = .flows)
  flows : WoundDown calls

section Phase

variable {calls : Calls} {phase : Phase} (h : ∀ c ∈ calls, c.1.phase = phase)
include h

theorem started_of_phase (hne : phase ≠ .setup) :
    calls.filterMap startedConnector = [] := by
  refine List.filterMap_eq_nil_iff.2 fun c hc => ?_
  have hphase := h c hc
  unfold startedConnector
  split
  · exact absurd hphase.symm hne
  · rfl

theorem stopped_of_phase (hne : phase ≠ .teardown) :
    calls.filterMap stoppedConnector = [] := by
  refine List.filterMap_eq_nil_iff.2 fun c hc => ?_
  have hphase := h c hc
  unfold stoppedConnector
  split
  next hop =>
    rw [hop] at hphase
    exact absurd hphase.symm hne
  · rfl

theorem stages_of_phase (hne : phase ≠ .flows) (f : Nat) :
    stages f calls = [] := by
  refine List.filterMap_eq_nil_iff.2 fun c hc => ?_
  have hphase := h c hc
  obtain ⟨op, ans⟩ := c
  cases op <;> first | rfl | exact absurd hphase.symm hne

theorem sourceFailed_of_phase (hne : phase ≠ .flows) :
    ∀ c ∈ calls, sourceFailed c = false := by
  intro c hc
  have hphase := h c hc
  unfold sourceFailed
  split <;> first | rfl | exact absurd hphase.symm hne

end Phase

@[simp] theorem stages_nil (f : Nat) : stages f [] = [] := rfl

@[simp] theorem stages_append (f : Nat) (a b : Calls) :
    stages f (a ++ b) = stages f a ++ stages f b := filterMap_append

/-! ## Connectors start and stop -/

def stops (n : Nat) : List Op := (List.range n).reverse.map .stopConnector

theorem stopConnectors_calls : ∀ {n : Nat} {calls : Calls} {r : Option String},
    Makes (stopConnectors n) calls (.ok r) → calls.map Sigma.fst = stops n
  | 0, calls, r, h => by
    obtain ⟨rfl, -⟩ := makes_done.1 h
    rfl
  | n + 1, calls, r, h => by
    obtain ⟨ans, rest, rfl, hrest⟩ := makes_ask_bind.1 h
    obtain ⟨firstErr, hrest, -⟩ := makes_bind_done.1 hrest
    simp [stops, List.range_succ, stopConnectors_calls hrest]

variable {calls : Calls}

variable {n : Nat}

theorem phase_of_stops (h : calls.map Sigma.fst = stops n) :
    ∀ c ∈ calls, c.1.phase = .teardown := by
  intro c hc
  have hop : c.1 ∈ stops n := h ▸ mem_map_of_mem hc
  obtain ⟨i, -, hop⟩ := mem_map.1 hop
  rw [← hop]
  rfl

theorem stopped_of_stops (h : calls.map Sigma.fst = stops n) :
    calls.filterMap stoppedConnector = (range n).reverse := by
  have hops : calls.filterMap stoppedConnector = (calls.map Sigma.fst).filterMap fun
      | .stopConnector i => some i
      | _ => none := by
    rw [List.filterMap_map]
    rfl
  rw [hops, h, stops, List.filterMap_map]
  exact List.filterMap_some

/-- The calls of a setup that starts with `m` connectors and ends with `n`. -/
structure Setup (m n : Nat) (calls : Calls) : Prop where
  le : m ≤ n
  started : calls.filterMap startedConnector = List.range' m (n - m)
  phase : ∀ c ∈ calls, c.1.phase = .setup

theorem Setup.nil (n : Nat) : Setup n n [] := ⟨le_rfl, by simp, by simp⟩

theorem Setup.append {m k : Nat} {a b : Calls} (ha : Setup m n a)
    (hb : Setup n k b) : Setup m k (a ++ b) := by
  have hle := ha.le
  have hle' := hb.le
  refine ⟨by omega, ?_, fun c hc => ?_⟩
  · rw [filterMap_append, ha.started, hb.started]
    have hsplit : k - m = (n - m) + (k - n) := by omega
    rw [hsplit, ← List.range'_append_1]
    congr 2
    omega
  · exact (mem_append.1 hc).elim (ha.phase c) (hb.phase c)

theorem Setup.start (n : Nat) (c : ConnectorConfig) : Setup n (n + 1) [⟨.startConnector n c, .ok ()⟩] :=
  ⟨by omega, by simp [startedConnector], by simp [Op.phase]⟩

variable {c : Sigma Answer}

theorem Setup.other (hphase : c.1.phase = .setup)
    (hstart : startedConnector c = none) : Setup n n [c] :=
  ⟨le_rfl, by simp [hstart], by simpa using hphase⟩

/-- Code that takes the set from `m` connectors to those it returns. -/
def Sets {α : Type} (m : Nat) (p : Act (ConnectorSet × α)) : Prop :=
  ∀ calls x, Makes p calls (.ok x) → Setup m x.1.running.length calls

open Setup

section Sets

variable {α β : Type} {m : Nat} {set : ConnectorSet}

theorem sets_done (set : ConnectorSet) (a : α) : Sets set.running.length (.done (set, a)) := by
  intro calls x h
  obtain ⟨rfl, hx⟩ := makes_done.1 h
  cases hx
  exact .nil _

theorem Sets.bind {p : Act (ConnectorSet × α)} {f : ConnectorSet × α → Act (ConnectorSet × β)}
    (hp : Sets m p) (hf : ∀ x, Sets x.1.running.length (f x)) : Sets m (p >>= f) := by
  intro calls y h
  obtain ⟨x, first, second, rfl, hfirst, hsecond⟩ := makes_bind.1 h
  exact (hp first x hfirst).append (hf x second y hsecond)

theorem sets_ask {op : Op} {f : Answer op → Act (ConnectorSet × α)} (hphase : op.phase = .setup)
    (hstart : ∀ ans, startedConnector ⟨op, ans⟩ = none) (hf : ∀ ans, Sets m (f ans)) :
    Sets m (ask op >>= f) := by
  intro calls x h
  obtain ⟨ans, rest, rfl, hrest⟩ := makes_ask_bind.1 h
  exact (other hphase (hstart ans)).append (hf ans rest x hrest)

theorem sets_start {c : ConnectorConfig} {f : Except String Unit → Act (ConnectorSet × α)}
    (hok : Sets (m + 1) (f (.ok ()))) (herror : ∀ e, Sets m (f (.error e))) :
    Sets m (ask (.startConnector m c) >>= f) := by
  intro calls x h
  obtain ⟨ans, rest, rfl, hrest⟩ := makes_ask_bind.1 h
  cases ans with
  | ok => exact (start m c).append (hok rest x hrest)
  | error e => exact (other rfl rfl).append (herror e rest x hrest)

variable (host : Host) (invokeMode : Bool)

theorem resolveConnector_sets (src : SourceConfig) :
    Sets set.running.length (resolveConnector host set src) := by
  unfold resolveConnector
  split
  · exact sets_done _ _
  · exact sets_done _ _
  · split
    · exact sets_start (sets_done { set with running := _ :: set.running } _) fun e => sets_done _ _
    · exact sets_done _ _

theorem buildSource_sets (cfg : FlowConfig) :
    Sets set.running.length (buildSource host invokeMode set cfg) := by
  unfold buildSource
  split
  · split <;> exact sets_done _ _
  · refine (resolveConnector_sets host _).bind fun x => ?_
    obtain ⟨set, connector⟩ := x
    cases connector with
    | error => exact sets_done _ _
    | ok =>
      dsimp only
      split
      · exact sets_ask rfl (fun ans => rfl) fun ans => sets_done _ _
      · exact sets_done _ _

theorem buildFlow_sets (cfg : FlowConfig) :
    Sets set.running.length (buildFlow host invokeMode set cfg) := by
  refine (buildSource_sets host invokeMode cfg).bind fun x => ?_
  obtain ⟨set, source⟩ := x
  cases source with
  | error => exact sets_done _ _
  | ok =>
    refine sets_ask rfl (fun ans => rfl) fun ans => ?_
    cases ans with
    | error => exact sets_done _ _
    | ok =>
      dsimp only
      unfold buildErrorPath
      split
      · exact sets_done _ _
      · exact sets_ask rfl (fun ans => rfl) fun ans => sets_done _ _

theorem buildFlows_sets : ∀ (cfgs : List FlowConfig) (set : ConnectorSet),
    Sets set.running.length (buildFlows host invokeMode set cfgs)
  | [], set => sets_done _ _
  | cfg :: rest, set => by
    refine (buildFlow_sets host invokeMode cfg).bind fun x => ?_
    obtain ⟨set, flow⟩ := x
    dsimp only
    split
    · exact sets_done _ _
    · exact (buildFlows_sets rest set).bind fun y => sets_done _ _

end Sets

def Ends {α : Type} (running : α → Nat) (n : Nat) (calls : Calls) :
    Build α → Prop
  | .ok a => calls = [] ∧ running a = n
  | .error _ => calls.map Sigma.fst = stops n

variable {host : Host}

theorem startConnectors_calls {skip : List String} :
    ∀ {cfgs running : List ConnectorConfig} {calls : Calls}
      {r : Build (List ConnectorConfig)},
      Makes (startConnectors host skip running cfgs) calls (.ok r) →
        ∃ n setup teardown, calls = setup ++ teardown ∧ Setup running.length n setup ∧
          Ends List.length n teardown r
  | [], running, calls, r, h => by
    obtain ⟨rfl, hr⟩ := makes_done.1 h
    cases hr
    exact ⟨_, [], [], rfl, .nil _, rfl, rfl⟩
  | c :: rest, running, calls, r, h => by
    unfold startConnectors at h
    split at h
    · exact startConnectors_calls h
    · split at h
      · obtain ⟨ans, calls, rfl, hcalls⟩ := makes_ask_bind.1 h
        cases ans with
        | ok =>
          obtain ⟨n, setup, teardown, rfl, hsetup, hends⟩ := startConnectors_calls hcalls
          exact ⟨n, _ :: setup, teardown, rfl, (start _ c).append hsetup, hends⟩
        | error e =>
          obtain ⟨err, hstop, rfl⟩ := makes_bind_done.1 hcalls
          exact ⟨_, [⟨.startConnector running.length c, .error e⟩], calls, rfl,
            other rfl rfl, stopConnectors_calls hstop⟩
      · obtain ⟨err, hstop, rfl⟩ := makes_bind_done.1 h
        exact ⟨_, [], calls, rfl, .nil _, stopConnectors_calls hstop⟩

/-- **The calls before the flows start**: the setup, and the stop of what it started when it fails. -/
theorem build_calls {invokeMode : Bool} {cfg : Types.Config}
    {r : Build (ConnectorSet × List ServiceFlow)}
    (h : Makes (build host invokeMode cfg) calls (.ok r)) :
    ∃ n setup teardown, calls = setup ++ teardown ∧ Setup 0 n setup ∧
      Ends (fun x => x.1.running.length) n teardown r := by
  obtain ⟨connectors, first, second, rfl, hfirst, hsecond⟩ := makes_bind.1 h
  obtain ⟨n, setup, teardown, rfl, hsetup, hends⟩ := startConnectors_calls hfirst
  cases connectors with
  | error =>
    obtain ⟨rfl, hr⟩ := makes_done.1 hsecond
    cases hr
    exact ⟨n, setup, teardown, by simp, hsetup, hends⟩
  | ok =>
    obtain ⟨rfl, rfl⟩ := hends
    obtain ⟨⟨set, flows⟩, third, rest, rfl, hthird, hrest⟩ := makes_bind.1 hsecond
    have hflows := hsetup.append (buildFlows_sets host invokeMode _ _ third _ hthird)
    cases flows with
    | error =>
      obtain ⟨err, hstop, rfl⟩ := makes_bind_done.1 hrest
      exact ⟨_, setup ++ third, rest, by simp, hflows, stopConnectors_calls hstop⟩
    | ok =>
      obtain ⟨rfl, hr⟩ := makes_done.1 hrest
      cases hr
      exact ⟨_, setup ++ third, [], by simp, hflows, rfl, rfl⟩

/-! ## Flows start and stop -/

def begun : List Stage := [.poolStarted, .workersSpawned]

/-- What `boundFlow.stop` does to a flow whose source stops. -/
def ended : List Stage := [.inputClosed, .workersEnded, .poolStopped]

def marks (st : List Stage) (fs : List Numbered) (g : Nat) : List Stage :=
  fs.flatMap fun f => if f.1 = g then st else []

/-- Calls about flows: whether a source fails among them, and the stages of each flow. -/
structure FlowCalls (calls : Calls) (failed : Prop) (st : Nat → List Stage) : Prop where
  phase : ∀ c ∈ calls, c.1.phase = .flows
  failed : (∃ c ∈ calls, sourceFailed c = true) ↔ failed
  stages : ∀ g, stages g calls = st g

section FlowCalls

variable {a b : Calls} {p q : Prop} {s t : Nat → List Stage}

theorem FlowCalls.nil : FlowCalls [] False fun _ => [] := ⟨by simp, by simp, fun _ => rfl⟩

theorem FlowCalls.append (ha : FlowCalls a p s) (hb : FlowCalls b q t) :
    FlowCalls (a ++ b) (p ∨ q) fun g => s g ++ t g := by
  refine ⟨fun c hc => ?_, ?_, fun g => ?_⟩
  · exact (mem_append.1 hc).elim (ha.phase c) (hb.phase c)
  · simp [or_and_right, exists_or, ha.failed, hb.failed]
  · rw [stages_append, ha.stages, hb.stages]

theorem FlowCalls.congr (h : FlowCalls a p s) (hp : p ↔ q) (hs : ∀ g, s g = t g) :
    FlowCalls a q t :=
  ⟨h.phase, h.failed.trans hp, fun g => (h.stages g).trans (hs g)⟩

theorem FlowCalls.stage {f : Nat} {st : Stage} (hstage : c.1.stage = some (f, st)) :
    FlowCalls [c] False fun g => if f = g then [st] else [] := by
  refine ⟨?_, ?_, fun g => ?_⟩
  · obtain ⟨op, ans⟩ := c
    cases op <;> simp_all [Op.stage, Op.phase]
  · obtain ⟨op, ans⟩ := c
    cases op <;> simp_all [Op.stage, sourceFailed]
  · simp only [Lifecycle.stages, List.filterMap_cons, hstage]
    by_cases hf : f = g <;> simp [hf]

theorem FlowCalls.source {r : Except String Unit} (hphase : c.1.phase = .flows)
    (hstage : c.1.stage = none) (hfailed : sourceFailed c = !r.isOk) :
    FlowCalls [c] (r.isOk = false) fun _ => [] := by
  refine ⟨by simpa using hphase, by simp [hfailed], fun g => ?_⟩
  simp [Lifecycle.stages, hstage]

end FlowCalls

theorem ask_source {op : Op} {r : Answer op} (h : Makes (ask op : Act (Answer op)) calls (.ok r)) :
    calls = [⟨op, r⟩] := by
  obtain ⟨ans, rest, rfl, hrest⟩ := Program.makes_call.1 h
  obtain ⟨rfl, hr⟩ := makes_done.1 hrest
  rw [Except.ok.inj hr]

variable {f : Numbered} {r : Except String Unit} {began stopped : List Numbered}

theorem startSource_calls {names : List String} (h : Makes (startSource names f) calls (.ok r)) :
    FlowCalls calls (r.isOk = false) fun _ => [] := by
  unfold startSource at h
  split at h
  · obtain ⟨ans, hcall, rfl⟩ := makes_bind_done.1 h
    rw [ask_source hcall]
    refine .source rfl rfl ?_
    cases register names f.2.name <;> rfl
  · rw [ask_source h]
    refine .source rfl rfl ?_
    cases r <;> rfl

theorem stopSource_calls (h : Makes (stopSource f) calls (.ok r)) :
    FlowCalls calls (r.isOk = false) fun _ => [] := by
  unfold stopSource at h
  split at h
  · obtain ⟨ans, hcall, rfl⟩ := makes_bind_done.1 h
    rw [ask_source hcall]
    exact .source rfl rfl rfl
  · rw [ask_source h]
    refine .source rfl rfl ?_
    cases r <;> rfl

theorem startFlow_calls {names : List String} (h : Makes (startFlow names f) calls (.ok r)) :
    FlowCalls calls (r.isOk = false) (marks begun [f]) := by
  obtain ⟨⟨⟩, rest, rfl, hrest⟩ := makes_ask_bind.1 h
  obtain ⟨⟨⟩, rest', rfl, hrest'⟩ := makes_ask_bind.1 hrest
  have hpool : FlowCalls [⟨.startPool f.1, ()⟩] _ _ := .stage rfl
  have hworkers : FlowCalls [⟨.spawnWorkers f.1, ()⟩] _ _ := .stage rfl
  refine (hpool.append (hworkers.append (startSource_calls hrest'))).congr (by simp) fun g => ?_
  by_cases hg : f.1 = g <;> simp [hg, marks, begun]

theorem stopFlow_calls {r : Option String} (h : Makes (stopFlow f) calls (.ok r)) :
    FlowCalls calls (r.isSome) (marks ended (if r.isSome then [] else [f])) := by
  obtain ⟨outcome, first, second, rfl, hfirst, hsecond⟩ := makes_bind.1 h
  have hsource := stopSource_calls hfirst
  cases outcome with
  | error =>
    obtain ⟨rfl, hr⟩ := makes_done.1 hsecond
    cases Except.ok.inj hr
    exact (hsource.append .nil).congr (by simp [Except.toBool]) fun g => rfl
  | ok =>
    obtain ⟨⟨⟩, rest, rfl, hrest⟩ := makes_ask_bind.1 hsecond
    obtain ⟨⟨⟩, rest', rfl, hrest'⟩ := makes_ask_bind.1 hrest
    obtain ⟨⟨⟩, hcall, rfl⟩ := makes_bind_done.1 hrest'
    rw [ask_source hcall]
    have hclose : FlowCalls [⟨.closeInput f.1, ()⟩] _ _ := .stage rfl
    have hwait : FlowCalls [⟨.awaitWorkers f.1, ()⟩] _ _ := .stage rfl
    have hpool : FlowCalls [⟨.stopPool f.1, ()⟩] _ _ := .stage rfl
    refine (hsource.append (hclose.append (hwait.append hpool))).congr
      (by simp [Except.toBool]) fun g => ?_
    by_cases hg : f.1 = g <;> simp [hg, marks, ended]

/-- **The calls of `startFlows`**: the flows in order, up to the first one whose source fails, which
it does not report. -/
theorem startFlows_calls : ∀ {rest started started' : List Numbered} {names : List String}
    {calls : Calls} {err : Option String},
    Makes (startFlows names started rest) calls (.ok (started', err)) →
      ∃ began left, rest = began ++ left ∧ started' = began.reverse ++ started ∧
        (err = none ∧ left = [] ∧ FlowCalls calls False (marks begun began) ∨
          (∃ f ∈ left.head?, FlowCalls calls True (marks begun (began ++ [f]))) ∧ err.isSome)
  | [], started, started', names, calls, err, h => by
    obtain ⟨rfl, hr⟩ := makes_done.1 h
    cases hr
    exact ⟨[], [], rfl, rfl, .inl ⟨rfl, rfl, .nil⟩⟩
  | f :: rest, started, started', names, calls, err, h => by
    obtain ⟨outcome, first, second, rfl, hfirst, hsecond⟩ := makes_bind.1 h
    have hflow := startFlow_calls hfirst
    cases outcome with
    | error =>
      obtain ⟨rfl, hr⟩ := makes_done.1 hsecond
      cases hr
      refine ⟨[], f :: rest, rfl, rfl, .inr ⟨⟨f, rfl, ?_⟩, rfl⟩⟩
      exact (hflow.append .nil).congr (by simp [Except.toBool])
        fun g => append_nil _
    | ok =>
      obtain ⟨began, left, rfl, rfl, hcases⟩ := startFlows_calls hsecond
      refine ⟨f :: began, left, rfl, by simp, ?_⟩
      rcases hcases with ⟨rfl, rfl, hrest⟩ | ⟨⟨k, hk, hrest⟩, herr⟩
      · refine .inl ⟨rfl, rfl, (hflow.append hrest).congr ?_ fun g => ?_⟩
        · simp [Except.toBool]
        · simp [marks]
      · refine .inr ⟨⟨k, hk, (hflow.append hrest).congr (by simp) fun g => ?_⟩, herr⟩
        simp [marks]

theorem stopFlows_calls : ∀ {fs : List Numbered} {calls : Calls}
    {r : Option String}, Makes (stopFlows fs) calls (.ok r) →
      ∃ stopped, stopped.Sublist fs ∧ FlowCalls calls (stopped ≠ fs) (marks ended stopped)
  | [], calls, r, h => by
    obtain ⟨rfl, -⟩ := makes_done.1 h
    exact ⟨[], .slnil, FlowCalls.nil.congr (by simp) fun g => rfl⟩
  | f :: rest, calls, r, h => by
    obtain ⟨outcome, first, second, rfl, hfirst, hsecond⟩ := makes_bind.1 h
    obtain ⟨firstErr, hrest, -⟩ := makes_bind_done.1 hsecond
    obtain ⟨stopped, hsub, hstopped⟩ := stopFlows_calls hrest
    have hflow := (stopFlow_calls hfirst).append hstopped
    cases outcome with
    | some =>
      refine ⟨stopped, hsub.cons f, hflow.congr ?_ fun g => rfl⟩
      have hne : stopped ≠ f :: rest := fun heq => by
        have hlen := hsub.length_le
        rw [heq, List.length_cons] at hlen
        omega
      simp [hne]
    | none =>
      refine ⟨f :: stopped, hsub.cons_cons f, hflow.congr (by simp) fun g => ?_⟩
      simp [marks]

/-! ## Whole runs -/

section Marks

variable {st : List Stage} {fs : List Numbered} {g : Nat}

theorem marks_of_not_mem (h : g ∉ fs.map fst) : marks st fs g = [] := by
  refine List.flatMap_eq_nil_iff.2 fun f hf => if_neg fun hid => h ?_
  exact mem_map.2 ⟨f, hf, hid⟩

theorem marks_of_mem : ∀ {fs : List Numbered}, (fs.map fst).Nodup → g ∈ fs.map fst →
    marks st fs g = st
  | [], _, h => absurd h (by simp)
  | f :: fs, hnd, h => by
    rw [List.map_cons, List.nodup_cons] at hnd
    rw [List.map_cons, List.mem_cons] at h
    show (if f.1 = g then st else []) ++ marks st fs g = st
    rcases h with rfl | h
    · rw [if_pos rfl, marks_of_not_mem hnd.1, append_nil]
    · have hne : f.1 ≠ g := fun hid => hnd.1 (hid ▸ h)
      rw [if_neg hne, List.nil_append, marks_of_mem hnd.2 h]

end Marks

variable {failed : Prop}

theorem woundDown_iff
    (h : FlowCalls calls failed fun g => marks begun began g ++ marks ended stopped g)
    (hbegan : (began.map fst).Nodup) (hstopped : (stopped.map fst).Nodup)
    (hsub : stopped ⊆ began) : WoundDown calls ↔ ∀ f ∈ began, f.1 ∈ stopped.map fst := by
  unfold WoundDown
  simp only [h.stages]
  constructor
  · intro hwound f hf
    by_contra hout
    have hfull := hwound f.1
    rw [marks_of_mem hbegan (mem_map_of_mem hf), marks_of_not_mem hout] at hfull
    exact absurd (hfull (by simp [begun])) (by simp [begun])
  · intro hall g hg
    by_cases hmem : g ∈ began.map fst
    · obtain ⟨f, hf, rfl⟩ := mem_map.1 hmem
      rw [marks_of_mem hbegan hmem, marks_of_mem hstopped (hall f hf)]
      rfl
    · have hout : g ∉ stopped.map fst := fun hin => by
        obtain ⟨f, hf, rfl⟩ := mem_map.1 hin
        exact hmem (mem_map_of_mem (hsub hf))
      rw [marks_of_not_mem hmem, marks_of_not_mem hout] at hg
      simp at hg

/-- The flows of a run: calls about flows that leave all of them wound down unless a source fails. -/
def FlowPart (calls : Calls) : Prop :=
  (∀ c ∈ calls, c.1.phase = .flows) ∧ (WoundDown calls ↔ ∀ c ∈ calls, sourceFailed c = false)

theorem FlowCalls.part {st : Nat → List Stage} (h : FlowCalls calls failed st)
    (hwound : WoundDown calls ↔ ¬failed) : FlowPart calls := by
  refine ⟨h.phase, hwound.trans ?_⟩
  rw [← h.failed]
  simp only [not_exists, not_and, Bool.not_eq_true]

theorem flowPart_nil : FlowPart [] := FlowCalls.nil.part (by simp [WoundDown])

variable {starting stopping : Calls}

theorem flowPart_run
    (hstart : FlowCalls starting False (marks begun began)) (hsub : stopped.Sublist began.reverse)
    (hstop : FlowCalls stopping (stopped ≠ began.reverse) (marks ended stopped))
    (hnd : (began.map fst).Nodup) : FlowPart (starting ++ ⟨.awaitCancel, ()⟩ :: stopping) := by
  have hwait : FlowCalls [⟨.awaitCancel, ()⟩] False fun _ => [] :=
    ⟨by simp [Op.phase], by simp [sourceFailed], fun g => rfl⟩
  have hcalls : FlowCalls (starting ++ ⟨.awaitCancel, ()⟩ :: stopping) (stopped ≠ began.reverse)
      fun g => marks begun began g ++ marks ended stopped g :=
    (hstart.append (hwait.append hstop)).congr (by simp) fun g => by simp
  have hrev : (began.reverse.map fst).Nodup := (began.reverse_perm.map _).nodup_iff.2 hnd
  refine hcalls.part ((woundDown_iff hcalls hnd ((hsub.map _).nodup hrev) ?_).trans ?_)
  · exact fun f hf => mem_reverse.1 (hsub.subset hf)
  · rw [not_not]
    constructor
    · intro hall
      have hids : began.reverse.map fst ⊆ stopped.map fst := fun g hg => by
        obtain ⟨f, hf, rfl⟩ := mem_map.1 hg
        exact hall f (mem_reverse.1 hf)
      have hle := (List.subperm_of_subset hrev hids).length_le
      simp only [List.length_map] at hle
      exact hsub.eq_of_length_le hle
    · rintro rfl f hf
      exact mem_map_of_mem (mem_reverse.2 hf)

theorem flowPart_failed
    (hstart : FlowCalls starting True (marks begun (began ++ [f])))
    (hsub : stopped.Sublist began.reverse) (hstop : FlowCalls stopping failed (marks ended stopped))
    (hnd : ((began ++ [f]).map fst).Nodup) : FlowPart (starting ++ stopping) := by
  have hcalls := hstart.append hstop
  have hsplit := hnd
  rw [List.map_append, List.nodup_append] at hsplit
  have hrev : (began.reverse.map fst).Nodup :=
    (began.reverse_perm.map _).nodup_iff.2 hsplit.1
  have hin : stopped ⊆ began := fun k hk => mem_reverse.1 (hsub.subset hk)
  refine hcalls.part ((woundDown_iff hcalls hnd ((hsub.map _).nodup hrev) ?_).trans ?_)
  · exact fun k hk => List.mem_append_left _ (hin hk)
  · refine iff_of_false (fun hall => ?_) (by simp)
    obtain ⟨k, hk, hid⟩ := mem_map.1 (hall f (by simp))
    exact hsplit.2.2 k.1 (mem_map_of_mem (hin hk)) f.1 (by simp) hid

theorem orderForStart_ids {flows : List Numbered} (h : (flows.map fst).Nodup) :
    ((orderForStart flows).map fst).Nodup :=
  ((List.filter_append_perm implicit flows).map _).nodup_iff.2 h

theorem numbered_ids (flows : List ServiceFlow) :
    ((flows.zipIdx.map fun x => (x.2, x.1)).map fst).Nodup := by
  rw [List.map_map]
  show (flows.zipIdx.map snd).Nodup
  rw [List.zipIdx_map_snd]
  exact List.nodup_range'

/-- **The shape of a run**: the setup, the flows, and the stop of every connector that started. -/
theorem run_calls {invokeMode : Bool} {cfg : Types.Config} {r : Option String}
    (h : Makes (run host invokeMode cfg) calls (.ok r)) :
    ∃ n setup flows teardown, calls = setup ++ (flows ++ teardown) ∧ Setup 0 n setup ∧
      FlowPart flows ∧ teardown.map Sigma.fst = stops n := by
  obtain ⟨built, first, second, rfl, hfirst, hsecond⟩ := makes_bind.1 h
  obtain ⟨n, setup, teardown, rfl, hsetup, hends⟩ := build_calls hfirst
  cases built with
  | error =>
    obtain ⟨rfl, -⟩ := makes_done.1 hsecond
    exact ⟨n, setup, [], teardown, by simp, hsetup, flowPart_nil, hends⟩
  | ok x =>
    obtain ⟨set, flows⟩ := x
    obtain ⟨rfl, rfl⟩ := hends
    have hids := orderForStart_ids (numbered_ids flows)
    obtain ⟨⟨started, err⟩, starting, rest, rfl, hstarting, hrest⟩ := makes_bind.1 hsecond
    obtain ⟨began, left, horder, rfl, hcases⟩ := startFlows_calls hstarting
    rw [horder] at hids
    rcases hcases with ⟨rfl, rfl, hstart⟩ | ⟨⟨f, hf, hstart⟩, herr⟩
    · obtain ⟨⟨⟩, rest', rfl, hrest'⟩ := makes_ask_bind.1 hrest
      obtain ⟨flowErr, stopping, last, rfl, hstopping, hlast⟩ := makes_bind.1 hrest'
      obtain ⟨connErr, hconn, -⟩ := makes_bind_done.1 hlast
      obtain ⟨stopped, hsub, hstop⟩ := stopFlows_calls hstopping
      rw [append_nil] at hsub hstop hids
      exact ⟨_, setup, starting ++ ⟨.awaitCancel, ()⟩ :: stopping, last, by simp, hsetup,
        flowPart_run hstart hsub hstop hids, stopConnectors_calls hconn⟩
    · obtain ⟨e, rfl⟩ := Option.isSome_iff_exists.1 herr
      obtain ⟨flowErr, stopping, last, rfl, hstopping, hlast⟩ := makes_bind.1 hrest
      obtain ⟨connErr, hconn, -⟩ := makes_bind_done.1 hlast
      obtain ⟨stopped, hsub, hstop⟩ := stopFlows_calls hstopping
      obtain ⟨left, rfl⟩ : ∃ left', left = f :: left' := by
        cases left with
        | nil => cases hf
        | cons k left => exact ⟨left, by rw [Option.some.inj hf]⟩
      have hnd : ((began ++ [f]).map fst).Nodup := by
        refine (List.Sublist.map _ ?_).nodup hids
        exact List.Sublist.append_left (by simp) began
      rw [append_nil] at hsub
      exact ⟨_, setup, starting ++ stopping, last, by simp, hsetup,
        flowPart_failed hstart hsub hstop hnd, stopConnectors_calls hconn⟩

/-- **`Service.Run` leaves nothing running exactly when no source fails** to start or to stop, for
every config and every choice of failing calls. -/
theorem nothing_left_iff {host : Host} {invokeMode : Bool} {cfg : Types.Config}
    {calls : Calls} {r : Option String}
    (h : Makes (run host invokeMode cfg) calls (.ok r)) :
    NothingLeft calls ↔ ∀ c ∈ calls, sourceFailed c = false := by
  obtain ⟨n, setup, flows, teardown, rfl, hsetup, ⟨hphase, hwound⟩, hstops⟩ := run_calls h
  have hdown := phase_of_stops hstops
  have hstages : ∀ f, stages f (setup ++ (flows ++ teardown)) = stages f flows := fun f => by
    rw [stages_append, stages_append, stages_of_phase hsetup.phase (by decide),
      stages_of_phase hdown (by decide), List.nil_append, append_nil]
  have hstarted : (setup ++ (flows ++ teardown)).filterMap startedConnector = range n := by
    rw [filterMap_append, filterMap_append, hsetup.started,
      started_of_phase hphase (by decide), started_of_phase hdown (by decide),
      List.range_eq_range']
    simp
  have hstopped : (setup ++ (flows ++ teardown)).filterMap stoppedConnector =
      (range n).reverse := by
    rw [filterMap_append, filterMap_append, stopped_of_phase hsetup.phase (by decide),
      stopped_of_phase hphase (by decide), stopped_of_stops hstops]
    rfl
  have hfailed : (∀ c ∈ setup ++ (flows ++ teardown), sourceFailed c = false) ↔
      ∀ c ∈ flows, sourceFailed c = false := by
    simp only [mem_append]
    constructor
    · exact fun hall c hc => hall c (.inr (.inl hc))
    · rintro hall c (hc | hc | hc)
      · exact sourceFailed_of_phase hsetup.phase (by decide) c hc
      · exact hall c hc
      · exact sourceFailed_of_phase hdown (by decide) c hc
  rw [hfailed, ← hwound]
  constructor
  · intro hleft f
    rw [← hstages]
    exact hleft.flows f
  · intro hflows
    refine ⟨by rw [hstarted, hstopped], by rw [hstarted]; exact List.nodup_range, ?_, fun f => ?_⟩
    · have hup : ∀ c ∈ setup ++ flows, c.1.phase ≠ .teardown := fun c hc => by
        rcases mem_append.1 hc with hc | hc
        · rw [hsetup.phase c hc]
          decide
        · rw [hphase c hc]
          decide
      rw [← List.append_assoc, List.pairwise_append]
      refine ⟨List.pairwise_of_forall_mem_list fun a ha b _ hab => hup a ha hab.1,
        List.pairwise_of_forall_mem_list fun a _ b hb hab => ?_,
        fun a ha b _ hab => hup a ha hab.1⟩
      rw [hdown b hb] at hab
      exact absurd hab.2 (by decide)
    · rw [hstages]
      exact hflows f

def tickConfig : Types.Config where
  service := ⟨"ticker", ""⟩
  env := []
  connectors := [⟨"clock", "cron", []⟩]
  processors := []
  flows := [⟨"tick", some ⟨"clock", "cron", []⟩, [], [], 0, 0, 0⟩]
  resolvedEnv := []

def sourcesAnswer (started : Except String Unit) : (op : Op) → Answer op
  | .startConnector _ _ | .stopConnector _ | .newSource _ _ | .stopSource _ => .ok ()
  | .startSource _ => started
  | .buildRoot _ cfg => .ok ⟨cfg.name, []⟩
  | .startPool _ | .spawnWorkers _ | .register _ _ | .awaitCancel | .deregister _ | .closeInput _
  | .awaitWorkers _ | .stopPool _ => ()

def tickCalls (started : Except String Unit) : Calls :=
  ((run willingHost false tickConfig).answered (sourcesAnswer started)).1

theorem tick_leaves_nothing : NothingLeft (tickCalls (.ok ())) := by
  have hrun : Makes (run willingHost false tickConfig) (tickCalls (.ok ())) (.ok none) :=
    Program.makes_answered (sourcesAnswer (.ok ())) _
  exact (nothing_left_iff hrun).2 (by decide)

/-- The source fails to start: its workers and its pool are left running. -/
theorem failed_source_leaks_workers :
    (∃ r, Makes (run willingHost false tickConfig) (tickCalls (.error "address in use")) (.ok r)) ∧
      stages 0 (tickCalls (.error "address in use")) = [.poolStarted, .workersSpawned] ∧
      ¬NothingLeft (tickCalls (.error "address in use")) := by
  have hstages : stages 0 (tickCalls (.error "address in use")) =
      [.poolStarted, .workersSpawned] := by decide
  refine ⟨⟨_, Program.makes_answered (sourcesAnswer _) _⟩, hstages, fun hleft => ?_⟩
  have hflow := hleft.flows 0
  exact absurd (hflow (by decide)) (by decide)

end Octo.Runtime.Lifecycle
