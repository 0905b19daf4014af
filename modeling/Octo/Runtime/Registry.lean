import Octo.Runtime.Lifecycle

/-!
# Callable flows

Under which names the flows of a service can be called (`flowregistry.go`, `implicitsource.go`): a
flow without a source, or any flow in invoke mode, gets an implicit source, whose start registers the
flow's name.

* `flows_start_iff` — when all flows start.
* `callable_of_build` — the callable names are those the config document gives.
-/

namespace Octo.Runtime

open List Octo.Types
open Octo.Config (RuntimeConfig parse)
open Octo.Engine
open Octo.Foundation.Traverse (bind_eq_ok pure_eq_ok mapM_eq_ok_iff)
open Octo.Foundation.Program

/-- The names of the flows without a source, and in invoke mode of all flows. -/
def callableNames (invokeMode : Bool) (c : RuntimeConfig) : List String :=
  (c.flows.filter fun f => f.head.source.isNone || invokeMode).map (·.head.name.getD "")

namespace Lifecycle

/-! ## Start-up -/

def callable (flows : List Numbered) : List String := (flows.filter implicit).map (·.2.name)

theorem register_eq_ok_iff {names : List String} {name : String} :
    register names name = .ok () ↔ name ≠ "" ∧ name ∉ names := by
  unfold register
  split
  · simp [*]
  · split <;> simp [*]

variable (answer : (op : Op) → Answer op)

/-- How the start of one flow ends: an implicit source registers its name. -/
def startOutcome (names : List String) (f : Numbered) : Except String Unit :=
  if implicit f then register names f.2.name else answer (.startSource f.1)

theorem startFlow_answered (names : List String) (f : Numbered) :
    ((startFlow names f).answered answer).2 = .ok (startOutcome answer names f) := by
  show ((startSource names f).answered answer).2 = _
  unfold startSource startOutcome
  split <;> rfl

theorem startFlows_answered (started' : List Numbered) :
    ∀ (names : List String) (started flows : List Numbered),
      ((startFlows names started flows).answered answer).2 = .ok (started', none) ↔
        (∀ name ∈ callable flows, name ≠ "" ∧ name ∉ names) ∧ (callable flows).Nodup ∧
        (∀ f ∈ flows, implicit f = false → answer (.startSource f.1) = .ok ()) ∧
        started' = flows.reverse ++ started
  | names, started, [] => by
    rw [startFlows]
    simp [answered, callable, eq_comm (a := started)]
  | names, started, f :: flows => by
    rw [startFlows, answered_bind, startFlow_answered, startOutcome]
    cases himplicit : implicit f with
    | true =>
      have hcallable : callable (f :: flows) = f.2.name :: callable flows := by
        simp [callable, himplicit]
      cases h : register names f.2.name with
      | error =>
        have hno : ¬(f.2.name ≠ "" ∧ f.2.name ∉ names) := by
          rw [← register_eq_ok_iff, h]
          exact nofun
        refine iff_of_false (by simp [answered]) fun hall => hno (hall.1 _ ?_)
        rw [hcallable]
        exact mem_cons_self
      | ok =>
        have hnew := register_eq_ok_iff.1 h
        simp only [if_true, startFlows_answered, hcallable, nodup_cons, forall_mem_cons, himplicit,
          reverse_cons, append_assoc, singleton_append]
        grind
    | false =>
      have hcallable : callable (f :: flows) = callable flows := by simp [callable, himplicit]
      cases h : answer (.startSource f.1) with
      | error => simp [h, himplicit, answered]
      | ok => simp [startFlows_answered, hcallable, himplicit, h]

/-- **Start-up**: the flows start exactly when the implicit ones have distinct names that are not
empty and the sources of all others start. -/
theorem flows_start_iff (flows started : List Numbered) :
    ((startFlows [] [] (orderForStart flows)).answered answer).2 = .ok (started, none) ↔
      "" ∉ callable flows ∧ (callable flows).Nodup ∧
      (∀ f ∈ flows, implicit f = false → answer (.startSource f.1) = .ok ()) ∧
      started = (orderForStart flows).reverse := by
  have hcallable : callable (orderForStart flows) = callable flows := by
    simp [callable, orderForStart, filter_filter]
  have hmem (f : Numbered) : f ∈ orderForStart flows ↔ f ∈ flows := by
    cases h : implicit f <;> simp [orderForStart, h]
  have hempty : (∀ name ∈ callable flows, name ≠ "" ∧ name ∉ []) ↔ "" ∉ callable flows := by
    simpa [eq_comm] using List.forall_mem_ne (l := callable flows) (a := "")
  simp only [startFlows_answered, hcallable, hmem, hempty, append_nil]

/-! ## On the config document -/

variable {host : Host} {invokeMode : Bool} {set set' : ConnectorSet} {calls : Calls}

theorem newSource_bound {src : SourceConfig} {source : SourceBinding}
    (h : Makes (newSource host set src) calls (.ok (set', .ok source))) : source ≠ .implicit := by
  obtain ⟨⟨_, _ | c⟩, _, _, -, -, h⟩ := makes_bind.1 h
  · cases (makes_done.1 h).2
  · dsimp only at h
    split at h
    · obtain ⟨answer, _, -, h⟩ := makes_ask_bind.1 h
      have hmap := (Prod.mk.inj (Except.ok.inj (makes_done.1 h).2)).2
      rintro rfl
      generalize within ("new source " ++ quoted src.type) (Host.outside answer) = source at hmap
      cases source <;> cases hmap
    · cases (makes_done.1 h).2

theorem buildFlow_callable {cfg : FlowConfig} {flow : ServiceFlow}
    (h : Makes (buildFlow host invokeMode set cfg) calls (.ok (set', .ok flow))) (i : Nat) :
    flow.name = cfg.name ∧ implicit (i, flow) = (cfg.source.isNone || invokeMode) := by
  obtain ⟨⟨_, _ | source⟩, _, _, -, hsource, h⟩ := makes_bind.1 h
  · cases (makes_done.1 h).2
  obtain ⟨_ | root, _, -, h⟩ := makes_ask_bind.1 h
  · cases (makes_done.1 h).2
  obtain ⟨_ | errorPath, -, heq⟩ := makes_bind_done.1 h
  · cases heq
  cases heq
  refine ⟨rfl, ?_⟩
  unfold buildSource at hsource
  split at hsource
  next hnone =>
    have himplicit : (cfg.source.isNone || invokeMode) = true := by
      cases invokeMode <;> simp_all
    rw [himplicit]
    split at hsource
    · cases (makes_done.1 hsource).2
    · cases (makes_done.1 hsource).2
      rfl
  next src hsome =>
    have hbound := newSource_bound hsource
    cases invokeMode <;> cases source <;> simp_all [implicit]

theorem buildFlows_callable : ∀ {cfgs : List FlowConfig} {set set' : ConnectorSet}
    {calls : Calls} {flows : List ServiceFlow} {numbered : List Numbered},
    Makes (buildFlows host invokeMode set cfgs) calls (.ok (set', .ok flows)) →
      numbered.map Prod.snd = flows →
      callable numbered = (cfgs.filter fun f => f.source.isNone || invokeMode).map (·.name)
  | [], _, _, _, _, _, h, hnumbered => by
    cases (makes_done.1 h).2
    simp [callable, map_eq_nil_iff.1 hnumbered]
  | cfg :: cfgs, _, _, _, _, numbered, h, hnumbered => by
    obtain ⟨⟨_, _ | flow⟩, _, _, -, hflow, h⟩ := makes_bind.1 h
    · cases (makes_done.1 h).2
    obtain ⟨⟨_, _ | flows⟩, hflows, heq⟩ := makes_bind_done.1 h
    · cases heq
    cases heq
    obtain ⟨⟨i, _⟩, rest, rfl, rfl, hrest⟩ := map_eq_cons_iff.1 hnumbered
    obtain ⟨hname, himplicit⟩ := buildFlow_callable hflow i
    have ih := buildFlows_callable hflows hrest
    unfold callable at ih ⊢
    simp only [filter_cons, himplicit]
    dsimp only at hname
    split <;> simp [ih, hname]

/-- **The callable names are those of the config document.** -/
theorem callable_of_build {truncate : String → Option Int} {c : RuntimeConfig} {cfg : Types.Config}
    (hparse : parse truncate c = .ok cfg) {flows : List ServiceFlow}
    (hbuild : Makes (buildFlows host invokeMode set cfg.flows) calls (.ok (set', .ok flows))) :
    callable (flows.zipIdx.map fun (flow, i) => (i, flow)) = callableNames invokeMode c := by
  rw [buildFlows_callable hbuild (by simp [Function.comp_def])]
  simp only [parse, bind_eq_ok, pure_eq_ok] at hparse
  obtain ⟨_, hflows, rfl⟩ := hparse
  rw [mapM_eq_ok_iff] at hflows
  unfold callableNames
  clear hbuild
  generalize c.flows = docs at hflows
  induction hflows with
  | nil => rfl
  | @cons w f ws fs hwf _ ih =>
    simp only [Config.DecodedFlow.config, bind_eq_ok, pure_eq_ok] at hwf
    obtain ⟨process, -, error, -, rfl⟩ := hwf
    simp only [filter_cons, Config.decodeFlow_head, Option.isNone_map]
    split
    · simp [ih]
    · exact ih

end Lifecycle

end Octo.Runtime
