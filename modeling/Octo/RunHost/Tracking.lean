import Octo.RunHost.Ownership
import Octo.Foundation.Trace

/-!
# The run-host keeps track of its runners

Every live runner should be the process of the session its namespace leads to, and the ports in use
those of the sessions that have a live runner.  A call that goes on after an `await` writes to the
session object it got before, whatever has become of it in between.

* `tracked_iff_careful` — exactly the careful runs keep every runner tracked all the way.
* `overlapping_starts_lose_runner` — two starts in one namespace, and no call in progress any more.
-/

namespace Octo.RunHost

open Option
open Function (update_of_ne update_self)

open Octo.Foundation (Along along_iff forall_view)
open Octo.Foundation.Split (lookup_filter_ne)

/-! ## What is claimed -/

def World.Quiescent (w : World) : Prop := ∀ c, w.phase c = .idle

variable (h : Host)

def Host.Networked (s port : Nat) : Prop :=
  (∃ p, (h.sessions s).proc = some p ∧ (h.running p).isSome) ∧
    (h.sessions s).exposable = true ∧ (h.sessions s).port = some port

/-- A namespace has at most one live runner, which is the process of the session the map has for
the namespace and was started with its config file; the ports in use are those of the networked
sessions of the map. -/
structure Host.Tracked (h : Host) : Prop where
  one : ∀ p q r r', h.running p = some r → h.running q = some r' → r.ns = r'.ns → p = q
  stored : ∀ p r, h.running p = some r → ∃ s, h.map.lookup r.ns = some s ∧
    (h.sessions s).proc = some p ∧ (h.sessions s).configPath = some r.configPath
  ports : ∀ port, port ∈ h.ports ↔ ∃ ns s, h.map.lookup ns = some s ∧ h.Networked s port

def Careful (isExposable : String → Bool) (w : World) : Action → Prop
  | .resume c ok =>
    match w.phase c with
    | .exiting _ s exit _ => w.host.resolved exit = true → (w.host.sessions s).proc = none
    | .removing _ s _ => (w.host.sessions s).proc = none
    | .moving ns yaml s _ => ok = true → (w.host.sessions s).proc = none ∧
        (isExposable yaml = true ∧ allocatePort w.host.ports = none ∨ w.host.map.lookup ns = some s)
    | .forgetting ns _ => ∀ s, w.host.map.lookup ns = some s → (w.host.sessions s).proc = none
    | _ => True
  | _ => True

theorem Host.Good.tracked {h : Host} (hg : h.Good) : h.Tracked where
  one := by
    intro p q r r' hp hq hns
    obtain ⟨hmap, hheld⟩ := hg.owned p r hp
    obtain ⟨hmap', hheld'⟩ := hg.owned q r' hq
    rw [hns, hmap'] at hmap
    rw [← some.inj hmap] at hheld
    exact some.inj (hheld.proc.symm.trans hheld'.proc)
  stored := by
    intro p r hp
    obtain ⟨hmap, hheld⟩ := hg.owned p r hp
    exact ⟨r.session, hmap, hheld.proc, hheld.configPath⟩
  ports := by
    intro port
    rw [hg.ports]
    constructor
    · rintro ⟨p, r, hp, hport⟩
      obtain ⟨hmap, hheld⟩ := hg.owned p r hp
      refine ⟨r.ns, r.session, hmap, ⟨p, hheld.proc, by rw [hp]; rfl⟩, ?_, hheld.port.trans hport⟩
      rw [hheld.exposable, hport]
      rfl
    · rintro ⟨ns, s, -, ⟨p, hproc, -⟩, -, hport⟩
      obtain ⟨r, hp, rfl⟩ := hg.live s p hproc
      exact ⟨p, r, hp, (hg.owned p r hp).2.port.symm.trans hport⟩

/-! ## Losing a runner -/

section Lost

variable {h : Host}

variable {p : Nat}

theorem not_tracked_of_lost {r : Runner} (hp : h.running p = some r)
    (hlost : ∀ s, h.map.lookup r.ns = some s → (h.sessions s).proc = some p →
      (h.sessions s).configPath ≠ some r.configPath) : ¬h.Tracked := by
  intro ht
  obtain ⟨s, hmap, hproc, hpath⟩ := ht.stored p r hp
  exact hlost s hmap hproc hpath

variable {s : Nat} (hg : h.Good)
include hg

variable (hproc : (h.sessions s).proc = some p)
include hproc

theorem Host.Good.not_tracked {h' : Host} (hrun : h'.running p = h.running p)
    (hmap : h'.map = h.map) (hlost : ∀ r, h.running p = some r → (h'.sessions s).proc = some p →
      (h'.sessions s).configPath ≠ some r.configPath) : ¬h'.Tracked := by
  obtain ⟨r, hp, rfl⟩ := hg.live s p hproc
  refine not_tracked_of_lost (hrun.trans hp) fun t ht => ?_
  rw [hmap, (hg.owned p r hp).1] at ht
  cases ht
  exact hlost r hp

theorem Host.Good.clear_lost :
    ¬(h.clear s).Tracked := by
  refine hg.not_tracked hproc rfl rfl fun r _ hafter => ?_
  unfold Host.clear at hafter
  rw [modify_self] at hafter
  cases hafter

theorem Host.Good.remove_lost :
    ¬(h.modify s fun s => { s with configPath := none }).Tracked := by
  refine hg.not_tracked hproc rfl rfl fun r _ _ => ?_
  rw [modify_self]
  exact fun hnone => by cases hnone

omit hproc

theorem Host.Good.forget_lost {ns : String}
    (hmap : h.map.lookup ns = some s) (hproc : (h.sessions s).proc = some p) (rest : List String) :
    ¬(RunHost.reap { h with map := h.map.filter (·.1 ≠ ns) } rest).1.Tracked := by
  obtain ⟨r, hp, rfl⟩ := hg.live s p hproc
  have hns : r.ns = ns := hg.one _ _ _ (hg.owned p r hp).1 hmap
  have hframe := Frame.reap { h with map := h.map.filter (·.1 ≠ ns) } rest
  refine not_tracked_of_lost (by rw [hframe.running]; exact hp) fun t ht htp => ?_
  exfalso
  rcases hframe.map _ _ ht with hold | hnew
  · rw [lookup_filter_ne, if_pos hns] at hold
    cases hold
  · obtain ⟨r', hp', rfl⟩ := hg.live t p (hframe.proc t p htp)
    cases some.inj (hp'.symm.trans hp)
    have hlt := hg.created _ _ hmap
    dsimp only at hnew
    omega

theorem Host.Good.launch_lost {isExposable : String → Bool} {ns yaml : String}
    {path : Nat} (hfresh : ∀ p r, h.running p = some r → r.configPath ≠ path)
    (hno : ¬((h.sessions s).proc = none ∧
      (isExposable yaml = true ∧ allocatePort h.ports = none ∨ h.map.lookup ns = some s))) :
    ¬(RunHost.launch isExposable h ns yaml s path).Tracked := by
  rcases launch_cases isExposable h ns yaml s path with ⟨hfull, heq⟩ | ⟨hsome, ports, port, -, -, heq⟩
  · rw [heq]
    cases hproc : (h.sessions s).proc with
    | none => exact absurd ⟨hproc, .inl hfull⟩ hno
    | some p =>
      refine hg.not_tracked hproc rfl rfl fun r hp _ => ?_
      rw [modify_self]
      exact fun hpath => hfresh p r hp (some.inj hpath).symm
  · rw [heq]
    cases hproc : (h.sessions s).proc with
    | none =>
      have hmap : h.map.lookup ns ≠ some s := fun hmap => hno ⟨hproc, .inr hmap⟩
      refine not_tracked_of_lost (update_self ..) fun t ht htp => ?_
      have hts : t ≠ s := by
        rintro rfl
        exact hmap ht
      rw [Host.spawn, modify_of_ne _ hts] at htp
      rw [modify_of_ne _ hts] at htp
      obtain ⟨r, hp, -⟩ := hg.live t _ htp
      exact absurd (hg.spawned _ r hp) (Nat.lt_irrefl _)
    | some p =>
      obtain ⟨r, hp, -⟩ := hg.live s p hproc
      have hne : p ≠ h.spawned := Nat.ne_of_lt (hg.spawned p r hp)
      refine hg.not_tracked hproc (update_of_ne hne ..) rfl fun r _ hafter => ?_
      rw [Host.spawn, modify_self] at hafter
      exact absurd (some.inj hafter).symm hne

end Lost

/-! ## Runs -/

/-- The config file a `start` is writing. -/
def Phase.path : Phase → Option Nat
  | .writing _ _ _ path => some path
  | .moving _ _ _ path => some path
  | _ => none

/-- The invariant of careful runs: runners are owned, and a config file is one runner's or one
call's. -/
structure Inv (w : World) : Prop where
  good : w.host.Good
  minted : ∀ c x, (w.phase c).path = some x → x < w.host.paths
  once : ∀ c c' x, (w.phase c).path = some x → (w.phase c').path = some x → c = c'
  used : ∀ p r, w.host.running p = some r → r.configPath < w.host.paths ∧
    ∀ c, (w.phase c).path ≠ some r.configPath

theorem Inv.init : Inv {} where
  good := .init
  minted := by simp [Phase.path]
  once := by simp [Phase.path]
  used := by simp

section Step

variable {w : World} {c : Nat}

theorem Inv.frame (h : Inv w) {host : Host} {phase : Nat → Phase} (hg : host.Good)
    (hrun : ∀ p r, host.running p = some r → w.host.running p = some r)
    (hpaths : host.paths = w.host.paths)
    (hphase : ∀ c x, (phase c).path = some x → (w.phase c).path = some x) : Inv ⟨host, phase⟩ where
  good := hg
  minted := by
    intro c x hx
    rw [hpaths]
    exact h.minted c x (hphase c x hx)
  once := fun c c' x hx hx' => h.once c c' x (hphase c x hx) (hphase c' x hx')
  used := by
    intro p r hp
    obtain ⟨hlt, hfree⟩ := h.used p r (hrun p r hp)
    refine ⟨?_, fun c hc => hfree c (hphase c _ hc)⟩
    rwa [hpaths]

theorem path_update {p : Phase} {c' x : Nat}
    (hx : (Function.update w.phase c p c').path = some x) :
    c' = c ∧ p.path = some x ∨ c' ≠ c ∧ (w.phase c').path = some x := by
  by_cases hc : c' = c
  · subst hc
    rw [update_self] at hx
    exact .inl ⟨rfl, hx⟩
  · rw [update_of_ne hc] at hx
    exact .inr ⟨hc, hx⟩

theorem Inv.update (h : Inv w) {host : Host} {p : Phase} (hg : host.Good)
    (hframe : Frame w.host host) (hp : ∀ x, p.path = some x → (w.phase c).path = some x) :
    Inv ⟨host, Function.update w.phase c p⟩ := by
  refine h.frame hg (fun p r hr => ?_) hframe.paths fun c' x hx => ?_
  · rwa [hframe.running] at hr
  · rcases path_update hx with ⟨hc, hnew⟩ | ⟨-, hold⟩
    · exact hc ▸ hp x hnew
    · exact hold

theorem After.path_phase (ns : String) (next : After) : (next.phase ns).path = none := by
  cases next <;> rfl

theorem path_stopRest (ns : String) (s : Nat) (next : After) :
    (stopRest h ns s next).2.path = none := by
  unfold stopRest
  split
  · rfl
  · exact next.path_phase ns

theorem path_stop (ns : String) (next : After) : (stop h ns next).2.path = none := by
  simp only [stop]
  split
  · rfl
  · exact path_stopRest _ ns _ next

theorem path_reap : ∀ nss : List String, (reap h nss).2.path = none
  | [] => rfl
  | ns :: rest => path_stop h ns (.reap rest)

theorem Inv.begin (h : Inv w) (call : Call) :
    Inv ⟨(call.first w.host).1, Function.update w.phase c (call.first w.host).2⟩ := by
  have hstop : ∀ ns next, Inv ⟨(stop w.host ns next).1,
      Function.update w.phase c (stop w.host ns next).2⟩ := by
    intro ns next
    refine h.update (h.good.stop ns next) (Frame.stop _ ns next) ?_
    rw [path_stop]
    rintro x ⟨⟩
  cases call with
  | start ns => exact hstop ns _
  | stop ns => exact hstop ns _
  | sync ns =>
    simp only [Call.first]
    split <;> exact h.update (h.good.session ns) (Frame.session _ ns) (by rintro x ⟨⟩)
  | reapIdle =>
    refine h.update (h.good.reap _) (Frame.reap _ _) ?_
    show ∀ x, (reap _ _).2.path = some x → _
    rw [path_reap]
    rintro x ⟨⟩

theorem Inv.mint (h : Inv w) {ns yaml : String} {s : Nat} :
    Inv ⟨{ w.host with paths := w.host.paths + 1 },
      Function.update w.phase c (.writing ns yaml s w.host.paths)⟩ := by
  have hphase : ∀ c' x, (Function.update w.phase c (.writing ns yaml s w.host.paths) c').path =
      some x → c' = c ∧ x = w.host.paths ∨ (w.phase c').path = some x := by
    intro c' x hx
    exact (path_update hx).imp (fun hx => ⟨hx.1, (some.inj hx.2).symm⟩) And.right
  refine ⟨{ h.good with }, ?_, ?_, ?_⟩
  · intro c' x hx
    show x < w.host.paths + 1
    rcases hphase c' x hx with ⟨-, rfl⟩ | hx
    · exact Nat.lt_succ_self _
    · have := h.minted c' x hx
      omega
  · intro c₁ c₂ x h₁ h₂
    rcases hphase c₁ x h₁ with ⟨rfl, rfl⟩ | h₁ <;> rcases hphase c₂ _ h₂ with ⟨hc, hx⟩ | h₂
    · exact hc.symm
    · exact absurd (h.minted c₂ _ h₂) (Nat.lt_irrefl _)
    · subst hx
      exact absurd (h.minted c₁ _ h₁) (Nat.lt_irrefl _)
    · exact h.once c₁ c₂ x h₁ h₂
  · intro p r hp
    obtain ⟨hlt, hfree⟩ := h.used p r hp
    refine ⟨Nat.lt_succ_of_lt hlt, fun c' hc' => ?_⟩
    rcases hphase c' _ hc' with ⟨-, hx⟩ | hc'
    · exact absurd hlt (hx ▸ Nat.lt_irrefl _)
    · exact hfree c' hc'

theorem launch_running (isExposable : String → Bool) (h : Host) (ns yaml : String) (s path : Nat) :
    (launch isExposable h ns yaml s path).paths = h.paths ∧
      ∀ p r, (launch isExposable h ns yaml s path).running p = some r →
        h.running p = some r ∨ r.configPath = path := by
  rcases launch_cases isExposable h ns yaml s path with ⟨-, heq⟩ | ⟨-, ports, port, -, -, heq⟩
  · rw [heq]
    exact ⟨rfl, fun p r hp => .inl hp⟩
  · rw [heq]
    refine ⟨rfl, fun p r hp => ?_⟩
    by_cases hne : p = h.spawned
    · rw [hne] at hp
      cases (update_self ..).symm.trans hp
      exact .inr rfl
    · exact .inl ((update_of_ne hne ..).symm.trans hp)

variable {isExposable : String → Bool}

theorem Inv.launch (h : Inv w) {ns yaml : String} {s path : Nat}
    (hphase : w.phase c = .moving ns yaml s path) (hfree : (w.host.sessions s).proc = none)
    (hmap : isExposable yaml = true ∧ allocatePort w.host.ports = none ∨
      w.host.map.lookup ns = some s) :
    Inv ⟨launch isExposable w.host ns yaml s path, Function.update w.phase c .idle⟩ := by
  obtain ⟨hpaths, hrun⟩ := launch_running isExposable w.host ns yaml s path
  have hpath : (w.phase c).path = some path := by rw [hphase]; rfl
  have hold : ∀ c' x, (Function.update w.phase c .idle c').path = some x →
      c' ≠ c ∧ (w.phase c').path = some x := by
    intro c' x hx
    exact (path_update hx).resolve_left nofun
  refine ⟨h.good.launch hfree hmap, ?_, ?_, ?_⟩
  · intro c' x hx
    rw [hpaths]
    exact h.minted c' x (hold c' x hx).2
  · exact fun c₁ c₂ x h₁ h₂ => h.once c₁ c₂ x (hold c₁ x h₁).2 (hold c₂ x h₂).2
  · intro p r hp
    rw [hpaths]
    rcases hrun p r hp with hp | hpath'
    · obtain ⟨hlt, hfree⟩ := h.used p r hp
      exact ⟨hlt, fun c' hc' => hfree c' (hold c' _ hc').2⟩
    · rw [hpath']
      refine ⟨h.minted c path hpath, fun c' hc' => ?_⟩
      obtain ⟨hne, hc'⟩ := hold c' path hc'
      exact hne (h.once c' c path hc' hpath)

theorem Inv.resume (h : Inv w) {ok : Bool}
    (hcareful : Careful isExposable w (.resume c ok)) :
    Inv ⟨(advance isExposable w.host ok (w.phase c)).1,
      Function.update w.phase c (advance isExposable w.host ok (w.phase c)).2⟩ := by
  have hstay : ∀ p : Phase, (∀ x, p.path = some x → (w.phase c).path = some x) →
      Inv ⟨w.host, Function.update w.phase c p⟩ := fun p => h.update h.good (Frame.refl _)
  simp only [Careful] at hcareful
  cases hphase : w.phase c with
  | idle => exact hstay .idle (by rintro x ⟨⟩)
  | exiting ns s exit next =>
    rw [hphase] at hcareful
    simp only [advance]
    split
    next hresolved =>
      refine h.update ?_ ?_ ?_
      · rw [stopRest_fst]
        exact h.good.clear (hcareful hresolved)
      · rw [stopRest_fst]
        exact Frame.clear _ s
      · rw [path_stopRest]
        rintro x ⟨⟩
    · exact hstay _ (by rintro x ⟨⟩)
  | removing ns s next =>
    rw [hphase] at hcareful
    have hframe : Frame w.host (w.host.modify s fun s => { s with configPath := none }) :=
      Frame.modify fun p hp => hp
    have hg : (w.host.modify s fun s => { s with configPath := none }).Good :=
      h.good.modify_free hcareful hcareful (h.good.portless s hcareful)
    refine h.update hg hframe ?_
    show ∀ x, (next.phase ns).path = some x → _
    rw [next.path_phase]
    rintro x ⟨⟩
  | opening ns =>
    exact h.update (h.good.session ns) (Frame.session _ ns) (by rintro x ⟨⟩)
  | making =>
    cases ok with
    | true => exact h.mint
    | false => exact hstay .idle (by rintro x ⟨⟩)
  | writing ns yaml s path =>
    cases ok with
    | true => exact hstay (.moving ns yaml s path) (by rw [hphase]; exact fun x hx => hx)
    | false => exact hstay .idle (by rintro x ⟨⟩)
  | moving =>
    rw [hphase] at hcareful
    cases ok with
    | true => exact h.launch hphase (hcareful rfl).1 (hcareful rfl).2
    | false => exact hstay .idle (by rintro x ⟨⟩)
  | syncWriting =>
    refine hstay _ ?_
    cases ok <;> rintro x ⟨⟩
  | syncMoving => exact hstay .idle (by rintro x ⟨⟩)
  | forgetting ns rest =>
    rw [hphase] at hcareful
    have hframe := Frame.reap { w.host with map := w.host.map.filter (·.1 ≠ ns) } rest
    refine h.frame ((h.good.forget hcareful).reap rest) (fun p r hp => ?_) hframe.paths ?_
    · simp only [advance] at hp
      rwa [hframe.running] at hp
    · intro c' x hx
      rcases path_update hx with ⟨-, hx⟩ | ⟨-, hx⟩
      · cases (path_reap _ rest).symm.trans hx
      · exact hx

theorem Inv.careless (h : Inv w) {ok : Bool}
    (hno : ¬Careful isExposable w (.resume c ok)) :
    ¬(advance isExposable w.host ok (w.phase c)).1.Tracked := by
  simp only [Careful] at hno
  cases hphase : w.phase c with
  | exiting =>
    rw [hphase] at hno
    obtain ⟨hresolved, hproc⟩ := Classical.not_imp.1 hno
    obtain ⟨p, hp⟩ := ne_none_iff_exists'.1 hproc
    simp only [advance, if_pos hresolved]
    rw [stopRest_fst]
    exact h.good.clear_lost hp
  | removing =>
    rw [hphase] at hno
    obtain ⟨p, hp⟩ := ne_none_iff_exists'.1 hno
    exact h.good.remove_lost hp
  | moving =>
    rw [hphase] at hno
    obtain ⟨rfl, hno'⟩ := Classical.not_imp.1 hno
    refine h.good.launch_lost (fun p r hp hpath => ?_) hno'
    exact (h.used p r hp).2 c (by rw [hphase, hpath]; rfl)
  | forgetting ns rest =>
    rw [hphase] at hno
    simp only [not_forall] at hno
    obtain ⟨s, hmap, hproc⟩ := hno
    obtain ⟨p, hp⟩ := ne_none_iff_exists'.1 hproc
    exact h.good.forget_lost hmap hp rest
  | _ =>
    rw [hphase] at hno
    exact absurd trivial hno

end Step

/-- **Exactly the careful runs keep track of every runner**: in every interleaving of calls and
exits of runners, every state on the way is tracked if and only if no call that goes on clears,
overwrites or forgets a session with a runner, or starts one for a session that the map does not
have. -/
theorem tracked_iff_careful (isExposable : String → Bool) (actions : List Action) :
    Along (step isExposable) (Careful isExposable) {} actions ↔
      ∀ before, before <+: actions → (run isExposable before).host.Tracked := by
  refine along_iff (fun w hw => hw.good.tracked) ?_ ?_ Inv.init
  · intro w a hw hcareful
    cases a with
    | tick =>
      exact hw.frame { hw.good with } (fun p r hp => hp) rfl fun c x hx => hx
    | begin c call =>
      simp only [step]
      split
      · exact hw.begin call
      · exact hw
    | resume => exact hw.resume hcareful
    | exit p =>
      obtain ⟨hpaths, hrun⟩ := hw.good.exit_running p
      exact hw.frame (hw.good.exit p) (fun q r hq => (hrun q r hq).2) hpaths fun c x hx => hx
  · intro w a hw hno
    cases a with
    | resume => exact hw.careless hno
    | _ => exact absurd trivial hno

def Action.call : Action → Option Nat
  | .begin c _ => some c
  | .resume c _ => some c
  | _ => none

theorem quiescent_of_calls {isExposable : String → Bool} {actions : List Action}
    (h : ∀ a ∈ actions, ∀ c ∈ a.call, (run isExposable actions).phase c = .idle) :
    (run isExposable actions).Quiescent := by
  refine forall_view (P := (· = .idle)) World.phase Action.call ?_ (fun _ => rfl) h
  intro w a c hc
  cases a with
  | tick => rfl
  | begin =>
    simp only [step]
    split
    · exact update_of_ne (fun he => hc (congrArg some he.symm)) _ _
    · rfl
  | resume => exact update_of_ne (fun he => hc (congrArg some he.symm)) _ _
  | exit => rfl

/-- Two starts of a networked integration in one namespace, the second before the first has awaited
anything. -/
def overlappingStarts : List Action :=
  [.begin 0 (.start "ns" ""), .begin 1 (.start "ns" "")] ++
    List.replicate 4 (.resume 0 true) ++ List.replicate 4 (.resume 1 true)

/-- **Two overlapping starts lose a runner.** -/
theorem overlapping_starts_lose_runner : let w := run (fun _ => true) overlappingStarts
    w.Quiescent ∧ w.host.running 0 = some ⟨"ns", 0, 0, some 40000⟩ ∧
      w.host.running 1 = some ⟨"ns", 0, 1, some 40001⟩ ∧ ¬w.host.Tracked := by
  have hfirst : (run (fun _ => true) overlappingStarts).host.running 0 =
      some ⟨"ns", 0, 0, some 40000⟩ := by decide
  have hsecond : (run (fun _ => true) overlappingStarts).host.running 1 =
      some ⟨"ns", 0, 1, some 40001⟩ := by decide
  refine ⟨quiescent_of_calls (by decide), hfirst, hsecond, fun h => ?_⟩
  cases h.one 0 1 _ _ hfirst hsecond rfl

end Octo.RunHost
