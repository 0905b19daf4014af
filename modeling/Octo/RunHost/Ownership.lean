import Octo.RunHost.Session
import Octo.Foundation.Split

/-!
# Session objects own their runners

What the stretches of the calls keep: a live runner is recorded by the session object it was started
for, and by no other; the object is the one its namespace leads to; the ports in use are those of
the live runners.

* `Host.Good.session`, `clear`, `forget`, `spawn`, `exit` — what each operation needs to keep it.
* `Host.Good.launch` — the last stretch of `start`, from `launch_cases`.
-/

namespace Octo.RunHost

open List Function Option Nat
open Octo.Foundation.Split (lookup_filter_ne)

/-! ## The invariant -/

structure Session.Holds (s : Session) (p : Nat) (r : Runner) : Prop where
  proc : s.proc = some p
  configPath : s.configPath = some r.configPath
  port : s.port = r.port
  exposable : s.exposable = r.port.isSome

/-- Live runners and session objects agree, and so do live runners and ports in use. -/
structure Host.Good (h : Host) : Prop where
  created : ∀ ns s, h.map.lookup ns = some s → s < h.created
  one : ∀ ns ns' s, h.map.lookup ns = some s → h.map.lookup ns' = some s → ns = ns'
  spawned : ∀ p r, h.running p = some r → p < h.spawned
  owned : ∀ p r, h.running p = some r → h.map.lookup r.ns = some r.session ∧
    (h.sessions r.session).Holds p r
  live : ∀ s p, (h.sessions s).proc = some p → ∃ r, h.running p = some r ∧ r.session = s
  portless : ∀ s, (h.sessions s).proc = none → (h.sessions s).port = none
  ports : ∀ port, port ∈ h.ports ↔ ∃ p r, h.running p = some r ∧ r.port = some port
  distinct : ∀ p q r r' port, h.running p = some r → h.running q = some r' →
    r.port = some port → r'.port = some port → p = q

theorem Host.Good.init : Host.Good {} where
  created := by simp
  one := by simp
  spawned := by simp
  owned := by simp
  live := by simp
  portless := by simp
  ports := by simp
  distinct := by simp

/-! ## The operations -/

section Host

variable {h : Host}

theorem modify_self (s : Nat) (f : Session → Session) :
    (h.modify s f).sessions s = f (h.sessions s) := update_self ..

variable {s : Nat}

theorem modify_of_ne {t : Nat} (f : Session → Session) (hne : t ≠ s) :
    (h.modify s f).sessions t = h.sessions t := update_of_ne hne ..

variable {f : Session → Session}

theorem Host.Good.modify (hg : h.Good)
    (hproc : (f (h.sessions s)).proc = (h.sessions s).proc)
    (hport : (h.sessions s).proc = none → (f (h.sessions s)).port = none)
    (hheld : ∀ p r, (h.sessions s).Holds p r → (f (h.sessions s)).Holds p r) :
    (h.modify s f).Good where
  __ := hg
  owned := by
    intro p r hp
    obtain ⟨hmap, hold⟩ := hg.owned p r hp
    have hall : ∀ t, r.session = t → ((h.modify s f).sessions t).Holds p r :=
      (forall_update_iff h.sessions fun t x => r.session = t → x.Holds p r).2
        ⟨fun hs => hheld p r (hs ▸ hold), fun t _ hs => hs ▸ hold⟩
    exact ⟨hmap, hall _ rfl⟩
  live := (forall_update_iff h.sessions fun t x => ∀ p, x.proc = some p →
      ∃ r, h.running p = some r ∧ r.session = t).2
    ⟨fun p hp => hg.live s p (hproc ▸ hp), fun t _ => hg.live t⟩
  portless := (forall_update_iff h.sessions fun _ x => x.proc = none → x.port = none).2
    ⟨fun hp => hport (hproc ▸ hp), fun t _ => hg.portless t⟩

theorem Host.Good.modify_free (hg : h.Good)
    (hfree : (h.sessions s).proc = none) (hproc : (f (h.sessions s)).proc = none)
    (hport : (f (h.sessions s)).port = none) : (h.modify s f).Good := by
  refine hg.modify (hproc.trans hfree.symm) (fun _ => hport) fun p r hheld => ?_
  cases hfree.symm.trans hheld.proc

variable (ns : String)

theorem create_of_ne (hne : s ≠ h.created) :
    (h.create ns).sessions s = h.sessions s := update_of_ne hne ..

theorem lookup_create {ns ns' : String} (hs : (h.create ns).map.lookup ns' = some s) :
    h.map.lookup ns' = some s ∨ ns' = ns ∧ s = h.created := by
  simp only [Host.create, List.lookup_append] at hs
  rcases or_eq_some_iff.1 hs with hs | ⟨-, hs⟩
  · exact .inl hs
  · simp only [lookup_cons] at hs
    split at hs <;> cases hs
    rename_i hns
    exact .inr ⟨eq_of_beq hns, rfl⟩

theorem Host.Good.create (hg : h.Good) (ns : String) : (h.create ns).Good where
  __ := hg
  created := by
    intro ns' s hs
    show s < h.created + 1
    rcases lookup_create hs with hs | ⟨-, rfl⟩
    · have := hg.created ns' s hs
      omega
    · exact lt_succ_self _
  one := by
    intro ns₁ ns₂ s h₁ h₂
    rcases lookup_create h₁ with h₁ | ⟨rfl, rfl⟩ <;> rcases lookup_create h₂ with h₂ | ⟨h₂, hs⟩
    · exact hg.one ns₁ ns₂ s h₁ h₂
    · exact absurd hs (Nat.ne_of_lt (hg.created ns₁ s h₁))
    · exact absurd rfl (Nat.ne_of_lt (hg.created ns₂ _ h₂))
    · exact h₂.symm
  owned := by
    intro p r hp
    obtain ⟨hmap, hheld⟩ := hg.owned p r hp
    refine ⟨by simp [Host.create, List.lookup_append, hmap], ?_⟩
    rwa [create_of_ne ns (Nat.ne_of_lt (hg.created _ _ hmap))]
  live := (forall_update_iff h.sessions fun t x => ∀ p, x.proc = some p →
    ∃ r, h.running p = some r ∧ r.session = t).2 ⟨nofun, fun t _ => hg.live t⟩
  portless := (forall_update_iff h.sessions fun _ x => x.proc = none → x.port = none).2
    ⟨fun _ => rfl, fun t _ => hg.portless t⟩

theorem Host.Good.session (hg : h.Good) (ns : String) : (h.session ns).1.Good := by
  unfold Host.session
  split <;> dsimp only
  · apply hg.modify
    · rfl
    · exact hg.portless _
    · exact fun p r hheld => ⟨hheld.proc, hheld.configPath, hheld.port, hheld.exposable⟩
  · exact hg.create ns

theorem Host.Good.clear (hg : h.Good) (hfree : (h.sessions s).proc = none) : (h.clear s).Good := by
  unfold Host.clear
  rw [hg.portless s hfree]
  exact hg.modify_free hfree rfl rfl

theorem stopRest_fst (s : Nat) (next : After) :
    (stopRest h ns s next).1 = h.clear s := by
  unfold stopRest
  split <;> rfl

theorem Host.Good.stop (hg : h.Good) (ns : String) (next : After) : (stop h ns next).1.Good := by
  have hs := hg.session ns
  simp only [RunHost.stop]
  split
  · exact hs
  next hfree =>
    rw [stopRest_fst]
    exact hs.clear hfree

theorem Host.Good.reap (hg : h.Good) : ∀ nss : List String, (reap h nss).1.Good
  | [] => hg
  | ns :: rest => hg.stop ns (.reap rest)

theorem Host.Good.forget (hg : h.Good) {ns : String}
    (hfree : ∀ s, h.map.lookup ns = some s → (h.sessions s).proc = none) :
    Host.Good { h with map := h.map.filter (·.1 ≠ ns) } where
  __ := hg
  created := by
    intro ns' s hs
    rw [lookup_filter_ne] at hs
    split at hs
    · cases hs
    · exact hg.created ns' s hs
  one := by
    intro ns₁ ns₂ s h₁ h₂
    rw [lookup_filter_ne] at h₁ h₂
    split at h₁ <;> split at h₂
    · cases h₁
    · cases h₁
    · cases h₂
    · exact hg.one ns₁ ns₂ s h₁ h₂
  owned := by
    intro p r hp
    obtain ⟨hmap, hheld⟩ := hg.owned p r hp
    refine ⟨?_, hheld⟩
    have hne : r.ns ≠ ns := by
      rintro rfl
      cases (hfree _ hmap).symm.trans hheld.proc
    rwa [lookup_filter_ne, if_neg hne]

theorem spawn_running (r : Runner) (exposable : Bool) :
    (h.spawn r exposable).running = update h.running h.spawned (some r) := rfl

theorem Host.Good.spawn (hg : h.Good) {r : Runner} {ports : List Nat}
    (hfree : (h.sessions r.session).proc = none)
    (hpath : (h.sessions r.session).configPath = some r.configPath)
    (hmap : h.map.lookup r.ns = some r.session)
    (hports : ∀ port, port ∈ ports ↔ port ∈ h.ports ∨ r.port = some port)
    (hnew : ∀ port, r.port = some port → port ∉ h.ports) :
    ({ h with ports := ports }.spawn r r.port.isSome).Good := by
  have hrun : ∀ p r', ({ h with ports := ports }.spawn r r.port.isSome).running p = some r' →
      p = h.spawned ∧ r' = r ∨ p ≠ h.spawned ∧ h.running p = some r' := by
    intro p r' hp
    rw [spawn_running] at hp
    by_cases hne : p = h.spawned
    · rw [hne, update_self] at hp
      exact .inl ⟨hne, (some.inj hp).symm⟩
    · rw [update_of_ne hne] at hp
      exact .inr ⟨hne, hp⟩
  have hold : ∀ p r', h.running p = some r' →
      ({ h with ports := ports }.spawn r r.port.isSome).running p = some r' := by
    intro p r' hp
    exact (update_of_ne (Nat.ne_of_lt (hg.spawned p r' hp)) ..).trans hp
  have hother : ∀ p r', h.running p = some r' → r'.session ≠ r.session := by
    intro p r' hp heq
    have := (hg.owned p r' hp).2.proc
    rw [heq, hfree] at this
    cases this
  refine ⟨hg.created, hg.one, ?_, ?_, ?_, ?_, ?_, ?_⟩
  · intro p r' hp
    show p < h.spawned + 1
    rcases hrun p r' hp with ⟨rfl, -⟩ | ⟨-, hp⟩
    · exact lt_succ_self _
    · have := hg.spawned p r' hp
      omega
  · intro p r' hp
    rcases hrun p r' hp with ⟨rfl, rfl⟩ | ⟨-, hp⟩
    · refine ⟨hmap, ?_⟩
      rw [Host.spawn, modify_self]
      exact ⟨rfl, hpath, rfl, rfl⟩
    · refine ⟨(hg.owned p r' hp).1, ?_⟩
      rw [Host.spawn, modify_of_ne _ (hother p r' hp)]
      exact (hg.owned p r' hp).2
  · refine (forall_update_iff h.sessions fun t x => ∀ p, x.proc = some p →
      ∃ r', (Host.spawn _ r _).running p = some r' ∧ r'.session = t).2 ⟨?_, fun s _ p hs => ?_⟩
    · rintro p ⟨⟩
      exact ⟨r, update_self .., rfl⟩
    · obtain ⟨r', hp, hs'⟩ := hg.live s p hs
      exact ⟨r', hold p r' hp, hs'⟩
  · exact (forall_update_iff h.sessions fun _ x => x.proc = none → x.port = none).2
      ⟨nofun, fun t _ => hg.portless t⟩
  · intro port
    show port ∈ ports ↔ _
    rw [hports, hg.ports]
    constructor
    · rintro (⟨p, r', hp, hport⟩ | hport)
      · exact ⟨p, r', hold p r' hp, hport⟩
      · exact ⟨h.spawned, r, update_self .., hport⟩
    · rintro ⟨p, r', hp, hport⟩
      rcases hrun p r' hp with ⟨-, rfl⟩ | ⟨-, hp⟩
      · exact .inr hport
      · exact .inl ⟨p, r', hp, hport⟩
  · intro p q r₁ r₂ port hp hq hp' hq'
    rcases hrun p r₁ hp with ⟨hp₀, rfl⟩ | ⟨-, hp₀⟩
    · rcases hrun q r₂ hq with ⟨hq₀, -⟩ | ⟨-, hq₀⟩
      · exact hp₀.trans hq₀.symm
      · exact absurd ((hg.ports port).2 ⟨q, r₂, hq₀, hq'⟩) (hnew port hp')
    · rcases hrun q r₂ hq with ⟨-, rfl⟩ | ⟨-, hq₀⟩
      · exact absurd ((hg.ports port).2 ⟨p, r₁, hp₀, hp'⟩) (hnew port hq')
      · exact hg.distinct p q r₁ r₂ port hp₀ hq₀ hp' hq'

theorem launch_cases (isExposable : String → Bool) (h : Host) (ns yaml : String) (s path : Nat) :
    (isExposable yaml = true ∧ allocatePort h.ports = none) ∧ launch isExposable h ns yaml s path =
          h.modify s (fun s => { s with configPath := some path }) ∨
      ¬(isExposable yaml = true ∧ allocatePort h.ports = none) ∧ ∃ ports port,
        (∀ x, x ∈ ports ↔ x ∈ h.ports ∨ port = some x) ∧
        (∀ x, port = some x → x ∉ h.ports) ∧
        launch isExposable h ns yaml s path =
          { h.modify s (fun s => { s with configPath := some path }) with ports := ports }.spawn
            ⟨ns, s, path, port⟩ port.isSome := by
  cases hexp : isExposable yaml with
  | false =>
    refine .inr ⟨by simp, h.ports, none, by simp, by simp, ?_⟩
    simp only [launch, hexp]
    rfl
  | true =>
    cases hport : allocatePort h.ports with
    | none =>
      refine .inl ⟨⟨rfl, rfl⟩, ?_⟩
      simp only [launch, hexp, if_true]
      rw [show (h.modify s _).ports = h.ports from rfl, hport]
    | some port =>
      refine .inr ⟨by simp, port :: h.ports, some port, ?_, ?_, ?_⟩
      · intro x
        rw [mem_cons, some.injEq, or_comm, eq_comm]
      · rintro x ⟨⟩
        exact allocatePort_not_mem hport
      · simp only [launch, hexp]
        rw [show (h.modify s _).ports = h.ports from rfl, hport]
        rfl

theorem Host.Good.launch (hg : h.Good) {isExposable : String → Bool} {ns yaml : String}
    {path : Nat} (hfree : (h.sessions s).proc = none)
    (hmap : isExposable yaml = true ∧ allocatePort h.ports = none ∨ h.map.lookup ns = some s) :
    (launch isExposable h ns yaml s path).Good := by
  have hset : (h.modify s fun s => { s with configPath := some path }).Good :=
    hg.modify_free hfree hfree (hg.portless s hfree)
  rcases launch_cases isExposable h ns yaml s path with ⟨-, heq⟩ | ⟨hno, ports, port, hmem, hnew, heq⟩
  · rw [heq]
    exact hset
  · rw [heq]
    refine hset.spawn ?_ ?_ (hmap.resolve_left hno) hmem hnew
    · rw [modify_self]
      exact hfree
    · rw [modify_self]

theorem Host.Good.exit_eq (hg : h.Good) {p : Nat} {r : Runner} (hp : h.running p = some r) :
    h.exit p = { h with
        running := update h.running p none
        ports := (r.port.map (releasePort h.ports)).getD h.ports }.modify r.session
      fun s => { s with proc := none, port := none } := by
  have hheld := (hg.owned p r hp).2
  unfold Host.exit
  rw [hp]
  dsimp only
  rw [if_pos hheld.proc]
  cases hport : r.port with
  | some port =>
    dsimp only
    rw [if_pos (hheld.port.trans hport)]
    rfl
  | none =>
    -- the object has no port to release
    have hnone := hheld.port.trans hport
    simp [Host.modify, hnone]

theorem Host.Good.exit_running (hg : h.Good) (p : Nat) : (h.exit p).paths = h.paths ∧
    ∀ q r, (h.exit p).running q = some r → q ≠ p ∧ h.running q = some r := by
  cases hp : h.running p with
  | none =>
    unfold Host.exit
    rw [hp]
    refine ⟨rfl, fun q r hq => ⟨?_, hq⟩⟩
    rintro rfl
    cases hp.symm.trans hq
  | some =>
    rw [hg.exit_eq hp]
    refine ⟨rfl, fun q r' hq => ?_⟩
    have hne : q ≠ p := by
      rintro rfl
      cases (update_self ..).symm.trans hq
    exact ⟨hne, (update_of_ne hne ..).symm.trans hq⟩

theorem Host.Good.exit (hg : h.Good) (p : Nat) : (h.exit p).Good := by
  cases hp : h.running p with
  | none =>
    unfold Host.exit
    rw [hp]
    exact hg
  | some r =>
    have hheld := (hg.owned p r hp).2
    have hrun := (hg.exit_running p).2
    have hother : ∀ q r', q ≠ p → h.running q = some r' → r'.session ≠ r.session := by
      intro q r' hne hq heq
      have := (hg.owned q r' hq).2.proc
      rw [heq, hheld.proc] at this
      exact hne (some.inj this).symm
    rw [hg.exit_eq hp] at hrun ⊢
    refine ⟨hg.created, hg.one, ?_, ?_, ?_, ?_, ?_, ?_⟩
    · exact fun q r' hq => hg.spawned q r' (hrun q r' hq).2
    · intro q r' hq
      obtain ⟨hne, hq⟩ := hrun q r' hq
      refine ⟨(hg.owned q r' hq).1, ?_⟩
      rw [modify_of_ne _ (hother q r' hne hq)]
      exact (hg.owned q r' hq).2
    · refine (forall_update_iff h.sessions fun t x => ∀ q, x.proc = some q →
        ∃ r', update h.running p none q = some r' ∧ r'.session = t).2 ⟨nofun, fun s hne q hs => ?_⟩
      obtain ⟨r', hq, rfl⟩ := hg.live s q hs
      have hqp : q ≠ p := by
        rintro rfl
        exact hne (congrArg Runner.session (some.inj (hq.symm.trans hp)))
      exact ⟨r', (update_of_ne hqp ..).trans hq, rfl⟩
    · exact (forall_update_iff h.sessions fun _ x => x.proc = none → x.port = none).2
        ⟨fun _ => rfl, fun t _ => hg.portless t⟩
    · -- the other runners keep their ports, which are different ones
      intro port
      have hmem : port ∈ (r.port.map (releasePort h.ports)).getD h.ports ↔
          port ∈ h.ports ∧ r.port ≠ some port := by
        cases r.port <;> simp [mem_releasePort, eq_comm]
      show port ∈ (r.port.map (releasePort h.ports)).getD h.ports ↔ _
      rw [hmem, hg.ports]
      constructor
      · rintro ⟨⟨q, r', hq, hport⟩, hne⟩
        refine ⟨q, r', ?_, hport⟩
        have hqp : q ≠ p := by
          rintro rfl
          cases some.inj (hq.symm.trans hp)
          exact hne hport
        exact (update_of_ne hqp ..).trans hq
      · rintro ⟨q, r', hq, hport⟩
        obtain ⟨hqp, hq⟩ := hrun q r' hq
        exact ⟨⟨q, r', hq, hport⟩, fun hr => hqp (hg.distinct q p r' r port hq hp hport hr)⟩
    · intro q q' r₁ r₂ port hq hq'
      exact hg.distinct q q' r₁ r₂ port (hrun q r₁ hq).2 (hrun q' r₂ hq').2

end Host

/-! ## What is left alone -/

/-- No runner is started or exits, no object gets a process, and what the map gains leads to new
objects. -/
structure Frame (h h' : Host) : Prop where
  running : h'.running = h.running
  paths : h'.paths = h.paths
  created : h.created ≤ h'.created
  proc : ∀ s p, (h'.sessions s).proc = some p → (h.sessions s).proc = some p
  map : ∀ ns s, h'.map.lookup ns = some s → h.map.lookup ns = some s ∨ h.created ≤ s

variable (h : Host)

theorem Frame.refl : Frame h h :=
  ⟨rfl, rfl, Nat.le_refl _, fun _ _ hp => hp, fun _ _ hs => .inl hs⟩

theorem Frame.trans {h₁ h₂ h₃ : Host} (h : Frame h₁ h₂) (h' : Frame h₂ h₃) : Frame h₁ h₃ where
  running := h'.running.trans h.running
  paths := h'.paths.trans h.paths
  created := Nat.le_trans h.created h'.created
  proc := fun s p hp => h.proc s p (h'.proc s p hp)
  map := by
    intro ns s hs
    rcases h'.map ns s hs with hs | hs
    · exact h.map ns s hs
    · exact .inr (Nat.le_trans h.created hs)

variable {h}

theorem proc_update {s : Nat} {x : Session}
    (hx : ∀ p, x.proc = some p → (h.sessions s).proc = some p) :
    ∀ t p, (update h.sessions s x t).proc = some p → (h.sessions t).proc = some p :=
  (forall_update_iff h.sessions fun t x => ∀ p, x.proc = some p → (h.sessions t).proc = some p).2
    ⟨hx, fun _ _ _ hp => hp⟩

theorem Frame.modify {s : Nat} {f : Session → Session}
    (hf : ∀ p, (f (h.sessions s)).proc = some p → (h.sessions s).proc = some p) :
    Frame h (h.modify s f) :=
  ⟨rfl, rfl, Nat.le_refl _, proc_update hf, fun _ _ hs => .inl hs⟩

open Frame

variable (h)

theorem Frame.session (ns : String) : Frame h (h.session ns).1 := by
  unfold Host.session
  split <;> dsimp only
  · exact modify fun p hp => hp
  · refine ⟨rfl, rfl, le_succ _, proc_update nofun, fun ns' s hs => ?_⟩
    rcases lookup_create hs with hs | ⟨-, rfl⟩
    · exact .inl hs
    · exact .inr (Nat.le_refl _)

theorem Frame.clear (s : Nat) : Frame h (h.clear s) :=
  ⟨rfl, rfl, Nat.le_refl _, proc_update nofun, fun _ _ hs => .inl hs⟩

theorem Frame.stop (ns : String) (next : After) : Frame h (stop h ns next).1 := by
  simp only [RunHost.stop]
  split
  · exact session h ns
  · rw [stopRest_fst]
    exact (session h ns).trans (clear _ _)

theorem Frame.reap : ∀ nss : List String, Frame h (reap h nss).1
  | [] => refl h
  | ns :: rest => stop h ns (.reap rest)

end Octo.RunHost
