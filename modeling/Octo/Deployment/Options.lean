import Octo.Deployment.Service

/-!
# What `DeployOptions` promises

`DeployOptions` tells the deploy form whether an address is free, or suggests a free one; `Deploy`
then checks the address itself, by other lookups.  `addressFree` takes any deployment with the
subdomain as a conflict, `ensureSubdomainUnique` only those of other integrations; `allocateSlug`
looks at slugs only.

* `deploy_options_iff` — when the two agree on a candidate, and when a suggestion is good.
-/

namespace Octo.Deployment.Service

open Option

open Octo.Foundation Program

variable (P : Platform) (s : Store)

/-! ## Addresses -/

def Error.aboutAddress : Error → Bool
  | .invalidSubdomain | .invalidSlug | .slugTaken | .slugExhausted | .subdomainTaken => true
  | _ => false

/-- `Deploy` ends in an error about the slug or the subdomain. -/
def Rejected (integrationID : String) (settings : Settings) : Prop := ∃ e : Error, e.aboutAddress ∧
    (run (handle P) (deploy P integrationID settings) s).1 = .error e

/-- `Deploy` passes the checks that come before those of the address: the integration, the snapshot
and the environment. -/
def PassesOtherChecks (integrationID : String) (settings : Settings) : Prop :=
  ∃ it version maps, s.integration P integrationID = some it ∧
    (run (handle P) (deployedVersion P integrationID it settings.snapshotID) s).1 =
      .ok version ∧
    (run (handle P) (resolveEnvBindings
      (resolveRuntimeEnv (P.declarations version.definition)).env settings.env) s).1 = .ok maps

def TakenElsewhere (integrationID subdomain : String) : Prop :=
  ∃ owner ∈ s.integrationIDBySubdomain P subdomain, owner ≠ integrationID

/-- What `Deploy` refuses of a slug that is also the subdomain. -/
def Refused (integrationID slug : String) (external : Bool) : Prop :=
  slug = "" ∨ s.integrationIDBySlug P slug ≠ none ∨
    external ∧ P.externalEnabled ∧ TakenElsewhere P s integrationID slug

/-- What `DeployOptions` reports as valid and available. -/
def Available (slug : String) (external : Bool) : Prop :=
  slug ≠ "" ∧ s.integrationIDBySlug P slug = none ∧
    (external → s.integrationIDBySubdomain P slug = none)

/-- The settings of a `Deploy` with a slug and an exposure, and no explicit subdomain. -/
structure Chooses (settings : Settings) (slug : String) (external : Bool) (snapshotID : String) :
    Prop where
  slug : settings.slug = slug
  external : settings.external = external
  subdomain : settings.subdomain = ""
  snapshotID : settings.snapshotID = snapshotID

variable {P s}

variable {integrationID slug : String}

theorem Available.not_refused {external : Bool} (h : Available P s slug external) :
    ¬Refused P s integrationID slug external := by
  rintro (hempty | htaken | ⟨hext, -, owner, howner, -⟩)
  · exact h.1 hempty
  · exact htaken h.2.1
  · rw [h.2.2 hext] at howner
    cases howner

/-! ## The address checks of `Deploy` -/

variable {settings : Settings} {snapshotID : String}

theorem run_resolveSubdomain (hsub : settings.subdomain = "") (hne : slug ≠ "")
    (hslug : slugify P.toLower slug = slug) :
    (run (handle P) (resolveSubdomain P integrationID settings true slug) s).1 =
      if settings.external then
        if P.externalEnabled then
          if ∀ o ∈ s.integrationIDBySubdomain P slug, o = integrationID then .ok (some slug)
          else .error .subdomainTaken
        else .error .externalUnavailable
      else .ok none := by
  unfold resolveSubdomain
  split
  · rw [run_require_bind]
    split
    · rw [if_pos rfl, hslug]
      rw [run_require_bind, if_pos hne]
      unfold ensureSubdomainUnique
      rw [if_neg hne]
      change (run (handle P) (require (∀ o ∈ s.integrationIDBySubdomain P slug,
        o = integrationID) _ >>= _) s).1 = _
      rw [run_require_bind]
      split <;> rfl
    · rfl
  · rfl

/-! ## The other checks -/

open FailsOnly

theorem deployedVersion_failsOnly (integrationID : String) (it : Integration) (snapshotID : String) :
    FailsOnly (handle P) (fun e => e.aboutAddress = false)
      (deployedVersion P integrationID it snapshotID) := by
  unfold deployedVersion resolveSnapshot
  split
  · refine bind ?_ fun _ => failsOnly_done _
    refine bind (failsOnly_require ?_) fun _ => (failsOnly_ask _).bind fun _ => ?_
    · rfl
    refine bind (failsOnly_found ?_ _) fun _ => bind (failsOnly_require ?_)
      fun _ => failsOnly_done _
    · rfl
    · rfl
  · exact failsOnly_done _

theorem checkSecrets_failsOnly (keys : List String) :
    FailsOnly (handle P) (fun e => e.aboutAddress = false) (checkSecrets keys) := by
  induction keys with
  | nil => exact failsOnly_done _
  | cons key keys ih =>
    refine (failsOnly_ask _).bind fun _ => bind (failsOnly_require ?_) fun _ => ih
    rfl

theorem resolveEnvBindings_failsOnly (runtimeEnv : EnvMap) (bindings : Bindings) :
    FailsOnly (handle P) (fun e => e.aboutAddress = false)
      (resolveEnvBindings runtimeEnv bindings) := by
  unfold resolveEnvBindings
  split
  · exact failsOnly_fail rfl
  · exact (checkSecrets_failsOnly _).bind fun _ => failsOnly_done _

theorem deploy_error_iff {e : Error} :
    (run (handle P) (deploy P integrationID settings) s).1 = .error e ↔
      (run (handle P) (plan P integrationID settings) s).1 = .error e := by
  rw [run_deploy]
  rcases (run (handle P) (plan P integrationID settings) s).1 with e' | p <;> simp

theorem address_error_iff {name : String} {f : String → Option String → Plan}
    (hchosen : settings.slug ≠ "") (hslug : slugify P.toLower settings.slug = slug)
    (hsub : settings.subdomain = "") :
    (∃ e : Error, e.aboutAddress ∧ (run (handle P) (do
      let slug ← deployedSlug P true settings.slug name
      let subdomain ← resolveSubdomain P integrationID settings true slug
      return f slug subdomain) s).1 = .error e) ↔
      Refused P s integrationID slug settings.external := by
  rw [(deployedSlug_readOnly P _ _ _).run_bind]
  unfold deployedSlug
  rw [if_pos rfl, run_resolveSlug hchosen, hslug]
  unfold Refused TakenElsewhere
  by_cases hempty : slug = ""
  · simp [hempty, Error.aboutAddress]
  rw [if_neg hempty]
  by_cases htaken : s.integrationIDBySlug P slug = none
  · rw [if_pos htaken]
    have hstable : slugify P.toLower slug = slug := by
      rw [← hslug]
      exact slugify_slugify (hslug.symm ▸ hempty)
    dsimp only
    rw [(resolveSubdomain_readOnly P _ _ _ _).run_bind, run_resolveSubdomain hsub hempty hstable]
    by_cases hext : settings.external
    · by_cases henabled : P.externalEnabled
      · by_cases howner : ∀ o ∈ s.integrationIDBySubdomain P slug, o = integrationID
        · rw [if_pos hext, if_pos henabled, if_pos howner]
          refine iff_of_false (by simp) ?_
          rintro (h | h | ⟨-, -, owner, ho, hne⟩)
          · exact hempty h
          · exact h htaken
          · exact hne (howner owner ho)
        · rw [if_pos hext, if_pos henabled, if_neg howner]
          simp only [not_forall] at howner
          obtain ⟨owner, ho, hne⟩ := howner
          refine iff_of_true ⟨_, rfl, rfl⟩ (.inr (.inr ⟨hext, henabled, owner, ho, hne⟩))
      · simp [hempty, htaken, hext, henabled, Error.aboutAddress]
    · simp [hempty, htaken, hext]
  · simp [htaken, Error.aboutAddress]

variable {it : Integration}

/-- **The addresses `Deploy` refuses**, for a definition with a port and a slug that is also the
subdomain. -/
theorem rejected_iff (hit : s.integration P integrationID = some it)
    (hnet : ∀ version, (run (handle P) (deployedVersion P integrationID it settings.snapshotID) s).1 = .ok version → (resolveRuntimeEnv (P.declarations version.definition)).exposable)
    (hchosen : settings.slug ≠ "") (hslug : slugify P.toLower settings.slug = slug)
    (hsub : settings.subdomain = "") :
    Rejected P s integrationID settings ↔ PassesOtherChecks P s integrationID settings ∧
        Refused P s integrationID slug settings.external := by
  constructor
  · rintro ⟨e, he, herror⟩
    rw [deploy_error_iff] at herror
    change (run (handle P) (found _ (s.integration P integrationID) >>= _) s).1 = _ at herror
    rw [hit] at herror
    rcases (deployedVersion_readOnly P _ _ _).bind_error.1 herror with herror | ⟨version, hv, herror⟩
    · exact absurd he (by simp [deployedVersion_failsOnly _ _ _ _ _ herror])
    rcases (resolveEnvBindings_readOnly P _ _).bind_error.1 herror with herror | ⟨maps, hm, herror⟩
    · exact absurd he (by simp [resolveEnvBindings_failsOnly _ _ _ _ herror])
    refine ⟨⟨it, version, maps, hit, hv, hm⟩, ?_⟩
    rw [hnet version hv] at herror
    exact (address_error_iff hchosen hslug hsub).1 ⟨e, he, herror⟩
  · rintro ⟨⟨it', version, maps, hit', hv, hm⟩, hrefused⟩
    rw [hit, some.injEq] at hit'
    subst hit'
    obtain ⟨e, he, herror⟩ := (address_error_iff hchosen hslug hsub).2 hrefused
    refine ⟨e, he, deploy_error_iff.2 ?_⟩
    change (run (handle P) (found _ (s.integration P integrationID) >>= _) s).1 = _
    rw [hit]
    refine (deployedVersion_readOnly P _ _ _).bind_error.2 (.inr ⟨version, hv, ?_⟩)
    refine (resolveEnvBindings_readOnly P _ _).bind_error.2 (.inr ⟨maps, hm, ?_⟩)
    rw [hnet version hv]
    exact herror

/-! ## What `DeployOptions` reports -/

theorem optionsDefinition_readOnly (integrationID : String) (it : Integration) (snapshotID : String) :
    ReadOnly (handle P) (optionsDefinition P integrationID it snapshotID) := by
  unfold optionsDefinition
  split
  · exact (resolveSnapshot_readOnly P _ _).bind fun _ => readOnly_done _
  · exact readOnly_done _

theorem deployedVersion_definition {definition : String} {version : Version}
    (hdef : (run (handle P) (optionsDefinition P integrationID it snapshotID) s).1 = .ok definition)
    (hversion : (run (handle P) (deployedVersion P integrationID it snapshotID) s).1 = .ok version) :
    version.definition = definition := by
  unfold optionsDefinition at hdef
  unfold deployedVersion at hversion
  by_cases hwired : P.snapshots
  · rw [if_pos hwired] at hversion
    obtain ⟨snap, hsnap, hversion⟩ := (resolveSnapshot_readOnly P _ _).bind_ok.1 hversion
    rw [if_pos ⟨hwired, (resolveSnapshot_ok.1 hsnap).1⟩] at hdef
    obtain ⟨snap', hsnap', hdef⟩ := (resolveSnapshot_readOnly P _ _).bind_ok.1 hdef
    cases hsnap.symm.trans hsnap'
    cases hversion
    cases hdef
    rfl
  · rw [if_neg hwired] at hversion
    rw [if_neg fun h => hwired h.1] at hdef
    cases hversion
    cases hdef
    rfl

theorem addressFree_readOnly (slug : String) (external : Bool) :
    ReadOnly (handle P) (addressFree slug external) := by
  refine (readOnly_ask fun _ => rfl).bind fun owner => ?_
  cases owner with
  | some _ => exact readOnly_done _
  | none =>
    cases external with
    | false => exact readOnly_done _
    | true => exact (readOnly_ask fun _ => rfl).bind fun _ => readOnly_done _

theorem addressFree_ok {external free : Bool} (hne : slug ≠ "")
    (h : (run (handle P) (addressFree slug external) s).1 = .ok free) :
    free ↔ Available P s slug external := by
  rw [addressFree, run_integrationIDBySlug] at h
  unfold Available
  cases htaken : s.integrationIDBySlug P slug with
  | some =>
    simp only [htaken] at h
    cases h
    simp
  | none =>
    simp only [htaken] at h
    cases external with
    | false =>
      cases h
      simp [hne]
    | true =>
      cases h
      simp only [hne, ne_eq, not_false_eq_true, true_and, forall_const]
      exact isNone_iff_eq_none

theorem deployOptions_ok {candidate : String} {external : Bool} {opts : DeployOptions}
    (h : (run (handle P) (deployOptions P integrationID candidate external snapshotID) s).1 = .ok opts)
    (hnet : opts.networked) : ∃ it definition, s.integration P integrationID = some it ∧
      (run (handle P) (optionsDefinition P integrationID it snapshotID) s).1 =
        .ok definition ∧ (resolveRuntimeEnv (P.declarations definition)).exposable ∧
      (candidate ≠ "" → (opts.slugValid ∧ opts.slugAvailable ↔
        Available P s (slugify P.toLower candidate) external)) ∧
      (candidate = "" → (candidates P.toLower "" it.name).find? (¬s.Claimed ·) =
        some opts.suggestedSlug) := by
  change (run (handle P) (found _ (s.integration P integrationID) >>= _) s).1 = _ at h
  obtain ⟨it, hit, h⟩ := (readOnly_found _ _).bind_ok.1 h
  obtain ⟨definition, hdef, h⟩ := (optionsDefinition_readOnly _ _ _).bind_ok.1 h
  refine ⟨it, definition, found_ok.1 hit, hdef, ?_⟩
  by_cases hexp : (resolveRuntimeEnv (P.declarations definition)).exposable
  · refine ⟨hexp, ?_⟩
    rw [if_neg (not_not.2 hexp)] at h
    by_cases hcandidate : candidate = ""
    · rw [if_neg (not_not.2 hcandidate)] at h
      refine ⟨absurd hcandidate, fun _ => ?_⟩
      obtain ⟨slug, hslug, h⟩ := (firstFree_readOnly P _).bind_ok.1 h
      rw [pure_eq, run_done, Except.ok.injEq] at h
      subst h
      rw [← allocateSlug, run_allocateSlug] at hslug
      exact found_ok.1 hslug
    · rw [if_pos hcandidate] at h
      refine ⟨fun _ => ?_, fun heq => absurd heq hcandidate⟩
      generalize slugify P.toLower candidate = slug at h ⊢
      by_cases hslug : slug = ""
      · rw [if_neg (not_not.2 hslug)] at h
        cases h
        simp [Available, hslug]
      · rw [if_pos hslug] at h
        obtain ⟨free, hfree, h⟩ := (addressFree_readOnly _ _).bind_ok.1 h
        cases h
        simpa using addressFree_ok hslug hfree
  · rw [if_pos hexp] at h
    cases h
    cases hnet

/-! ## Agreement -/

theorem exposable_of_options {definition : String}
    (hdef : (run (handle P) (optionsDefinition P integrationID it snapshotID) s).1 = .ok definition)
    (hexp : (resolveRuntimeEnv (P.declarations definition)).exposable) :
    ∀ version, (run (handle P) (deployedVersion P integrationID it snapshotID) s).1 =
      .ok version → (resolveRuntimeEnv (P.declarations version.definition)).exposable := by
  intro version hversion
  rw [deployedVersion_definition hdef hversion]
  exact hexp

/-- **`DeployOptions` and `Deploy` in the same state**: when they agree on a candidate, and when a
`Deploy` under the suggested slug is not refused. -/
theorem deploy_options_iff (P : Platform) (s : Store) (integrationID candidate snapshotID : String)
    (external : Bool) (opts : DeployOptions)
    (h : (run (handle P) (deployOptions P integrationID candidate external snapshotID) s).1 =
      .ok opts) (hnet : opts.networked) :
    (candidate ≠ "" → ∀ settings, Chooses settings candidate external snapshotID →
      ((opts.slugValid ∧ opts.slugAvailable ↔ ¬Rejected P s integrationID settings) ↔
        Available P s (slugify P.toLower candidate) external ∨
          PassesOtherChecks P s integrationID settings ∧
            Refused P s integrationID (slugify P.toLower candidate) external)) ∧
    (candidate = "" → ∀ settings exposed, Chooses settings opts.suggestedSlug exposed snapshotID →
      (¬Rejected P s integrationID settings ↔
        ¬(PassesOtherChecks P s integrationID settings ∧ exposed ∧ P.externalEnabled ∧
          TakenElsewhere P s integrationID opts.suggestedSlug))) := by
  obtain ⟨it, definition, hit, hdef, hexp, hchecked, hsuggested⟩ := deployOptions_ok h hnet
  constructor
  · intro hne settings hchooses
    have hversion := exposable_of_options hdef hexp
    rw [← hchooses.snapshotID] at hversion
    have hrejected := rejected_iff hit hversion (hchooses.slug.symm ▸ hne)
      (congrArg (slugify P.toLower) hchooses.slug) hchooses.subdomain
    rw [hchooses.external] at hrejected
    rw [hchecked hne, hrejected]
    have hnot : Available P s (slugify P.toLower candidate) external →
        ¬Refused P s integrationID (slugify P.toLower candidate) external :=
      Available.not_refused
    constructor
    · intro hagree
      by_cases hav : Available P s (slugify P.toLower candidate) external
      · exact .inl hav
      · exact .inr (not_not.1 fun hno => hav (hagree.2 hno))
    · rintro (hav | hrefused)
      · exact iff_of_true hav fun hr => hnot hav hr.2
      · exact iff_of_false (fun hav => hnot hav hrefused.2) (not_not.2 hrefused)
  · intro hempty settings exposed hchooses
    have hfound := hsuggested hempty
    have hslug := isSlug_candidates (List.mem_of_find?_eq_some hfound)
    have hne : opts.suggestedSlug ≠ "" := fun he => hslug.ne_nil (by rw [he]; rfl)
    have hfree : s.integrationIDBySlug P opts.suggestedSlug = none :=
      (integrationIDBySlug_eq_none hne).2 (by simpa using List.find?_some hfound)
    have hversion := exposable_of_options hdef hexp
    rw [← hchooses.snapshotID] at hversion
    have hrejected := rejected_iff hit hversion (hchooses.slug.symm ▸ hne)
      (congrArg (slugify P.toLower) hchooses.slug) hchooses.subdomain
    rw [hchooses.external, slugify_of_isSlug P.toLower_slug hslug] at hrejected
    rw [hrejected, Refused]
    simp [hne, hfree]

/-- The integration `orders` is exposed as `shop`; an integration named `shop` is not
deployed. -/
def twoShops : Store where
  integrations := fun id =>
    if id = "orders" then some ⟨"Orders", "flows"⟩
    else if id = "shop" then some ⟨"shop", "flows"⟩ else none
  snapshots := fun id =>
    if id = "v1" then some ⟨"orders", "1.0", "flows"⟩
    else if id = "v2" then some ⟨"shop", "1.0", "flows"⟩ else none
  rows := [⟨"d", "orders",
    { replicas := 1, expose := exposeExternal, subdomain := "shop", snapshotID := "v1" },
    ⟨"Orders", "orders", "http://octo-int-orders.octo:8080", "https://shop.octo.dev", "v1", "1.0"⟩⟩]
  minted := 1
  secretKeys := fun _ => false
  catalog := fun _ => false

def exposed (slug snapshotID : String) : Settings := { slug, expose := exposeExternal, snapshotID }

-- the candidates of an allocation are a list of a thousand
set_option maxRecDepth 8000 in
/-- **The two disagree both ways**: the form reports `shop` as taken, and `Deploy` accepts it; the
form suggests `shop`, and `Deploy` refuses it for an external endpoint. -/
theorem options_and_deploy_disagree :
    (run (handle shopPlatform) (deployOptions shopPlatform "orders" "shop" true "v1")
      twoShops).1 = .ok ⟨true, "", true, "shop", true, false⟩ ∧
    ¬Rejected shopPlatform twoShops "orders" (exposed "shop" "v1") ∧
    (run (handle shopPlatform) (deployOptions shopPlatform "shop" "" true "v2")
      twoShops).1 = .ok { networked := true, suggestedSlug := "shop" } ∧
    (run (handle shopPlatform) (deploy shopPlatform "shop" (exposed "shop" "v2"))
      twoShops).1 = .error .subdomainTaken := by
  refine ⟨rfl, ?_, rfl, rfl⟩
  rintro ⟨e, -, he⟩
  cases he

theorem deploy_options_internal :
    (run (handle shopPlatform) (deployOptions shopPlatform "orders" "shop" false "v1")
      twoShops).1 = .ok ⟨true, "", true, "shop", true, true⟩ ∧
    ¬Rejected shopPlatform twoShops "orders" { slug := "shop", snapshotID := "v1" } := by
  refine ⟨rfl, ?_⟩
  have hagree := (deploy_options_iff shopPlatform twoShops "orders" "shop" "v1" false
    ⟨true, "", true, "shop", true, true⟩ rfl rfl).1 (by decide)
    { slug := "shop", snapshotID := "v1" } ⟨rfl, rfl, rfl, rfl⟩
  exact (hagree.2 (.inl ⟨by decide, by decide, nofun⟩)).1 ⟨rfl, rfl⟩

/-! ## Allocation -/

end Octo.Deployment.Service
