import Octo.Deployment.Env
import Octo.Runtime.Sources

/-!
# The deploy form and the environment of the runtime

`declaredEnvVars` (`deployment/envports.go`) lists the variables an integration declares, the deploy
form asks for them (`useDeployEnv.ts`), the orchestrator passes what was entered to the pod, and the
runtime resolves its declarations against that environment (`resolveEnv`, `runtime/env.go`).  When a
required variable is satisfied is decided three times: by the form when it says that it is complete,
by the payload it builds, and by the runtime.

* `complete_form_iff` — when a complete form gives a runtime that accepts its environment.
-/

namespace Octo.Deployment

open List
open Octo.Foundation (trimSpace isWhiteSpace)
open Octo.Runtime (Host)
open Octo.Foundation.Traverse (bind_eq_ok)

/-! ## The declared variables -/

/-- A declared variable, as the form sees it. -/
structure EnvVarDecl where
  name : String
  default' : String
  required : Bool
deriving DecidableEq

/-- One declaration in `declaredEnvVars`; those the orchestrator manages are left out. -/
def envVarDecl (e : Types.EnvVar) : Option EnvVarDecl := let name := trimSpace e.name
  if name = "" ∨ name = envHTTPPort ∨ name = envHTTPHost then none
  else some ⟨name, e.default'.getD "", e.required⟩

/-- `declaredEnvVars` of the declarations of a definition; a malformed one has none. -/
def declaredEnvVars (decls : Option (List Types.EnvVar)) : List EnvVarDecl :=
  ((decls.getD []).filterMap envVarDecl).mergeSort fun a b => decide (a.name ≤ b.name)

def launch (id name version : String) (decls : List Types.EnvVar) : Launch :=
  ⟨id, name, version, some (decls.map fun e => ⟨e.name, e.default'⟩)⟩

/-! ## The form -/

inductive Mode where
  | value
  | secret
deriving DecidableEq

/-- `EnvBinding` of the form. -/
structure Field where
  mode : Mode
  value : String
  secret : String
deriving DecidableEq

def emptyBinding (value : String) : Field := ⟨.value, value, ""⟩

abbrev FormState := String → Option Field

/-- Whether a field counts as filled in `complete`. -/
def Field.filled (b : Field) : Bool := match b.mode with
  | .secret => b.secret ≠ ""
  | .value => !b.value.toList.all isWhiteSpace

/-- The default of an untouched variable counts. -/
def complete (envVars : List EnvVarDecl) (bindings : FormState) : Bool := envVars.all fun ev =>
    !ev.required || ((bindings ev.name).getD (emptyBinding ev.default')).filled

/-- What `build` sends for a field, if anything. -/
def Field.wire (b : Field) : Option EnvBinding := match b.mode with
  | .secret => if b.secret ≠ "" then some ⟨"", b.secret⟩ else none
  | .value => if b.value ≠ "" then some ⟨b.value, ""⟩ else none

/-- One variable in `build`. -/
def buildOne (bindings : FormState) (env : Bindings) (ev : EnvVarDecl) : Bindings :=
  match (bindings ev.name).bind Field.wire with
  | some b => env.insert ev.name b
  | none => env

def build (envVars : List EnvVarDecl) (bindings : FormState) : Bindings :=
  envVars.foldl (buildOne bindings) ∅

/-! ## What the form sends -/

variable {decls : List Types.EnvVar}

theorem mem_declaredEnvVars {ev : EnvVarDecl} :
    ev ∈ declaredEnvVars (some decls) ↔ ∃ e ∈ decls, envVarDecl e = some ev := by
  unfold declaredEnvVars
  rw [mem_mergeSort, Option.getD_some, mem_filterMap]

open Field

theorem Field.isSome_wire {b : Field} (h : b.filled) : b.wire.isSome := by
  unfold filled at h
  unfold wire
  cases hmode : b.mode with
  | secret =>
    rw [hmode] at h
    rw [if_pos (of_decide_eq_true h)]
    rfl
  | value =>
    rw [hmode] at h
    have hne : b.value ≠ "" := by
      intro hempty
      simp [hempty] at h
    rw [if_pos hne]
    rfl

/-- **What the form sends for a name**: the field, where the form asks for the variable and the field
was touched. -/
theorem lookup_build (envVars : List EnvVarDecl) (bindings : FormState) (name : String) :
    (build envVars bindings).lookup name =
      if name ∈ envVars.map EnvVarDecl.name then (bindings name).bind wire else none := by
  have hfold : ∀ (vars : List EnvVarDecl) (env : Bindings),
      (vars.foldl (buildOne bindings) env).lookup name =
        (if name ∈ vars.map EnvVarDecl.name then (bindings name).bind wire else none).or
          (env.lookup name) := by
    intro vars
    induction vars with
    | nil => simp
    | cons ev vars ih =>
      intro env
      rw [foldl_cons, ih]
      simp only [map_cons, mem_cons]
      unfold buildOne
      by_cases hname : name = ev.name
      · subst hname
        cases hb : (bindings ev.name).bind wire with
        | none => simp
        | some =>
          simp only [AList.lookup_insert]
          split <;> rfl
      · cases hb : (bindings ev.name).bind wire with
        | none => simp [hname]
        | some => simp [hname]
  rw [build, hfold]
  simp

/-! ## When the runtime accepts its environment -/

section

variable (host : Host)

theorem resolveVar_iff (resolved : List (String × String)) {d : Types.EnvVar} :
    (∃ next, host.resolveVar resolved d = .ok next) ↔
      d.name ≠ "" ∧ (d.required → (host.lookupEnv d.name).isSome) := by
  unfold Host.resolveVar
  by_cases hname : d.name = ""
  · simp [hname]
  · rw [if_neg hname]
    cases host.lookupEnv d.name with
    | some => simp [hname]
    | none =>
      cases hreq : d.required with
      | true => simp
      | false => cases d.default' <;> simp [hname]

/-- **When the runtime accepts its environment**: every declaration has a name, and the required ones
are supplied. -/
theorem resolveEnv_iff (decls : List Types.EnvVar) :
    (∃ resolved, host.resolveEnv decls = .ok resolved) ↔
      ∀ d ∈ decls, d.name ≠ "" ∧ (d.required → (host.lookupEnv d.name).isSome) := by
  have hfold : ∀ (decls : List Types.EnvVar) (acc : List (String × String)),
      (∃ resolved, decls.foldlM host.resolveVar acc = .ok resolved) ↔
        ∀ d ∈ decls, d.name ≠ "" ∧ (d.required → (host.lookupEnv d.name).isSome) := by
    intro decls
    induction decls with
    | nil => exact fun acc => iff_of_true ⟨acc, rfl⟩ (by simp)
    | cons d decls ih =>
      intro acc
      rw [forall_mem_cons, ← resolveVar_iff host acc]
      simp only [foldlM_cons, bind_eq_ok]
      constructor
      · rintro ⟨resolved, next, hnext, hrest⟩
        exact ⟨⟨next, hnext⟩, (ih next).1 ⟨resolved, hrest⟩⟩
      · rintro ⟨⟨next, hnext⟩, hrest⟩
        obtain ⟨resolved, hresolved⟩ := (ih next).2 hrest
        exact ⟨resolved, next, hnext, hresolved⟩
  exact hfold decls []

end

/-! ## A complete form -/

/-- The declaration has a name, and a required one was entered in the form under that very name, or
is a variable the orchestrator supplies. -/
def Entered (l : Launch) (rs : RuntimeServices) (envVars : List EnvVarDecl) (bindings : FormState)
    (d : Types.EnvVar) : Prop :=
  d.name ≠ "" ∧ (d.required →
    (d.name ∈ envVars.map EnvVarDecl.name ∧ (bindings d.name).isSome) ∨
      (l.injected rs d.name).isSome)

theorem trimSpace_of_mem {name : String}
    (h : name ∈ (declaredEnvVars (some decls)).map EnvVarDecl.name) :
    trimSpace name = name ∧ ¬(name = "" ∨ name = envHTTPPort ∨ name = envHTTPHost) := by
  obtain ⟨ev, hev, rfl⟩ := mem_map.1 h
  obtain ⟨e, -, he⟩ := mem_declaredEnvVars.1 hev
  unfold envVarDecl at he
  dsimp only at he
  split at he
  · cases he
  next hother =>
    cases he
    refine ⟨?_, hother⟩
    unfold trimSpace
    rw [String.toList_ofList]
    exact congrArg String.ofList (Foundation.trim_trim _)

theorem filled_of_complete {bindings : FormState} {d : Types.EnvVar}
    {b : Field} (hcomplete : complete (declaredEnvVars (some decls)) bindings) (hd : d ∈ decls)
    (hreq : d.required) (hmem : d.name ∈ (declaredEnvVars (some decls)).map EnvVarDecl.name)
    (hb : bindings d.name = some b) : b.filled := by
  obtain ⟨htrim, hother⟩ := trimSpace_of_mem hmem
  have hev : (⟨d.name, d.default'.getD "", d.required⟩) ∈
      declaredEnvVars (some decls) := by
    refine mem_declaredEnvVars.2 ⟨d, hd, ?_⟩
    unfold envVarDecl
    rw [htrim]
    exact if_neg hother
  have := all_eq_true.1 hcomplete _ hev
  simpa [hreq, hb] using this

/-- **A complete form gives a runtime that accepts its environment exactly when every declaration
was entered.** -/
theorem complete_form_iff (id name version : String) (decls : List Types.EnvVar)
    (bindings : FormState) (secretKeyExists : String → Except String Bool) (spec : Spec)
    (rs : RuntimeServices) (value : Source → String) (host : Host)
    (hspec : buildSpec secretKeyExists id name version (launch id name version decls).decls
      (build (declaredEnvVars (some decls)) bindings) = .ok spec)
    (hhost : ∀ name, host.lookupEnv name = (seen (podEnv rs spec) name).map value)
    (hcomplete : complete (declaredEnvVars (some decls)) bindings) :
    (∃ resolved, host.resolveEnv decls = .ok resolved) ↔
      ∀ d ∈ decls, Entered (launch id name version decls) rs (declaredEnvVars (some decls))
        bindings d := by
  rw [resolveEnv_iff]
  refine forall₂_congr fun d hd => and_congr_right fun hname => forall_congr' fun hreq => ?_
  rw [hhost, (seen_accepted rs hspec).2,
    lookup_build]
  unfold Launch.injected
  simp only [Option.isSome_or, Option.isSome_map, Bool.or_eq_true]
  rw [or_assoc, or_comm (b := (seen _ d.name).isSome = true)]
  refine or_congr_left ⟨fun h => ?_, fun ⟨hmem, htouched⟩ => ?_⟩
  · split at h
    next hmem =>
      refine ⟨hmem, ?_⟩
      obtain ⟨w, hw⟩ := Option.isSome_iff_exists.1 h
      obtain ⟨b, hb, -⟩ := Option.bind_eq_some_iff.1 hw
      exact Option.isSome_of_eq_some hb
    · cases h
  · rw [if_pos hmem]
    obtain ⟨b, hb⟩ := Option.isSome_iff_exists.1 htouched
    rw [hb]
    exact isSome_wire (filled_of_complete hcomplete hd hreq hmem hb)

def apiKey : List Types.EnvVar := [⟨"API_KEY", some "dev-key", true⟩]

theorem declaredEnvVars_apiKey :
    declaredEnvVars (some apiKey) = [⟨"API_KEY", "dev-key", true⟩] := by
  have hfilter : ((some apiKey).getD []).filterMap envVarDecl = [⟨"API_KEY", "dev-key", true⟩] := by
    decide
  unfold declaredEnvVars
  rw [hfilter, mergeSort_singleton]

def podHost (spec : Spec) : Host := { Runtime.willingHost with
    lookupEnv := fun name => (seen (podEnv ⟨"", "", ""⟩ spec) name).map fun
      | .value v => v
      | _ => "secret" }

/-- **A default the form counts and the runtime does not**: the untouched form sends nothing, and
the runtime refuses to start. -/
theorem untouched_default_not_set : complete (declaredEnvVars (some apiKey)) (fun _ => none) ∧
    ∃ spec, buildSpec (fun _ => .ok true) "d1" "Orders" "1.0"
        (launch "d1" "Orders" "1.0" apiKey).decls
        (build (declaredEnvVars (some apiKey)) fun _ => none) = .ok spec ∧
      (podHost spec).resolveEnv apiKey =
        .error "required environment variable \"API_KEY\" is not set" := by
  rw [declaredEnvVars_apiKey]
  obtain ⟨spec, hspec⟩ : ∃ spec, buildSpec (fun _ => .ok true) "d1" "Orders" "1.0"
      (launch "d1" "Orders" "1.0" apiKey).decls
      (build [⟨"API_KEY", "dev-key", true⟩] fun _ => none) = .ok spec := ⟨_, rfl⟩
  refine ⟨by decide, spec, hspec, ?_⟩
  have hnone : (podHost spec).lookupEnv "API_KEY" = none := by
    show Option.map _ (seen (podEnv ⟨"", "", ""⟩ spec) "API_KEY") = none
    rw [(seen_accepted (l := launch "d1" "Orders" "1.0" apiKey) _ hspec).2]
    rfl
  show (apiKey.foldlM (podHost spec).resolveVar []) = _
  unfold apiKey
  rw [foldlM_cons, Host.resolveVar, hnone]
  rfl

def enteredKey : FormState := fun name => if name = "API_KEY" then some ⟨.value, "k", ""⟩ else none

theorem complete_form_entered : complete (declaredEnvVars (some apiKey)) enteredKey ∧
    ∃ spec, buildSpec (fun _ => .ok true) "d1" "Orders" "1.0"
        (launch "d1" "Orders" "1.0" apiKey).decls
        (build (declaredEnvVars (some apiKey)) enteredKey) = .ok spec ∧
      ∃ resolved, (podHost spec).resolveEnv apiKey = .ok resolved := by
  have hcomplete : complete (declaredEnvVars (some apiKey)) enteredKey := by
    rw [declaredEnvVars_apiKey]
    decide
  obtain ⟨spec, hspec⟩ : ∃ spec, buildSpec (fun _ => .ok true) "d1" "Orders" "1.0"
      (launch "d1" "Orders" "1.0" apiKey).decls
      (build (declaredEnvVars (some apiKey)) enteredKey) = .ok spec := by
    rw [declaredEnvVars_apiKey]
    exact ⟨_, rfl⟩
  refine ⟨hcomplete, spec, hspec, (complete_form_iff "d1" "Orders" "1.0" apiKey enteredKey _ spec
    ⟨"", "", ""⟩ _ (podHost spec) hspec (fun _ => rfl) hcomplete).2 ?_⟩
  intro d hd
  rw [mem_singleton.1 hd, declaredEnvVars_apiKey]
  exact ⟨by decide, fun _ => .inl ⟨by decide, rfl⟩⟩

end Octo.Deployment
