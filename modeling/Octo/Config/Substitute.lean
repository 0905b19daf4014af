import Octo.Config.Types

/-!
# Environment substitution

`core/runtime/env.go`: every `${NAME}` reference in the settings of a config is replaced by
the value of a declared variable.  The walk is the substitutor's own; `yaml.Unmarshal` into an
empty interface is a parameter (`none` is a parse error).
-/

namespace Octo.Config

open List Octo.Types

/-! ## References -/

def isNameStart (c : Char) : Bool := c.isAlpha || c == '_'

def isNameRest (c : Char) : Bool := c.isAlphanum || c == '_'

/-- The rest of a reference after its first name character: the name up to the closing brace. -/
def closeName : List Char → Option (List Char × List Char)
  | [] => none
  | c :: cs =>
    if c = '}' then some ([], cs)
    else if isNameRest c then (closeName cs).map fun (name, rest) => (c :: name, rest)
    else none

/-- `placeholderPattern` anchored at the start: the name and what follows the match. -/
def matchReference : List Char → Option (String × List Char)
  | '$' :: '{' :: c :: cs =>
    if isNameStart c then (closeName cs).map fun (name, rest) => (String.ofList (c :: name), rest)
    else none
  | _ => none

theorem closeName_length {cs name rest : List Char} (h : closeName cs = some (name, rest)) :
    rest.length < cs.length := by
  induction cs generalizing name rest with
  | nil => cases h
  | cons c cs ih =>
    unfold closeName at h
    split at h
    · cases h
      simp
    · split at h
      · obtain ⟨⟨n, r⟩, hc, heq⟩ := Option.map_eq_some_iff.1 h
        cases heq
        have hlt := ih hc
        simp only [length_cons]
        omega
      · cases h

theorem matchReference_length {cs : List Char} {name : String} {rest : List Char}
    (h : matchReference cs = some (name, rest)) : rest.length < cs.length := by
  unfold matchReference at h
  split at h
  · split at h
    · obtain ⟨⟨n, r⟩, hc, heq⟩ := Option.map_eq_some_iff.1 h
      cases heq
      have hlt := closeName_length hc
      simp only [length_cons]
      omega
    · cases h
  · cases h

def hasReference : List Char → Bool
  | [] => false
  | c :: cs => (matchReference (c :: cs)).isSome || hasReference cs

/-! ## The substitutor -/

/-- The resolved values and the declared names. -/
structure Substitutor where
  resolved : List (String × String)
  declared : List String

section

variable (unmarshal : String → Option Value)

/-- An empty value stays the empty string. -/
def coerce (value : String) : Value :=
  if value = "" then .str ""
  else
    match unmarshal value with
    | none => .str value
    | some .null => .str value
    | some out => out

namespace Substitutor

variable (s : Substitutor)

def resolve (name : String) : Except String String := if name ∈ s.declared then
    match s.resolved.lookup name with
    | some value => .ok value
    | none =>
      .error ("environment variable \"" ++ name ++
        "\" is referenced but not set and has no default")
  else
    .error ("settings reference undeclared environment variable \"" ++ name ++
      "\" (add it under env:)")

/-- `ReplaceAllStringFunc` with the last error of the callback. -/
def expand (cs : List Char) : List Char × Option String := match cs with
  | [] => ([], none)
  | c :: cs =>
    match _h : matchReference (c :: cs) with
    | some (name, rest) =>
      let (out, subErr) := expand rest
      match s.resolve name with
      | .ok value => (value.toList ++ out, subErr)
      | .error err => ('$' :: '{' :: name.toList ++ '}' :: out, some (subErr.getD err))
    | none =>
      let (out, subErr) := expand cs
      (c :: out, subErr)
termination_by cs.length
decreasing_by
  · exact matchReference_length _h
  · simp

def scalar (str : String) : Except String Value := match matchReference str.toList with
  | some (name, []) => (s.resolve name).map (coerce unmarshal)
  | _ =>
    match s.expand str.toList with
    | (_, some subErr) => .error subErr
    | (out, none) => .ok (.str (String.ofList out))

/-- A mapping that is not a string mapping takes the default branch. -/
def value : Value → Except String Value
  | .str str => s.scalar unmarshal str
  | .obj fields => do
    let fields ← fields.mapM fun kv => do
      let nv ← value kv.2
      return (kv.1, nv)
    return .obj fields
  | .arr items => do
    let items ← items.mapM fun v => value v
    return .arr items
  | v => return v
termination_by v => sizeOf v
decreasing_by
  all_goals try decreasing_tactic
  exact Value.sizeOf_obj_lt ‹_›

def settings (set : Settings) : Except String Settings := set.mapM fun kv => do
    let nv ← s.value unmarshal kv.2
    return (kv.1, nv)

def source : Option SourceConfig → Except String (Option SourceConfig)
  | none => return none
  | some src => do
    let set ← s.settings unmarshal src.settings
    return some { src with settings := set }

mutual

/-- `substitutor.flow` of a flow. -/
def flow : FlowConfig → Except String FlowConfig
  | ⟨name, source, process, error, workers, buffer, pool⟩ => do
    let source ← s.source unmarshal source
    let process ← process.mapM fun b => block b
    let error ← error.mapM fun b => block b
    return ⟨name, source, process, error, workers, buffer, pool⟩
termination_by f => sizeOf f

/-- `substitutor.flow` of a pointer, which may be nil. -/
def flowPtr : Option FlowConfig → Except String (Option FlowConfig)
  | none => return none
  | some f => do
    let f ← flow f
    return some f
termination_by f => sizeOf f

/-- The settings, the bare chains and the sub-flows it collects. -/
def block : BlockConfig → Except String BlockConfig
  | ⟨head, process, error, branches, then', else', cases, default', body, routes, tools⟩ => do
    let set ← s.settings unmarshal head.settings
    let process ← process.mapM fun b => block b
    let error ← error.mapM fun b => block b
    let then' ← flowPtr then'
    let else' ← flowPtr else'
    let default' ← flowPtr default'
    let body ← flowPtr body
    let branches ← branches.mapM fun f => flow f
    let cases ← cases.mapM fun c => do
      let f ← flow c.flow
      return CaseConfig.mk c.when' f
    return ⟨{ head with settings := set }, process, error, branches, then', else', cases,
      default', body, routes, tools⟩
termination_by b => sizeOf b
decreasing_by
  all_goals try decreasing_tactic
  have hl := sizeOf_lt_of_mem ‹_ ∈ cases›
  have hc := CaseConfig.sizeOf_flow_lt c
  simp only [BlockConfig.mk.sizeOf_spec]
  omega

end

end Substitutor

def substituteConfig (cfg : Types.Config) (resolved : List (String × String))
    (declared : List String) : Except String Types.Config := do
  let s : Substitutor := ⟨resolved, declared⟩
  let connectors ← cfg.connectors.mapM fun c => do
    let set ← s.settings unmarshal c.settings
    return ConnectorConfig.mk c.name c.type set
  let processors ← cfg.processors.mapM fun p => do
    let set ← s.settings unmarshal p.settings
    return ProcessorConfig.mk p.name p.type set
  let flows ← cfg.flows.mapM (s.flow unmarshal)
  return { cfg with connectors, processors, flows }

end

end Octo.Config
