import Octo.Engine.Builder

/-!
# Which block an error names

`Flow.Process` wraps the error of a block with the block's label, and so does every flow around it;
`SetErrorVariable` takes the label from the outermost wrapper it finds (`errors.As`).

* `Fails.uncaught` — the error a chain ends with when a leaf fails is labelled with the block of the
  chain that holds the leaf.
* `error_block_iff` — `vars.error.block` is the failing leaf in every execution exactly when each
  leaf whose failure gets out of a block of the chain has the label of that block.
* `branch_named_for_leaf` — a leaf inside an `if` is reported as the `if`.
-/

namespace Octo.Engine

/-! ## Errors -/

/-- An error: of a processor itself, with a text around it (`fmt.Errorf` with `%w`), or a
`blockError`. -/
inductive GoError where
  | own (text : String)
  | wrapped (context : String) (err : GoError)
  | block (label : String) (err : GoError)

/-- `error.Error`. -/
def GoError.message : GoError → String
  | .own text => text
  | .wrapped context err => context ++ ": " ++ err.message
  | .block label err => "block " ++ quoted label ++ ": " ++ err.message

/-- `errors.As` for a `blockError`: the label of the outermost one. -/
def GoError.asBlock : GoError → Option String
  | .own _ => none
  | .wrapped _ err => err.asBlock
  | .block label _ => some label

/-- What `SetErrorVariable` stores. -/
structure ErrorVariable where
  message : String
  flow : String
  block : String

def setErrorVariable (name : String) (err : GoError) : ErrorVariable :=
  ⟨err.message, name, err.asBlock.getD ""⟩

/-! ## Executions that fail -/

/-- The label `Flow.Process` gives to the error of a block. -/
def Block.label (b : Block) : String := blockLabel b.type b.name

/-- The chains whose error a block returns as its own, with the text it puts around it; not the
process chain of a block with an error chain. -/
def Block.passes (b : Block) : List (Option String × List Block) :=
  let bare := fun f : Flow => ((none : Option String), f.blocks)
  match b.own with
  | .leaf _ => []
  | .handleErrors => [(some "scope alternative", b.slots.error)]
  | .fork => b.slots.branches.map fun f => (some ("fork branch " ++ quoted f.name), f.blocks)
  | .ifBlock _ => (b.slots.then'.toList ++ b.slots.else'.toList).map bare
  | .switch _ => (b.slots.cases ++ b.slots.default'.toList).map bare
  | .foreach _ _ => b.slots.body.toList.map bare
  | .enrich _ _ => b.slots.body.toList.map bare
  | .cacheScope _ _ => b.slots.body.toList.map bare
  | .aiRouter _ _ _ => (b.slots.routes ++ b.slots.default'.toList).map bare
  | .aiAgent _ _ _ _ _ => b.slots.default'.toList.map bare
  | .aiRetry _ _ _ =>
    match b.slots.error with
    | [] => [(none, b.slots.process)]
    | alternative => [(some "ai-retry error path", alternative)]

def around (context : Option String) (err : GoError) : GoError := match context with
  | none => err
  | some context => .wrapped context err

/-- The chain ends with this error because the leaf of this label failed in it, wherever it stands.
-/
inductive Fails : List Block → String → GoError → Prop where
  | leaf {chain : List Block} {b : Block} {settings : String → Option Types.Value} {text : String}
    (here : b ∈ chain) (own : b.own = .leaf settings) :
    Fails chain b.label (.block b.label (.own text))
  | inside {chain sub : List Block} {b : Block} {context : Option String} {leaf : String}
    {err : GoError} (here : b ∈ chain) (passes : (context, sub) ∈ b.passes)
    (fails : Fails sub leaf err) : Fails chain leaf (.block b.label (around context err))

/-- A leaf at or inside the block whose failure no block between them catches. -/
inductive Uncaught : Block → String → Prop where
  | leaf {b : Block} {settings : String → Option Types.Value} (own : b.own = .leaf settings) :
    Uncaught b b.label
  | inside {b c : Block} {sub : List Block} {context : Option String} {leaf : String}
    (passes : (context, sub) ∈ b.passes) (here : c ∈ sub) (inner : Uncaught c leaf) :
    Uncaught b leaf

theorem Fails.uncaught {chain : List Block} {leaf : String} {err : GoError}
    (h : Fails chain leaf err) : ∃ b ∈ chain, Uncaught b leaf ∧ err.asBlock = some b.label := by
  induction h with
  | leaf here own => exact ⟨_, here, .leaf own, rfl⟩
  | inside here passes _ ih =>
    obtain ⟨c, hc, hinner, -⟩ := ih
    exact ⟨_, here, .inside passes hc hinner, rfl⟩

theorem Uncaught.fails {b : Block} {leaf : String} (h : Uncaught b leaf) :
    ∀ chain, b ∈ chain → ∃ err, Fails chain leaf (.block b.label err) := by
  induction h with
  | leaf own => exact fun chain here => ⟨.own "", .leaf here own⟩
  | inside passes here _ ih =>
    intro chain hb
    obtain ⟨err, herr⟩ := ih _ here
    exact ⟨_, .inside hb passes herr⟩

/-- **Which block `vars.error` names.** -/
theorem error_block_iff (name : String) (chain : List Block) :
    (∀ leaf err, Fails chain leaf err → (setErrorVariable name err).block = leaf) ↔
      ∀ b ∈ chain, ∀ leaf, Uncaught b leaf → leaf = b.label := by
  constructor
  · intro h b hb leaf hleaf
    obtain ⟨err, herr⟩ := hleaf.fails chain hb
    exact (h leaf _ herr).symm
  · intro h leaf err herr
    obtain ⟨b, hb, hleaf, hlabel⟩ := herr.uncaught
    rw [setErrorVariable, hlabel, h b hb leaf hleaf]
    rfl

/-- A leaf `call` in the `then` flow of an `if` named `check`. -/
def checkedCall : Block :=
  ⟨"check", "if", .ifBlock "true",
    { then' := some ⟨"", [⟨"call", "rest", .leaf fun _ => none, {}⟩]⟩ }⟩

/-- **The branch is named for the leaf.** -/
theorem branch_named_for_leaf :
    ∃ err, Fails [checkedCall] "call" err ∧ (setErrorVariable "main" err).block = "check" :=
  ⟨_, .inside (.head _) (.head _) (@Fails.leaf _ _ _ "refused" (.head _) rfl), rfl⟩

end Octo.Engine
