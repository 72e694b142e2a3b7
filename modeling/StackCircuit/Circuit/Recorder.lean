import StackCircuit.Circuit.System

/-!
# Recorders

Circuits are built through a narrow interface: allocate a wire, enforce a constraint.

* **`Recorder σ p`**: states `σ` that can be recorded into.
* A `System` is a recorder.
* `Rationed`: a system that refuses one allocation and one constraint at given places, for trying
  out how a build copes with refusals.
-/

namespace StackCircuit.Circuit

/-- States that circuits over the residues modulo `p` can be recorded into: wires are allocated and
constraints enforced, each under a label. -/
class Recorder (σ : Type) (p : outParam Nat) where
  alloc : String → Resolution p → EStateM CircuitError σ Wire
  enforce : String → Combination p → Combination p → Combination p → EStateM CircuitError σ Unit

variable {p : Nat} [Modulus p]

instance : Recorder (System p) p where
  alloc := System.alloc
  enforce := System.enforce

/-- A system with the number of calls, counted from now and including the refused one, after which
an allocation or a constraint is refused; `none` refuses nothing. -/
structure Rationed (p : Nat) where
  system : System p
  refusedAlloc : Option Nat
  refusedEnforce : Option Nat

namespace Rationed

/-- The reason given for a refusal. -/
def reason : String :=
  "backend refused"

/-- What remains of a count after one call. -/
def tick : Option Nat → Option Nat
  | some (n + 2) => some (n + 1)
  | _ => none

/-- Allocates a wire unless this allocation is to be refused. -/
def alloc (label : String) (r : Resolution p) : EStateM CircuitError (Rationed p) Wire :=
  fun ⟨system, allocs, enforces⟩ =>
    match System.alloc label (if allocs = some 1 then .failed reason else r) system with
    | .ok w system => .ok w ⟨system, tick allocs, enforces⟩
    | .error e system => .error e ⟨system, tick allocs, enforces⟩

/-- Records a constraint unless this one is to be refused. -/
def enforce (label : String) (a b c : Combination p) : EStateM CircuitError (Rationed p) Unit :=
  fun ⟨system, allocs, enforces⟩ =>
    if enforces = some 1 then .error (.refused reason) ⟨system, allocs, tick enforces⟩
    else
      match System.enforce label a b c system with
      | .ok () system => .ok () ⟨system, allocs, tick enforces⟩
      | .error e system => .error e ⟨system, allocs, tick enforces⟩

instance : Recorder (Rationed p) p where
  alloc := alloc
  enforce := enforce

end Rationed

end StackCircuit.Circuit
