import StackCircuit.Bytecode.Instruction
import StackCircuit.Source

/-!
# Labels

Names for positions in the code of a function.  A label may be used before it is declared, so uses
are noted first and patched into the code at its end.

* `Reference`: a use of a name at a position.
* **`patchAll`**: writes what names stand for into the operands of their uses.
* **`Labels`**: the names seen so far and the uses to patch.
* `Labels.note`, `Labels.declare`, `Labels.position?`, `Labels.patch`: the operations.
-/

namespace StackCircuit.Assembly

open Bytecode (Instruction)
open Source (Span)

/-- A use of a name by the instruction at a position, with its place in the source. -/
structure Reference where
  position : UInt64
  name : String
  place : Span
deriving DecidableEq, Repr

/-- Patches uses in order, up to the first whose name stands for nothing. -/
def patchAll (value? : String → Option UInt64) :
    List Reference → Array Instruction → Except Fault (Array Instruction × Option Reference)
  | [], code => .ok (code, none)
  | r :: rest, code =>
    match value? r.name with
    | none => .ok (code, some r)
    | some value =>
      if r.position.toNat < code.size then
        patchAll value? rest (code.modify r.position.toNat fun i =>
          { i with operand := BitVec.ofNat 256 value.toNat })
      else .error .indexOutOfRange

/-- A label; until its declaration its position is `Label.undeclared`. -/
structure Label where
  name : String
  position : UInt64
deriving DecidableEq, Repr

/-- The position that marks a label as not declared. -/
def Label.undeclared : UInt64 :=
  18446744073709551615

/-- The labels of one function: the names in the order of their first use or declaration, and the uses
to patch. -/
structure Labels where
  labels : Array Label
  references : Array Reference
deriving DecidableEq, Repr

namespace Labels

/-- No labels. -/
def empty : Labels :=
  ⟨#[], #[]⟩

/-- Notes a use of a name, and the name itself if it is new. -/
def note (l : Labels) (r : Reference) : Labels :=
  { labels :=
      if l.labels.any (·.name == r.name) then l.labels
      else l.labels.push ⟨r.name, Label.undeclared⟩
    references := l.references.push r }

/-- Declares a name; `none` if it was declared before. -/
def declare (l : Labels) (name : String) (position : UInt64) : Option Labels :=
  match l.labels.findIdx? (·.name == name) with
  | none => some { l with labels := l.labels.push ⟨name, position⟩ }
  | some i =>
    if (l.labels[i]?).any (·.position != Label.undeclared) then none
    else some { l with labels := l.labels.modify i fun label => { label with position } }

/-- The position of a declared name. -/
def position? (l : Labels) (name : String) : Option UInt64 :=
  (l.labels.find? fun label => label.name == name && label.position != Label.undeclared).map
    (·.position)

/-- The code with every use patched, or with the uses before the first undeclared one patched and
that use. -/
def patch (l : Labels) (code : Array Instruction) :
    Except Fault (Array Instruction × Option Reference) :=
  patchAll l.position? l.references.toList code

end Labels

end StackCircuit.Assembly
