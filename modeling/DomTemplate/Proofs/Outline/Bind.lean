import DomTemplate.Proofs.Outline.Basic
import DomTemplate.Scratch.Bind

/-!
# The bindings of an outline

The same as those of a scratch tree, with unbounded numbers for keys.  Bound properties are written
out in document order.  Keys are numbered by their first use, except for the common properties and
for directives, which have none.
-/

namespace DomTemplate.Outline

/-- The operation of one bound property, and the keys with its own. -/
def bindProperty (keys : Registry String) (p : Property) (input : Nat) :
    BindOp × Registry String :=
  match Target.of p.kind p.key with
  | .common property => (.common property input, keys)
  | .keyed binding =>
    let keys := keys.insert p.key
    (.keyed binding ((keys.index? p.key).getD 0) input, keys)
  | .directive => (.directive input, keys)

/-- The operations of the bound properties of one element. -/
def bindProperties (inputs : Registry Placeholder) (keys : Registry String) :
    List Property → List BindOp × Registry String
  | [] => ([], keys)
  | p :: rest =>
    match p.target?.bind inputs.index? with
    | none => bindProperties inputs keys rest
    | some input =>
      let (op, keys) := bindProperty keys p input
      let (ops, keys) := bindProperties inputs keys rest
      (op :: ops, keys)

mutual

/-- The operations of a node and of what stands below it.  An element with bound properties is
selected by its slot; the root has none and is selected from the start. -/
def bind (inputs : Registry Placeholder) (keys : Registry String) :
    Outline → List BindOp × Registry String
  | element _ properties marks _ slot children =>
    if 0 < marks.bound then
      let (own, keys) := bindProperties inputs keys properties
      let (inner, keys) := bindAll inputs keys children
      (slot.toList.map BindOp.setNode ++ own ++ inner, keys)
    else bindAll inputs keys children
  | text .. => ([], keys)
  | placeholder _ => ([], keys)

/-- The operations of siblings from left to right. -/
def bindAll (inputs : Registry Placeholder) (keys : Registry String) :
    List Outline → List BindOp × Registry String
  | [] => ([], keys)
  | outline :: rest =>
    let (own, keys) := bind inputs keys outline
    let (more, keys) := bindAll inputs keys rest
    (own ++ more, keys)

end

/-- The binding stream of a root and the keys it names. -/
def bindStream (inputs : Registry Placeholder) (root : Outline) : List BindOp × List String :=
  let (ops, keys) := bind inputs .empty root
  (ops, keys.entries)

end DomTemplate.Outline
