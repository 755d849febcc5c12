import DomTemplate.Registry
import DomTemplate.Scratch.Basic
import DomTemplate.Stream.Bind

/-!
# The bindings of a scratch tree

Bound properties are written out in document order.  Keys are numbered by their first use, except
for the common properties and for directives, which have none.
-/

namespace DomTemplate

/-- How a bound property is written: as a common property, under its key, or as a directive. -/
inductive Target where
  | common (property : CommonProperty)
  | keyed (binding : Binding)
  | directive
deriving DecidableEq

/-- The target of a property by its kind and key. -/
def Target.of (kind : PropertyKind) (key : String) : Target :=
  match kind with
  | .attr => if key = "class" then .common .className else .keyed .attr
  | .style => .keyed .style
  | .value =>
    if key = "textContent" then .common .textContent
    else if key = "innerHTML" then .common .innerHTML
    else .keyed .property
  | .domValue =>
    if key = "textContent" then .common .textContent
    else if key = "innerHTML" then .common .innerHTML
    else .keyed .liveProperty
  | .event => .keyed .event
  | .directive => .directive

namespace Scratch

/-- The operation of one bound property, and the keys with its own. -/
def bindProperty (keys : Registry String) (p : Property) (input : UInt32) :
    BindOp × Registry String :=
  match Target.of p.kind p.key with
  | .common property => (.common property input.toNat, keys)
  | .keyed binding =>
    let keys := keys.insert p.key
    (.keyed binding ((keys.word? p.key).getD 0).toNat input.toNat, keys)
  | .directive => (.directive input.toNat, keys)

/-- The operations of the bound properties of one element. -/
def bindProperties (inputs : Registry Placeholder) (keys : Registry String) :
    List Property → List BindOp × Registry String
  | [] => ([], keys)
  | p :: rest =>
    match p.target?.bind inputs.word? with
    | none => bindProperties inputs keys rest
    | some input =>
      let (op, keys) := bindProperty keys p input
      let (ops, keys) := bindProperties inputs keys rest
      (op :: ops, keys)

mutual

/-- The operations of a node and of what stands below it.  An element with bound properties is
selected by its slot, except for the root, which is selected from the start. -/
def bind (inputs : Registry Placeholder) (isRoot : Bool) (keys : Registry String) :
    Scratch → List BindOp × Registry String
  | element _ properties bound _ _ slot children =>
    if 0 < bound then
      let (own, keys) := bindProperties inputs keys properties
      let (inner, keys) := bindAll inputs keys children
      ((if isRoot then [] else [.setNode slot.toNat]) ++ own ++ inner, keys)
    else bindAll inputs keys children
  | _ => ([], keys)

/-- The operations of siblings from left to right. -/
def bindAll (inputs : Registry Placeholder) (keys : Registry String) :
    List Scratch → List BindOp × Registry String
  | [] => ([], keys)
  | node :: rest =>
    let (own, keys) := bind inputs false keys node
    let (more, keys) := bindAll inputs keys rest
    (own ++ more, keys)

end

/-- The binding stream of a root and the keys it names. -/
def bindStream (inputs : Registry Placeholder) (root : Scratch) : List BindOp × List String :=
  let (ops, keys) := bind inputs true .empty root
  (ops, keys.entries)

end Scratch

end DomTemplate
