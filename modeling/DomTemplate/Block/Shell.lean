import DomTemplate.Tree.Basic

/-!
# The shell of a block

The shell is the constant markup of a root, which the page parses once and clones for each
instance.  It leaves out everything that is bound to a placeholder.  Where a placeholder stands
between two texts the markup has a separator comment, since the texts would be parsed as one
otherwise.
-/

namespace DomTemplate

inductive Shell where
  /-- a bare element, which needs no parsing -/
  | tag (name : String)
  /-- pieces of markup, to be concatenated -/
  | chunks (parts : List String)
deriving DecidableEq

/-- Elements written without a closing tag.  They cannot have children. -/
def voidTags : List String :=
  ["audio", "video", "embed", "input", "param", "source", "textarea", "track", "area", "base",
    "link", "meta", "br", "col", "hr", "img", "wbr"]

def isVoid (tag : String) : Bool :=
  voidTags.contains tag

namespace Shell

/-- The comment that keeps two texts apart. -/
def separator : String := "<!>"

/-- The markup of a shell in one piece. -/
def markup : Shell → String
  | tag name => if isVoid name then "<" ++ name ++ ">" else "<" ++ name ++ "></" ++ name ++ ">"
  | chunks parts => String.join parts

/-- Adds a declaration to an inline style. -/
def appendStyle (style declaration : String) : String :=
  if style = "" then declaration else style ++ ";" ++ declaration

/-- The constant attributes of an element as markup, in the order of its properties, and its inline
style, which gathers the style attribute and the style properties. -/
def attributes : List Property → String → List String × String
  | [], style => ([], style)
  | p :: rest, style =>
    match p.kind, p.value with
    | .attr, .string v =>
      if p.key = "style" then attributes rest (appendStyle style v)
      else
        let (parts, final) := attributes rest style
        ((" " ++ p.key ++ "=\"" ++ v ++ "\"") :: parts, final)
    | .attr, .bool true =>
      if p.key = "style" then attributes rest style
      else
        let (parts, final) := attributes rest style
        ((" " ++ p.key) :: parts, final)
    | .style, .string v => attributes rest (appendStyle style (p.key ++ ":" ++ v))
    | _, _ => attributes rest style

/-- The opening tag of an element. -/
def openTag (name : String) (properties : List Property) : List String :=
  let (parts, style) := attributes properties ""
  ("<" ++ name) :: parts ++ (if style = "" then [] else [" style=\"" ++ style ++ "\""]) ++ [">"]

/-- What the markup of a sibling depends on: whether the last constant sibling was a text, and
whether a placeholder came after it. -/
structure Gap where
  afterText : Bool
  placeholder : Bool
deriving DecidableEq

namespace Gap

/-- The gap before the first sibling. -/
def start : Gap := ⟨false, false⟩

/-- The gap behind a node. -/
def past (gap : Gap) : Node → Gap
  | .element .. => ⟨false, false⟩
  | .text _ => ⟨true, false⟩
  | .placeholder _ => { gap with placeholder := true }

/-- The separator needed before a node. -/
def separators (gap : Gap) (node : Node) : List String :=
  if node.isText && gap.afterText && gap.placeholder then [separator] else []

end Gap

mutual

/-- The markup of a node below the elements named by `path`.  The error is the path to a void
element that has children, in document order the first one. -/
def ofNode (path : List String) : Node → Except (List String) (List String)
  | .element name properties children =>
    if isVoid name then
      if children.isEmpty then .ok (openTag name properties) else .error (path ++ [name])
    else do
      let inner ← ofNodes (path ++ [name]) .start children
      .ok (openTag name properties ++ inner ++ ["</" ++ name ++ ">"])
  | .text value => .ok [value]
  | .placeholder _ => .ok []

/-- The markup of siblings behind a gap. -/
def ofNodes (path : List String) (gap : Gap) : List Node → Except (List String) (List String)
  | [] => .ok []
  | node :: rest => do
    let own ← ofNode path node
    let more ← ofNodes path (gap.past node) rest
    .ok (gap.separators node ++ own ++ more)

end

/-- A shell that consists of an empty element without constant attributes is kept as its tag. -/
def ofParts (name : String) (parts : List String) : Shell :=
  if parts.length ≤ 3 && parts[1]? == some ">" then tag name else chunks parts

/-- The shell of a root element, or the path to a void element that has children. -/
def ofElement (e : Element) : Except (List String) Shell :=
  (ofNode [] e.toNode).map (ofParts e.tag)

end Shell

end DomTemplate
