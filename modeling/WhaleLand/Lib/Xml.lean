import Mathlib.Init

/-!
# XML elements

Elements as a document parser returns them: a name with or without a namespace,
attributes, and children in document order.
-/

namespace Xml

/-- A name; the namespace is a URI. -/
structure QName where
  namespaceUri : Option String
  localPart : String
deriving DecidableEq, Repr

/-- A name without a namespace. -/
def QName.new (localPart : String) : QName := ⟨none, localPart⟩

@[simp] theorem QName.new_inj {a b : String} : QName.new a = QName.new b ↔ a = b := by
  simp [QName.new]

mutual

inductive Element
  | mk (name : QName) (attributes : List (QName × String)) (children : List ChildOfElement)

inductive ChildOfElement
  | element (e : Element)
  | text (text : String)
  | comment (text : String)
  | processingInstruction (target : String) (value : Option String)

end

/-- The child as an element, if it is one. -/
def ChildOfElement.element? : ChildOfElement → Option Element
  | .element e => some e
  | .text _ | .comment _ | .processingInstruction _ _ => none

/-- A child of the root of a document. -/
inductive ChildOfRoot
  | element (e : Element)
  | comment (text : String)
  | processingInstruction (target : String) (value : Option String)

/-- The child as an element, if it is one. -/
def ChildOfRoot.element? : ChildOfRoot → Option Element
  | .element e => some e
  | .comment _ | .processingInstruction _ _ => none

namespace Element

def name : Element → QName
  | .mk name _ _ => name

def attributes : Element → List (QName × String)
  | .mk _ attributes _ => attributes

def children : Element → List ChildOfElement
  | .mk _ _ children => children

/-- The value of the attribute with this name and no namespace. -/
def attributeValue (element : Element) (name : String) : Option String :=
  element.attributes.lookup (.new name)

/-- The children that are elements. -/
def childElements (element : Element) : List Element :=
  element.children.filterMap ChildOfElement.element?

def isNamed (name : String) (element : Element) : Bool := element.name == .new name

/-- The children that are elements of this name. -/
def childrenNamed (element : Element) (name : String) : List Element :=
  element.childElements.filter (isNamed name)

end Element

end Xml
