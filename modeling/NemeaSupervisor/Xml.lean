import Mathlib.Data.List.Basic

/-!
# The parsed document

The part of libxml2 the supervisor reads its configuration through: nodes with
their type and name, sibling lists, the text of an element, and attributes.
-/

namespace NemeaSupervisor

/-- A node of the document tree. An entity reference carries the text its
declaration expands to, if it is declared. -/
inductive XmlNode where
  | element (name : String) (props : List (String × String)) (children : List XmlNode)
  | text (content : String)
  | comment (content : String)
  | cdata (content : String)
  | entityRef (name : String) (value : Option String)
  | pi (target content : String)
  deriving Repr

namespace XmlNode

/-- `node->name`: libxml2 names text and comment nodes too, CDATA sections not. -/
def nodeName : XmlNode → Option String
  | .element name _ _ => some name
  | .text _ => some "text"
  | .comment _ => some "comment"
  | .cdata _ => none
  | .entityRef name _ => some name
  | .pi target _ => some target

/-- The numeric value of `node->type`. -/
def nodeType : XmlNode → Nat
  | .element .. => 1
  | .text _ => 3
  | .cdata _ => 4
  | .entityRef .. => 5
  | .pi .. => 7
  | .comment _ => 8

/-- `node->xmlChildrenNode`, as the list of siblings it starts. -/
def xmlChildrenNode : XmlNode → List XmlNode
  | .element _ _ children => children
  | _ => []

/-- `xmlStrcmp(node->name, tag) == 0`, whatever the type of the node. -/
def nodeNamed (tag : String) (n : XmlNode) : Bool := n.nodeName == some tag

/-- `node->type == XML_ELEMENT_NODE` and the name is `tag`. -/
def elementNamed (tag : String) : XmlNode → Bool
  | .element name _ _ => name == tag
  | _ => false

/-- The node types that the validation skips everywhere. -/
def isSkipped : XmlNode → Bool
  | .text _ => true
  | .comment _ => true
  | _ => false

@[simp] theorem nodeNamed_element (tag name : String) (props : List (String × String))
    (children : List XmlNode) :
    nodeNamed tag (.element name props children) = (name == tag) := by
  simp [nodeNamed, nodeName]

theorem nodeNamed_of_elementNamed {tag : String} {n : XmlNode} (h : n.elementNamed tag = true) :
    n.nodeNamed tag = true := by
  cases n <;> simp_all [elementNamed]

/-- Skipped nodes have the names of their types only. -/
theorem nodeNamed_of_isSkipped {tag : String} {n : XmlNode} (h : n.isSkipped = true)
    (ht : tag ≠ "text") (hc : tag ≠ "comment") : n.nodeNamed tag = false := by
  cases n with
  | text _ => simp [nodeNamed, nodeName, ht.symm]
  | comment _ => simp [nodeNamed, nodeName, hc.symm]
  | _ => simp [isSkipped] at h

/-- An element carries one name. -/
theorem elementNamed_unique {a b : String} {n : XmlNode} (ha : n.elementNamed a = true)
    (hb : n.elementNamed b = true) : a = b := by
  cases n <;> simp_all [elementNamed]

theorem nodeNamed_ne {a b : String} (h : a ≠ b) {n : XmlNode} (ha : n.nodeNamed a = true) :
    n.nodeNamed b = false := by
  simp only [nodeNamed, beq_iff_eq] at ha
  simp [nodeNamed, ha, h]

theorem nodeNamed_unique {a b : String} {n : XmlNode} (ha : n.nodeNamed a = true)
    (hb : n.nodeNamed b = true) : a = b := by
  simp only [nodeNamed, beq_iff_eq] at ha hb
  exact Option.some.inj (ha.symm.trans hb)

end XmlNode

open XmlNode

/-- `xmlStrcat`, which starts from NULL and ignores a NULL addend. -/
def xmlStrcat : Option String → Option String → Option String
  | cur, none => cur
  | none, some add => some add
  | some cur, some add => some (cur ++ add)

/-- The text of the node itself that `xmlNodeListGetString` appends. -/
def nodeContent : XmlNode → Option String
  | .text content => some content
  | .cdata content => some content
  | .entityRef _ value => value
  | _ => none

/-- `xmlNodeListGetString(doc, list, 1)`: NULL when no sibling carries text. -/
def xmlNodeListGetString (list : List XmlNode) : Option String :=
  list.foldl (fun ret node => xmlStrcat ret (nodeContent node)) none

/-- `xmlGetProp` of an element. -/
def xmlGetProp (name : String) : XmlNode → Option String
  | .element _ props _ => (props.find? fun p => p.1 == name).map Prod.snd
  | _ => none

/-- The text of an element. -/
def XmlNode.value (n : XmlNode) : Option String := xmlNodeListGetString n.xmlChildrenNode

/-- An element that holds a text. -/
def XmlNode.textElement (name content : String) : XmlNode := .element name [] [.text content]

end NemeaSupervisor
