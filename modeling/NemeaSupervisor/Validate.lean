import NemeaSupervisor.CText
import NemeaSupervisor.Table

/-!
# Validation of a configuration document

`validate_configuration` and the check functions it calls. A check function
walks the children of one element, counts the kinds of elements it finds and
tests their texts; it differs from the others in its rules only. The results
carry the messages the supervisor prints; the source returns 0 for `ok` and
-1 for `error`.
-/

namespace NemeaSupervisor

open CText XmlNode

/-- A kind of child element: its tag, whether at most one is allowed, and the
test of its text (`key`, NULL when the element is empty). -/
structure ChildRule where
  tag : String
  once : Bool
  check : Option String → Except String Unit

def tooMuch (tag parent : String) : String :=
  s!"[ERROR] Too much \"{tag}\" elements in \"{parent}\" element!\n"

def emptyValue (tag : String) : String := s!"[ERROR] Empty value in \"{tag}\" element!\n"

def emptyElement (tag : String) : String := s!"[ERROR] Empty element \"{tag}\".\n"

def missingElement (tag parent : String) : String :=
  s!"[ERROR] Missing \"{tag}\" element in \"{parent}\" element!\n"

def unexpectedNode (parent : String) (n : XmlNode) : String :=
  let name := n.nodeName.getD "(null)"
  s!"[ERROR] Unexpected node (type: {n.nodeType}, name: {name}) in \"{parent}\" element!\n"

/-- One iteration of a check function; `seen` holds the tags whose entry of
`basic_elements` is 1. -/
def checkChild (parent : String) (rules : List ChildRule) (seen : List String) (c : XmlNode) :
    Except String (List String) :=
  match rules.find? fun r => c.elementNamed r.tag with
  | some r =>
    if r.once && seen.contains r.tag then throw (tooMuch r.tag parent)
    else do
      r.check c.value
      pure (if r.once then r.tag :: seen else seen)
  | none => if c.isSkipped then pure seen else throw (unexpectedNode parent c)

def checkChildren (parent : String) (rules : List ChildRule) (children : List XmlNode) :
    Except String (List String) :=
  children.foldlM (checkChild parent rules) []

def checkAny (_ : Option String) : Except String Unit := pure ()

def checkNonEmpty (tag : String) : Option String → Except String Unit
  | some _ => pure ()
  | none => throw (emptyValue tag)

def checkOneOf (tag expected : String) (allowed : List String) :
    Option String → Except String Unit
  | some key =>
    if allowed.contains key then pure ()
    else throw s!"[ERROR] Expected one of {expected} values in \"{tag}\" element!\n"
  | none => throw (emptyValue tag)

def checkEnabled : Option String → Except String Unit :=
  checkOneOf "enabled" "\x7btrue,false\x7d" ["true", "false"]

def checkRestarts : Option String → Except String Unit
  | some key =>
    match sscanfInt key with
    | some number =>
      if number < 0 || number > maxModuleRestartsNum then throw restartsRange else pure ()
    | none => throw restartsRange
  | none => throw (emptyValue "module-restarts")
where
  restartsRange : String :=
    s!"[ERROR] Value in \"module-restarts\" element must be positive number in range <0,{maxModuleRestartsNum}>!\n"

/-- The name tests against the linked list of the names found before. -/
def checkUnique (what : String) (names : List String) : Option String → Except String Unit
  | some key =>
    if names.contains key then throw s!"[ERROR] Duplicated {what} name \"{key}\"\n" else pure ()
  | none => throw (emptyValue "name")

def supervisorRules : List ChildRule := [⟨"module-restarts", true, checkRestarts⟩]

/-- `reload_check_supervisor_element`. -/
def reloadCheckSupervisorElement (children : List XmlNode) : Except String Unit := do
  let _ ← checkChildren "supervisor" supervisorRules children

def interfaceRules : List ChildRule :=
  [⟨"note", true, checkNonEmpty "note"⟩,
   ⟨"type", true, checkOneOf "type" "\x7bTCP,UNIXSOCKET,FILE,BLACKHOLE,TLS\x7d"
      ["TCP", "UNIXSOCKET", "FILE", "BLACKHOLE", "TLS"]⟩,
   ⟨"direction", true, checkOneOf "direction" "\x7bIN,OUT\x7d" ["IN", "OUT"]⟩,
   ⟨"params", true, checkAny⟩]

/-- `reload_check_interface_element`. -/
def reloadCheckInterfaceElement (children : List XmlNode) : Except String Unit := do
  let _ ← checkChildren "interface" interfaceRules children

/-- The text of the first child element of this kind. -/
def childValue (tag : String) (children : List XmlNode) : Option String :=
  (children.find? (elementNamed tag)).bind XmlNode.value

def moduleRules (names : List String) : List ChildRule :=
  [⟨"name", true, checkUnique "module" names⟩,
   ⟨"enabled", true, checkEnabled⟩,
   ⟨"path", true, checkNonEmpty "path"⟩,
   ⟨"trapinterfaces", true, checkAny⟩,
   ⟨"module-restarts", true, checkRestarts⟩,
   ⟨"params", true, checkAny⟩]

/-- `reload_check_module_element`; the result is the extended list of names. -/
def reloadCheckModuleElement (names : List String) (children : List XmlNode) :
    Except String (List String) := do
  let seen ← checkChildren "module" (moduleRules names) children
  if !seen.contains "name" then throw (missingElement "name" "module")
  else if !seen.contains "path" then throw (missingElement "path" "module")
  else if !seen.contains "enabled" then throw (missingElement "enabled" "module")
  else pure (names ++ (childValue "name" children).toList)

def modulesRules (names : List String) : List ChildRule :=
  [⟨"name", true, checkUnique "profile" names⟩,
   ⟨"enabled", true, checkEnabled⟩,
   ⟨"module", false, checkAny⟩]

/-- `reload_check_modules_element`; the result is the extended list of names. -/
def reloadCheckModulesElement (names : List String) (children : List XmlNode) :
    Except String (List String) := do
  let seen ← checkChildren "modules" (modulesRules names) children
  if !seen.contains "name" then throw (missingElement "name" "modules")
  else if !seen.contains "enabled" then throw (missingElement "enabled" "modules")
  else pure (names ++ (childValue "name" children).toList)

/-! The nested loops of `validate_configuration`, innermost first. -/

def validateInterface (ifcElem : XmlNode) : Except String Unit :=
  if ifcElem.elementNamed "interface" then
    if ifcElem.xmlChildrenNode.isEmpty then throw (emptyElement "interface")
    else reloadCheckInterfaceElement ifcElem.xmlChildrenNode
  else if ifcElem.isSkipped then pure ()
  else throw (unexpectedNode "trapinterfaces" ifcElem)

def validateTrapinterfaces (moduleAtrElem : XmlNode) : Except String Unit :=
  if moduleAtrElem.elementNamed "trapinterfaces" then
    moduleAtrElem.xmlChildrenNode.forM validateInterface
  else pure ()

def validateModule (names : List String) (moduleElem : XmlNode) : Except String (List String) :=
  if moduleElem.elementNamed "module" then
    if moduleElem.xmlChildrenNode.isEmpty then throw (emptyElement "module")
    else do
      let names ← reloadCheckModuleElement names moduleElem.xmlChildrenNode
      moduleElem.xmlChildrenNode.forM validateTrapinterfaces
      pure names
  else pure names

structure ValidateState where
  supervisorElemCnt : Nat
  profileNames : List String
  moduleNames : List String

def validateNode (st : ValidateState) (currentNode : XmlNode) : Except String ValidateState :=
  if currentNode.elementNamed "supervisor" then
    if st.supervisorElemCnt + 1 > 1 then throw "[ERROR] Too much \"supervisor\" elements!\n"
    else if currentNode.xmlChildrenNode.isEmpty then throw (emptyElement "supervisor")
    else do
      reloadCheckSupervisorElement currentNode.xmlChildrenNode
      pure { st with supervisorElemCnt := st.supervisorElemCnt + 1 }
  else if currentNode.elementNamed "modules" then
    if currentNode.xmlChildrenNode.isEmpty then throw (emptyElement "modules")
    else do
      let profileNames ← reloadCheckModulesElement st.profileNames currentNode.xmlChildrenNode
      let moduleNames ← currentNode.xmlChildrenNode.foldlM validateModule st.moduleNames
      pure { st with profileNames, moduleNames }
  else if currentNode.isSkipped then pure st
  else throw (unexpectedNode "nemea-supervisor" currentNode)

/-- `validate_configuration` of the root element the parser found, if any. -/
def validateConfiguration : Option XmlNode → Except String Unit
  | none => throw "[ERROR] Empty document.\n"
  | some rootNode =>
    if !rootNode.nodeNamed "nemea-supervisor" then
      throw ("[ERROR] Document of the wrong type, missing root element " ++
        "\"nemea-supervisor\".\n")
    else if rootNode.xmlChildrenNode.isEmpty then
      throw "[ERROR] There is no child element of the root element \"nemea-supervisor\".\n"
    else do
      let _ ← rootNode.xmlChildrenNode.foldlM validateNode ⟨0, [], []⟩

end NemeaSupervisor
