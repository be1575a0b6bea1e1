import Mathlib.Logic.Function.Basic
import Toolbox8.DBusNames

set_option autoImplicit false

namespace Toolbox8.DBus

open Base

-- The parts of an introspection document that the reflector reads; an attribute that is missing is empty.
structure ArgNode where
  name : String
  typeString : String
  direction : String
deriving DecidableEq, Repr

structure MethodNode where
  name : String
  args : List ArgNode
deriving DecidableEq, Repr

structure PropertyNode where
  name : String
  access : String
  typeString : String
deriving DecidableEq, Repr

structure InterfaceNode where
  name : String
  methods : List MethodNode
  properties : List PropertyNode
deriving DecidableEq, Repr

structure Introspection where
  interfaces : List InterfaceNode
  nodes : List String
deriving DecidableEq, Repr

structure DBArg where
  name : String
  typeString : String
deriving DecidableEq, Repr

structure DBMethod where
  name : String
  ins : List DBArg
  out : List DBArg
deriving DecidableEq, Repr

inductive DBAccess where
  | dbRead
  | dbWrite
  | dbReadWrite
deriving DecidableEq, Repr

structure DBProperty where
  name : String
  access : DBAccess
  typeString : String
deriving DecidableEq, Repr

structure DBInstance where
  bus : String
  path : String
deriving DecidableEq, Repr

structure DBInterface where
  name : DBInterfaceName
  methods : List DBMethod
  properties : List DBProperty
  instances : List DBInstance
deriving DecidableEq, Repr

-- The map of interfaces as its get; updated is an update of the function.
structure DBReflection where
  debug : List String
  interfaces : DBInterfaceName → Option DBInterface

def DBReflection.empty : DBReflection := ⟨[], fun _ => none⟩

def DBTuple.max : Nat := 3

def dbArg (n : ArgNode) : DBArg := ⟨n.name, n.typeString⟩

-- none is the exception of require.
def reflectMethod (n : MethodNode) : Option DBMethod :=
  let (o, i) := n.args.partition (fun arg => arg.direction = "out")
  if o.length ≤ DBTuple.max then some ⟨n.name, i.map dbArg, o.map dbArg⟩ else none

def dbAccess (access : String) : Option DBAccess :=
  if access = "read" then some .dbRead
  else if access = "write" then some .dbWrite
  else if access = "readwrite" then some .dbReadWrite
  else none

def reflectProperty (n : PropertyNode) : Option DBProperty :=
  (dbAccess n.access).map (fun access => ⟨n.name, access, n.typeString⟩)

def reflectInterface (name : DBInterfaceName) (ifaceNode : InterfaceNode) (object : DBInstance) : Option DBInterface := do
  let methods ← (sortBy MethodNode.name ifaceNode.methods).mapM reflectMethod
  let props ← (sortBy PropertyNode.name ifaceNode.properties).mapM reflectProperty
  some ⟨name, methods, props, [object]⟩

def builtin : List DBInterfaceName :=
  ["org.freedesktop.DBus.Introspectable", "org.freedesktop.DBus.Properties"].filterMap DBInterfaceName.fromName

-- The instances of an interface that is known already, or a new interface from this listing of it.
def updatedInterface (name : DBInterfaceName) (ifaceNode : InterfaceNode) (object : DBInstance) :
    Option DBInterface → Option DBInterface
  | some iface2 => some { iface2 with instances := iface2.instances ++ [object] }
  | none => reflectInterface name ifaceNode object

def addInterface (object : DBInstance) (acc2 : DBReflection) (iface : InterfaceNode) : Option DBReflection := do
  let ifaceName ← DBInterfaceName.fromName iface.name
  if ifaceName ∈ builtin then some acc2
  else do
    let added ← updatedInterface ifaceName iface object (acc2.interfaces ifaceName)
    some { acc2 with interfaces := Function.update acc2.interfaces ifaceName (some added) }

section Connection

variable (conn : String → String → Option Introspection)

-- The fuel bounds the depth of the objects; none is an exception, or fuel that has run out.
def obj (service : String) : Nat → DBReflection → String → Option DBReflection
  | 0, _, _ => none
  | fuel + 1, acc, objectName => do
      let introspection ← conn service objectName
      let ifacesAdded ← introspection.interfaces.foldlM (addInterface ⟨service, objectName⟩) acc
      introspection.nodes.foldlM (fun acc2 nodeName => obj service fuel acc2 (subNodeName objectName nodeName)) ifacesAdded

def run (fuel : Nat) (services : List String) : Option DBReflection :=
  services.foldlM (fun acc service => obj conn service fuel acc "/") .empty

end Connection

-- The objects below an object: the first of them with what is below it, and its siblings.
inductive Forest where
  | nil
  | node (name : String) (interfaces : List InterfaceNode) (children siblings : Forest)
deriving DecidableEq, Repr

structure DBObject where
  interfaces : List InterfaceNode
  children : Forest
deriving DecidableEq, Repr

def Forest.names : Forest → List String
  | .nil => []
  | .node name _ _ siblings => name :: siblings.names

def Forest.find (wanted : String) : Forest → Option DBObject
  | .nil => none
  | .node name interfaces children siblings => if name = wanted then some ⟨interfaces, children⟩ else siblings.find wanted

def Forest.height : Forest → Nat
  | .nil => 0
  | .node _ _ children siblings => Nat.max (children.height + 1) siblings.height

def DBObject.descend : DBObject → List String → Option DBObject
  | o, [] => some o
  | o, name :: rest => (o.children.find name).bind (fun child => child.descend rest)

-- Services that answer for the objects of their trees.
def introspect (bus : String → Option DBObject) (service path : String) : Option Introspection := do
  let root ← bus service
  let o ← root.descend (namesOf path)
  some ⟨o.interfaces, o.children.names⟩

def LegalInterface (node : InterfaceNode) : Prop :=
  WellNamed node.name ∧ (∀ m ∈ node.methods, (m.args.filter (fun arg => arg.direction = "out")).length ≤ DBTuple.max) ∧
    ∀ p ∈ node.properties, p.access ∈ ["read", "write", "readwrite"]

def LegalInterfaces (nodes : List InterfaceNode) : Prop :=
  (nodes.map (fun node => node.name)).Nodup ∧ ∀ node ∈ nodes, LegalInterface node

def Forest.Legal : Forest → Prop
  | .nil => True
  | .node name interfaces children siblings =>
      NodeName name ∧ name ∉ siblings.names ∧ LegalInterfaces interfaces ∧ children.Legal ∧ siblings.Legal

def DBObject.Legal (o : DBObject) : Prop := LegalInterfaces o.interfaces ∧ o.children.Legal

def Forest.objects (service : String) (above : List String) : Forest → List (DBInstance × List InterfaceNode)
  | .nil => []
  | .node name interfaces children siblings =>
      (⟨service, pathOf (above ++ [name])⟩, interfaces) ::
        (children.objects service (above ++ [name]) ++ siblings.objects service above)

def DBObject.objects (service : String) (o : DBObject) : List (DBInstance × List InterfaceNode) :=
  (⟨service, pathOf []⟩, o.interfaces) :: o.children.objects service []

def objects (bus : String → Option DBObject) (services : List String) : List (DBInstance × List InterfaceNode) :=
  services.flatMap (fun service => ((bus service).map (fun o => o.objects service)).getD [])

def addObject (acc : DBReflection) (object : DBInstance × List InterfaceNode) : Option DBReflection :=
  object.2.foldlM (addInterface object.1) acc

end Toolbox8.DBus
