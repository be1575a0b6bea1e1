import Toolbox8.Base.Written
import Toolbox8.JsdocDomain

set_option autoImplicit false

namespace Toolbox8.Jsdoc

open Base

-- Generator and the arguments of its class that its declarations depend on. linkSource resolves and relativizes URIs.
structure Generator where
  doclets : List Doclet
  rootPackage : List String
  utilPackage : String
  implicits : List String
  linkSource : Meta → String

def jsAny : String := "scala.scalajs.js.Any"

def Generator.unionClass (g : Generator) : String := ".".intercalate (g.rootPackage ++ g.implicits)

-- The texts are with the generated names of the union types that they refer to; the generator keeps the strings only.
def Generator.mark (g : Generator) : String := g.unionClass ++ "."

-- A set of names is a list of names with different strings, in order, and the set of a UnionType has at least two.
inductive ResolvedType (mark : String) where
  | singleType (name : Text mark) (optional : Bool)
  | unionType (first second : Text mark) (others : List (Text mark)) (optional : Bool)
  | optionalType
  | unkownType (optional : Bool)
deriving DecidableEq, Repr

section Types

variable {mark : String}

def ResolvedType.toSet : ResolvedType mark → List (Text mark)
  | .singleType name _ => [name]
  | .unionType first second others _ => first :: second :: others
  | .optionalType => []
  | .unkownType _ => [Text.plain jsAny]

def ResolvedType.optional : ResolvedType mark → Bool
  | .singleType _ optional => optional
  | .unionType _ _ _ optional => optional
  | .optionalType => true
  | .unkownType optional => optional

-- ResolvedType.apply
def ofNames (names : List (Text mark)) (optional : Bool) : Except Stop (ResolvedType mark) :=
  match names with
  | [] => .error .thrown
  | [name] => .ok (.singleType name optional)
  | first :: second :: others => .ok (.unionType first second others optional)

def joinSets (t other : ResolvedType mark) : Except Stop (ResolvedType mark) :=
  ofNames (sortBy Text.string (distinctTexts (t.toSet ++ other.toSet))) (t.optional || other.optional)

def ResolvedType.join (t other : ResolvedType mark) : Except Stop (ResolvedType mark) :=
  match t, other with
  | .optionalType, .unkownType _ => .ok (.unkownType true)
  | .optionalType, .optionalType => .ok .optionalType
  | .unkownType optional, .unkownType otheropt => .ok (.unkownType (optional || otheropt))
  | .unkownType _, .optionalType => .ok (.unkownType true)
  | _, _ => joinSets t other

-- reduce(_ join _)
def joinAll : ResolvedType mark → List (ResolvedType mark) → Except Stop (ResolvedType mark)
  | t, [] => .ok t
  | t, other :: rest => t.join other >>= fun joined => joinAll joined rest

def reduceJoin : List (ResolvedType mark) → Except Stop (ResolvedType mark)
  | [] => .error .thrown
  | t :: rest => joinAll t rest

def generatedNameNoQuotes (names : List (Text mark)) : Text mark := Text.mkString "|" names

def generatedName (names : List (Text mark)) : Text mark := "`" ++ generatedNameNoQuotes names ++ "`"

-- The wrapper of a union type, unionClass with the generated name, is also its toSingle.
def ResolvedType.toSingle : ResolvedType mark → Text mark
  | .singleType name _ => name
  | .unionType first second others _ => (generatedName (first :: second :: others)).reference
  | .optionalType => "Unit"
  | .unkownType _ => Text.plain jsAny

def ResolvedType.toJsType (t : ResolvedType mark) : Text mark :=
  match t with
  | .optionalType => "Unit"
  | _ => if t.optional then "scala.scalajs.js.UndefOr[" ++ t.toSingle ++ "]" else t.toSingle

def ResolvedType.toJsParamType (t : ResolvedType mark) : Text mark :=
  if t.optional then t.toJsType ++ " = scala.scalajs.js.undefined" else t.toJsType

end Types

section Doclets

variable (g : Generator)

def Generator.realNamespaces : List (List String) :=
  g.doclets.filterMap (fun d =>
    match d with
    | .namespaceDoclet d => some (splitName d.longname)
    | _ => none)

def Generator.namespaces : List (List String) := g.realNamespaces ++ [[]]

def Generator.functions : List Function :=
  g.doclets.filterMap (fun d =>
    match d with
    | .functionDoclet d => if d.ignore then none else some d
    | _ => none)

def Generator.interfaces : List Interface :=
  g.doclets.filterMap (fun d =>
    match d with
    | .interfaceDoclet d => some d
    | _ => none)

def Generator.classes : List Class :=
  g.doclets.filterMap (fun d =>
    match d with
    | .classDoclet d => some d
    | _ => none)

def isGoogTypedef (d : Member) : Bool := decide (d.docMeta.codeValue = some "goog.typedef")

def Generator.typeAliases : List Member :=
  g.doclets.filterMap (fun d =>
    match d with
    | .memberDoclet d => if isGoogTypedef d then some d else none
    | _ => none)

def Generator.typedefs : List TypedefLike :=
  g.doclets.filterMap (fun d =>
    match d with
    | .typedefDoclet d => some (.typedefDoclet d)
    | .memberDoclet d => if isGoogTypedef d then some (.memberDoclet d) else none
    | _ => none)

def Generator.members : List Member :=
  g.doclets.filterMap (fun d =>
    match d with
    | .memberDoclet d => if d.ignore then none else some d
    | _ => none)

def Generator.realTypedefs : List TypedefLike := g.typedefs.filter (fun td => decide (td.type.names ≠ ["function"]))

def Generator.functionTypedefs : List TypedefLike := g.typedefs.filter (fun td => decide (td.type.names = ["function"]))

-- The maps are built with breakOut: the last of the entries of one name stays.
def lookup {α : Type} (entries : List (String × α)) (name : String) : Option α :=
  (entries.reverse.find? (fun entry => entry.1 = name)).map Prod.snd

def Generator.typeAliasByName : String → Option Member := lookup (g.typeAliases.map (fun td => (td.longname, td)))

def Generator.unionTypedefEntries : List (String × DocletType) :=
  g.realTypedefs.filterMap (fun td =>
    match td with
    | .typedefDoclet td =>
        if td.type.names ≠ [] ∧ td.type.names ≠ ["Object"] then some (td.longname, td.type) else none
    | .memberDoclet _ => none)

def Generator.unionTypedefs : String → Option DocletType := lookup g.unionTypedefEntries

def Generator.definedTypeRef (longname : String) : String := ".".intercalate (g.rootPackage ++ splitName longname)

-- init and last of an array without elements throw; constructible below says when they do not.
def Generator.functionTypeRef (longname : String) : String :=
  ".".intercalate (g.rootPackage ++ (splitName longname).dropLast ++ [g.utilPackage] ++ (splitName longname).getLast?.toList)

def Generator.definedTypesByNameMap : String → Option (ResolvedType g.mark) :=
  lookup
    (((g.classes.map Class.longname ++ g.interfaces.map Interface.longname ++ g.realTypedefs.map TypedefLike.longname).map
        (fun longname => (longname, .singleType (g.definedTypeRef longname) false))) ++
      g.functionTypedefs.map (fun dt => (dt.longname, .singleType (g.functionTypeRef dt.longname) false)))

end Doclets

-- A dot of a regular expression matches every character but a line terminator.
def lineTerminator (c : Char) : Bool := c.toNat ∈ [10, 13, 133, 8232, 8233]

def dots (cs : List Char) : Bool := cs.all (fun c => !lineTerminator c)

def stripMark : List Char → List Char
  | '!' :: rest => rest
  | cs => cs

-- Array\.<!?(.*)>
def arrayPattern1 (name : String) : Option String :=
  if "Array.<".toList.isPrefixOf name.toList then
    let inside := name.toList.drop 7
    if inside.getLast? = some '>' then
      let element := stripMark inside.dropLast
      if dots element then some (String.ofList element) else none
    else none
  else none

-- (.*)\[\]
def arrayPattern2 (name : String) : Option String :=
  if "[]".toList.isSuffixOf name.toList then
    let element := name.toList.take (name.toList.length - 2)
    if dots element then some (String.ofList element) else none
  else none

-- !?(.*), and a name that it does not match stays as it is.
def typeName (n : String) : String := if dots (stripMark n.toList) then String.ofList (stripMark n.toList) else n

def builtins {mark : String} (name : String) : Option (ResolvedType mark) :=
  if name = "string" then some (.singleType "java.lang.String" false)
  else if name = "number" then some (.singleType "scala.Double" false)
  else if name = "Element" then some (.singleType "org.scalajs.dom.raw.Element" false)
  else if name = "HTMLCanvas" then some (.singleType "org.scalajs.dom.raw.HTMLCanvasElement" false)
  else if name = "boolean" then some (.singleType "scala.Boolean" false)
  else if name = "undefined" then some .optionalType
  else none

def arrayElement (name : String) : Option String := (arrayPattern1 name).or (arrayPattern2 name)

abbrev Generator.Resolved (g : Generator) : Type := Except Stop (ResolvedType g.mark)

abbrev Generator.Found (g : Generator) : Type := Except Stop (Option (ResolvedType g.mark))

section Recursion

variable (g : Generator) (resolve : String → g.Resolved)

-- The functions of the recursion, over the resolve that they call.
def Generator.resolveSingleBy (name : String) : Except Stop (Text g.mark) := (resolve name).map ResolvedType.toJsType

def Generator.resolveArrayBy (name : String) : g.Found :=
  match arrayElement name with
  | some element => do
      let inner ← g.resolveSingleBy resolve element
      .ok (some (.singleType ("scala.scalajs.js.Array[" ++ inner ++ "]") false))
  | none => .ok none

def Generator.resolveUnionBy (t : DocletType) : g.Resolved := do
  let resolved ← (t.names.map typeName).mapM resolve
  reduceJoin resolved

def Generator.definedTypesByNameBy (name : String) : g.Found :=
  match g.typeAliasByName name with
  | some ta => (g.resolveUnionBy resolve ta.type).map some
  | none => .ok (g.definedTypesByNameMap name)

def Generator.resolveDefinedBy (name : String) : g.Found :=
  match g.unionTypedefs name with
  | some t => (g.resolveUnionBy resolve t).map some
  | none => g.definedTypesByNameBy resolve name

def Generator.resolveBy (name : String) : g.Resolved :=
  match builtins name with
  | some builtin => .ok builtin
  | none => do
      let array ← g.resolveArrayBy resolve name
      match array with
      | some t => .ok t
      | none => do
          let defined ← g.resolveDefinedBy resolve name
          .ok (defined.getD (.unkownType false))

end Recursion

section Resolution

variable (g : Generator)

-- The depth of the calls of resolve is bounded by the fuel.
def Generator.resolve : Nat → String → g.Resolved
  | 0, _ => .error .outOfFuel
  | fuel + 1, name => g.resolveBy (Generator.resolve fuel) name

variable (fuel : Nat)

def Generator.resolveDefined (name : String) : g.Found := g.resolveDefinedBy (g.resolve fuel) name

def Generator.resolveUnion (t : DocletType) : g.Resolved := g.resolveUnionBy (g.resolve fuel) t

def Generator.resolveType (name : DocletType) (optional : Bool) : g.Resolved := do
  let utypes ← g.resolveUnion fuel name
  if optional then utypes.join .optionalType else .ok utypes

def Generator.resolveParam (param : Param) : g.Resolved := g.resolveType fuel param.type param.isOptional

def Generator.resolveReturn (ret : Option Return) : g.Resolved :=
  match ret with
  | some ret => g.resolveType fuel ret.type false
  | none => .ok (.singleType "Unit" false)

end Resolution

end Toolbox8.Jsdoc
