import Toolbox8.JsdocResolution

set_option autoImplicit false

namespace Toolbox8.Jsdoc

open Base

def reserved : List String := ["clone", "toString"]

def keyword : List String := ["type", "val", "object", "match"]

def isReserved (name : String) : Bool := decide (name ∈ reserved)

def id (name : String) : String :=
  if isReserved name then name ++ "_" else if name ∈ keyword then "`" ++ name ++ "`" else name

section Unions

variable {mark : String}

def ResolvedType.unionNames : ResolvedType mark → Option (List (Text mark))
  | .unionType first second others _ => some (first :: second :: others)
  | _ => none

-- What the writer of a file has written and the union types that it returns.
abbrev Declarations (mark : String) : Type := Written mark (ResolvedType mark)

def unions (w : Declarations mark) : Declarations mark := ⟨w.lines, w.reports.filter (fun t => t.unionNames.isSome)⟩

end Unions

def lastName (ns : List String) : String := ns.getLast?.getD ""

def isPrivate (access : Option String) : Bool := decide (access = some "private")

section Groups

variable (g : Generator)

def Generator.namespaceByParent (parent : List String) : List (List String) :=
  g.realNamespaces.filter (fun ns => decide (ns.dropLast = parent))

def Generator.functionByParent (parent : List String) : List Function :=
  g.functions.filter (fun o => decide (packageList o.memberof = parent))

def Generator.classByParent (parent : List String) : List Class :=
  g.classes.filter (fun o => decide (packageList o.memberof = parent))

def Generator.interfacesByParent (parent : List String) : List Interface :=
  g.interfaces.filter (fun o => decide (packageList o.memberof = parent))

def Generator.typedefByParent (parent : List String) : List TypedefLike :=
  g.typedefs.filter (fun o => decide (packageList o.memberof = parent))

def Generator.memberByParent (parent : List String) : List Member :=
  g.members.filter (fun o => decide (packageList o.memberof = parent))

def Generator.packageJoin (pkg : List String) : String := ".".intercalate (g.rootPackage ++ pkg)

end Groups

section Selections

variable (g : Generator)

-- The conditions of the loops of the writers.
def Generator.subpackageNames (nsName : List String) : List String := (g.namespaceByParent nsName).map lastName

def undefinedElement (name : String) : Bool := "[undefined]".toList.isSuffixOf name.toList

def Generator.staticMembers (nsName : List String) : List Member :=
  (g.memberByParent nsName).filter (fun m =>
    !m.inherited && !m.undocumented && decide (m.scope = some "static") && !undefinedElement m.name &&
      decide (m.name ∉ g.subpackageNames nsName))

def Generator.functionTypes (nsName : List String) : List Typedef :=
  ((g.typedefByParent nsName).filterMap TypedefLike.typedefOnly).filter (fun m => decide (m.type.names = ["function"]))

def ownFunction (fn : Function) : Bool := !fn.undocumented && !fn.inherited && !fn.override && fn.overrides.isNone

def Generator.classFunctions (cl : Class) : List Function :=
  (g.functionByParent (splitName cl.longname)).filter (fun fn => ownFunction fn && decide (fn.scope = some "instance"))

def Generator.interfaceFunctions (cl : Interface) : List Function :=
  (g.functionByParent (splitName cl.longname)).filter (fun fn => ownFunction fn && decide (fn.scope ≠ some "inner"))

def Generator.classStatics (cl : Class) : List Member :=
  (g.memberByParent (splitName cl.longname)).filter (fun m =>
    !isPrivate m.access && decide (m.scope = some "static") && !undefinedElement m.name && !m.undocumented)

-- The name, the access and the meta of the classes and the interfaces in a class.
def Generator.innerTypes (cl : Class) : List (String × Option String × Meta) :=
  ((g.classByParent (splitName cl.longname)).map (fun m => (m.name, m.access, m.docMeta)) ++
    (g.interfacesByParent (splitName cl.longname)).map (fun m => (m.name, m.access, m.docMeta))).filter
      (fun m => !isPrivate m.2.1)

def Generator.packageAliases (ns : List String) : List TypedefLike :=
  (g.typedefByParent ns).filter (fun m => decide (m.type.names ≠ ["Object"]) && decide (m.type.names ≠ ["function"]))

def Generator.objectTypedefs (ns : List String) : List Typedef :=
  ((g.typedefByParent ns).filterMap TypedefLike.typedefOnly).filter (fun td => decide (td.type.names = ["Object"]))

end Selections

section Writers

variable (g : Generator) (fuel : Nat)

def Generator.source (level : Nat) (docMeta : Meta) : Declarations g.mark :=
  write g.mark level ("// " ++ g.linkSource docMeta)

def jsNameOf {mark : String} (level : Nat) (name : String) : Declarations mark :=
  write mark level ("@scala.scalajs.js.annotation.JSName(\"" ++ name ++ "\")")

def jsName {mark : String} (level : Nat) (name : String) : Declarations mark :=
  if isReserved name then jsNameOf level name else .empty

def jsNative {mark : String} (level : Nat) : Declarations mark := write mark level "@scala.scalajs.js.native"

def Generator.writtenParams (before : String) (params : List Param) :
    Except Stop (List (ResolvedType g.mark × Text g.mark)) :=
  params.mapM (fun p =>
    (g.resolveParam fuel p).map (fun t => (t, before ++ id p.name ++ " : " ++ t.toJsParamType)))

def Generator.writeStatic (level : Nat) (fn : Function) : Except Stop (Declarations g.mark) := do
  let t11str ← g.writtenParams fuel "    " fn.params
  let t2 ← g.resolveReturn fuel fn.returns
  .ok (g.source level fn.docMeta ++ jsName level fn.name ++ write g.mark level ("def " ++ id fn.name ++ "(") ++
    write g.mark level (Text.mkString ",\n" (t11str.map Prod.snd)) ++
    write g.mark level (") : " ++ t2.toJsType ++ " = scala.scalajs.js.native") ++ write g.mark level "" ++
    yields (t11str.map Prod.fst ++ [t2]))

def Generator.writeStaticMember (level : Nat) (m : Member) : Except Stop (Declarations g.mark) := do
  let t ← g.resolveType fuel m.type false
  .ok (g.source level m.docMeta ++ jsName level m.name ++
    write g.mark level ("val " ++ id m.name ++ " : " ++ t.toJsType ++ " = scala.scalajs.js.native") ++ yields [t])

def Generator.writeSubpackage (level : Nat) (ns : List String) : Except Stop (Declarations g.mark) :=
  .ok (jsName level (lastName ns) ++
    write g.mark level ("val " ++ id (lastName ns) ++ " : " ++ g.packageJoin (ns ++ [g.utilPackage]) ++
      " = scala.scalajs.js.native"))

def Generator.writeClassStatics (nsName : List String) (level : Nat) (cl : Class) : Except Stop (Declarations g.mark) :=
  .ok (g.source level cl.docMeta ++ jsName level cl.name ++
    write g.mark level ("val " ++ id cl.name ++ " : " ++ g.packageJoin (nsName ++ [cl.name] ++ ["statics"]) ++
      " = scala.scalajs.js.native"))

def Generator.writeStatics (nsName : List String) (level : Nat) : Except Stop (Declarations g.mark) := do
  let t1s ← writeEach (g.writeStatic fuel level) (g.functionByParent nsName)
  let t2s ← writeEach (g.writeStaticMember fuel level) (g.staticMembers nsName)
  let subpackages ← writeEach (g.writeSubpackage level) (g.namespaceByParent nsName)
  let classes ← writeEach (g.writeClassStatics nsName level) (g.classByParent nsName)
  .ok (unions (t1s ++ t2s ++ write g.mark level "// subpackages" ++ subpackages ++ classes))

def Generator.writeFunctionParam (level : Nat) (p : Param) : Except Stop (Declarations g.mark) := do
  let t ← g.resolveParam fuel p
  .ok (write g.mark level ("  " ++ t.toJsType ++ ",") ++ yields [t])

def Generator.writeFunctionType (level : Nat) (m : Typedef) : Except Stop (Declarations g.mark) := do
  let t11 ← writeEach (g.writeFunctionParam fuel level) m.params
  let t12 ← g.resolveReturn fuel m.returns
  .ok (g.source level m.docMeta ++
    write g.mark level ("type " ++ id m.name ++ " = scala.scalajs.js.Function" ++ toString m.params.length ++ "[") ++ t11 ++
    write g.mark level ("  " ++ t12.toJsType) ++ write g.mark level "]" ++ yields [t12])

def Generator.writeFunctionTypes (nsName : List String) (level : Nat) : Except Stop (Declarations g.mark) := do
  let t1 ← writeEach (g.writeFunctionType fuel level) (g.functionTypes nsName)
  .ok (unions t1)

-- A function of a class or an interface.
def Generator.writeFunction (level : Nat) (defStart : String) (fn : Function) : Except Stop (Declarations g.mark) := do
  let t21str ← g.writtenParams fuel "\n  " fn.params
  let t22 ← g.resolveReturn fuel fn.returns
  let defParams := Text.mkString "," (t21str.map Prod.snd)
  let defEnd := ") : " ++ t22.toJsType ++ " = scala.scalajs.js.native"
  .ok (g.source level fn.docMeta ++ jsName level fn.name ++
    (if defParams.string.isEmpty then write g.mark level (defStart ++ defEnd)
      else write g.mark level (defStart ++ defParams) ++ write g.mark level defEnd) ++
    write g.mark level "" ++ yields (t21str.map Prod.fst ++ [t22]))

def Generator.writeClassFunction (level : Nat) (fn : Function) : Except Stop (Declarations g.mark) :=
  let defStart0 := "def " ++ id fn.name ++ "("
  g.writeFunction fuel level (if fn.implements.isEmpty then defStart0 else "override " ++ defStart0) fn

def Generator.writeInterfaceFunction (level : Nat) (fn : Function) : Except Stop (Declarations g.mark) :=
  g.writeFunction fuel level ("def " ++ id fn.name ++ "(") fn

-- The members of a class whose constructor has no parameters are not written.
def Generator.writeClassMembers (cl : Class) (level : Nat) : Except Stop (Declarations g.mark) :=
  if cl.params.isEmpty then .ok .empty
  else do
    let t1str ← g.writtenParams fuel "  " cl.params
    let t2s ← writeEach (g.writeClassFunction fuel level) (g.classFunctions cl)
    .ok (unions (write g.mark level "def this(" ++ write g.mark level (Text.mkString ",\n" (t1str.map Prod.snd)) ++
      write g.mark level ") = this()" ++ write g.mark level "" ++ yields (t1str.map Prod.fst) ++ t2s))

def Generator.writeInterfaceMembers (cl : Interface) (level : Nat) : Except Stop (Declarations g.mark) := do
  let t1 ← writeEach (g.writeInterfaceFunction fuel level) (g.interfaceFunctions cl)
  .ok (unions t1)

def Generator.writeAlias (level : Nat) (m : TypedefLike) : Except Stop (Declarations g.mark) := do
  let t ← g.resolveUnion fuel m.type
  .ok (write g.mark level ("type " ++ id m.name ++ " = " ++ t.toJsType) ++ yields [t])

def Generator.writeInnerType (level : Nat) (m : String × Option String × Meta) : Except Stop (Declarations g.mark) :=
  .ok (g.source level m.2.2 ++ jsNative level ++
    write g.mark level ("trait " ++ id m.1 ++ " extends scala.scalajs.js.Object"))

def Generator.writeClassStatic (level : Nat) (m : Member) : Except Stop (Declarations g.mark) := do
  let t ← g.resolveType fuel m.type false
  .ok (g.source level m.docMeta ++ jsName level m.name ++
    write g.mark level ("var " ++ id m.name ++ " : " ++ t.toJsType ++ " = scala.scalajs.js.native") ++
    write g.mark level "" ++ yields [t])

def Generator.writeClassStaticMembers (cl : Class) (level : Nat) : Except Stop (Declarations g.mark) := do
  let t1 ← writeEach (g.writeAlias fuel level) (g.typedefByParent (splitName cl.longname))
  let inner ← writeEach (g.writeInnerType level) (g.innerTypes cl)
  let t2 ← writeEach (g.writeClassStatic fuel (level + 1)) (g.classStatics cl)
  .ok (unions (t1 ++ inner ++ jsNative level ++
    write g.mark level "trait statics extends scala.scalajs.js.Object \x7b" ++ t2 ++ write g.mark level "\x7d"))

-- What a class extends or implements; a name that is not defined is left out.
def Generator.writtenParent (au : String) : Except Stop (Option (Text g.mark)) :=
  (g.resolveDefined fuel au).map (fun defined => defined.map ResolvedType.toJsType)

def Generator.writeClass (cl : Class) (level : Nat) : Except Stop (Declarations g.mark) := do
  let superClass ← cl.augments.toList.mapM (g.writtenParent fuel)
  let imps ← cl.implements.mapM (g.writtenParent fuel)
  let t1 ← g.writeClassMembers fuel cl (level + 1)
  let t2 ← g.writeClassStaticMembers fuel cl (level + 1)
  let parents := (superClass.reduceOption.head?.getD "scala.scalajs.js.Object") :: imps.reduceOption
  .ok (g.source level cl.docMeta ++ jsNative level ++ jsNameOf level cl.longname ++
    write g.mark level ("class " ++ cl.name ++ " extends " ++ Text.mkString " with " parents ++ " \x7b") ++
    write g.mark level "" ++ t1 ++ write g.mark level "\x7d" ++ write g.mark level ("object " ++ cl.name ++ " \x7b") ++
    t2 ++ write g.mark level "\x7d")

def Generator.writeInterface (cl : Interface) (level : Nat) : Except Stop (Declarations g.mark) := do
  let t1 ← g.writeInterfaceMembers fuel cl (level + 1)
  .ok (g.source level cl.docMeta ++ jsNative level ++ jsNameOf level cl.longname ++
    write g.mark level ("trait " ++ cl.name ++ " extends scala.scalajs.js.Object \x7b") ++ write g.mark level "" ++ t1 ++
    write g.mark level "\x7d")

def Generator.writeField (level : Nat) (m : Member) : Except Stop (Declarations g.mark) := do
  let t ← g.resolveType fuel m.type false
  .ok (jsName level m.name ++
    write g.mark level ("  var " ++ id m.name ++ " : " ++ t.toJsType ++ " = scala.scalajs.js.native") ++ yields [t])

def Generator.writeTypedef (td : Typedef) (level : Nat) : Except Stop (Declarations g.mark) := do
  let mems := g.memberByParent (packageList (some td.longname))
  let t1 ← writeEach (g.writeField fuel level) mems
  let t2str ← mems.mapM (fun m =>
    (g.resolveType fuel m.type false).map (fun t => (t, ("    " ++ id m.name ++ " : " ++ t.toJsParamType : Text g.mark))))
  .ok (unions (g.source level td.docMeta ++ jsNative level ++
    write g.mark level ("trait " ++ td.name ++ " extends scala.scalajs.js.Object \x7b") ++ t1 ++ write g.mark level "\x7d" ++
    write g.mark level ("object " ++ td.name ++ " \x7b") ++ write g.mark level "  def apply(" ++
    write g.mark level (Text.mkString ",\n" (t2str.map Prod.snd)) ++
    write g.mark level "  ) = scala.scalajs.js.Dynamic.literal(" ++
    write g.mark level (",\n".intercalate (mems.map (fun m => "    \"" ++ m.name ++ "\" -> " ++ id m.name))) ++
    write g.mark level ("  ).asInstanceOf[" ++ td.name ++ "]") ++ write g.mark level "\x7d" ++ yields (t2str.map Prod.fst)))

end Writers

section Files

variable (g : Generator) (fuel : Nat)

structure SourceFile (mark : String) where
  path : String
  written : Declarations mark

-- sourceFile and writeFile: the path is the one under the target directory.
def Generator.writeFile (longname : String) (writer : Except Stop (Declarations g.mark)) : Except Stop (SourceFile g.mark) :=
  writer.map (fun w => ⟨"/".intercalate (g.rootPackage ++ splitName longname) ++ ".scala", w⟩)

def Generator.classFile (ns : List String) (cl : Class) : Except Stop (SourceFile g.mark) :=
  g.writeFile cl.longname ((g.writeClass fuel cl 0).map (fun w => write g.mark 0 ("package " ++ g.packageJoin ns) ++ w))

def Generator.interfaceFile (ns : List String) (cl : Interface) : Except Stop (SourceFile g.mark) :=
  g.writeFile cl.longname ((g.writeInterface fuel cl 0).map (fun w => write g.mark 0 ("package " ++ g.packageJoin ns) ++ w))

def Generator.traitFile (ns : List String) (td : Typedef) : Except Stop (SourceFile g.mark) :=
  g.writeFile td.longname ((g.writeTypedef fuel td 0).map (fun w => write g.mark 0 ("package " ++ g.packageJoin ns) ++ w))

def Generator.writePackageAlias (level : Nat) (m : TypedefLike) : Except Stop (Declarations g.mark) := do
  let t ← g.resolveUnion fuel m.type
  .ok (g.source level m.docMeta ++ write g.mark level ("type " ++ id m.name ++ " = " ++ t.toJsType) ++ yields [t])

def Generator.writeGlobal (level : Nat) : Declarations g.mark :=
  jsNative level ++
    write g.mark level ("object global extends " ++ g.utilPackage ++ " with scala.scalajs.js.GlobalScope \x7b") ++
    write g.mark level "\x7d" ++ write g.mark level ""

def Generator.writePackage (ns : List String) : Except Stop (Declarations g.mark) :=
  match (g.rootPackage ++ ns).getLast? with
  | none => .error .thrown
  | some last => do
      let t11 ← writeEach (g.writePackageAlias fuel 1) (g.packageAliases ns)
      let t21 ← g.writeStatics fuel ns 2
      let t22 ← g.writeFunctionTypes fuel ns 2
      .ok ((if ns.isEmpty then .empty else write g.mark 0 ("package " ++ g.packageJoin ns.dropLast)) ++
        write g.mark 0 ("package object " ++ last ++ " \x7b") ++ unions t11 ++ write g.mark 0 "\x7d" ++
        write g.mark 0 ("package " ++ last ++ " \x7b") ++ (if ns.isEmpty then g.writeGlobal 1 else .empty) ++ jsNative 1 ++
        write g.mark 1 ("trait " ++ g.utilPackage ++ " extends scala.scalajs.js.Object \x7b") ++ t21 ++
        write g.mark 1 "\x7d" ++ write g.mark 1 "" ++
        write g.mark 1 ("object " ++ g.utilPackage ++ " \x7b") ++ t22 ++ write g.mark 1 "\x7d" ++ write g.mark 0 "\x7d")

def Generator.packageFile (ns : List String) : Except Stop (SourceFile g.mark) :=
  g.writeFile (".".intercalate (ns ++ [g.utilPackage])) (g.writePackage fuel ns)

def Generator.inNamespaces {α : Type} (of : List String → List α) : List (List String × α) :=
  g.namespaces.flatMap (fun ns => (of ns).map (fun a => (ns, a)))

def Generator.classFiles : Except Stop (List (SourceFile g.mark)) :=
  (g.inNamespaces g.classByParent).mapM (fun cl => g.classFile fuel cl.1 cl.2)

def Generator.interfaceFiles : Except Stop (List (SourceFile g.mark)) :=
  (g.inNamespaces g.interfacesByParent).mapM (fun cl => g.interfaceFile fuel cl.1 cl.2)

def Generator.traitFiles : Except Stop (List (SourceFile g.mark)) :=
  (g.inNamespaces g.objectTypedefs).mapM (fun td => g.traitFile fuel td.1 td.2)

def Generator.packageFiles : Except Stop (List (SourceFile g.mark)) := g.namespaces.mapM (g.packageFile fuel)

def sealedTrait (name : String) : String := "sealed trait " ++ name ++ " extends scala.scalajs.js.Any"

def writeConversion {mark : String} (level : Nat) (names : List (Text mark)) (t : Text mark) : Declarations mark :=
  let name := generatedName names
  let nameNoQuotes := generatedNameNoQuotes names
  let defname := "`" ++ t ++ " -> " ++ nameNoQuotes ++ "`"
  write mark level ("implicit def " ++ defname ++ "(v: " ++ t ++ ") : " ++ name ++ " = v.asInstanceOf[" ++ name ++ "]") ++
    write mark level ("implicit def `" ++ t ++ " -> js.UndefOr[" ++ nameNoQuotes ++ "]`(v: " ++ t ++
      ") : scala.scalajs.js.UndefOr[" ++ name ++ "] = scala.scalajs.js.UndefOr.any2undefOrA(" ++ defname ++ "(v))")

def writeUnion {mark : String} (level : Nat) (names : List (Text mark)) : Declarations mark :=
  jsNative level ++ write mark level (sealedTrait (generatedName names).string) ++
    write mark level ("object " ++ generatedName names ++ " \x7b") ++
    .concat (names.map (writeConversion (level + 1) names)) ++ write mark level "\x7d"

-- The union types are a set of sets: the names of one of them are written once.
def writeImplicits {mark : String} (level : Nat) (unionTypes : List (ResolvedType mark)) : Declarations mark :=
  .concat
    ((distinctBy (List.map Text.string) (unionTypes.filterMap ResolvedType.unionNames)).map (writeUnion level))

def Generator.implicitsFile (unionTypes : List (ResolvedType g.mark)) : Except Stop (SourceFile g.mark) :=
  match g.implicits.getLast? with
  | none => .error .thrown
  | some last =>
      g.writeFile (".".intercalate g.implicits)
        (.ok (write g.mark 0 ("package " ++ g.packageJoin g.implicits.dropLast) ++
          write g.mark 0 ("package object " ++ last ++ " \x7b") ++
          writeImplicits 1 unionTypes ++ write g.mark 0 "\x7d" ++ write g.mark 0 ""))

-- The initializers that throw before a file is written: the init of a namespace and the last of a function type.
def Generator.constructible : Bool :=
  g.realNamespaces.all (fun ns => !ns.isEmpty) && g.functionTypedefs.all (fun td => !(splitName td.longname).isEmpty)

structure Generated (mark : String) where
  files : List (SourceFile mark)
  implicitsFile : SourceFile mark

def Generator.generate : Except Stop (Generated g.mark) :=
  if g.constructible then do
    let classFiles ← g.classFiles fuel
    let interfaceFiles ← g.interfaceFiles fuel
    let traitFiles ← g.traitFiles fuel
    let packageFiles ← g.packageFiles fuel
    let generators := classFiles ++ interfaceFiles ++ traitFiles ++ packageFiles
    let implicitsFile ← g.implicitsFile (generators.flatMap (fun file => file.written.reports))
    .ok ⟨generators, implicitsFile⟩
  else .error .thrown

end Files

end Toolbox8.Jsdoc
