import Toolbox8.Base.Strings

set_option autoImplicit false

namespace Toolbox8.Jsdoc

open Base

-- A field that Jackson may leave null is an Option. The value of a code node is of any kind, and only a string can be
-- the one that the generator asks for.
structure Meta where
  filename : String
  path : String
  lineno : Int
  codeValue : Option String
deriving DecidableEq, Repr

structure DocletType where
  names : List String
deriving DecidableEq, Repr

def unknownType : DocletType := ⟨["unknown"]⟩

structure Param where
  type_ : Option DocletType
  name_ : Option String
deriving DecidableEq, Repr

def Param.type (p : Param) : DocletType := p.type_.getD unknownType

def Param.name (p : Param) : String := p.name_.getD "unnamed_"

def Param.isOptional (p : Param) : Bool := "opt_".toList.isPrefixOf p.name.toList

structure Return where
  type_ : Option DocletType
deriving DecidableEq, Repr

def Return.type (r : Return) : DocletType := r.type_.getD unknownType

-- HasParams and HasReturns.
def paramsOf (params_ : Option (List Param)) : List Param :=
  (params_.getD []).filter (fun p => decide ('.' ∉ p.name.toList))

def returnsOf (returns_ : Option (List Return)) : Option Return := (returns_.getD []).head?

structure Member where
  name : String
  longname : String
  memberof : Option String
  type_ : Option DocletType
  docMeta : Meta
  scope : Option String
  undocumented : Bool
  inherited : Bool
  access_ : Option String
  ignore : Bool
deriving DecidableEq, Repr

def Member.type (m : Member) : DocletType := m.type_.getD unknownType

def Member.access (m : Member) : Option String := if '.' ∈ m.name.toList then some "private" else m.access_

structure Namespace where
  longname : String
deriving DecidableEq, Repr

structure Function where
  name : String
  memberof : Option String
  scope : Option String
  docMeta : Meta
  undocumented : Bool
  inherited : Bool
  override : Bool
  implements_ : Option (List String)
  overrides : Option String
  params_ : Option (List Param)
  returns_ : Option (List Return)
  ignore : Bool
deriving DecidableEq, Repr

def Function.implements (fn : Function) : List String := fn.implements_.getD []

def Function.params (fn : Function) : List Param := paramsOf fn.params_

def Function.returns (fn : Function) : Option Return := returnsOf fn.returns_

structure Class where
  name : String
  memberof : Option String
  longname : String
  docMeta : Meta
  access : Option String
  implements_ : Option (List String)
  params_ : Option (List Param)
  augments_ : Option (List String)
deriving DecidableEq, Repr

def Class.augments (cl : Class) : Option String := (cl.augments_.getD []).head?

def Class.implements (cl : Class) : List String := cl.implements_.getD []

def Class.params (cl : Class) : List Param := paramsOf cl.params_

structure Interface where
  name : String
  longname : String
  memberof : Option String
  access : Option String
  docMeta : Meta
deriving DecidableEq, Repr

structure Typedef where
  name : String
  longname : String
  docMeta : Meta
  memberof : Option String
  type_ : Option DocletType
  params_ : Option (List Param)
  returns_ : Option (List Return)
deriving DecidableEq, Repr

def Typedef.type (td : Typedef) : DocletType := td.type_.getD unknownType

def Typedef.params (td : Typedef) : List Param := paramsOf td.params_

def Typedef.returns (td : Typedef) : Option Return := returnsOf td.returns_

-- other are the kinds that no collection of the generator keeps.
inductive Doclet where
  | memberDoclet (d : Member)
  | namespaceDoclet (d : Namespace)
  | functionDoclet (d : Function)
  | classDoclet (d : Class)
  | typedefDoclet (d : Typedef)
  | interfaceDoclet (d : Interface)
  | other
deriving DecidableEq, Repr

inductive TypedefLike where
  | typedefDoclet (d : Typedef)
  | memberDoclet (d : Member)
deriving DecidableEq, Repr

def TypedefLike.name : TypedefLike → String
  | .typedefDoclet d => d.name
  | .memberDoclet d => d.name

def TypedefLike.longname : TypedefLike → String
  | .typedefDoclet d => d.longname
  | .memberDoclet d => d.longname

def TypedefLike.memberof : TypedefLike → Option String
  | .typedefDoclet d => d.memberof
  | .memberDoclet d => d.memberof

def TypedefLike.docMeta : TypedefLike → Meta
  | .typedefDoclet d => d.docMeta
  | .memberDoclet d => d.docMeta

def TypedefLike.type : TypedefLike → DocletType
  | .typedefDoclet d => d.type
  | .memberDoclet d => d.type

def TypedefLike.typedefOnly : TypedefLike → Option Typedef
  | .typedefDoclet d => some d
  | .memberDoclet _ => none

-- packageList, whose argument may be null, and splitName, whose argument is not.
def packageList (o : Option String) : List String := (o.map (split '.')).getD []

def splitName (longname : String) : List String := split '.' longname

end Toolbox8.Jsdoc
