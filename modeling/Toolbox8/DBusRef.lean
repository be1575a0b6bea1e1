import Mathlib.Logic.Basic

set_option autoImplicit false

namespace Toolbox8.DBus

-- A Class[_] by its name, with the number of its type parameters.
structure JavaClass where
  name : String
  typeParameters : Nat
deriving DecidableEq, Repr

-- java.lang.reflect.Type. The raw type of a ParameterizedType is a class; owned is one whose owner is not null.
inductive JType where
  | clazz (x : JavaClass)
  | parameterized (raw : JavaClass) (args : List JType)
  | owned (owner : JType) (raw : JavaClass) (args : List JType)
  | genericArray (component : JType)
  | wildcard (lower upper : List JType)
  | typeVariable (bounds : List JType)

-- scala.reflect.Manifest, as far as its toString shows it.
inductive Manifest where
  | nothing
  | classType (runtimeClass : String) (typeArguments : List Manifest)
  | prefixed (owner : Manifest) (runtimeClass : String) (typeArguments : List Manifest)
  | arrayType (component : Manifest)
  | wildcardType (lower upper : Manifest)
  | intersectionType (parents : List Manifest)

-- notImplemented is what ??? throws.
inductive Unresolved where
  | notImplemented
  | thrown
deriving DecidableEq, Repr

def Manifest.isNothing : Manifest → Bool
  | .nothing => true
  | _ => false

def argString (typeArguments : List String) : String :=
  if typeArguments.isEmpty then "" else "[" ++ ", ".intercalate typeArguments ++ "]"

mutual
def Manifest.toString : Manifest → String
  | .nothing => "Nothing"
  | .classType runtimeClass typeArguments => runtimeClass ++ argString (Manifest.toStrings typeArguments)
  | .prefixed owner runtimeClass typeArguments =>
      owner.toString ++ "#" ++ runtimeClass ++ argString (Manifest.toStrings typeArguments)
  | .arrayType component => "Array[" ++ component.toString ++ "]"
  | .wildcardType lower upper =>
      "_" ++ (if lower.isNothing then "" else " >: " ++ lower.toString) ++
        (if upper.isNothing then "" else " <: " ++ upper.toString)
  | .intersectionType parents => " with ".intercalate (Manifest.toStrings parents)
def Manifest.toStrings : List Manifest → List String
  | [] => []
  | head :: tail => head.toString :: Manifest.toStrings tail
end

def structClass : JavaClass := ⟨"org.freedesktop.dbus.Struct", 0⟩

def dbStruct (count : Nat) : JavaClass := ⟨"toolbox8.dbus.common.DBStruct" ++ Nat.repr count, count⟩

def rawType (raw : JavaClass) (args : List JType) : Except Unresolved JavaClass :=
  if raw = structClass then
    match args.length with
    | 2 => .ok (dbStruct 2)
    | 3 => .ok (dbStruct 3)
    | 4 => .ok (dbStruct 4)
    | _ => .error .notImplemented
  else .ok raw

def classManifest (x : JavaClass) : Manifest :=
  .classType x.name (List.replicate x.typeParameters (.wildcardType .nothing .nothing))

mutual
def javaType : JType → Except Unresolved Manifest
  | .clazz x => .ok (classManifest x)
  | .parameterized raw args => do
      let raw ← rawType raw args
      let targs ← javaTypes args
      .ok (if targs.isEmpty then classManifest raw else .classType raw.name targs)
  | .owned owner raw args => do
      let raw ← rawType raw args
      let targs ← javaTypes args
      let owner ← javaType owner
      .ok (.prefixed owner raw.name targs)
  | .genericArray component => do
      let component ← javaType component
      .ok (.arrayType component)
  | .wildcard lower upper => do
      let lower ← javaTypes lower
      let upper ← javaTypes upper
      .ok (.wildcardType (.intersectionType lower) (.intersectionType upper))
  | .typeVariable bounds => do
      let bounds ← javaTypes bounds
      .ok (.intersectionType bounds)
def javaTypes : List JType → Except Unresolved (List Manifest)
  | [] => .ok []
  | head :: tail => do
      let head ← javaType head
      let tail ← javaTypes tail
      .ok (head :: tail)
end

-- Marshalling.getJavaType of dbus-java, none where it throws. result.get(0) throws where there is no type.
def getJavaType (marshalling : String → Option (List JType)) (typeString : String) : Except Unresolved String :=
  match marshalling typeString with
  | some (jt :: _) => (javaType jt).map Manifest.toString
  | _ => .error .thrown

inductive BasicType where
  | byte
  | boolean
  | int16
  | uint16
  | int32
  | uint32
  | int64
  | uint64
  | double
  | string
  | objectPath
  | signature
  | unixFd
deriving DecidableEq, Repr

-- The single complete types: the key of a dictionary is a basic type and a struct has a first field.
inductive DBusType where
  | basic (b : BasicType)
  | array (element : DBusType)
  | dict (key : BasicType) (value : DBusType)
  | variant
  | struct (first : DBusType) (others : List DBusType)

def BasicType.code : BasicType → String
  | .byte => "y"
  | .boolean => "b"
  | .int16 => "n"
  | .uint16 => "q"
  | .int32 => "i"
  | .uint32 => "u"
  | .int64 => "x"
  | .uint64 => "t"
  | .double => "d"
  | .string => "s"
  | .objectPath => "o"
  | .signature => "g"
  | .unixFd => "h"

mutual
def DBusType.typeString : DBusType → String
  | .basic b => b.code
  | .array element => "a" ++ element.typeString
  | .dict key value => "a\x7b" ++ key.code ++ value.typeString ++ "\x7d"
  | .variant => "v"
  | .struct first others => "(" ++ first.typeString ++ DBusType.typeStrings others ++ ")"
def DBusType.typeStrings : List DBusType → String
  | [] => ""
  | head :: tail => head.typeString ++ DBusType.typeStrings tail
end

def listClass : JavaClass := ⟨"java.util.List", 1⟩

def mapClass : JavaClass := ⟨"java.util.Map", 2⟩

-- The classes that dbus-java has for the types that are no containers.
structure JavaClasses where
  basic : BasicType → JavaClass
  variant : JavaClass

section Marshalled

variable (classes : JavaClasses)

-- What dbus-java documents of Marshalling.getJavaType.
mutual
def DBusType.marshalled : DBusType → JType
  | .basic b => .clazz (classes.basic b)
  | .array element => .parameterized listClass [element.marshalled]
  | .dict key value => .parameterized mapClass [.clazz (classes.basic key), value.marshalled]
  | .variant => .clazz classes.variant
  | .struct first others => .parameterized structClass (first.marshalled :: DBusType.allMarshalled others)
def DBusType.allMarshalled : List DBusType → List JType
  | [] => []
  | head :: tail => head.marshalled :: DBusType.allMarshalled tail
end

end Marshalled

-- Every struct has two to four fields.
mutual
def DBusType.SmallStructs : DBusType → Prop
  | .basic _ => True
  | .array element => element.SmallStructs
  | .dict _ value => value.SmallStructs
  | .variant => True
  | .struct first others =>
      (others.length + 1 = 2 ∨ others.length + 1 = 3 ∨ others.length + 1 = 4) ∧ first.SmallStructs ∧
        DBusType.AllSmallStructs others
def DBusType.AllSmallStructs : List DBusType → Prop
  | [] => True
  | head :: tail => head.SmallStructs ∧ DBusType.AllSmallStructs tail
end

section Structs

variable (args : List JType)

theorem raw_struct_found (fields : args.length = 2 ∨ args.length = 3 ∨ args.length = 4) :
    ∃ raw, rawType structClass args = .ok raw := by
  rw [rawType, if_pos rfl]
  rcases fields with two | three | four
  · rw [two]
    exact ⟨_, rfl⟩
  · rw [three]
    exact ⟨_, rfl⟩
  · rw [four]
    exact ⟨_, rfl⟩

theorem raw_struct_missing (fields : ¬ (args.length = 2 ∨ args.length = 3 ∨ args.length = 4)) :
    rawType structClass args = .error .notImplemented := by
  rw [rawType, if_pos rfl]
  split
  · omega
  · omega
  · omega
  · rfl

end Structs

section Types

variable (classes : JavaClasses)

theorem all_marshalled_length (ts : List DBusType) : (DBusType.allMarshalled classes ts).length = ts.length := by
  induction ts with
  | nil => rfl
  | cons head tail ih => rw [DBusType.allMarshalled, List.length_cons, ih, List.length_cons]

theorem struct_fields (first : DBusType) (others : List DBusType) :
    (first.marshalled classes :: DBusType.allMarshalled classes others).length = others.length + 1 := by
  rw [List.length_cons, all_marshalled_length]

mutual
theorem java_type_found (t : DBusType) (small : t.SmallStructs) : ∃ m, javaType (t.marshalled classes) = .ok m := by
  cases t with
  | basic b => exact ⟨_, rfl⟩
  | array element =>
      obtain ⟨m, found⟩ := java_type_found element small
      rw [DBusType.marshalled, javaType, javaTypes, found]
      exact ⟨_, rfl⟩
  | dict key value =>
      obtain ⟨m, found⟩ := java_type_found value small
      rw [DBusType.marshalled, javaType, javaTypes, javaTypes, found]
      exact ⟨_, rfl⟩
  | variant => exact ⟨_, rfl⟩
  | struct first others =>
      obtain ⟨fields, firstSmall, othersSmall⟩ := small
      rw [← struct_fields classes first others] at fields
      obtain ⟨raw, known⟩ := raw_struct_found _ fields
      obtain ⟨m, found⟩ := java_type_found first firstSmall
      obtain ⟨ms, allFound⟩ := java_types_found others othersSmall
      rw [DBusType.marshalled, javaType, known, javaTypes, found, allFound]
      exact ⟨_, rfl⟩
theorem java_types_found (ts : List DBusType) (small : DBusType.AllSmallStructs ts) :
    ∃ ms, javaTypes (DBusType.allMarshalled classes ts) = .ok ms := by
  cases ts with
  | nil => exact ⟨[], rfl⟩
  | cons head tail =>
      obtain ⟨m, found⟩ := java_type_found head small.1
      obtain ⟨ms, allFound⟩ := java_types_found tail small.2
      rw [DBusType.allMarshalled, javaTypes, found, allFound]
      exact ⟨_, rfl⟩
end

-- A type ends in ??? at a struct that has another number of fields.
mutual
theorem java_type_missing (t : DBusType) (large : ¬ t.SmallStructs) :
    javaType (t.marshalled classes) = .error .notImplemented := by
  cases t with
  | basic b => exact absurd trivial large
  | array element =>
      have missing := java_type_missing element large
      rw [DBusType.marshalled, javaType, javaTypes, missing]
      rfl
  | dict key value =>
      have missing := java_type_missing value large
      rw [DBusType.marshalled, javaType, javaTypes, javaTypes, missing]
      rfl
  | variant => exact absurd trivial large
  | struct first others =>
      rw [DBusType.SmallStructs, ← struct_fields classes first others] at large
      rw [DBusType.marshalled, javaType]
      by_cases fields : (first.marshalled classes :: DBusType.allMarshalled classes others).length = 2 ∨
          (first.marshalled classes :: DBusType.allMarshalled classes others).length = 3 ∨
          (first.marshalled classes :: DBusType.allMarshalled classes others).length = 4
      · obtain ⟨raw, known⟩ := raw_struct_found _ fields
        rw [known, javaTypes]
        by_cases firstSmall : first.SmallStructs
        · obtain ⟨m, found⟩ := java_type_found classes first firstSmall
          have missing := java_types_missing others (fun othersSmall => large ⟨fields, firstSmall, othersSmall⟩)
          rw [found, missing]
          rfl
        · rw [java_type_missing first firstSmall]
          rfl
      · rw [raw_struct_missing _ fields]
        rfl
theorem java_types_missing (ts : List DBusType) (large : ¬ DBusType.AllSmallStructs ts) :
    javaTypes (DBusType.allMarshalled classes ts) = .error .notImplemented := by
  cases ts with
  | nil => exact absurd trivial large
  | cons head tail =>
      rw [DBusType.allMarshalled, javaTypes]
      by_cases headSmall : head.SmallStructs
      · obtain ⟨m, found⟩ := java_type_found classes head headSmall
        have missing := java_types_missing tail (fun tailSmall => large ⟨headSmall, tailSmall⟩)
        rw [found, missing]
        rfl
      · rw [java_type_missing head headSmall]
        rfl
end

theorem get_java_type_of (marshalling : String → Option (List JType)) (t : DBusType)
    (marshals : marshalling t.typeString = some [t.marshalled classes]) :
    getJavaType marshalling t.typeString = (javaType (t.marshalled classes)).map Manifest.toString := by
  rw [getJavaType, marshals]

theorem get_java_type_iff (marshalling : String → Option (List JType)) (t : DBusType)
    (marshals : marshalling t.typeString = some [t.marshalled classes]) :
    ((∃ text, getJavaType marshalling t.typeString = .ok text) ↔ t.SmallStructs) ∧
      (getJavaType marshalling t.typeString = .error .notImplemented ↔ ¬ t.SmallStructs) := by
  rw [get_java_type_of classes marshalling t marshals]
  by_cases small : t.SmallStructs
  · obtain ⟨m, found⟩ := java_type_found classes t small
    simp [found, small, Except.map]
  · simp [java_type_missing classes t small, small, Except.map]

end Types

-- The classes of dbus-java for the types that the examples have.
def bluezClasses : JavaClasses where
  basic
    | .byte => ⟨"java.lang.Byte", 0⟩
    | .uint32 => ⟨"org.freedesktop.dbus.UInt32", 0⟩
    | _ => ⟨"java.lang.String", 0⟩
  variant := ⟨"org.freedesktop.dbus.Variant", 1⟩

-- The addresses of IP6Config, a(ayuay).
def addresses : DBusType := .array (.struct (.array (.basic .byte)) [.basic .uint32, .array (.basic .byte)])

def addressesMarshalling (typeString : String) : Option (List JType) :=
  if typeString = "a(ayuay)" then
    some [.parameterized listClass [.parameterized structClass [.parameterized listClass [.clazz ⟨"java.lang.Byte", 0⟩],
      .clazz ⟨"org.freedesktop.dbus.UInt32", 0⟩, .parameterized listClass [.clazz ⟨"java.lang.Byte", 0⟩]]]]
  else none

theorem get_java_type_iff_addresses :
    ∃ text, getJavaType addressesMarshalling addresses.typeString = .ok text := by
  have small : addresses.SmallStructs := by simp [addresses, DBusType.SmallStructs, DBusType.AllSmallStructs]
  have spelled : addresses.typeString = "a(ayuay)" := by decide +kernel
  have marshals : addressesMarshalling addresses.typeString = some [addresses.marshalled bluezClasses] := by
    rw [addressesMarshalling, if_pos spelled]
    rfl
  exact (get_java_type_iff bluezClasses addressesMarshalling addresses marshals).1.mpr small

example : (getJavaType addressesMarshalling "a(ayuay)").toOption = some
    ("java.util.List[toolbox8.dbus.common.DBStruct3[java.util.List[java.lang.Byte], " ++
      "org.freedesktop.dbus.UInt32, java.util.List[java.lang.Byte]]]") := by
  decide +kernel

-- The struct (s) of one field.
theorem one_field_unimplemented :
    ¬ ∀ (classes : JavaClasses) (marshalling : String → Option (List JType)) (t : DBusType),
      marshalling t.typeString = some [t.marshalled classes] → ∃ text, getJavaType marshalling t.typeString = .ok text := by
  intro claimed
  obtain ⟨text, found⟩ := claimed bluezClasses
    (fun _ => some [.parameterized structClass [.clazz ⟨"java.lang.String", 0⟩]]) (.struct (.basic .string) []) rfl
  have unimplemented : getJavaType (fun _ => some [.parameterized structClass [.clazz ⟨"java.lang.String", 0⟩]])
      (DBusType.struct (.basic .string) []).typeString = .error .notImplemented := rfl
  simp [unimplemented] at found

end Toolbox8.DBus
