import Toolbox8.DBusCodeGenerator
import Toolbox8.DBusRef
import Toolbox8.DBReflectorRun

set_option autoImplicit false

namespace Toolbox8.DBus

open Base

section Margins

-- StringOps.linesWithSeparators, where a line ends after a line feed or a form feed.
def linesWithSeparators : List Char → List (List Char)
  | [] => []
  | c :: rest =>
      if c.toNat = 10 ∨ c.toNat = 12 then [c] :: linesWithSeparators rest
      else
        match linesWithSeparators rest with
        | [] => [[c]]
        | line :: lines => (c :: line) :: lines

def stripLine (line : List Char) : List Char :=
  match line.dropWhile (fun c => decide (c.toNat ≤ 32)) with
  | '|' :: kept => kept
  | _ => line

def stripMargin (s : String) : String := String.ofList ((linesWithSeparators s.toList).flatMap stripLine)

def Unbroken (line : List Char) : Prop := ∀ c ∈ line, c.toNat ≠ 10 ∧ c.toNat ≠ 12

instance Unbroken.decidable (line : List Char) : Decidable (Unbroken line) :=
  List.decidableBAll (fun c : Char => c.toNat ≠ 10 ∧ c.toNat ≠ 12) line

theorem unbroken_append (front back : List Char) (first : Unbroken front) (second : Unbroken back) :
    Unbroken (front ++ back) := by
  intro c member
  exact (List.mem_append.mp member).elim (first c) (second c)

theorem lines_cons (line rest : List Char) (unbroken : Unbroken line) :
    linesWithSeparators (line ++ '\n' :: rest) = (line ++ ['\n']) :: linesWithSeparators rest := by
  induction line with
  | nil => simp [linesWithSeparators]
  | cons c others ih =>
      have here := unbroken c List.mem_cons_self
      have later := ih (fun d member => unbroken d (List.mem_cons_of_mem _ member))
      rw [List.cons_append, linesWithSeparators, if_neg (by simp [here.1, here.2]), later]
      rfl

def stripLines (text : List Char) : List Char := (linesWithSeparators text).flatMap stripLine

theorem strip_lines_cons (line : List Char) (lines : List (List Char)) (unbroken : Unbroken line) (more : lines ≠ []) :
    stripLines (['\n'].intercalate (line :: lines)) =
      stripLine (line ++ ['\n']) ++ stripLines (['\n'].intercalate lines) := by
  obtain ⟨next, others, rfl⟩ := List.exists_cons_of_ne_nil more
  rw [List.intercalate_cons_cons, List.append_assoc, List.singleton_append, stripLines, lines_cons line _ unbroken,
    List.flatMap_cons]
  rfl

theorem strip_lines_margin (header lines : List (List Char)) (unbroken : ∀ line ∈ header, Unbroken line) (more : lines ≠ []) :
    stripLines (['\n'].intercalate (header.map (fun line => '|' :: line) ++ lines)) =
      header.flatMap (fun line => line ++ ['\n']) ++ stripLines (['\n'].intercalate lines) := by
  induction header with
  | nil => rfl
  | cons line rest ih =>
      have own : Unbroken ('|' :: line) := by
        intro c member
        rcases List.mem_cons.mp member with rfl | inside
        · decide
        · exact unbroken line List.mem_cons_self c inside
      have later := ih (fun other member => unbroken other (List.mem_cons_of_mem _ member))
      rw [List.map_cons, List.cons_append, strip_lines_cons _ _ own (by simp [more]), later, List.flatMap_cons, List.append_assoc]
      rfl

end Margins

-- What the text of an interface is made of.
structure ScalaMethod where
  name : String
  args : List (String × String)
  returnType : String
deriving DecidableEq, Repr

structure ScalaProperty where
  name : String
  access : String
  type : String
deriving DecidableEq, Repr

structure ScalaFile where
  packageSegmentsLow : List String
  ifaceName : String
  dbusInterfaceName : String
  methods : List ScalaMethod
  props : List ScalaProperty
  busInstances : List (String × List String)
deriving DecidableEq, Repr

section Texts

def singleArg (arg : String × String) : String := arg.1 ++ ": " ++ arg.2

def argsString : List (String × String) → String
  | [] => ""
  | [single] => singleArg single
  | multi => stripMargin ("\n|    " ++ ",\n    ".intercalate (multi.map singleArg) ++ "\n|  ")

def ScalaMethod.text (m : ScalaMethod) : String :=
  stripMargin ("\n".intercalate ["  def " ++ m.name ++ "(" ++ argsString m.args ++ ") : " ++ m.returnType, "               "])

def ScalaProperty.text (p : ScalaProperty) : String :=
  "    val " ++ p.name ++ " = " ++ p.access ++ "[" ++ p.type ++ "](\"" ++ p.name ++ "\")"

def instanceText (p : String) : String := "      val `" ++ p ++ "` = instance(\"" ++ p ++ "\")"

def busText (bus : String × List String) : String :=
  stripMargin ("\n".intercalate
    ["    object `" ++ bus.1 ++ "` extends BusInstances(\"" ++ bus.1 ++ "\") \x7b",
      "|" ++ "\n".intercalate (bus.2.map instanceText), "|    \x7d", "                 "])

def ScalaFile.packageLine (f : ScalaFile) : String := "package " ++ ".".intercalate f.packageSegmentsLow

def ScalaFile.header (f : ScalaFile) : List String :=
  ["", "@org.freedesktop.dbus.DBusInterfaceName(\"" ++ f.dbusInterfaceName ++ "\")",
    "trait " ++ f.ifaceName ++ " extends org.freedesktop.dbus.DBusInterface \x7b", ""]

def ScalaFile.body (f : ScalaFile) : List String :=
  ["\n".intercalate (f.methods.map ScalaMethod.text), "\x7d", "",
    "object " ++ f.ifaceName ++ " extends toolbox8.dbus.common.DBInterfaceCompanion[" ++ f.ifaceName ++ "](classOf[" ++
      f.ifaceName ++ "], \"" ++ f.dbusInterfaceName ++ "\") \x7b",
    "", "  object Props \x7b", "\n".intercalate (f.props.map ScalaProperty.text), "  \x7d", "",
    "  object Instances \x7b", "", "\n".intercalate (f.busInstances.map busText), "  \x7d", "", "\x7d"]

-- Each line of the text but the first one and the last one has a margin.
def ScalaFile.text (f : ScalaFile) : String :=
  stripMargin ("\n".intercalate
    (f.packageLine :: ((f.header ++ f.body).map (fun line => "|" ++ line) ++ ["           "])))

def ScalaFile.headerText (f : ScalaFile) : String :=
  String.join ((f.packageLine :: f.header).map (fun line => line ++ "\n"))

theorem header_text_lists (f : ScalaFile) : f.headerText.toList =
    f.packageLine.toList ++ ['\n'] ++ (f.header.map String.toList).flatMap (fun line => line ++ ['\n']) := by
  rw [ScalaFile.headerText, String.toList_join, List.map_cons, List.flatMap_cons, String.toList_append, List.flatMap_map,
    List.flatMap_map]
  simp only [String.toList_append]
  rfl

theorem header_unbroken (f : ScalaFile) (annotated : Unbroken f.dbusInterfaceName.toList)
    (named : Unbroken f.ifaceName.toList) : ∀ line ∈ f.header, Unbroken line.toList := by
  intro line member
  simp only [ScalaFile.header, List.mem_cons, List.not_mem_nil, or_false] at member
  rcases member with rfl | rfl | rfl | rfl
  · decide
  · simp only [String.toList_append]
    exact unbroken_append _ _ (unbroken_append _ _ (by decide) annotated) (by decide)
  · simp only [String.toList_append]
    exact unbroken_append _ _ (unbroken_append _ _ (by decide) named) (by decide)
  · decide

theorem text_header (f : ScalaFile) (inPackage : Unbroken (".".intercalate f.packageSegmentsLow).toList)
    (annotated : Unbroken f.dbusInterfaceName.toList) (named : Unbroken f.ifaceName.toList) :
    ∃ rest, f.text = f.headerText ++ rest := by
  have first : Unbroken f.packageLine.toList := by
    rw [ScalaFile.packageLine, String.toList_append]
    exact unbroken_append _ _ (by decide) inPackage
  have header : ∀ line ∈ f.header.map String.toList, Unbroken line := by
    intro line member
    obtain ⟨text, inside, rfl⟩ := List.mem_map.mp member
    exact header_unbroken f annotated named text inside
  have margins : ∀ lines : List String, (lines.map (fun line => "|" ++ line)).map String.toList =
      (lines.map String.toList).map (fun line => '|' :: line) := by
    intro lines
    rw [List.map_map, List.map_map]
    exact List.map_congr_left (fun line _ => String.toList_append)
  have plain : stripLine (f.packageLine.toList ++ ['\n']) = f.packageLine.toList ++ ['\n'] := by
    rw [ScalaFile.packageLine, String.toList_append]
    rfl
  let below := (f.body.map String.toList).map (fun line => '|' :: line) ++ ["           ".toList]
  refine ⟨String.ofList (stripLines (['\n'].intercalate below)), ?_⟩
  apply String.toList_inj.mp
  have stripped := strip_lines_cons _ (((f.header.map String.toList).map (fun line => '|' :: line)) ++ below) first
    (by simp [below])
  rw [strip_lines_margin _ below header (by simp [below]), plain] at stripped
  rw [String.toList_append, String.toList_ofList, header_text_lists, List.append_assoc, ← stripped]
  rw [ScalaFile.text, stripMargin, String.toList_ofList, String.toList_intercalate, List.map_cons, List.map_append, margins,
    List.map_append, List.map_append, List.append_assoc]
  rfl

end Texts

section Generation

variable (marshalling : String → Option (List JType))

def scalaArgs (args : List DBArg) : Except Unresolved (List (String × String)) :=
  args.mapM (fun single => (getJavaType marshalling single.typeString).map (fun type => (single.name, type)))

def returnTypeString (out : List DBArg) : Except Unresolved String :=
  match out with
  | [] => .ok "scala.Unit"
  | [single] => getJavaType marshalling single.typeString
  | other =>
      if other.length ≤ DBTuple.max then
        (other.mapM (fun single => getJavaType marshalling single.typeString)).map (fun types =>
          "toolbox8.dbus.common.DBTuple" ++ Nat.repr other.length ++ "[" ++ ", ".intercalate types ++ "]")
      else .error .notImplemented

def scalaMethod (m : DBMethod) : Except Unresolved ScalaMethod := do
  let returnType ← returnTypeString marshalling m.out
  let args ← scalaArgs marshalling m.ins
  .ok ⟨m.name, args, returnType⟩

def propertyAccess : DBAccess → String
  | .dbRead => "read"
  | .dbWrite => "write"
  | .dbReadWrite => "readwrite"

def scalaProperty (p : DBProperty) : Except Unresolved ScalaProperty :=
  (getJavaType marshalling p.typeString).map (fun type => ⟨p.name, propertyAccess p.access, type⟩)

-- groupBy makes a map, whose buses are then sorted.
def busInstances (instances : List DBInstance) : List (String × List String) :=
  (sortBy (fun bus => bus) (distinctBy (fun bus => bus) (instances.map DBInstance.bus))).map (fun bus =>
    (bus, (instances.filter (fun i => decide (i.bus = bus))).map DBInstance.path))

def packageSegmentsLow (name : DBInterfaceName) : List String := name.pkg.segments.map String.toLower

def scalaFile (iface : DBInterface) : Except Unresolved ScalaFile := do
  let methods ← iface.methods.mapM (scalaMethod marshalling)
  let props ← iface.properties.mapM (scalaProperty marshalling)
  .ok ⟨packageSegmentsLow iface.name, iface.name.name, dbusInterfaceName iface, methods, props, busInstances iface.instances⟩

def scalaPath (name : DBInterfaceName) : String := "/".intercalate (packageSegmentsLow name ++ [name.name ++ ".scala"])

abbrev Files : Type := String → Option String

-- The interfaces are written in the order of the map. What is thrown leaves the files that have been written before.
def DBusCodeGenerator.run (files : Files) : List DBInterface → Files × Option Unresolved
  | [] => (files, none)
  | iface :: rest =>
      match scalaFile marshalling iface with
      | .error failure => (files, some failure)
      | .ok file => DBusCodeGenerator.run (Function.update files (scalaPath iface.name) (some file.text)) rest

end Generation

section Types

theorem map_m_ok_iff {ε α β : Type} (f : α → Except ε β) (as : List α) :
    (∃ bs, as.mapM f = .ok bs) ↔ ∀ a ∈ as, ∃ b, f a = .ok b := by
  induction as with
  | nil => simp [pure, Except.pure]
  | cons a rest ih =>
      rw [List.forall_mem_cons, ← ih, List.mapM_cons]
      cases f a with
      | error failure => simp [bind, Except.bind]
      | ok b =>
          cases rest.mapM f with
          | error failure => simp [bind, Except.bind]
          | ok bs => simp [bind, Except.bind, pure, Except.pure]

theorem map_ok_iff {ε α β : Type} (x : Except ε α) (f : α → β) : (∃ b, x.map f = .ok b) ↔ ∃ a, x = .ok a := by
  cases x <;> simp [Except.map]

variable (marshalling : String → Option (List JType))

def HasType (typeString : String) : Prop := ∃ type, getJavaType marshalling typeString = .ok type

def DBMethod.typeStrings (m : DBMethod) : List String := (m.out ++ m.ins).map DBArg.typeString

def DBInterface.typeStrings (iface : DBInterface) : List String :=
  iface.methods.flatMap DBMethod.typeStrings ++ iface.properties.map DBProperty.typeString

theorem return_type_ok_iff (out : List DBArg) (few : out.length ≤ DBTuple.max) :
    (∃ type, returnTypeString marshalling out = .ok type) ↔ ∀ single ∈ out, HasType marshalling single.typeString := by
  match out with
  | [] => simp [returnTypeString]
  | [single] => simp [returnTypeString, HasType]
  | first :: second :: others =>
      rw [returnTypeString, if_pos few, map_ok_iff, map_m_ok_iff]
      · rfl
      all_goals simp

theorem scala_method_ok_iff (m : DBMethod) (few : m.out.length ≤ DBTuple.max) :
    (∃ method, scalaMethod marshalling m = .ok method) ↔ ∀ typeString ∈ m.typeStrings, HasType marshalling typeString := by
  have args : (∃ args, scalaArgs marshalling m.ins = .ok args) ↔ ∀ single ∈ m.ins, HasType marshalling single.typeString := by
    simp only [scalaArgs, map_m_ok_iff, map_ok_iff, HasType]
  have types := return_type_ok_iff marshalling m.out few
  rw [DBMethod.typeStrings, List.forall_mem_map, List.forall_mem_append, ← args, ← types, scalaMethod]
  cases returnTypeString marshalling m.out with
  | error failure => simp [bind, Except.bind]
  | ok type => cases scalaArgs marshalling m.ins <;> simp [bind, Except.bind]

theorem scala_file_ok_iff (iface : DBInterface) (few : ∀ m ∈ iface.methods, m.out.length ≤ DBTuple.max) :
    (∃ file, scalaFile marshalling iface = .ok file) ↔ ∀ typeString ∈ iface.typeStrings, HasType marshalling typeString := by
  have methods : (∃ methods, iface.methods.mapM (scalaMethod marshalling) = .ok methods) ↔
      ∀ typeString ∈ iface.methods.flatMap DBMethod.typeStrings, HasType marshalling typeString := by
    rw [map_m_ok_iff, List.forall_mem_flatMap]
    exact forall₂_congr (fun m member => scala_method_ok_iff marshalling m (few m member))
  have props : (∃ props, iface.properties.mapM (scalaProperty marshalling) = .ok props) ↔
      ∀ p ∈ iface.properties, HasType marshalling p.typeString := by
    simp only [map_m_ok_iff, scalaProperty, map_ok_iff, HasType]
  rw [DBInterface.typeStrings, List.forall_mem_append, List.forall_mem_map, ← methods, ← props, scalaFile]
  cases iface.methods.mapM (scalaMethod marshalling) with
  | error failure => simp [bind, Except.bind]
  | ok written => cases iface.properties.mapM (scalaProperty marshalling) <;> simp [bind, Except.bind]

end Types

section Runs

variable (marshalling : String → Option (List JType))

theorem run_finishes_iff (files : Files) (values : List DBInterface) :
    (DBusCodeGenerator.run marshalling files values).2 = none ↔ ∀ iface ∈ values, ∃ file, scalaFile marshalling iface = .ok file := by
  induction values generalizing files with
  | nil => simp [DBusCodeGenerator.run]
  | cons iface rest ih =>
      rw [DBusCodeGenerator.run, List.forall_mem_cons]
      cases scalaFile marshalling iface with
      | error failure => simp
      | ok file => simp [ih]

-- The interface that is written last to a path.
def writtenLast (path : String) (values : List DBInterface) : Option DBInterface :=
  values.reverse.find? (fun iface => scalaPath iface.name = path)

theorem run_files (files : Files) (values : List DBInterface) (path : String)
    (finished : (DBusCodeGenerator.run marshalling files values).2 = none) :
    (DBusCodeGenerator.run marshalling files values).1 path =
      match writtenLast path values with
      | some iface => (scalaFile marshalling iface).toOption.map ScalaFile.text
      | none => files path := by
  induction values generalizing files with
  | nil => rfl
  | cons iface rest ih =>
      have each := (run_finishes_iff marshalling files (iface :: rest)).mp finished
      obtain ⟨file, made⟩ := each iface List.mem_cons_self
      rw [DBusCodeGenerator.run, made] at finished ⊢
      rw [ih _ finished, writtenLast, writtenLast, List.reverse_cons, List.find?_append]
      cases rest.reverse.find? (fun other => scalaPath other.name = path) with
      | some later => rfl
      | none =>
          by_cases own : scalaPath iface.name = path
          · subst own
            simp [made, Except.toOption]
          · simp [own, Function.update_of_ne (Ne.symm own)]

end Runs

section Paths

def nameChars : List Char := "ABCDEFGHIJKLMNOPQRSTUVWXYZabcdefghijklmnopqrstuvwxyz0123456789_.".toList

def Spelled (name : String) : Prop := ∀ c ∈ name.toList, c ∈ nameChars

instance Spelled.decidable (name : String) : Decidable (Spelled name) :=
  List.decidableBAll (fun c : Char => c ∈ nameChars) name.toList

def plainChar (c : Char) : Bool :=
  c ≠ '/' && c.toNat ≠ 10 && c.toNat ≠ 12 && c.toLower ≠ '/' && c.toLower.toNat ≠ 10 && c.toLower.toNat ≠ 12

theorem name_char_plain (c : Char) (legal : c ∈ nameChars) : c ≠ '/' ∧ (c.toNat ≠ 10 ∧ c.toNat ≠ 12) ∧
    c.toLower ≠ '/' ∧ c.toLower.toNat ≠ 10 ∧ c.toLower.toNat ≠ 12 := by
  have all : nameChars.all plainChar = true := by decide +kernel
  have plain := List.all_eq_true.mp all c legal
  simpa [plainChar, and_assoc] using plain

theorem lower_list (s : String) : s.toLower.toList = s.toList.map Char.toLower := String.toList_map

theorem mem_intercalate {α : Type} (separator : List α) (pieces : List (List α)) (piece : List α) (x : α)
    (member : piece ∈ pieces) (inside : x ∈ piece) : x ∈ separator.intercalate pieces := by
  induction pieces with
  | nil => simp at member
  | cons first rest ih =>
      cases rest with
      | nil => simpa [List.mem_singleton.mp member] using inside
      | cons second others =>
          rw [List.intercalate_cons_cons]
          rcases List.mem_cons.mp member with rfl | later
          · simp [inside]
          · simp [ih later]

variable (key : DBInterfaceName)

theorem segments_spelled (name : String) (joined : ".".intercalate key.segments = name) (spelled : Spelled name) :
    ∀ segment ∈ key.segments, ∀ c ∈ segment.toList, c ∈ nameChars := by
  intro segment member c inside
  apply spelled c
  rw [← joined, String.toList_intercalate]
  exact mem_intercalate _ _ segment.toList c (List.mem_map_of_mem member) inside

theorem path_pieces (spelled : ∀ segment ∈ key.segments, ∀ c ∈ segment.toList, c ∈ nameChars) :
    (scalaPath key).toList.splitOn '/' = (packageSegmentsLow key ++ [key.name ++ ".scala"]).map String.toList := by
  have slash : "/".toList = ['/'] := rfl
  rw [scalaPath, String.toList_intercalate, slash]
  apply List.splitOn_intercalate
  · intro piece member
    obtain ⟨text, listed, rfl⟩ := List.mem_map.mp member
    rcases List.mem_append.mp listed with low | last
    · obtain ⟨segment, inPackage, rfl⟩ := List.mem_map.mp low
      rw [lower_list]
      intro slashed
      obtain ⟨c, inside, lower⟩ := List.mem_map.mp slashed
      have legal := spelled segment (by simp [DBInterfaceName.segments, inPackage]) c inside
      exact (name_char_plain c legal).2.2.1 lower
    · rw [List.mem_singleton.mp last, String.toList_append]
      intro slashed
      rcases List.mem_append.mp slashed with inName | inEnd
      · have legal := spelled key.name (by simp [DBInterfaceName.segments]) '/' inName
        exact (name_char_plain '/' legal).1 rfl
      · revert inEnd
        decide
  · simp

theorem scala_path_iff (other : DBInterfaceName) (spelled : ∀ segment ∈ key.segments, ∀ c ∈ segment.toList, c ∈ nameChars)
    (spelledOther : ∀ segment ∈ other.segments, ∀ c ∈ segment.toList, c ∈ nameChars) :
    scalaPath key = scalaPath other ↔ packageSegmentsLow key = packageSegmentsLow other ∧ key.name = other.name := by
  constructor
  · intro same
    have pieces := congrArg (fun path => path.toList.splitOn '/') same
    simp only [path_pieces key spelled, path_pieces other spelledOther] at pieces
    have lists := List.map_injective_iff.mpr (fun s t eq => String.toList_inj.mp eq) pieces
    obtain ⟨low, last⟩ := List.append_inj' lists rfl
    refine ⟨low, ?_⟩
    have ends := congrArg String.toList (List.cons.inj last).1
    rw [String.toList_append, String.toList_append] at ends
    exact String.toList_inj.mp (List.append_cancel_right ends)
  · rintro ⟨low, last⟩
    rw [scalaPath, scalaPath, low, last]

end Paths

section Instances

def pathsOn (bus : String) (instances : List DBInstance) : List String :=
  (instances.filter (fun i => decide (i.bus = bus))).map DBInstance.path

theorem bus_instances_iff (instances : List DBInstance) (bus : String) (paths : List String) :
    (bus, paths) ∈ busInstances instances ↔ paths = pathsOn bus instances ∧ paths ≠ [] := by
  have listed : bus ∈ sortBy (fun bus => bus) (distinctBy (fun bus => bus) (instances.map DBInstance.bus)) ↔
      pathsOn bus instances ≠ [] := by
    rw [mem_sort_by]
    constructor
    · intro member
      obtain ⟨i, inside, same⟩ := List.mem_map.mp (mem_of_mem_distinct_by _ _ _ member)
      apply List.ne_nil_of_mem (a := i.path)
      exact List.mem_map_of_mem (List.mem_filter.mpr ⟨inside, by simpa using same⟩)
    · intro some
      obtain ⟨path, member⟩ := List.exists_mem_of_ne_nil _ some
      obtain ⟨i, inside, _⟩ := List.mem_map.mp member
      obtain ⟨there, own⟩ := List.mem_filter.mp inside
      obtain ⟨b, kept, same⟩ := distinct_by_complete (fun bus : String => bus) _ i.bus (List.mem_map_of_mem there)
      have known : b = bus := same.trans (by simpa using own)
      exact known ▸ kept
  constructor
  · intro member
    obtain ⟨b, inside, same⟩ := List.mem_map.mp member
    obtain ⟨rfl, rfl⟩ := Prod.mk.inj same
    exact ⟨rfl, listed.mp inside⟩
  · rintro ⟨rfl, some⟩
    exact List.mem_map.mpr ⟨bus, listed.mpr some, rfl⟩

end Instances

section Generated

theorem unbroken_spelled (chars : List Char) (spelled : ∀ c ∈ chars, c ∈ nameChars) : Unbroken chars :=
  fun c member => (name_char_plain c (spelled c member)).2.1

theorem unbroken_intercalate (separator : List Char) (pieces : List (List Char)) (plain : Unbroken separator)
    (each : ∀ piece ∈ pieces, Unbroken piece) : Unbroken (separator.intercalate pieces) := by
  induction pieces with
  | nil => simp [Unbroken]
  | cons first rest ih =>
      have here := each first List.mem_cons_self
      have later := ih (fun piece member => each piece (List.mem_cons_of_mem _ member))
      cases rest with
      | nil => simpa using here
      | cons second others =>
          rw [List.intercalate_cons_cons]
          exact unbroken_append _ _ (unbroken_append _ _ here plain) later

theorem package_unbroken (key : DBInterfaceName) (spelled : ∀ segment ∈ key.segments, ∀ c ∈ segment.toList, c ∈ nameChars) :
    Unbroken (".".intercalate (packageSegmentsLow key)).toList := by
  rw [String.toList_intercalate]
  apply unbroken_intercalate
  · decide
  · intro piece member c inside
    obtain ⟨text, listed, rfl⟩ := List.mem_map.mp member
    obtain ⟨segment, inPackage, rfl⟩ := List.mem_map.mp listed
    rw [lower_list] at inside
    obtain ⟨d, there, rfl⟩ := List.mem_map.mp inside
    exact (name_char_plain d (spelled segment (by simp [DBInterfaceName.segments, inPackage]) d there)).2.2.2

theorem reflect_method_few (node : MethodNode) (m : DBMethod) (reflected : reflectMethod node = some m) :
    m.out.length ≤ DBTuple.max := by
  simp only [reflectMethod] at reflected
  split at reflected
  case isTrue few =>
    obtain rfl := Option.some.inj reflected
    simpa using few
  case isFalse => cases reflected

theorem related_left {α β : Type} (R : α → β → Prop) (as : List α) (bs : List β) (related : List.Forall₂ R as bs) (b : β)
    (member : b ∈ bs) : ∃ a ∈ as, R a b := by
  induction related with
  | nil => cases member
  | cons here _ ih =>
      rcases List.mem_cons.mp member with rfl | inside
      · exact ⟨_, List.mem_cons_self, here⟩
      · obtain ⟨a, listed, there⟩ := ih inside
        exact ⟨a, List.mem_cons_of_mem _ listed, there⟩

theorem reflect_interface_few (key : DBInterfaceName) (node : InterfaceNode) (object : DBInstance) (iface : DBInterface)
    (reflected : reflectInterface key node object = some iface) : ∀ m ∈ iface.methods, m.out.length ≤ DBTuple.max := by
  rw [reflectInterface] at reflected
  obtain ⟨methods, found, later⟩ := Option.bind_eq_some_iff.mp reflected
  obtain ⟨props, _, same⟩ := Option.bind_eq_some_iff.mp later
  obtain rfl := Option.some.inj same
  intro m member
  obtain ⟨node, _, made⟩ := related_left _ _ methods (map_m_some _ _ methods found) m member
  exact reflect_method_few node m made

variable (bus : String → Option DBObject) (services : List String) (marshalling : String → Option (List JType))

-- What the reflection gives of an interface.
structure Reflected (iface : DBInterface) : Prop where
  few : ∀ m ∈ iface.methods, m.out.length ≤ DBTuple.max
  instances : iface.instances = instancesOf iface.name (objects bus services)
  listed : ∃ o ∈ objects bus services, ∃ node ∈ o.2, node.name = dbusInterfaceName iface ∧ Names iface.name node
  spelled : Spelled (dbusInterfaceName iface)

theorem Reflected.segments {bus : String → Option DBObject} {services : List String} {iface : DBInterface}
    (reflected : Reflected bus services iface) :
    ∀ segment ∈ iface.name.segments, ∀ c ∈ segment.toList, c ∈ nameChars :=
  segments_spelled iface.name _ rfl reflected.spelled

theorem run_entries (served : Served bus services) (fuel : Nat) (enough : depth bus services < fuel) :
    ∃ r, run (introspect bus) fuel services = some r ∧
      ∀ key, r.interfaces key = collect key none (listingsOf key (listings (objects bus services))) := by
  have legal := listings_legal (objects bus services) (fun o member => (objects_legal bus services served o member).2)
  obtain ⟨r, folded, _, entries⟩ := fold_listings (listings (objects bus services)) .empty legal
  exact ⟨r, by rw [run, run_walks bus fuel services .empty served enough, fold_objects, folded], entries⟩

theorem reflected_entry (served : Served bus services) (spelled : ∀ o ∈ objects bus services, ∀ node ∈ o.2, Spelled node.name)
    (key : DBInterfaceName) (iface : DBInterface)
    (entry : collect key none (listingsOf key (listings (objects bus services))) = some iface) :
    Reflected bus services iface ∧ iface.name = key := by
  have legal := fun o member => (objects_legal bus services served o member).2
  cases found : listingsOf key (listings (objects bus services)) with
  | nil => simp [found, collect] at entry
  | cons l rest =>
      have member : l ∈ listingsOf key (listings (objects bus services)) := found ▸ List.mem_cons_self
      obtain ⟨listing, keyed⟩ := List.mem_filter.mp member
      have names : Names key l.2 := by simpa using keyed
      obtain ⟨o, inside, below⟩ := List.mem_flatMap.mp listing
      obtain ⟨node, there, same⟩ := List.mem_map.mp below
      obtain rfl : node = l.2 := by rw [← same]
      have legalNode := (legal o inside).2 l.2 there
      obtain ⟨first, reflected, collected, named⟩ := collect_new key l rest legalNode
      rw [found, collected] at entry
      obtain rfl := Option.some.inj entry
      have joined := from_name_joined l.2.name legalNode.1 key names.2
      have annotated : dbusInterfaceName { first with instances := (l :: rest).map Prod.fst } = l.2.name := by
        rw [dbusInterfaceName, named]
        exact joined
      refine ⟨⟨reflect_interface_few key l.2 l.1 first reflected, ?_, ⟨o, inside, l.2, there, annotated.symm, ?_⟩, ?_⟩, named⟩
      · rw [← found, listings_instances key (objects bus services) legal, named]
      · rw [named]
        exact names
      · rw [annotated]
        exact spelled o inside l.2 there

theorem listed_entry (served : Served bus services) (o : DBInstance × List InterfaceNode) (inside : o ∈ objects bus services)
    (node : InterfaceNode) (there : node ∈ o.2) (key : DBInterfaceName) (names : Names key node) :
    ∃ iface, collect key none (listingsOf key (listings (objects bus services))) = some iface := by
  have legal := fun o member => (objects_legal bus services served o member).2
  have some := (listings_of_exists key (objects bus services)).mpr ⟨o, inside, node, there, names⟩
  obtain ⟨l, rest, found⟩ := List.exists_cons_of_ne_nil some
  have member : l ∈ listingsOf key (listings (objects bus services)) := found ▸ List.mem_cons_self
  have legalListing := listings_legal (objects bus services) legal l (List.mem_filter.mp member).1
  obtain ⟨first, _, collected, _⟩ := collect_new key l rest legalListing
  exact ⟨_, by rw [found, collected]⟩

theorem scala_file_fields (iface : DBInterface) (file : ScalaFile) (made : scalaFile marshalling iface = .ok file) :
    file.packageSegmentsLow = packageSegmentsLow iface.name ∧ file.ifaceName = iface.name.name ∧
      file.dbusInterfaceName = dbusInterfaceName iface ∧ file.busInstances = busInstances iface.instances := by
  rw [scalaFile] at made
  cases methods : iface.methods.mapM (scalaMethod marshalling) with
  | error failure => simp [methods, bind, Except.bind] at made
  | ok written =>
      cases props : iface.properties.mapM (scalaProperty marshalling) with
      | error failure => simp [methods, props, bind, Except.bind] at made
      | ok fields =>
          simp only [methods, props, bind, Except.bind, Except.ok.injEq] at made
          subst made
          exact ⟨rfl, rfl, rfl, rfl⟩

-- The agent of bluez at two objects, with two methods and a property.
def agentMarshalling (typeString : String) : Option (List JType) :=
  if typeString = "b" then some [.clazz ⟨"java.lang.Boolean", 0⟩]
  else if typeString = "s" then some [.clazz ⟨"java.lang.String", 0⟩]
  else none

theorem example_spelled : ∀ o ∈ objects exampleBus ["org.bluez"], ∀ node ∈ o.2, Spelled node.name := by
  decide +kernel

def agentKey : DBInterfaceName := ⟨.some "bluez" (.some "org" .none), "Agent"⟩

def agentInterface : DBInterface :=
  ⟨agentKey, [⟨"Cancel", [], []⟩, ⟨"Release", [⟨"reason", "s"⟩], [⟨"released", "b"⟩]⟩], [⟨"Powered", .dbReadWrite, "b"⟩],
    [⟨"org.bluez", "/"⟩, ⟨"org.bluez", "/hci"⟩]⟩

theorem agent_enumerates (r : DBReflection) (ran : run (introspect exampleBus) 2 ["org.bluez"] = some r) (iface : DBInterface) :
    iface ∈ [agentInterface] ↔ ∃ key, r.interfaces key = some iface := by
  obtain ⟨other, same, entries⟩ := run_entries exampleBus ["org.bluez"] example_served 2 (by decide)
  obtain rfl := Option.some.inj (ran.symm.trans same)
  have parsed : DBInterfaceName.fromName exampleInterface.name = some agentKey := by decide +kernel
  have known : collect agentKey none (listingsOf agentKey (listings (objects exampleBus ["org.bluez"]))) =
      some agentInterface := by decide +kernel
  have listed : ∀ l ∈ listings (objects exampleBus ["org.bluez"]), l.2 = exampleInterface := by decide +kernel
  rw [List.mem_singleton]
  constructor
  · rintro rfl
    exact ⟨agentKey, by rw [entries, known]⟩
  · rintro ⟨key, entry⟩
    rw [entries] at entry
    by_cases own : key = agentKey
    · rw [own, known] at entry
      exact (Option.some.inj entry).symm
    · have nothing : listingsOf key (listings (objects exampleBus ["org.bluez"])) = [] := by
        rw [listingsOf, List.filter_eq_nil_iff]
        intro l member names
        rw [listed l member] at names
        have named := (of_decide_eq_true names).2
        rw [parsed] at named
        exact own (Option.some.inj named).symm
      rw [nothing] at entry
      simp [collect] at entry

end Generated

end Toolbox8.DBus
