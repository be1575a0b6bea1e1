import Toolbox8.Base.Keyed
import Toolbox8.Base.Paths
import Toolbox8.Base.Sequences
import Toolbox8.JsdocStatics

set_option autoImplicit false

namespace Toolbox8.Jsdoc

open Base

section Files

variable {mark : String}

-- The file under the target directory that a path names.
def SourceFile.target (file : SourceFile mark) : List (List Char) := pathNames file.path.toList

-- The calls of writeFile, in order.
def Generated.writes (out : Generated mark) : List (SourceFile mark) := out.files ++ [out.implicitsFile]

-- What a file has in the end: PrintWriter truncates a file that exists.
def stored (writes : List (SourceFile mark)) (target : List (List Char)) : Option (Declarations mark) :=
  (findKeyed SourceFile.target target writes.reverse).map SourceFile.written

theorem stored_written (writes : List (SourceFile mark)) (distinct : (writes.map SourceFile.target).Nodup)
    (file : SourceFile mark) (member : file ∈ writes) : stored writes file.target = some file.written := by
  have reversed : (writes.reverse.map SourceFile.target).Nodup := by
    rw [List.map_reverse, List.nodup_reverse]
    exact distinct
  rw [stored, find_keyed_distinct SourceFile.target writes.reverse reversed file (List.mem_reverse.mpr member)]
  rfl

end Files

section Names

variable (g : Generator)

-- The path of the file of a longname, up to the extension.
def Generator.sourcePath (longname : String) : List Char :=
  ("/".intercalate (g.rootPackage ++ splitName longname)).toList

def Generator.sourceFile (longname : String) : List (List Char) := pathNames (g.sourcePath longname ++ ".scala".toList)

-- Longnames that lead to the same folders, which have no empty names, and to the same file in them.
def Generator.SameFile (a b : String) : Prop :=
  folders (g.sourcePath a) = folders (g.sourcePath b) ∧ lastPart (g.sourcePath a) = lastPart (g.sourcePath b)

instance (a b : String) : Decidable (g.SameFile a b) := inferInstanceAs (Decidable (_ ∧ _))

def Generator.packageName (ns : List String) : String := ".".intercalate (ns ++ [g.utilPackage])

def Generator.implicitsName : String := ".".intercalate g.implicits

-- The longnames that the files are written under, in order.
def Generator.writtenNames : List String :=
  (g.inNamespaces g.classByParent).map (fun cl => cl.2.longname) ++
    (g.inNamespaces g.interfacesByParent).map (fun cl => cl.2.longname) ++
    (g.inNamespaces g.objectTypedefs).map (fun td => td.2.longname) ++ g.namespaces.map g.packageName ++ [g.implicitsName]

theorem write_file_target (longname : String) (writer : Except Stop (Declarations g.mark)) (file : SourceFile g.mark)
    (done : g.writeFile longname writer = .ok file) : file.target = g.sourceFile longname := by
  obtain ⟨w, _, rfl⟩ := (map_ok _ _ _).mp done
  rw [SourceFile.target, Generator.sourceFile, Generator.sourcePath, ← String.toList_append]

theorem class_file_target (fuel : Nat) (ns : List String) (cl : Class) (file : SourceFile g.mark)
    (done : g.classFile fuel ns cl = .ok file) : file.target = g.sourceFile cl.longname :=
  write_file_target g cl.longname _ file done

theorem interface_file_target (fuel : Nat) (ns : List String) (cl : Interface) (file : SourceFile g.mark)
    (done : g.interfaceFile fuel ns cl = .ok file) : file.target = g.sourceFile cl.longname :=
  write_file_target g cl.longname _ file done

theorem trait_file_target (fuel : Nat) (ns : List String) (td : Typedef) (file : SourceFile g.mark)
    (done : g.traitFile fuel ns td = .ok file) : file.target = g.sourceFile td.longname :=
  write_file_target g td.longname _ file done

theorem package_file_target (fuel : Nat) (ns : List String) (file : SourceFile g.mark)
    (done : g.packageFile fuel ns = .ok file) : file.target = g.sourceFile (g.packageName ns) :=
  write_file_target g (g.packageName ns) _ file done

theorem implicits_file_target (types : List (ResolvedType g.mark)) (file : SourceFile g.mark)
    (done : g.implicitsFile types = .ok file) : file.target = g.sourceFile g.implicitsName := by
  rw [Generator.implicitsFile] at done
  split at done
  · simp at done
  · exact write_file_target g g.implicitsName _ file done

theorem writes_targets (fuel : Nat) (out : Generated g.mark) (done : g.generate fuel = .ok out) :
    out.writes.map SourceFile.target = g.writtenNames.map g.sourceFile := by
  obtain ⟨classFiles, interfaceFiles, traitFiles, packageFiles, classes, interfaces, traits, packages, files, implicits⟩ :=
    generate_files g fuel out done
  have first : classFiles.map SourceFile.target =
      (g.inNamespaces g.classByParent).map (fun cl => g.sourceFile cl.2.longname) := by
    apply map_m_map (fun cl : List String × Class => g.classFile fuel cl.1 cl.2) _ _ _ classFiles classes
    intro cl _ file here
    exact class_file_target g fuel cl.1 cl.2 file here
  have second : interfaceFiles.map SourceFile.target =
      (g.inNamespaces g.interfacesByParent).map (fun cl => g.sourceFile cl.2.longname) := by
    apply map_m_map (fun cl : List String × Interface => g.interfaceFile fuel cl.1 cl.2) _ _ _ interfaceFiles interfaces
    intro cl _ file here
    exact interface_file_target g fuel cl.1 cl.2 file here
  have third : traitFiles.map SourceFile.target =
      (g.inNamespaces g.objectTypedefs).map (fun td => g.sourceFile td.2.longname) := by
    apply map_m_map (fun td : List String × Typedef => g.traitFile fuel td.1 td.2) _ _ _ traitFiles traits
    intro td _ file here
    exact trait_file_target g fuel td.1 td.2 file here
  have fourth : packageFiles.map SourceFile.target = g.namespaces.map (fun ns => g.sourceFile (g.packageName ns)) := by
    apply map_m_map (g.packageFile fuel) _ _ _ packageFiles packages
    intro ns _ file here
    exact package_file_target g fuel ns file here
  have last := implicits_file_target g _ out.implicitsFile implicits
  rw [Generated.writes, files, Generator.writtenNames]
  simp only [List.map_append, List.map_map, first, second, third, fourth, List.map_cons, List.map_nil, last]
  rfl

theorem source_file_eq (a b : String) : g.sourceFile a = g.sourceFile b ↔ g.SameFile a b :=
  names_extension_iff (g.sourcePath a) (g.sourcePath b) ".scala".toList (by decide) (by decide)

theorem targets_nodup (fuel : Nat) (out : Generated g.mark) (done : g.generate fuel = .ok out) :
    (out.writes.map SourceFile.target).Nodup ↔ g.writtenNames.Pairwise (fun a b => ¬ g.SameFile a b) := by
  rw [writes_targets g fuel out done, List.Nodup, List.pairwise_map]
  simp only [ne_eq, source_file_eq]

end Names

section Definitions

variable (g : Generator)

def Generator.classTarget : Doclet → Option String
  | .classDoclet cl => if packageList cl.memberof ∈ g.namespaces then some cl.longname else none
  | _ => none

def Generator.interfaceTarget : Doclet → Option String
  | .interfaceDoclet cl => if packageList cl.memberof ∈ g.namespaces then some cl.longname else none
  | _ => none

def Generator.traitTarget : Doclet → Option String
  | .typedefDoclet td =>
      if packageList td.memberof ∈ g.namespaces ∧ td.type.names = ["Object"] then some td.longname else none
  | _ => none

def Generator.definitionTarget (d : Doclet) : Option String :=
  (g.classTarget d).or ((g.interfaceTarget d).or (g.traitTarget d))

def Generator.definitions : List String := g.doclets.filterMap g.definitionTarget

def Generator.packageNames : List String := g.namespaces.map g.packageName

theorem in_namespaces_map {α : Type} (of : List String → List α) (name : α → String) :
    (g.inNamespaces of).map (fun a => name a.2) = (g.namespaces.flatMap of).map name := by
  rw [Generator.inNamespaces, List.map_flatMap, List.map_flatMap]
  simp only [List.map_map]
  rfl

theorem targets_perm {α : Type} (pick : Doclet → Option α) (parent : α → List String) (name : α → String)
    (target : Doclet → Option String) (of : List String → List α) (distinct : g.namespaces.Nodup)
    (grouped : ∀ ns, of ns = (g.doclets.filterMap pick).filter (fun a => decide (parent a = ns)))
    (targets : ∀ d, target d = ((pick d).filter (fun a => decide (parent a ∈ g.namespaces))).map name) :
    ((g.inNamespaces of).map (fun a => name a.2)).Perm (g.doclets.filterMap target) := by
  have selected : g.doclets.filterMap target =
      ((g.doclets.filterMap pick).filter (fun a => decide (parent a ∈ g.namespaces))).map name := by
    rw [List.filter_filterMap, List.map_filterMap]
    apply List.filterMap_congr
    intro d _
    exact targets d
  rw [in_namespaces_map g of name, selected, funext grouped]
  exact (keyed_groups_perm parent g.namespaces distinct (g.doclets.filterMap pick) _ (by simp)).map name

theorem class_targets (distinct : g.namespaces.Nodup) :
    ((g.inNamespaces g.classByParent).map (fun cl => cl.2.longname)).Perm (g.doclets.filterMap g.classTarget) := by
  apply targets_perm g _ (fun cl : Class => packageList cl.memberof) Class.longname g.classTarget g.classByParent distinct
    (fun ns => rfl)
  intro d
  cases d with
  | classDoclet cl => simp [Generator.classTarget, Option.filter]
  | _ => rfl

theorem interface_targets (distinct : g.namespaces.Nodup) :
    ((g.inNamespaces g.interfacesByParent).map (fun cl => cl.2.longname)).Perm (g.doclets.filterMap g.interfaceTarget) := by
  apply targets_perm g _ (fun cl : Interface => packageList cl.memberof) Interface.longname g.interfaceTarget
    g.interfacesByParent distinct (fun ns => rfl)
  intro d
  cases d with
  | interfaceDoclet cl => simp [Generator.interfaceTarget, Option.filter]
  | _ => rfl

def isObject (td : Typedef) : Bool := decide (td.type.names = ["Object"])

theorem object_typedefs_filter (ns : List String) : g.objectTypedefs ns =
    ((g.typedefs.filterMap TypedefLike.typedefOnly).filter isObject).filter
      (fun td => decide (packageList td.memberof = ns)) := by
  rw [Generator.objectTypedefs, Generator.typedefByParent, List.filter_comm]
  congr 1
  rw [List.filter_filterMap, List.filterMap_filter]
  apply List.filterMap_congr
  intro td _
  cases td with
  | typedefDoclet d =>
      by_cases parent : packageList d.memberof = ns
      · simp [TypedefLike.memberof, TypedefLike.typedefOnly, parent, Option.filter]
      · simp [TypedefLike.memberof, TypedefLike.typedefOnly, parent, Option.filter]
  | memberDoclet d => simp [TypedefLike.typedefOnly]

theorem trait_targets (distinct : g.namespaces.Nodup) :
    ((g.inNamespaces g.objectTypedefs).map (fun td => td.2.longname)).Perm (g.doclets.filterMap g.traitTarget) := by
  have selected : g.doclets.filterMap g.traitTarget = (((g.typedefs.filterMap TypedefLike.typedefOnly).filter isObject).filter
      (fun td => decide (packageList td.memberof ∈ g.namespaces))).map Typedef.longname := by
    rw [Generator.typedefs, List.filterMap_filterMap, List.filter_filter, List.filter_filterMap, List.map_filterMap]
    apply List.filterMap_congr
    intro d _
    cases d with
    | typedefDoclet td =>
        by_cases parent : packageList td.memberof ∈ g.namespaces
        · by_cases object : td.type.names = ["Object"]
          · simp [Generator.traitTarget, TypedefLike.typedefOnly, isObject, parent, object, Option.filter]
          · simp [Generator.traitTarget, TypedefLike.typedefOnly, isObject, parent, object, Option.filter]
        · simp [Generator.traitTarget, TypedefLike.typedefOnly, parent, Option.filter]
    | memberDoclet m =>
        by_cases goog : isGoogTypedef m
        · simp [Generator.traitTarget, TypedefLike.typedefOnly, goog]
        · simp [Generator.traitTarget, goog]
    | _ => rfl
  rw [in_namespaces_map g g.objectTypedefs Typedef.longname, selected]
  have groups := (keyed_groups_perm (fun td : Typedef => packageList td.memberof) g.namespaces distinct
    ((g.typedefs.filterMap TypedefLike.typedefOnly).filter isObject) (fun td => decide (packageList td.memberof ∈ g.namespaces))
    (by simp)).map Typedef.longname
  simp only [← object_typedefs_filter] at groups
  exact groups

theorem definitions_perm (distinct : g.namespaces.Nodup) :
    g.definitions.Perm ((g.inNamespaces g.classByParent).map (fun cl => cl.2.longname) ++
      (g.inNamespaces g.interfacesByParent).map (fun cl => cl.2.longname) ++
      (g.inNamespaces g.objectTypedefs).map (fun td => td.2.longname)) := by
  have first := filter_map_either g.classTarget (fun d => (g.interfaceTarget d).or (g.traitTarget d)) g.doclets
    (fun d _ => by cases d <;> simp [Generator.classTarget, Generator.interfaceTarget, Generator.traitTarget])
  have second := filter_map_either g.interfaceTarget g.traitTarget g.doclets
    (fun d _ => by cases d <;> simp [Generator.interfaceTarget, Generator.traitTarget])
  have all := first.trans (second.append_left _)
  rw [List.append_assoc]
  exact all.trans ((class_targets g distinct).symm.append
    ((interface_targets g distinct).symm.append (trait_targets g distinct).symm))

end Definitions

section Overwriting

variable (g : Generator)

-- No two packages have one file, which a namespace that is declared twice would have, nor have two definitions, a
-- definition and a package, or one of them and the implicits.
structure Generator.FilesApart : Prop where
  packages : g.packageNames.Pairwise (fun a b => ¬ g.SameFile a b)
  definitions : g.definitions.Pairwise (fun a b => ¬ g.SameFile a b)
  inPackages : ∀ a ∈ g.definitions, ∀ b ∈ g.packageNames, ¬ g.SameFile a b
  implicits : ∀ a ∈ g.definitions ++ g.packageNames, ¬ g.SameFile a g.implicitsName

theorem namespaces_distinct (apart : g.packageNames.Pairwise (fun a b => ¬ g.SameFile a b)) : g.namespaces.Nodup := by
  apply (List.pairwise_map.mp apart).imp
  rintro ns other different rfl
  exact different ⟨rfl, rfl⟩

theorem written_names_apart : g.writtenNames.Pairwise (fun a b => ¬ g.SameFile a b) ↔ g.FilesApart := by
  have symmetric : ∀ {a b : String}, ¬ g.SameFile a b → ¬ g.SameFile b a :=
    fun different same => different ⟨same.1.symm, same.2.symm⟩
  rw [Generator.writtenNames, List.pairwise_append, List.pairwise_append]
  constructor
  · rintro ⟨⟨definitions, packages, between⟩, _, implicits⟩
    have perm := definitions_perm g (namespaces_distinct g packages)
    constructor
    · exact packages
    · exact (perm.pairwise_iff symmetric).mpr definitions
    · exact fun a member b listed => between a (perm.mem_iff.mp member) b listed
    · intro a member
      apply implicits a _ g.implicitsName (List.mem_singleton_self _)
      rcases List.mem_append.mp member with here | there
      · exact List.mem_append_left _ (perm.mem_iff.mp here)
      · exact List.mem_append_right _ there
  · intro apart
    have perm := definitions_perm g (namespaces_distinct g apart.packages)
    refine ⟨⟨(perm.pairwise_iff symmetric).mp apart.definitions, apart.packages, ?_⟩, List.pairwise_singleton _ _, ?_⟩
    · exact fun a member b listed => apart.inPackages a (perm.mem_iff.mpr member) b listed
    · intro a member b listed
      rw [List.mem_singleton.mp listed]
      apply apart.implicits
      rcases List.mem_append.mp member with here | there
      · exact List.mem_append_left _ (perm.mem_iff.mpr here)
      · exact List.mem_append_right _ there

theorem same_file_proper (a b : String) (root : ∀ part ∈ g.rootPackage, part.toList ≠ [] ∧ '/' ∉ part.toList)
    (first : splitName a ≠ [] ∧ ∀ part ∈ splitName a, part.toList ≠ [] ∧ '/' ∉ part.toList)
    (second : splitName b ≠ [] ∧ ∀ part ∈ splitName b, part.toList ≠ [] ∧ '/' ∉ part.toList) :
    g.SameFile a b ↔ splitName a = splitName b := by
  have parts : ∀ name : String, splitName name ≠ [] → (∀ part ∈ splitName name, part.toList ≠ [] ∧ '/' ∉ part.toList) →
      folders (g.sourcePath name) = ((g.rootPackage ++ splitName name).map String.toList).dropLast ∧
        lastPart (g.sourcePath name) = ((g.rootPackage ++ splitName name).map String.toList).getLastD [] := by
    intro name nonempty proper
    rw [Generator.sourcePath, String.toList_intercalate]
    apply parts_joined
    · simp [nonempty]
    · intro part member
      obtain ⟨piece, listed, rfl⟩ := List.mem_map.mp member
      rcases List.mem_append.mp listed with here | there
      · exact root piece here
      · exact proper piece there
  have whole : ∀ names : List (List Char), names ≠ [] → names.dropLast ++ [names.getLastD []] = names := by
    intro names nonempty
    rw [List.getLastD_eq_getLast?, List.getLast?_eq_some_getLast nonempty]
    exact List.dropLast_append_getLast nonempty
  obtain ⟨foldersA, lastA⟩ := parts a first.1 first.2
  obtain ⟨foldersB, lastB⟩ := parts b second.1 second.2
  rw [Generator.SameFile, foldersA, foldersB, lastA, lastB]
  constructor
  · rintro ⟨front, last⟩
    have names : (g.rootPackage ++ splitName a).map String.toList = (g.rootPackage ++ splitName b).map String.toList := by
      have left := whole ((g.rootPackage ++ splitName a).map String.toList) (by simp [first.1])
      rw [front, last] at left
      exact left.symm.trans (whole _ (by simp [second.1]))
    exact List.append_cancel_left (List.map_injective_iff.mpr (fun s t same => String.toList_inj.mp same) names)
  · intro same
    rw [same]
    exact ⟨rfl, rfl⟩

theorem files_apart_iff (fuel : Nat) (out : Generated g.mark) (done : g.generate fuel = .ok out) :
    ((out.writes.map SourceFile.target).Nodup ↔ g.FilesApart) ∧
    (g.FilesApart → ∀ file ∈ out.writes, stored out.writes file.target = some file.written) := by
  have distinct : (out.writes.map SourceFile.target).Nodup ↔ g.FilesApart :=
    (targets_nodup g fuel out done).trans (written_names_apart g)
  exact ⟨distinct, fun apart => stored_written out.writes (distinct.mpr apart)⟩

end Overwriting

-- A class and an interface of the root.
def shapeGenerator (interface_ : String) : Generator :=
  ⟨[.classDoclet ⟨"Shape", none, "Shape", ⟨"shape.js", "/", 1, none⟩, none, none, none, none⟩,
    .interfaceDoclet ⟨interface_, interface_, none, some "public", ⟨"shape.js", "/", 2, none⟩⟩],
    ["jsfacade"], "pkg", ["implicits"], fun _ => ""⟩

theorem shape_files_stored : ∃ out, (shapeGenerator "Drawable").generate 1 = .ok out ∧
    ∀ file ∈ out.writes, stored out.writes file.target = some file.written := by
  obtain ⟨out, done⟩ := ok_of_some ((shapeGenerator "Drawable").generate 1) (by decide +kernel)
  obtain ⟨_, all⟩ := files_apart_iff (shapeGenerator "Drawable") 1 out done
  have apart : (shapeGenerator "Drawable").FilesApart := by
    constructor
    · decide +kernel
    · decide +kernel
    · decide +kernel
    · decide +kernel
  exact ⟨out, done, all apart⟩

theorem interface_overwrites_class :
    ¬ ∀ (g : Generator) (fuel : Nat) (out : Generated g.mark), (∀ d ∈ g.doclets, d.key.isSome = true) →
      (g.doclets.map Doclet.key).Nodup → g.generate fuel = .ok out → (out.writes.map SourceFile.target).Nodup := by
  intro claimed
  have targets : ((shapeGenerator "Shape").generate 1).toOption.map
      (fun out => decide (out.writes.map SourceFile.target).Nodup) = some false := by
    decide +kernel
  cases done : (shapeGenerator "Shape").generate 1 with
  | error stop => simp [done, Except.toOption] at targets
  | ok out =>
      have distinct := claimed (shapeGenerator "Shape") 1 out (by decide +kernel) (by decide +kernel) done
      simp [done, Except.toOption, distinct] at targets

end Toolbox8.Jsdoc
