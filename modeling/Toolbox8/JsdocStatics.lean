import Toolbox8.Base.Sequences
import Toolbox8.JsdocClassFiles

set_option autoImplicit false

namespace Toolbox8.Jsdoc

open Base

section Names

-- The name that id turns a into.
def Escapes (a b : String) : Prop := (a ∈ reserved ∧ b = a ++ "_") ∨ (a ∈ keyword ∧ b = "`" ++ a ++ "`")

instance (a b : String) : Decidable (Escapes a b) := inferInstanceAs (Decidable (_ ∨ _))

-- Names that are the same in Scala.
def Confused (a b : String) : Prop := a = b ∨ Escapes a b ∨ Escapes b a

instance (a b : String) : Decidable (Confused a b) := inferInstanceAs (Decidable (_ ∨ _))

theorem id_plain (a : String) (free : a ∉ reserved) (other : a ∉ keyword) : id a = a := by
  simp [id, isReserved, free, other]

theorem escapes_id (a b : String) (escapes : Escapes a b) : id a = b ∧ id b = b := by
  rcases escapes with ⟨listed, rfl⟩ | ⟨listed, rfl⟩
  · simp only [reserved, List.mem_cons, List.not_mem_nil, or_false] at listed
    rcases listed with rfl | rfl
    · decide
    · decide
  · simp only [keyword, List.mem_cons, List.not_mem_nil, or_false] at listed
    rcases listed with rfl | rfl | rfl | rfl
    · decide
    · decide
    · decide
    · decide

theorem id_cases (a : String) : id a = a ∧ a ∉ reserved ∧ a ∉ keyword ∨ Escapes a (id a) := by
  by_cases listed : a ∈ reserved
  · exact .inr (.inl ⟨listed, by simp [id, isReserved, listed]⟩)
  · by_cases word : a ∈ keyword
    · exact .inr (.inr ⟨word, by simp [id, isReserved, listed, word]⟩)
    · exact .inl ⟨id_plain a listed word, listed, word⟩

theorem escapes_injective (a b name : String) (first : Escapes a name) (second : Escapes b name) : a = b := by
  have escaped : ∀ c, Escapes c name → c ∈ reserved ++ keyword := by
    rintro c (⟨listed, _⟩ | ⟨listed, _⟩)
    · exact List.mem_append_left _ listed
    · exact List.mem_append_right _ listed
  have same : id a = id b := (escapes_id a name first).1.trans (escapes_id b name second).1.symm
  have finite : ∀ c ∈ reserved ++ keyword, ∀ d ∈ reserved ++ keyword, id c = id d → c = d := by decide
  exact finite a (escaped a first) b (escaped b second) same

theorem id_eq_iff (a b : String) : id a = id b ↔ Confused a b := by
  constructor
  · intro same
    rcases id_cases a with ⟨first, _⟩ | first
    · rcases id_cases b with ⟨second, _⟩ | second
      · exact .inl (first.symm.trans (same.trans second))
      · rw [← same, first] at second
        exact .inr (.inr second)
    · rcases id_cases b with ⟨second, _⟩ | second
      · rw [same, second] at first
        exact .inr (.inl first)
      · rw [same] at first
        exact .inl (escapes_injective a b _ first second)
  · rintro (rfl | escapes | escapes)
    · rfl
    · exact (escapes_id a b escapes).1.trans (escapes_id a b escapes).2.symm
    · exact (escapes_id b a escapes).2.trans (escapes_id b a escapes).1.symm

end Names

inductive Static where
  | defOf (name : String)
  | valOf (name : String)
deriving DecidableEq, Repr

def Static.name : Static → String
  | .defOf name => name
  | .valOf name => name

def Static.start : Static → String
  | .defOf name => "def " ++ id name ++ "("
  | .valOf name => "val " ++ id name ++ " : "

def Static.scalaName (s : Static) : String := id s.name

section Lines

variable {mark : String}

def isStatic (line : Line mark) : Bool := line.starts "def " || line.starts "val "

def DeclaresStatic (line : Line mark) (s : Static) : Prop := line.starts s.start = true

theorem static_leads : Leads ['d', 'v'] (@isStatic mark) := by
  intro line other
  rw [isStatic, not_starts "def " 'd' rfl line (other 'd' (by simp)), not_starts "val " 'v' rfl line (other 'v' (by simp))]
  rfl

theorem val_declared (level : Nat) (name : String) (t : Text mark) (rest : String)
    (same : t.string = "val " ++ id name ++ " : " ++ rest) :
    isStatic (⟨level, t⟩ : Line mark) = true ∧ DeclaresStatic (⟨level, t⟩ : Line mark) (.valOf name) := by
  have val : (⟨level, t⟩ : Line mark).starts "val " = true := by
    rw [String.append_assoc, String.append_assoc] at same
    exact starts_text _ _ level t same
  exact ⟨by rw [isStatic, val, Bool.or_true], starts_text _ _ level t same⟩

theorem def_declared (level : Nat) (name : String) (t : Text mark) (same : t.string = "def " ++ id name ++ "(") :
    isStatic (⟨level, t⟩ : Line mark) = true ∧ DeclaresStatic (⟨level, t⟩ : Line mark) (.defOf name) := by
  have def_ : (⟨level, t⟩ : Line mark).starts "def " = true := by
    rw [String.append_assoc] at same
    exact starts_text _ _ level t same
  exact ⟨by rw [isStatic, def_, Bool.true_or], starts_text _ "" level t (same.trans String.append_empty.symm)⟩

end Lines

section Writers

variable (g : Generator) (fuel : Nat)

-- What writeStatics declares, loop by loop.
def Generator.statics (nsName : List String) : List Static :=
  (g.functionByParent nsName).map (fun fn => .defOf fn.name) ++ (g.staticMembers nsName).map (fun m => .valOf m.name) ++
    (g.namespaceByParent nsName).map (fun ns => .valOf (lastName ns)) ++
    (g.classByParent nsName).map (fun cl => .valOf cl.name)

theorem static_declared (level : Nat) (fn : Function) (w : Declarations g.mark) (done : g.writeStatic fuel level fn = .ok w) :
    ∃ line, w.lines.filter isStatic = [line] ∧ DeclaresStatic line (.defOf fn.name) := by
  obtain ⟨pairs, parameters, later⟩ := (bind_ok _ _ _).mp done
  obtain ⟨t, returned, same⟩ := (bind_ok _ _ _).mp later
  have params := params_unselected static_leads "    " ",\n" ' ' rfl (by decide) fn.params pairs parameters level
  obtain ⟨declared, line⟩ := def_declared level fn.name ("def " ++ id fn.name ++ "(" : Text g.mark) rfl
  rw [← Except.ok.inj same]
  simp only [append_filter, source_unselected static_leads (by decide), js_name_unselected static_leads (by decide), params,
    return_unselected static_leads (by decide), blank_unselected static_leads, List.nil_append]
  exact ⟨_, by rw [write_filter_pos _ _ _ declared]; rfl, line⟩

theorem val_written (level : Nat) (name : String) (type : Text g.mark) :
    ∃ line, (write g.mark level ("val " ++ id name ++ " : " ++ type ++ " = scala.scalajs.js.native") :
      Declarations g.mark).lines.filter isStatic = [line] ∧ DeclaresStatic line (.valOf name) := by
  obtain ⟨declared, line⟩ := val_declared level name
    ("val " ++ id name ++ " : " ++ type ++ " = scala.scalajs.js.native" : Text g.mark)
    (type.string ++ " = scala.scalajs.js.native") String.append_assoc
  exact ⟨_, by rw [write_filter_pos _ _ _ declared], line⟩

theorem static_member_declared (level : Nat) (m : Member) (w : Declarations g.mark)
    (done : g.writeStaticMember fuel level m = .ok w) :
    ∃ line, w.lines.filter isStatic = [line] ∧ DeclaresStatic line (.valOf m.name) := by
  obtain ⟨t, resolved, same⟩ := (bind_ok _ _ _).mp done
  obtain ⟨line, written, declares⟩ := val_written g level m.name t.toJsType
  rw [← Except.ok.inj same]
  simp only [append_filter, source_unselected static_leads (by decide), js_name_unselected static_leads (by decide),
    List.nil_append, written]
  exact ⟨line, List.append_nil [line], declares⟩

theorem subpackage_declared (level : Nat) (ns : List String) (w : Declarations g.mark)
    (done : g.writeSubpackage level ns = .ok w) :
    ∃ line, w.lines.filter isStatic = [line] ∧ DeclaresStatic line (.valOf (lastName ns)) := by
  rw [← Except.ok.inj done]
  simp only [append_filter, js_name_unselected static_leads (by decide), List.nil_append]
  exact val_written g level (lastName ns) (g.packageJoin (ns ++ [g.utilPackage]))

theorem class_statics_declared (nsName : List String) (level : Nat) (cl : Class) (w : Declarations g.mark)
    (done : g.writeClassStatics nsName level cl = .ok w) :
    ∃ line, w.lines.filter isStatic = [line] ∧ DeclaresStatic line (.valOf cl.name) := by
  rw [← Except.ok.inj done]
  simp only [append_filter, source_unselected static_leads (by decide), js_name_unselected static_leads (by decide),
    List.nil_append]
  exact val_written g level cl.name (g.packageJoin (nsName ++ [cl.name] ++ ["statics"]))

theorem statics_declared (nsName : List String) (level : Nat) (w : Declarations g.mark)
    (done : g.writeStatics fuel nsName level = .ok w) :
    List.Forall₂ DeclaresStatic (w.lines.filter isStatic) (g.statics nsName) := by
  obtain ⟨t1s, functions, afterFunctions⟩ := (bind_ok _ _ _).mp done
  obtain ⟨t2s, members, afterMembers⟩ := (bind_ok _ _ _).mp afterFunctions
  obtain ⟨subpackages, packages, afterPackages⟩ := (bind_ok _ _ _).mp afterMembers
  obtain ⟨classes, listed, same⟩ := (bind_ok _ _ _).mp afterPackages
  have comment : (write g.mark level "// subpackages" : Declarations g.mark).lines.filter isStatic = [] :=
    leads_write _ _ static_leads level _ (head_apart _ _ '/' (by simp) (by decide))
  have first := one_line_each isStatic (fun line fn => DeclaresStatic line (.defOf (Function.name fn)))
    (g.writeStatic fuel level) (g.functionByParent nsName) t1s functions
    (fun fn _ v here => static_declared g fuel level fn v here)
  have second := one_line_each isStatic (fun line m => DeclaresStatic line (.valOf (Member.name m)))
    (g.writeStaticMember fuel level) (g.staticMembers nsName) t2s members
    (fun m _ v here => static_member_declared g fuel level m v here)
  have third := one_line_each isStatic (fun line ns => DeclaresStatic line (.valOf (lastName ns)))
    (g.writeSubpackage level) (g.namespaceByParent nsName) subpackages packages
    (fun ns _ v here => subpackage_declared g level ns v here)
  have fourth := one_line_each isStatic (fun line cl => DeclaresStatic line (.valOf (Class.name cl)))
    (g.writeClassStatics nsName level) (g.classByParent nsName) classes listed
    (fun cl _ v here => class_statics_declared g nsName level cl v here)
  rw [← Except.ok.inj same, unions]
  simp only [append_filter, comment, List.append_nil]
  rw [Generator.statics]
  apply List.rel_append
  · apply List.rel_append
    · apply List.rel_append
      · exact List.forall₂_map_right_iff.mpr first
      · exact List.forall₂_map_right_iff.mpr second
    · exact List.forall₂_map_right_iff.mpr third
  · exact List.forall₂_map_right_iff.mpr fourth

end Writers

section Doclets

variable (g : Generator) (nsName : List String)

-- The names that a doclet declares in the trait of a package, loop by loop.
def declaresFunction : Doclet → Option String
  | .functionDoclet fn => if fn.ignore = false ∧ packageList fn.memberof = nsName then some fn.name else none
  | _ => none

def Generator.declaresMember : Doclet → Option String
  | .memberDoclet m =>
      if m.ignore = false ∧ packageList m.memberof = nsName ∧ m.inherited = false ∧ m.undocumented = false ∧
        m.scope = some "static" ∧ undefinedElement m.name = false ∧ m.name ∉ g.subpackageNames nsName then some m.name
      else none
  | _ => none

def declaresSubpackage : Doclet → Option String
  | .namespaceDoclet d =>
      if (splitName d.longname).dropLast = nsName then some (lastName (splitName d.longname)) else none
  | _ => none

def declaresClass : Doclet → Option String
  | .classDoclet cl => if packageList cl.memberof = nsName then some cl.name else none
  | _ => none

def Generator.declares (d : Doclet) : Option String :=
  (declaresFunction nsName d).or ((g.declaresMember nsName d).or ((declaresSubpackage nsName d).or (declaresClass nsName d)))

theorem functions_declare : g.doclets.filterMap (declaresFunction nsName) = (g.functionByParent nsName).map Function.name := by
  rw [Generator.functionByParent, Generator.functions, List.filter_filterMap, List.map_filterMap]
  apply List.filterMap_congr
  intro d _
  cases d with
  | functionDoclet fn =>
      by_cases ignored : fn.ignore
      · simp [declaresFunction, ignored]
      · by_cases parent : packageList fn.memberof = nsName
        · simp [declaresFunction, ignored, parent]
        · simp [declaresFunction, ignored, parent]
  | _ => rfl

theorem members_declare : g.doclets.filterMap (g.declaresMember nsName) = (g.staticMembers nsName).map Member.name := by
  rw [Generator.staticMembers, Generator.memberByParent, Generator.members, List.filter_filter, List.filter_filterMap,
    List.map_filterMap]
  apply List.filterMap_congr
  intro d _
  cases d with
  | memberDoclet m =>
      by_cases ignored : m.ignore
      · simp [Generator.declaresMember, ignored]
      · by_cases parent : packageList m.memberof = nsName
        · by_cases kept : m.inherited = false ∧ m.undocumented = false ∧ m.scope = some "static" ∧
            undefinedElement m.name = false ∧ m.name ∉ g.subpackageNames nsName
          · simp [Generator.declaresMember, ignored, parent, kept, Option.filter]
          · simp only [Generator.declaresMember, ignored, parent, kept, true_and, if_false]
            simp only [not_and_or] at kept
            rcases kept with other | other | other | other | other
            · simp [other, Option.filter]
            · simp [other, Option.filter]
            · simp [other, Option.filter]
            · simp [other, Option.filter]
            · simp [other, Option.filter]
        · simp [Generator.declaresMember, ignored, parent, Option.filter]
  | _ => rfl

theorem subpackages_declare : g.doclets.filterMap (declaresSubpackage nsName) = g.subpackageNames nsName := by
  rw [Generator.subpackageNames, Generator.namespaceByParent, Generator.realNamespaces, List.filter_filterMap,
    List.map_filterMap]
  apply List.filterMap_congr
  intro d _
  cases d with
  | namespaceDoclet ns =>
      by_cases parent : (splitName ns.longname).dropLast = nsName
      · simp [declaresSubpackage, parent, Option.filter]
      · simp [declaresSubpackage, parent, Option.filter]
  | _ => rfl

theorem classes_declare : g.doclets.filterMap (declaresClass nsName) = (g.classByParent nsName).map Class.name := by
  rw [Generator.classByParent, Generator.classes, List.filter_filterMap, List.map_filterMap]
  apply List.filterMap_congr
  intro d _
  cases d with
  | classDoclet cl =>
      by_cases parent : packageList cl.memberof = nsName
      · simp [declaresClass, parent, Option.filter]
      · simp [declaresClass, parent, Option.filter]
  | _ => rfl

theorem statics_perm : (g.doclets.filterMap (g.declares nsName)).Perm ((g.statics nsName).map Static.name) := by
  have functions : g.doclets.filterMap (g.declares nsName) = g.doclets.filterMap (fun d => (declaresFunction nsName d).or
      ((g.declaresMember nsName d).or ((declaresSubpackage nsName d).or (declaresClass nsName d)))) := rfl
  have first := filter_map_either (declaresFunction nsName)
    (fun d => (g.declaresMember nsName d).or ((declaresSubpackage nsName d).or (declaresClass nsName d))) g.doclets
    (fun d _ => by cases d <;> simp [declaresFunction, Generator.declaresMember, declaresSubpackage, declaresClass])
  have second := filter_map_either (g.declaresMember nsName)
    (fun d => (declaresSubpackage nsName d).or (declaresClass nsName d)) g.doclets
    (fun d _ => by cases d <;> simp [Generator.declaresMember, declaresSubpackage, declaresClass])
  have third := filter_map_either (declaresSubpackage nsName) (declaresClass nsName) g.doclets
    (fun d _ => by cases d <;> simp [declaresSubpackage, declaresClass])
  have all := first.trans ((second.trans (third.append_left _)).append_left _)
  rw [functions_declare, members_declare, subpackages_declare, classes_declare] at all
  rw [functions]
  apply all.trans
  rw [Generator.statics, List.map_append, List.map_append, List.map_append, List.map_map, List.map_map, List.map_map,
    List.map_map, List.append_assoc, List.append_assoc]
  exact .refl _

theorem static_names_nodup : ((g.statics nsName).map Static.scalaName).Nodup ↔
    (g.doclets.filterMap (g.declares nsName)).Pairwise (fun a b => ¬ Confused a b) := by
  have symmetric : ∀ {a b : String}, ¬ Confused a b → ¬ Confused b a := by
    intro a b apart confused
    rw [← id_eq_iff] at apart confused
    exact apart confused.symm
  have names : (g.statics nsName).map Static.scalaName = ((g.statics nsName).map Static.name).map id := by
    rw [List.map_map]
    rfl
  rw [(statics_perm g nsName).pairwise_iff symmetric, names, List.Nodup, List.pairwise_map]
  simp only [← id_eq_iff, ne_eq]

theorem package_statics_iff (fuel level : Nat) (w : Declarations g.mark) (done : g.writeStatics fuel nsName level = .ok w) :
    List.Forall₂ DeclaresStatic (w.lines.filter isStatic) (g.statics nsName) ∧
    (((g.statics nsName).map Static.scalaName).Nodup ↔
      (g.doclets.filterMap (g.declares nsName)).Pairwise (fun a b => ¬ Confused a b)) :=
  ⟨statics_declared g fuel nsName level w done, static_names_nodup g nsName⟩

end Doclets

-- The kind and the longname of a doclet. No writer reads the longname of a function.
def Doclet.key : Doclet → Option (String × String)
  | .memberDoclet d => some ("member", d.longname)
  | .namespaceDoclet d => some ("namespace", d.longname)
  | .functionDoclet _ => none
  | .classDoclet d => some ("class", d.longname)
  | .typedefDoclet d => some ("typedef", d.longname)
  | .interfaceDoclet d => some ("interface", d.longname)
  | .other => none

-- The name Timer is a class and a namespace of the root.
def timerPackage (namespace_ : String) : Generator :=
  ⟨[.classDoclet (timerClass none), .namespaceDoclet ⟨namespace_⟩], ["jsfacade"], "pkg", ["implicits"], fun _ => ""⟩

theorem timer_package_names : ∃ w, (timerPackage "timer").writeStatics 1 [] 2 = .ok w ∧
    List.Forall₂ DeclaresStatic (w.lines.filter isStatic) [.valOf "timer", .valOf "Timer"] ∧
    (((timerPackage "timer").statics []).map Static.scalaName).Nodup := by
  obtain ⟨w, done⟩ := ok_of_some ((timerPackage "timer").writeStatics 1 [] 2) (by decide +kernel)
  have statics : (timerPackage "timer").statics [] = [.valOf "timer", .valOf "Timer"] := by decide +kernel
  have apart : ((timerPackage "timer").doclets.filterMap ((timerPackage "timer").declares [])).Pairwise
      (fun a b => ¬ Confused a b) := by
    decide +kernel
  obtain ⟨declared, distinct⟩ := package_statics_iff (timerPackage "timer") [] 1 2 w done
  have names := distinct.mpr apart
  rw [statics] at declared
  exact ⟨w, done, declared, names⟩

theorem class_and_namespace_clash :
    ¬ ∀ (g : Generator) (fuel level : Nat) (nsName : List String) (w : Declarations g.mark),
      (∀ d ∈ g.doclets, d.key.isSome = true) → (g.doclets.map Doclet.key).Nodup → nsName ∈ g.namespaces →
      g.writeStatics fuel nsName level = .ok w → ((g.statics nsName).map Static.scalaName).Nodup := by
  intro claimed
  obtain ⟨w, done⟩ := ok_of_some ((timerPackage "Timer").writeStatics 1 [] 2) (by decide +kernel)
  have distinct := claimed (timerPackage "Timer") 1 2 [] w (by decide +kernel) (by decide +kernel) (by decide +kernel) done
  have same : ((timerPackage "Timer").statics []).map Static.scalaName = ["Timer", "Timer"] := by decide +kernel
  rw [same] at distinct
  simp at distinct

end Toolbox8.Jsdoc
