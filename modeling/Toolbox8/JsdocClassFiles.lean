import Toolbox8.Base.Declared
import Toolbox8.JsdocUnions

set_option autoImplicit false

namespace Toolbox8.Jsdoc

open Base

section Lines

variable {mark : String}

-- A method of a class body. The constructor is not one.
def isMethod (line : Line mark) : Bool :=
  (line.starts "def " || line.starts "override def ") && decide (line.text.string ≠ "def this(")

def classDefStart (fn : Function) : String :=
  if fn.implements.isEmpty then "def " ++ id fn.name ++ "(" else "override " ++ ("def " ++ id fn.name ++ "(")

def DeclaresMethod (line : Line mark) (fn : Function) : Prop := line.starts (classDefStart fn) = true

-- The lines between the line of the class and the brace that ends it.
def classBody (level : Nat) (lines : List (Line mark)) : List (Line mark) :=
  ((lines.dropWhile (fun line => !line.starts "class ")).drop 1).takeWhile
    (fun line => !(decide (line.level = level) && decide (line.text.string = "\x7d")))

def methods (level : Nat) (lines : List (Line mark)) : List (Line mark) := (classBody level lines).filter isMethod

theorem method_leads : Leads ['d', 'o'] (@isMethod mark) := by
  intro line other
  rw [isMethod, not_starts "def " 'd' rfl line (other 'd' (by simp)),
    not_starts "override def " 'o' rfl line (other 'o' (by simp))]
  rfl

theorem is_method (fn : Function) (rest : String) (level : Nat) (t : Text mark) (same : t.string = classDefStart fn ++ rest)
    (c : Char) (member : c ∈ rest.toList) (apart : c ∉ "def this(".toList) : isMethod (⟨level, t⟩ : Line mark) = true := by
  have other : t.string ≠ "def this(" := by
    intro constructor_
    apply apart
    rw [← constructor_, same, String.toList_append]
    exact List.mem_append_right _ member
  have started : (⟨level, t⟩ : Line mark).starts "def " = true ∨ (⟨level, t⟩ : Line mark).starts "override def " = true := by
    rw [classDefStart] at same
    by_cases own : fn.implements.isEmpty
    · rw [if_pos own, String.append_assoc, String.append_assoc] at same
      exact .inl (starts_text _ _ level t same)
    · rw [if_neg own] at same
      apply Or.inr
      apply starts_text "override def " (id fn.name ++ "(" ++ rest) level t
      rw [same]
      apply String.toList_inj.mp
      simp [String.toList_append]
  simpa [isMethod, other] using started

end Lines

section Functions

variable (g : Generator) (fuel : Nat)

theorem written_params_head (before separator : String) (c : Char) (leads : before.toList.head? = some c)
    (params : List Param) (pairs : List (ResolvedType g.mark × Text g.mark))
    (done : g.writtenParams fuel before params = .ok pairs) :
    (Text.mkString separator (pairs.map Prod.snd)).string = "" ∨
      (Text.mkString separator (pairs.map Prod.snd)).string.toList.head? = some c := by
  cases params with
  | nil =>
      rw [← Except.ok.inj done]
      exact .inl rfl
  | cons p rest =>
      obtain ⟨first, later, here, there, rfl⟩ := (map_m_cons_ok _ p rest pairs).mp done
      obtain ⟨t, resolved, rfl⟩ := (map_ok _ _ _).mp here
      apply Or.inr
      apply head_append
      apply head_append
      apply head_append
      exact head_append before (id p.name) c leads

end Functions

-- What the writers put between the declarations is not selected by the letters of a declaration.
section Unselected

variable {g : Generator} {fuel : Nat} {letters : List Char} {p : Line g.mark → Bool} (leads : Leads letters p)

include leads

theorem source_unselected (apart : '/' ∉ letters) (level : Nat) (docMeta : Meta) :
    (g.source level docMeta).lines.filter p = [] :=
  leads_write letters p leads level _ (head_apart letters _ '/' (by simp) apart)

theorem js_name_unselected (apart : '@' ∉ letters) (level : Nat) (name : String) :
    (jsName level name : Declarations g.mark).lines.filter p = [] := by
  rw [jsName]
  split
  · exact leads_write letters p leads level _ (head_apart letters _ '@' (by simp) apart)
  · rfl

theorem return_unselected (apart : ')' ∉ letters) (level : Nat) (t : Text g.mark) :
    (write g.mark level (") : " ++ t ++ " = scala.scalajs.js.native") : Declarations g.mark).lines.filter p = [] :=
  leads_write letters p leads level _ (head_apart letters _ ')' (by simp) apart)

theorem blank_unselected (level : Nat) : (write g.mark level "" : Declarations g.mark).lines.filter p = [] :=
  leads_write letters p leads level _ (by simp)

theorem params_unselected (before separator : String) (c : Char) (first : before.toList.head? = some c) (apart : c ∉ letters)
    (params : List Param) (pairs : List (ResolvedType g.mark × Text g.mark))
    (done : g.writtenParams fuel before params = .ok pairs) (level : Nat) :
    (write g.mark level (Text.mkString separator (pairs.map Prod.snd)) : Declarations g.mark).lines.filter p = [] := by
  rcases written_params_head g fuel before separator c first params pairs done with none_written | head
  · exact leads_write letters p leads level _ (by simp [none_written])
  · exact leads_write letters p leads level _ (head_apart letters _ c head apart)

end Unselected

section Methods

variable (g : Generator) (fuel : Nat)

theorem class_function_method (level : Nat) (fn : Function) (w : Declarations g.mark)
    (done : g.writeClassFunction fuel level fn = .ok w) :
    ∃ line, w.lines.filter isMethod = [line] ∧ DeclaresMethod line fn := by
  have written : g.writeFunction fuel level (classDefStart fn) fn = .ok w := done
  obtain ⟨pairs, parameters, later⟩ := (bind_ok _ _ _).mp written
  obtain ⟨t, returned, same⟩ := (bind_ok _ _ _).mp later
  rw [← Except.ok.inj same]
  simp only [append_filter, source_unselected method_leads (by decide), js_name_unselected method_leads (by decide),
    blank_unselected method_leads, List.nil_append]
  by_cases empty : (Text.mkString "," (pairs.map Prod.snd)).string.isEmpty
  · rw [if_pos empty]
    have method := is_method fn (") : " ++ t.toJsType.string ++ " = scala.scalajs.js.native") level
      (classDefStart fn ++ (") : " ++ t.toJsType ++ " = scala.scalajs.js.native") : Text g.mark) rfl ')' (by simp) (by decide)
    exact ⟨_, by rw [write_filter_pos _ _ _ method]; rfl, starts_text _ _ level _ rfl⟩
  · rw [if_neg empty, append_filter, return_unselected method_leads (by decide)]
    have newline : '\n' ∈ (Text.mkString "," (pairs.map Prod.snd)).string.toList := by
      rcases written_params_head g fuel "\n  " "," '\n' rfl fn.params pairs parameters with none_written | leads
      · exact absurd (String.isEmpty_iff.mpr none_written) empty
      · exact List.mem_of_head? leads
    have method := is_method fn (Text.mkString "," (pairs.map Prod.snd)).string level
      (classDefStart fn ++ Text.mkString "," (pairs.map Prod.snd) : Text g.mark) rfl '\n' newline (by decide)
    exact ⟨_, by rw [write_filter_pos _ _ _ method]; rfl, starts_text _ _ level _ rfl⟩

theorem class_members_methods (cl : Class) (level : Nat) (w : Declarations g.mark) (constructor_ : cl.params ≠ [])
    (done : g.writeClassMembers fuel cl level = .ok w) :
    List.Forall₂ DeclaresMethod (w.lines.filter isMethod) (g.classFunctions cl) := by
  rw [Generator.writeClassMembers, if_neg (by simpa using constructor_)] at done
  obtain ⟨pairs, parameters, later⟩ := (bind_ok _ _ _).mp done
  obtain ⟨t2s, functions, same⟩ := (bind_ok _ _ _).mp later
  have params := params_unselected method_leads "  " ",\n" ' ' rfl (by decide) cl.params pairs parameters level
  have start : (write g.mark level "def this(" : Declarations g.mark).lines.filter isMethod = [] :=
    write_filter_neg _ _ _ (by simp [isMethod])
  have finish : (write g.mark level ") = this()" : Declarations g.mark).lines.filter isMethod = [] :=
    leads_write _ _ method_leads level _ (head_apart _ _ ')' (by simp) (by decide))
  rw [← Except.ok.inj same, unions]
  simp only [append_filter, start, params, finish, blank_unselected method_leads, List.nil_append]
  exact one_line_each isMethod DeclaresMethod _ _ t2s functions
    (fun fn _ v here => class_function_method g fuel level fn v here)

end Methods

section Levels

variable {mark : String}

def AtLevel (level : Nat) (w : Declarations mark) : Prop := ∀ line ∈ w.lines, line.level = level

theorem at_write (level : Nat) (t : Text mark) : AtLevel level (write mark level t) := by
  intro line member
  rw [List.mem_singleton.mp member]

theorem at_append (level : Nat) (v w : Declarations mark) (first : AtLevel level v) (second : AtLevel level w) :
    AtLevel level (v ++ w) := by
  intro line member
  rw [written_append_lines, List.mem_append] at member
  rcases member with here | there
  · exact first line here
  · exact second line there

theorem at_yields (level : Nat) (reports : List (ResolvedType mark)) : AtLevel level (yields reports) := by
  intro line member
  exact absurd member List.not_mem_nil

theorem at_js_name (level : Nat) (name : String) : AtLevel level (jsName level name : Declarations mark) := by
  rw [jsName]
  split
  · exact at_write level _
  · exact at_yields level []

end Levels

section Bodies

variable (g : Generator) (fuel : Nat)

theorem class_body_between (level : Nat) (front : List (Line g.mark)) (start blank close : Line g.mark)
    (inside rest : List (Line g.mark)) (before : ∀ line ∈ front, line.starts "class " = false)
    (starts : start.starts "class " = true) (blank_ : blank.text.string ≠ "\x7d")
    (deeper : ∀ line ∈ inside, line.level ≠ level) (closes : close.level = level ∧ close.text.string = "\x7d") :
    classBody level (front ++ start :: blank :: (inside ++ close :: rest)) = blank :: inside := by
  rw [classBody, List.dropWhile_append_of_pos (by simpa using before), List.dropWhile_cons_of_neg (by simp [starts]),
    List.drop_one, List.tail_cons, List.takeWhile_cons_of_pos (by simp [blank_]),
    List.takeWhile_append_of_pos (by simpa using fun line member => Or.inl (deeper line member)),
    List.takeWhile_cons_of_neg (by simp [closes.1, closes.2]), List.append_nil]

theorem class_function_level (level : Nat) (fn : Function) (w : Declarations g.mark)
    (done : g.writeClassFunction fuel level fn = .ok w) : AtLevel level w := by
  obtain ⟨pairs, parameters, later⟩ := (bind_ok _ _ _).mp done
  obtain ⟨t, returned, same⟩ := (bind_ok _ _ _).mp later
  rw [← Except.ok.inj same]
  apply at_append _ _ _ _ (at_yields level _)
  apply at_append _ _ _ _ (at_write level _)
  apply at_append
  · exact at_append _ _ _ (at_write level _) (at_js_name level _)
  · by_cases empty : (Text.mkString "," (pairs.map Prod.snd)).string.isEmpty
    · rw [if_pos empty]
      exact at_write level _
    · rw [if_neg empty]
      exact at_append _ _ _ (at_write level _) (at_write level _)

theorem class_members_level (cl : Class) (level : Nat) (w : Declarations g.mark)
    (done : g.writeClassMembers fuel cl level = .ok w) : AtLevel level w := by
  rw [Generator.writeClassMembers] at done
  by_cases empty : cl.params.isEmpty
  · rw [if_pos empty] at done
    rw [← Except.ok.inj done]
    exact at_yields level []
  · rw [if_neg empty] at done
    obtain ⟨pairs, parameters, later⟩ := (bind_ok _ _ _).mp done
    obtain ⟨t2s, functions, same⟩ := (bind_ok _ _ _).mp later
    rw [← Except.ok.inj same]
    have written : AtLevel level t2s :=
      levels_each (fun line => line.level = level) _ _ t2s functions
        (fun fn _ v here => class_function_level g fuel level fn v here)
    apply at_append _ _ _ _ written
    apply at_append _ _ _ _ (at_yields level _)
    apply at_append _ _ _ _ (at_write level _)
    apply at_append _ _ _ _ (at_write level _)
    exact at_append _ _ _ (at_write level _) (at_write level _)

theorem class_body_lines (cl : Class) (level : Nat) (w : Declarations g.mark) (done : g.writeClass fuel cl level = .ok w) :
    ∃ members, g.writeClassMembers fuel cl (level + 1) = .ok members ∧
      classBody level w.lines = ⟨level, Text.plain ""⟩ :: members.lines := by
  obtain ⟨superClass, _, afterSuper⟩ := (bind_ok _ _ _).mp done
  obtain ⟨imps, _, afterImps⟩ := (bind_ok _ _ _).mp afterSuper
  obtain ⟨members, written, afterMembers⟩ := (bind_ok _ _ _).mp afterImps
  obtain ⟨statics, _, same⟩ := (bind_ok _ _ _).mp afterMembers
  refine ⟨members, written, ?_⟩
  have deeper : ∀ line ∈ members.lines, line.level ≠ level := by
    intro line member
    rw [class_members_level g fuel cl (level + 1) members written line member]
    exact Nat.succ_ne_self level
  rw [← Except.ok.inj same]
  simp only [written_append_lines, List.append_assoc]
  refine class_body_between g level ((g.source level cl.docMeta).lines ++ ((jsNative level : Declarations g.mark).lines ++
    (jsNameOf level cl.longname : Declarations g.mark).lines)) _ _ _ members.lines _ ?_ ?_ ?_ deeper ⟨rfl, rfl⟩
  · intro line member
    apply not_starts "class " 'c' rfl
    rcases List.mem_append.mp member with source | annotations
    · rw [List.mem_singleton.mp source]
      simp
    · rcases List.mem_append.mp annotations with native | named
      · rw [List.mem_singleton.mp native]
        simp
      · rw [List.mem_singleton.mp named]
        simp
  · simp [Line.starts]
  · simp

-- The functions of which a class declares a method, doclet by doclet.
def Generator.instanceMethods (cl : Class) : List Function :=
  g.doclets.filterMap (fun d =>
    match d with
    | .functionDoclet fn =>
        if fn.ignore = false ∧ packageList fn.memberof = splitName cl.longname ∧ fn.undocumented = false ∧
            fn.inherited = false ∧ fn.override = false ∧ fn.overrides = none ∧ fn.scope = some "instance" then some fn
        else none
    | _ => none)

theorem class_functions_doclets (cl : Class) : g.classFunctions cl = g.instanceMethods cl := by
  rw [Generator.classFunctions, Generator.functionByParent, Generator.functions, Generator.instanceMethods]
  rw [List.filter_filter, List.filter_filterMap]
  apply List.filterMap_congr
  intro d _
  cases d with
  | functionDoclet fn =>
      by_cases ignored : fn.ignore
      · simp [ignored]
      · simp only [ignored, ownFunction, Option.filter, Bool.and_eq_true, Bool.not_eq_true', decide_eq_true_eq, if_false,
          Option.isNone_iff_eq_none, true_and, Bool.false_eq_true]
        exact if_congr (by rw [and_comm]; simp only [and_assoc]) rfl rfl
  | _ => rfl

theorem class_methods_iff (cl : Class) (level : Nat) (w : Declarations g.mark) (done : g.writeClass fuel cl level = .ok w) :
    List.Forall₂ DeclaresMethod (methods level w.lines) (g.instanceMethods cl) ↔
      cl.params ≠ [] ∨ g.instanceMethods cl = [] := by
  obtain ⟨members, written, body⟩ := class_body_lines g fuel cl level w done
  have blank : isMethod (⟨level, Text.plain ""⟩ : Line g.mark) = false := method_leads _ (by simp)
  rw [methods, body, List.filter_cons_of_neg (by simp [blank]), ← class_functions_doclets]
  by_cases constructor_ : cl.params = []
  · rw [Generator.writeClassMembers, if_pos (by simpa using constructor_)] at written
    rw [← Except.ok.inj written]
    constructor
    · intro declared
      exact .inr (List.forall₂_nil_left_iff.mp declared)
    · rintro (other | none_declared)
      · exact absurd constructor_ other
      · rw [none_declared]
        exact .nil
  · exact iff_of_true (class_members_methods g fuel cl (level + 1) members constructor_ written) (.inl constructor_)

theorem class_file_written (out : Generated g.mark) (done : g.generate fuel = .ok out) (cl : Class) (listed : cl ∈ g.classes)
    (declared : packageList cl.memberof ∈ g.namespaces) :
    ∃ w, g.writeClass fuel cl 0 = .ok w ∧ ∃ file ∈ out.files,
      file.written = write g.mark 0 ("package " ++ g.packageJoin (packageList cl.memberof)) ++ w := by
  have parented : (packageList cl.memberof, cl) ∈ g.inNamespaces g.classByParent := by
    apply List.mem_flatMap.mpr
    refine ⟨_, declared, List.mem_map.mpr ⟨cl, ?_, rfl⟩⟩
    exact List.mem_filter.mpr ⟨listed, by simp⟩
  obtain ⟨classFiles, _, _, _, classes, _, _, _, files, _⟩ := generate_files g fuel out done
  obtain ⟨file, made⟩ := map_m_all _ _ classFiles classes _ parented
  obtain ⟨w, finished, written⟩ := write_file_written g _ _ _ file made
  have member := (map_m_mem _ _ classFiles classes file).mpr (List.mem_map.mpr ⟨_, parented, made⟩)
  rw [files]
  exact ⟨w, finished, file, by simp [member], written⟩

end Bodies

-- The class Timer of the root with the method start, with and without a parameter of its constructor.
def timerClass (params : Option (List Param)) : Class :=
  ⟨"Timer", none, "Timer", ⟨"timer.js", "/", 1, none⟩, none, none, params, none⟩

def startFunction : Function :=
  ⟨"start", some "Timer", some "instance", ⟨"timer.js", "/", 2, none⟩, false, false, false, none, none, none, none, false⟩

def timerGenerator (params : Option (List Param)) : Generator :=
  ⟨[.classDoclet (timerClass params), .functionDoclet startFunction], ["jsfacade"], "pkg", ["implicits"], fun _ => ""⟩

def namedParams : Option (List Param) := some [⟨some ⟨["number"]⟩, some "interval"⟩]

theorem timer_methods_iff : ∃ w, (timerGenerator namedParams).writeClass 1 (timerClass namedParams) 0 = .ok w ∧
    List.Forall₂ DeclaresMethod (methods 0 w.lines) [startFunction] := by
  obtain ⟨w, done⟩ := ok_of_some ((timerGenerator namedParams).writeClass 1 (timerClass namedParams) 0) (by decide +kernel)
  have only : (timerGenerator namedParams).instanceMethods (timerClass namedParams) = [startFunction] := by decide +kernel
  have declared := (class_methods_iff (timerGenerator namedParams) 1 (timerClass namedParams) 0 w done).mpr
    (.inl (by decide +kernel))
  rw [only] at declared
  exact ⟨w, done, declared⟩

-- A constructor without parameters.
theorem timer_methods_missing :
    ¬ ∀ (g : Generator) (fuel : Nat) (cl : Class) (w : Declarations g.mark), cl ∈ g.classes →
      packageList cl.memberof ∈ g.namespaces → g.writeClass fuel cl 0 = .ok w →
      List.Forall₂ DeclaresMethod (methods 0 w.lines) (g.instanceMethods cl) := by
  intro claimed
  have written : ((timerGenerator none).writeClass 1 (timerClass none) 0).toOption.map (fun w => (methods 0 w.lines).length) =
      some 0 := by
    decide +kernel
  cases done : (timerGenerator none).writeClass 1 (timerClass none) 0 with
  | error stop => simp [done, Except.toOption] at written
  | ok w =>
      have declared := (claimed (timerGenerator none) 1 (timerClass none) w (by decide +kernel) (by decide +kernel)
        done).length_eq
      have only : ((timerGenerator none).instanceMethods (timerClass none)).length = 1 := by decide +kernel
      have none_written : (methods 0 w.lines).length = 0 := by simpa [done, Except.toOption] using written
      rw [none_written, only] at declared
      exact absurd declared (by decide)

end Toolbox8.Jsdoc
