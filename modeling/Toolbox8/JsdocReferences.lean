import Toolbox8.JsdocClassFiles
import Toolbox8.JsdocLines

set_option autoImplicit false

namespace Toolbox8.Jsdoc

open Base

-- A type text all of whose names are known, the traits of its unions included.
inductive Refers (known : String → Prop) (mark : String) : String → Prop
  | name (s : String) : known s → Refers known mark s
  | array (s : String) : Refers known mark s → Refers known mark ("scala.scalajs.js.Array[" ++ s ++ "]")
  | undefOr (s : String) : Refers known mark s → Refers known mark ("scala.scalajs.js.UndefOr[" ++ s ++ "]")
  | union (names : List (Text mark)) : known (mark ++ (generatedName names).string) →
      (∀ n ∈ names, Refers known mark n.string) → Refers known mark (mark ++ (generatedName names).string)

-- The names that need no file.
def libraryNames : List String :=
  ["java.lang.String", "scala.Double", "org.scalajs.dom.raw.Element", "org.scalajs.dom.raw.HTMLCanvasElement", "scala.Boolean",
    jsAny, "Unit"]

section Types

variable {mark : String} (known : String → Prop)

-- The names of a type are known where the unions in them are.
def Sound (t : ResolvedType mark) : Prop :=
  ∀ text ∈ t.toSet, (∀ r ∈ text.refs, known (mark ++ r)) → Refers known mark text.string

theorem to_js_type_refers (library : ∀ s ∈ libraryNames, known s) (t : ResolvedType mark) (sound : Sound known t)
    (defined : ∀ r ∈ t.toJsType.refs, known (mark ++ r)) : Refers known mark t.toJsType.string := by
  have inside : ∀ text ∈ t.toSet, ∀ r ∈ text.refs, known (mark ++ r) := by
    intro text member r listed
    exact defined r ((mem_js_type_refs t r).mpr (Or.inr (List.mem_flatMap.mpr ⟨text, member, listed⟩)))
  have wrapped : ∀ optional : Bool, ∀ single : Text mark, Refers known mark single.string →
      Refers known mark
        (if optional then ("scala.scalajs.js.UndefOr[" ++ single ++ "]" : Text mark) else single).string := by
    intro optional single refers
    cases optional with
    | false => exact refers
    | true => exact .undefOr _ refers
  cases t with
  | singleType name optional =>
      have member : name ∈ (ResolvedType.singleType name optional).toSet := List.mem_singleton_self name
      exact wrapped optional name (sound name member (inside name member))
  | unionType first second others optional =>
      apply wrapped optional (generatedName (first :: second :: others)).reference
      apply Refers.union
      · exact defined _ ((mem_js_type_refs _ _).mpr (Or.inl rfl))
      · exact fun n member => sound n member (inside n member)
  | optionalType => exact .name "Unit" (library "Unit" (by simp [libraryNames]))
  | unkownType optional => exact wrapped optional (Text.plain jsAny) (.name _ (library _ (by simp [libraryNames])))

theorem join_sets_sound (t other joined : ResolvedType mark) (first : Sound known t) (second : Sound known other)
    (joins : joinSets t other = .ok joined) : Sound known joined := by
  intro text member defined
  rw [(of_names_set _ _ joined joins).1, mem_sort_by] at member
  obtain ⟨source, inside, same, refs⟩ := distinct_texts_source _ text member
  have known_refs : ∀ r ∈ source.refs, known (mark ++ r) := fun r listed => defined r (refs listed)
  rw [← same]
  rcases List.mem_append.mp inside with here | there
  · exact first source here known_refs
  · exact second source there known_refs

theorem unkown_sound (library : ∀ s ∈ libraryNames, known s) (optional : Bool) :
    Sound known (.unkownType optional : ResolvedType mark) := by
  intro text member _
  rw [List.mem_singleton.mp member]
  exact .name jsAny (library jsAny (by simp [libraryNames]))

theorem join_sound (library : ∀ s ∈ libraryNames, known s) (t other joined : ResolvedType mark) (first : Sound known t)
    (second : Sound known other) (joins : t.join other = .ok joined) : Sound known joined := by
  rw [ResolvedType.join.eq_def] at joins
  split at joins
  · rw [← Except.ok.inj joins]
    exact unkown_sound known library true
  · rw [← Except.ok.inj joins]
    exact first
  · rw [← Except.ok.inj joins]
    exact unkown_sound known library _
  · rw [← Except.ok.inj joins]
    exact unkown_sound known library true
  · exact join_sets_sound known t other joined first second joins

theorem join_all_sound (library : ∀ s ∈ libraryNames, known s) (t joined : ResolvedType mark) (rest : List (ResolvedType mark))
    (first : Sound known t) (others : ∀ u ∈ rest, Sound known u) (joins : joinAll t rest = .ok joined) :
    Sound known joined := by
  induction rest generalizing t with
  | nil =>
      rw [← Except.ok.inj joins]
      exact first
  | cons other rest ih =>
      obtain ⟨next, here, later⟩ := (bind_ok _ _ _).mp joins
      have sound := join_sound known library t other next first (others other List.mem_cons_self) here
      exact ih next sound (fun u member => others u (List.mem_cons_of_mem _ member)) later

theorem builtin_sound (library : ∀ s ∈ libraryNames, known s) (name : String) (t : ResolvedType mark)
    (builtin : builtins name = some t) : Sound known t := by
  have known_name := builtin_name name t builtin
  simp only [List.mem_cons, List.not_mem_nil, or_false] at known_name
  rcases known_name with rfl | rfl | rfl | rfl | rfl | rfl
  all_goals
    rw [← Option.some.inj builtin]
    intro text member _
    simp only [ResolvedType.toSet, List.mem_singleton, List.not_mem_nil] at member
  all_goals
    rw [member]
    exact .name _ (library _ (by simp [libraryNames]))

end Types

section Resolution

variable (g : Generator) (known : String → Prop)

def Generator.KnownDefined : Prop :=
  ∀ name t, g.typeOf name = none → g.definedTypesByNameMap name = some t → Sound known t

theorem resolve_union_sound (library : ∀ s ∈ libraryNames, known s) (resolve : String → g.Resolved)
    (sound : ∀ name t, resolve name = .ok t → Sound known t) (type : DocletType) (t : ResolvedType g.mark)
    (done : g.resolveUnionBy resolve type = .ok t) : Sound known t := by
  obtain ⟨resolved, each, joins⟩ := (bind_ok _ _ _).mp done
  have all : ∀ u ∈ resolved, Sound known u := by
    intro u member
    obtain ⟨name, _, here⟩ := List.mem_map.mp ((map_m_mem _ _ resolved each u).mp member)
    exact sound name u here
  cases resolved with
  | nil => simp [reduceJoin] at joins
  | cons first rest =>
      exact join_all_sound known library first t rest (all first List.mem_cons_self)
        (fun u member => all u (List.mem_cons_of_mem _ member)) joins

theorem resolve_defined_sound (library : ∀ s ∈ libraryNames, known s) (defines : g.KnownDefined known)
    (resolve : String → g.Resolved) (sound : ∀ name t, resolve name = .ok t → Sound known t) (name : String)
    (t : ResolvedType g.mark) (done : g.resolveDefinedBy resolve name = .ok (some t)) : Sound known t := by
  rcases resolve_defined_cases g resolve name (some t) done with ⟨type, joined, _, resolved, same⟩ | ⟨other, found⟩
  · obtain rfl := Option.some.inj same
    exact resolve_union_sound g known library resolve sound type t resolved
  · exact defines name t other found.symm

theorem resolve_sound (library : ∀ s ∈ libraryNames, known s) (defines : g.KnownDefined known) (fuel : Nat) (name : String)
    (t : ResolvedType g.mark) (done : g.resolve fuel name = .ok t) : Sound known t := by
  induction fuel generalizing name t with
  | zero => cases done
  | succ fuel ih =>
      rw [Generator.resolve, Generator.resolveBy] at done
      cases builtin : (builtins name : Option (ResolvedType g.mark)) with
      | some found =>
          rw [builtin] at done
          rw [← Except.ok.inj done]
          exact builtin_sound known library name found builtin
      | none =>
          rw [builtin] at done
          obtain ⟨array, first, later⟩ := (bind_ok _ _ _).mp done
          rw [Generator.resolveArrayBy] at first
          cases element : arrayElement name with
          | some part =>
              rw [element] at first
              obtain ⟨text, rendered, same⟩ := (bind_ok _ _ _).mp first
              obtain ⟨inner, resolved, rfl⟩ := (map_ok _ _ _).mp rendered
              rw [← Except.ok.inj same] at later
              rw [← Except.ok.inj later]
              intro text member defined
              obtain rfl := List.mem_singleton.mp member
              apply Refers.array
              apply to_js_type_refers known library inner (ih part inner resolved)
              intro r listed
              exact defined r (by simpa using listed)
          | none =>
              rw [element] at first
              rw [← Except.ok.inj first] at later
              obtain ⟨defined, found, same⟩ := (bind_ok _ _ _).mp later
              rw [← Except.ok.inj same]
              cases defined with
              | none => exact unkown_sound known library false
              | some u => exact resolve_defined_sound g known library defines (g.resolve fuel) ih name u found

theorem resolve_use_sound (library : ∀ s ∈ libraryNames, known s) (defines : g.KnownDefined known) (fuel : Nat) (use : Use)
    (t : ResolvedType g.mark) (done : g.resolveUse fuel use = .ok t) : Sound known t := by
  obtain ⟨union, resolved, later⟩ := (bind_ok _ _ _).mp done
  have sound := resolve_union_sound g known library (g.resolve fuel)
    (fun name t => resolve_sound g known library defines fuel name t) use.1 union resolved
  split at later
  · exact join_sound known library union .optionalType t sound (by simp [Sound, ResolvedType.toSet]) later
  · rw [← Except.ok.inj later]
    exact sound

end Resolution

section Lines

variable {α : Type} {mark : String}

def Has (w : Declarations mark) (level : Nat) (text : String) : Prop :=
  ∃ line ∈ w.lines, line.level = level ∧ line.text.string = text

def Starts (w : Declarations mark) (level : Nat) (start : String) : Prop :=
  ∃ line ∈ w.lines, line.level = level ∧ line.starts start = true

theorem has_append (v w : Declarations mark) (level : Nat) (text : String) :
    Has (v ++ w) level text ↔ Has v level text ∨ Has w level text := by
  simp only [Has, written_append_lines, List.mem_append, or_and_right, exists_or]

theorem has_write (level : Nat) (t : Text mark) : Has (write mark level t) level t.string :=
  ⟨_, List.mem_singleton_self _, rfl, rfl⟩

theorem has_of_subset (v w : Declarations mark) (level : Nat) (text : String) (has : Has v level text)
    (part : v.lines ⊆ w.lines) : Has w level text := by
  obtain ⟨line, member, placed⟩ := has
  exact ⟨line, part member, placed⟩

theorem starts_append (v w : Declarations mark) (level : Nat) (start : String) :
    Starts (v ++ w) level start ↔ Starts v level start ∨ Starts w level start := by
  simp only [Starts, written_append_lines, List.mem_append, or_and_right, exists_or]

theorem starts_write (start rest : String) (level : Nat) (t : Text mark) (same : t.string = start ++ rest) :
    Starts (write mark level t) level start :=
  ⟨_, List.mem_singleton_self _, rfl, starts_text start rest level t same⟩

theorem each_part (body : α → Except Stop (Declarations mark)) (as : List α) (w : Declarations mark)
    (done : writeEach body as = .ok w) (a : α) (member : a ∈ as) : ∃ v, body a = .ok v ∧ v.lines ⊆ w.lines := by
  obtain ⟨ws, mapped, rfl⟩ := (map_ok _ _ _).mp done
  obtain ⟨v, here⟩ := map_m_all body as ws mapped a member
  have listed := (map_m_mem body as ws mapped v).mpr (List.mem_map.mpr ⟨a, member, here⟩)
  exact ⟨v, here, fun line inside => List.mem_flatMap.mpr ⟨v, listed, inside⟩⟩

theorem starts_of_subset (v w : Declarations mark) (level : Nat) (start : String) (starts : Starts v level start)
    (part : v.lines ⊆ w.lines) : Starts w level start := by
  obtain ⟨line, member, placed⟩ := starts
  exact ⟨line, part member, placed⟩

end Lines

-- What a file declares, as the parts of its qualified name: a class or a trait of a package, a trait in the object of a
-- class, the trait of a package, and the type of a function in its object.
inductive Declares {mark : String} (files : List (SourceFile mark)) (util : String) : List String → Prop
  | top (file : SourceFile mark) (pkg : List String) (keyword name : String) : file ∈ files →
      Has file.written 0 ("package " ++ ".".intercalate pkg) → keyword ∈ ["class ", "trait "] →
      Starts file.written 0 (keyword ++ name ++ " extends ") → Declares files util (pkg ++ [name])
  | inner (file : SourceFile mark) (pkg : List String) (cls name : String) : file ∈ files →
      Has file.written 0 ("package " ++ ".".intercalate pkg) → Has file.written 0 ("object " ++ cls ++ " \x7b") →
      Starts file.written 1 ("trait " ++ name ++ " extends ") → Declares files util (pkg ++ [cls, name])
  | package (file : SourceFile mark) (pkg : List String) (last : String) : file ∈ files →
      Has file.written 0 ("package " ++ ".".intercalate pkg) → Has file.written 0 ("package " ++ last ++ " \x7b") →
      Starts file.written 1 ("trait " ++ util ++ " extends ") → Declares files util (pkg ++ [last, util])
  | functionType (file : SourceFile mark) (pkg : List String) (last name : String) : file ∈ files →
      (pkg = [] ∨ Has file.written 0 ("package " ++ ".".intercalate pkg)) → Has file.written 0 ("package " ++ last ++ " \x7b") →
      Has file.written 1 ("object " ++ util ++ " \x7b") → Starts file.written 2 ("type " ++ name ++ " = ") →
      Declares files util (pkg ++ [last, util, name])

section Placement

variable (g : Generator)

-- Directly in the root or in a declared namespace.
def Generator.Top (memberof : Option String) (name longname : String) : Prop :=
  packageList memberof ∈ g.namespaces ∧ splitName longname = packageList memberof ++ [name]

-- Directly in such a class.
def Generator.Inner (access memberof : Option String) (name longname : String) : Prop :=
  isPrivate access = false ∧ id name = name ∧ splitName longname = packageList memberof ++ [name] ∧
    ∃ cl ∈ g.classes, g.Top cl.memberof cl.name cl.longname ∧ packageList memberof = splitName cl.longname

structure Generator.WellPlaced : Prop where
  classes : ∀ cl ∈ g.classes, g.Top cl.memberof cl.name cl.longname ∨ g.Inner cl.access cl.memberof cl.name cl.longname
  interfaces : ∀ cl ∈ g.interfaces, g.Top cl.memberof cl.name cl.longname ∨ g.Inner cl.access cl.memberof cl.name cl.longname
  typed : ∀ td, .typedefDoclet td ∈ g.doclets → td.type.names ≠ []
  traits : ∀ td, .typedefDoclet td ∈ g.doclets → td.type.names = ["Object"] → g.Top td.memberof td.name td.longname
  functionTypes : ∀ td, .typedefDoclet td ∈ g.doclets → td.type.names = ["function"] →
    g.Top td.memberof td.name td.longname ∧ id td.name = td.name ∧
      (packageList td.memberof ≠ [] ∨ g.rootPackage.length = 1)

-- The unions that the element of an array is of or that a parent is of or leads to are also of a type that is written.
structure Generator.UnionsUsed (fuel : Nat) : Prop where
  elements : ∀ use ∈ g.declared, ∀ r, g.Element fuel use.1.names r → g.Collected fuel r
  parents : ∀ name ∈ g.inherited, ∀ r, g.ParentUnion fuel name r → g.Collected fuel r

end Placement

section Files

variable (g : Generator) (fuel : Nat)

theorem listed_file {α : Type} (of : List String → List α) (body : List String × α → Except Stop (SourceFile g.mark))
    (files : List (SourceFile g.mark)) (made : (g.inNamespaces of).mapM body = .ok files) (ns : List String)
    (declared : ns ∈ g.namespaces) (a : α) (listed : a ∈ of ns) : ∃ file ∈ files, body (ns, a) = .ok file := by
  have member : (ns, a) ∈ g.inNamespaces of := List.mem_flatMap.mpr ⟨ns, declared, List.mem_map.mpr ⟨a, listed, rfl⟩⟩
  obtain ⟨file, here⟩ := map_m_all body _ files made _ member
  exact ⟨file, (map_m_mem body _ files made file).mpr (List.mem_map.mpr ⟨_, member, here⟩), here⟩

theorem write_class_starts (cl : Class) (w : Declarations g.mark) (done : g.writeClass fuel cl 0 = .ok w) :
    Starts w 0 ("class " ++ cl.name ++ " extends ") ∧ Has w 0 ("object " ++ cl.name ++ " \x7b") ∧
      ∃ statics, g.writeClassStaticMembers fuel cl 1 = .ok statics ∧ statics.lines ⊆ w.lines := by
  obtain ⟨superClass, _, afterSuper⟩ := (bind_ok _ _ _).mp done
  obtain ⟨imps, _, afterImps⟩ := (bind_ok _ _ _).mp afterSuper
  obtain ⟨members, _, afterMembers⟩ := (bind_ok _ _ _).mp afterImps
  obtain ⟨statics, written, same⟩ := (bind_ok _ _ _).mp afterMembers
  rw [← Except.ok.inj same]
  refine ⟨?_, ?_, statics, written, ?_⟩
  · simp only [starts_append]
    refine Or.inl (Or.inl (Or.inl (Or.inl (Or.inl (Or.inl (Or.inr ?_))))))
    exact starts_write _ _ 0 _ (String.append_assoc ..)
  · simp only [has_append]
    exact Or.inl (Or.inl (Or.inr (has_write 0 _)))
  · intro line member
    simp [written_append_lines, member]

theorem write_interface_starts (cl : Interface) (w : Declarations g.mark) (done : g.writeInterface fuel cl 0 = .ok w) :
    Starts w 0 ("trait " ++ cl.name ++ " extends ") := by
  obtain ⟨members, _, same⟩ := (bind_ok _ _ _).mp done
  rw [← Except.ok.inj same]
  simp only [starts_append]
  refine Or.inl (Or.inl (Or.inl (Or.inr ?_)))
  exact starts_write _ "scala.scalajs.js.Object \x7b" 0 _ (by simp [String.append_assoc])

theorem write_typedef_starts (td : Typedef) (w : Declarations g.mark) (done : g.writeTypedef fuel td 0 = .ok w) :
    Starts w 0 ("trait " ++ td.name ++ " extends ") := by
  obtain ⟨t1, _, afterFields⟩ := (bind_ok _ _ _).mp done
  obtain ⟨t2str, _, same⟩ := (bind_ok _ _ _).mp afterFields
  rw [← Except.ok.inj same]
  have here : Starts (write g.mark 0 ("trait " ++ td.name ++ " extends scala.scalajs.js.Object \x7b") : Declarations g.mark) 0
      ("trait " ++ td.name ++ " extends ") :=
    starts_write _ "scala.scalajs.js.Object \x7b" 0 _ (by simp [String.append_assoc])
  apply starts_of_subset _ _ _ _ here
  intro line member
  simp [unions, written_append_lines, member]

theorem write_inner_starts (cl : Class) (statics : Declarations g.mark)
    (done : g.writeClassStaticMembers fuel cl 1 = .ok statics) (m : String × Option String × Meta)
    (listed : m ∈ g.innerTypes cl) : Starts statics 1 ("trait " ++ id m.1 ++ " extends ") := by
  obtain ⟨t1, _, afterAliases⟩ := (bind_ok _ _ _).mp done
  obtain ⟨inner, each, afterInner⟩ := (bind_ok _ _ _).mp afterAliases
  obtain ⟨t2, _, same⟩ := (bind_ok _ _ _).mp afterInner
  obtain ⟨v, here, part⟩ := each_part _ _ inner each m listed
  rw [← Except.ok.inj same]
  have own : Starts v 1 ("trait " ++ id m.1 ++ " extends ") := by
    rw [← Except.ok.inj here]
    simp only [starts_append]
    exact Or.inr (starts_write _ "scala.scalajs.js.Object" 1 _ (by simp [String.append_assoc]))
  apply starts_of_subset _ _ _ _ own
  intro line member
  simp [unions, written_append_lines, part member]

theorem write_statics_starts (cl : Class) (statics : Declarations g.mark)
    (done : g.writeClassStaticMembers fuel cl 1 = .ok statics) : Starts statics 1 ("trait " ++ "statics" ++ " extends ") := by
  obtain ⟨t1, _, afterAliases⟩ := (bind_ok _ _ _).mp done
  obtain ⟨inner, _, afterInner⟩ := (bind_ok _ _ _).mp afterAliases
  obtain ⟨t2, _, same⟩ := (bind_ok _ _ _).mp afterInner
  rw [← Except.ok.inj same]
  apply starts_of_subset _ _ _ _ (starts_write _ "scala.scalajs.js.Object \x7b" 1
    ("trait statics extends scala.scalajs.js.Object \x7b" : Text g.mark) rfl)
  intro line member
  simp [unions, written_append_lines, member]

theorem write_function_type_starts (nsName : List String) (w : Declarations g.mark)
    (done : g.writeFunctionTypes fuel nsName 2 = .ok w) (m : Typedef) (listed : m ∈ g.functionTypes nsName) :
    Starts w 2 ("type " ++ id m.name ++ " = ") := by
  obtain ⟨t1, each, same⟩ := (bind_ok _ _ _).mp done
  obtain ⟨v, here, part⟩ := each_part _ _ t1 each m listed
  obtain ⟨t11, _, afterParams⟩ := (bind_ok _ _ _).mp here
  obtain ⟨t12, _, made⟩ := (bind_ok _ _ _).mp afterParams
  rw [← Except.ok.inj same]
  have own : Starts v 2 ("type " ++ id m.name ++ " = ") := by
    rw [← Except.ok.inj made]
    simp only [starts_append]
    refine Or.inl (Or.inl (Or.inl (Or.inl (Or.inr ?_))))
    apply starts_write _ ("scala.scalajs.js.Function" ++ toString m.params.length ++ "[") 2
    apply String.toList_inj.mp
    simp [String.toList_append]
  exact starts_of_subset _ _ _ _ own part

theorem write_package_parts (ns : List String) (w : Declarations g.mark) (done : g.writePackage fuel ns = .ok w) :
    ∃ last, (g.rootPackage ++ ns).getLast? = some last ∧ (ns = [] ∨ Has w 0 ("package " ++ g.packageJoin ns.dropLast)) ∧
      Has w 0 ("package " ++ last ++ " \x7b") ∧ Starts w 1 ("trait " ++ g.utilPackage ++ " extends ") ∧
      Has w 1 ("object " ++ g.utilPackage ++ " \x7b") ∧
      ∀ m ∈ g.functionTypes ns, Starts w 2 ("type " ++ id m.name ++ " = ") := by
  rw [Generator.writePackage] at done
  cases found : (g.rootPackage ++ ns).getLast? with
  | none => simp [found] at done
  | some last =>
      rw [found] at done
      obtain ⟨t11, _, afterAliases⟩ := (bind_ok _ _ _).mp done
      obtain ⟨t21, _, afterStatics⟩ := (bind_ok _ _ _).mp afterAliases
      obtain ⟨t22, functions, same⟩ := (bind_ok _ _ _).mp afterStatics
      rw [← Except.ok.inj same]
      refine ⟨last, rfl, ?_, ?_, ?_, ?_, ?_⟩
      · cases ns with
        | nil => exact Or.inl rfl
        | cons part rest =>
            apply Or.inr
            apply has_of_subset _ _ _ _ (has_write 0 ("package " ++ g.packageJoin (part :: rest).dropLast : Text g.mark))
            intro line member
            simp [written_append_lines, member]
      · apply has_of_subset _ _ _ _ (has_write 0 ("package " ++ last ++ " \x7b" : Text g.mark))
        intro line member
        simp [written_append_lines, member]
      · apply starts_of_subset _ _ _ _ (starts_write _ "scala.scalajs.js.Object \x7b" 1
          ("trait " ++ g.utilPackage ++ " extends scala.scalajs.js.Object \x7b" : Text g.mark) (by simp [String.append_assoc]))
        intro line member
        simp [written_append_lines, member]
      · apply has_of_subset _ _ _ _ (has_write 1 ("object " ++ g.utilPackage ++ " \x7b" : Text g.mark))
        intro line member
        simp [written_append_lines, member]
      · intro m listed
        apply starts_of_subset _ _ _ _ (write_function_type_starts g fuel ns t22 functions m listed)
        intro line member
        simp [written_append_lines, member]

end Files

section Lookups

variable (g : Generator)

theorem lookup_none {α : Type} (entries : List (String × α)) (name : String) (missing : lookup entries name = none) (a : α) :
    (name, a) ∉ entries := by
  intro member
  rw [lookup, Option.map_eq_none_iff, List.find?_eq_none] at missing
  exact missing _ (List.mem_reverse.mpr member) (by simp)

theorem typedef_listed (td : Typedef) (listed : TypedefLike.typedefDoclet td ∈ g.typedefs) : .typedefDoclet td ∈ g.doclets := by
  obtain ⟨d, member, same⟩ := List.mem_filterMap.mp listed
  cases d with
  | typedefDoclet other =>
      obtain rfl : other = td := by simpa using same
      exact member
  | memberDoclet m =>
      by_cases goog : isGoogTypedef m <;> simp [goog] at same
  | _ => simp at same

theorem alias_listed (m : Member) (listed : TypedefLike.memberDoclet m ∈ g.typedefs) : m ∈ g.typeAliases := by
  obtain ⟨d, member, same⟩ := List.mem_filterMap.mp listed
  cases d with
  | memberDoclet other =>
      by_cases goog : isGoogTypedef other
      · obtain rfl : other = m := by simpa [goog] using same
        exact List.mem_filterMap.mpr ⟨_, member, by simp [goog]⟩
      · simp [goog] at same
  | _ => simp at same

theorem typedef_kind (placed : g.WellPlaced) (td : TypedefLike) (listed : td ∈ g.typedefs) (own : g.typeOf td.longname = none) :
    ∃ d, td = .typedefDoclet d ∧ (d.type.names = ["Object"] ∨ d.type.names = ["function"]) := by
  rw [Generator.typeOf, Option.or_eq_none_iff, Option.map_eq_none_iff] at own
  cases td with
  | memberDoclet m =>
      have entry : (m.longname, m) ∈ g.typeAliases.map (fun td => (td.longname, td)) :=
        List.mem_map.mpr ⟨m, alias_listed g m listed, rfl⟩
      exact absurd entry (lookup_none _ _ own.2 m)
  | typedefDoclet d =>
      refine ⟨d, rfl, ?_⟩
      by_cases function : d.type.names = ["function"]
      · exact Or.inr function
      · apply Or.inl
        by_contra object
        have real : TypedefLike.typedefDoclet d ∈ g.realTypedefs :=
          List.mem_filter.mpr ⟨listed, decide_eq_true function⟩
        have named := placed.typed d (typedef_listed g d listed)
        have entry : (d.longname, d.type) ∈ g.unionTypedefEntries :=
          List.mem_filterMap.mpr ⟨_, real, by simp [named, object]⟩
        exact lookup_none _ _ own.1 d.type entry

end Lookups

section Declarations

variable (g : Generator) (fuel : Nat) (out : Generated g.mark) (done : g.generate fuel = .ok out)

theorem headed_declares (file : SourceFile g.mark) (member : file ∈ out.files) (ns : List String) (w : Declarations g.mark)
    (written : file.written = write g.mark 0 ("package " ++ g.packageJoin ns) ++ w) (keyword name : String)
    (kind : keyword ∈ ["class ", "trait "]) (starts : Starts w 0 (keyword ++ name ++ " extends ")) :
    Declares out.files g.utilPackage (g.rootPackage ++ (ns ++ [name])) := by
  rw [← List.append_assoc]
  apply Declares.top file (g.rootPackage ++ ns) keyword name member
  · rw [written, has_append]
    exact Or.inl (has_write 0 _)
  · exact kind
  · rw [written, starts_append]
    exact Or.inr starts

include done

theorem class_declares (cl : Class) (listed : cl ∈ g.classes) (top : g.Top cl.memberof cl.name cl.longname) :
    Declares out.files g.utilPackage (g.rootPackage ++ splitName cl.longname) := by
  obtain ⟨w, made, file, member, written⟩ := class_file_written g fuel out done cl listed top.1
  rw [top.2]
  exact headed_declares g out file member _ w written "class " cl.name (by simp) (write_class_starts g fuel cl w made).1

theorem object_declares (cl : Class) (listed : cl ∈ g.classes) (declared : packageList cl.memberof ∈ g.namespaces)
    (name : String) (starts : ∀ statics, g.writeClassStaticMembers fuel cl 1 = .ok statics →
      Starts statics 1 ("trait " ++ name ++ " extends ")) :
    Declares out.files g.utilPackage (g.rootPackage ++ packageList cl.memberof ++ [cl.name, name]) := by
  obtain ⟨w, made, file, member, written⟩ := class_file_written g fuel out done cl listed declared
  obtain ⟨_, object, statics, here, part⟩ := write_class_starts g fuel cl w made
  apply Declares.inner file (g.rootPackage ++ packageList cl.memberof) cl.name name member
  · rw [written, has_append]
    exact Or.inl (has_write 0 _)
  · rw [written, has_append]
    exact Or.inr object
  · rw [written, starts_append]
    exact Or.inr (starts_of_subset _ _ _ _ (starts statics here) part)

theorem inner_declares (access memberof : Option String) (name longname : String) (docMeta : Meta)
    (inner : g.Inner access memberof name longname)
    (listed : ∀ cl, packageList memberof = splitName cl.longname → (name, access, docMeta) ∈ g.innerTypes cl) :
    Declares out.files g.utilPackage (g.rootPackage ++ splitName longname) := by
  obtain ⟨_, plain, split, cl, class_listed, top, parent⟩ := inner
  rw [split, parent, top.2, List.append_assoc, ← List.append_assoc]
  apply object_declares g fuel out done cl class_listed top.1
  intro statics here
  have starts := write_inner_starts g fuel cl statics here (name, access, docMeta) (listed cl parent)
  rwa [plain] at starts

theorem interface_declares (cl : Interface) (listed : cl ∈ g.interfaces) (top : g.Top cl.memberof cl.name cl.longname) :
    Declares out.files g.utilPackage (g.rootPackage ++ splitName cl.longname) := by
  obtain ⟨_, interfaceFiles, _, _, _, interfaces, _, _, files, _⟩ := generate_files g fuel out done
  obtain ⟨file, member, made⟩ := listed_file g g.interfacesByParent _ interfaceFiles interfaces _ top.1 cl
    (List.mem_filter.mpr ⟨listed, by simp⟩)
  obtain ⟨w, finished, written⟩ := write_file_written g _ _ _ file made
  rw [top.2]
  exact headed_declares g out file (by rw [files]; simp [member]) _ w written "trait " cl.name (by simp)
    (write_interface_starts g fuel cl w finished)

theorem trait_declares (td : Typedef) (listed : TypedefLike.typedefDoclet td ∈ g.typedefs) (object : td.type.names = ["Object"])
    (top : g.Top td.memberof td.name td.longname) :
    Declares out.files g.utilPackage (g.rootPackage ++ splitName td.longname) := by
  obtain ⟨_, _, traitFiles, _, _, _, traits, _, files, _⟩ := generate_files g fuel out done
  have own : td ∈ g.objectTypedefs (packageList td.memberof) := by
    apply List.mem_filter.mpr
    refine ⟨List.mem_filterMap.mpr ⟨.typedefDoclet td, ?_, rfl⟩, by simpa using object⟩
    exact List.mem_filter.mpr ⟨listed, by simp [TypedefLike.memberof]⟩
  obtain ⟨file, member, made⟩ := listed_file g g.objectTypedefs _ traitFiles traits _ top.1 td own
  obtain ⟨w, finished, written⟩ := write_file_written g _ _ _ file made
  rw [top.2]
  exact headed_declares g out file (by rw [files]; simp [member]) _ w written "trait " td.name (by simp)
    (write_typedef_starts g fuel td w finished)

theorem package_file_parts (ns : List String) (declared : ns ∈ g.namespaces) :
    ∃ file ∈ out.files, ∃ last, g.rootPackage ++ ns = (g.rootPackage ++ ns).dropLast ++ [last] ∧
      (ns ≠ [] → Has file.written 0 ("package " ++ ".".intercalate (g.rootPackage ++ ns).dropLast)) ∧
      Has file.written 0 ("package " ++ last ++ " \x7b") ∧ Starts file.written 1 ("trait " ++ g.utilPackage ++ " extends ") ∧
      Has file.written 1 ("object " ++ g.utilPackage ++ " \x7b") ∧
      ∀ m ∈ g.functionTypes ns, Starts file.written 2 ("type " ++ id m.name ++ " = ") := by
  obtain ⟨_, _, _, packageFiles, _, _, _, packages, files, _⟩ := generate_files g fuel out done
  obtain ⟨file, made⟩ := map_m_all (g.packageFile fuel) _ packageFiles packages _ declared
  have member := (map_m_mem (g.packageFile fuel) _ packageFiles packages file).mpr (List.mem_map.mpr ⟨_, declared, made⟩)
  obtain ⟨w, finished, same⟩ := (map_ok _ _ _).mp made
  obtain rfl : w = file.written := by rw [← same]
  obtain ⟨last, ends, heading, parts⟩ := write_package_parts g fuel _ _ finished
  refine ⟨file, by rw [files]; simp [member], last, (List.dropLast_append_getLast? last ends).symm, ?_, parts⟩
  intro below
  rw [List.dropLast_append_of_ne_nil below]
  exact heading.resolve_left below

theorem real_namespace_parts (ns : List String) (real : ns ∈ g.realNamespaces) : ns ≠ [] := by
  have constructible : g.constructible = true := by
    by_contra other
    rw [Generator.generate, if_neg other] at done
    cases done
  have named := List.all_eq_true.mp (Bool.and_eq_true_iff.mp constructible).1 ns real
  simpa using named

theorem package_declares (ns : List String) (declared : ns ∈ g.namespaces) (below : ns ≠ []) :
    Declares out.files g.utilPackage (g.rootPackage ++ (ns ++ [g.utilPackage])) := by
  obtain ⟨file, member, last, split, heading, package, trait, _, _⟩ := package_file_parts g fuel out done ns declared
  rw [← List.append_assoc, split, List.append_assoc]
  exact Declares.package file _ last member (heading below) package trait

theorem function_type_declares (td : Typedef) (listed : TypedefLike.typedefDoclet td ∈ g.typedefs)
    (function : td.type.names = ["function"]) (top : g.Top td.memberof td.name td.longname) (plain : id td.name = td.name)
    (rooted : packageList td.memberof ≠ [] ∨ g.rootPackage.length = 1) :
    Declares out.files g.utilPackage (g.rootPackage ++ packageList td.memberof ++ [g.utilPackage] ++ [td.name]) := by
  have own : td ∈ g.functionTypes (packageList td.memberof) := by
    apply List.mem_filter.mpr
    refine ⟨List.mem_filterMap.mpr ⟨.typedefDoclet td, ?_, rfl⟩, by simpa using function⟩
    exact List.mem_filter.mpr ⟨listed, by simp [TypedefLike.memberof]⟩
  obtain ⟨file, member, last, split, heading, package, _, object, types⟩ := package_file_parts g fuel out done _ top.1
  have starts := types td own
  rw [plain] at starts
  have placed : (g.rootPackage ++ packageList td.memberof).dropLast = [] ∨
      Has file.written 0 ("package " ++ ".".intercalate (g.rootPackage ++ packageList td.memberof).dropLast) := by
    by_cases root : packageList td.memberof = []
    · have single := rooted.resolve_left (fun absurd => absurd root)
      apply Or.inl
      rw [root, List.append_nil, ← List.length_eq_zero_iff, List.length_dropLast, single]
    · exact Or.inr (heading root)
  rw [split, List.append_assoc, List.append_assoc]
  exact Declares.functionType file _ last td.name member placed package object starts

theorem placed_known (placed : g.WellPlaced) (name : String) (t : ResolvedType g.mark) (own : g.typeOf name = none)
    (found : g.definedTypesByNameMap name = some t) :
    ∃ q, Declares out.files g.utilPackage q ∧ t = .singleType (Text.plain (".".intercalate q)) false := by
  rcases List.mem_append.mp (lookup_mem _ name t found) with defined | function
  · obtain ⟨longname, listed, same⟩ := List.mem_map.mp defined
    obtain ⟨rfl, rfl⟩ := Prod.mk.inj same
    refine ⟨g.rootPackage ++ splitName longname, ?_, rfl⟩
    rcases List.mem_append.mp listed with classy | typedef
    · rcases List.mem_append.mp classy with isClass | isInterface
      · obtain ⟨cl, member, rfl⟩ := List.mem_map.mp isClass
        rcases placed.classes cl member with top | inner
        · exact class_declares g fuel out done cl member top
        · apply inner_declares g fuel out done _ _ _ _ cl.docMeta inner
          intro parent parented
          apply List.mem_filter.mpr
          refine ⟨List.mem_append.mpr (Or.inl (List.mem_map.mpr ⟨cl, ?_, rfl⟩)), by simpa using inner.1⟩
          exact List.mem_filter.mpr ⟨member, by simpa using parented⟩
      · obtain ⟨cl, member, rfl⟩ := List.mem_map.mp isInterface
        rcases placed.interfaces cl member with top | inner
        · exact interface_declares g fuel out done cl member top
        · apply inner_declares g fuel out done _ _ _ _ cl.docMeta inner
          intro parent parented
          apply List.mem_filter.mpr
          refine ⟨List.mem_append.mpr (Or.inr (List.mem_map.mpr ⟨cl, ?_, rfl⟩)), by simpa using inner.1⟩
          exact List.mem_filter.mpr ⟨member, by simpa using parented⟩
    · obtain ⟨td, real, rfl⟩ := List.mem_map.mp typedef
      obtain ⟨member, notFunction⟩ := List.mem_filter.mp real
      obtain ⟨d, rfl, kind⟩ := typedef_kind g placed td member own
      have object := kind.resolve_right (of_decide_eq_true notFunction)
      exact trait_declares g fuel out done d member object (placed.traits d (typedef_listed g d member) object)
  · obtain ⟨td, real, same⟩ := List.mem_map.mp function
    obtain ⟨rfl, rfl⟩ := Prod.mk.inj same
    obtain ⟨member, isFunction⟩ := List.mem_filter.mp real
    obtain ⟨d, rfl, _⟩ := typedef_kind g placed td member own
    have named : d.type.names = ["function"] := of_decide_eq_true isFunction
    obtain ⟨top, plain, rooted⟩ := placed.functionTypes d (typedef_listed g d member) named
    refine ⟨_, function_type_declares g fuel out done d member named top plain rooted, ?_⟩
    rw [Generator.functionTypeRef, TypedefLike.longname, top.2]
    simp

-- A name of the libraries, one that a file of the run declares, or a union trait of the implicits file.
def Generator.Known (s : String) : Prop :=
  s ∈ libraryNames ∨ (∃ q, Declares out.files g.utilPackage q ∧ s = ".".intercalate q) ∨
    ∃ r, out.implicitsFile.written.Prints (sealedTrait r) ∧ s = g.mark ++ r

theorem placed_defines (placed : g.WellPlaced) : g.KnownDefined (g.Known out) := by
  intro name t own found text member _
  obtain ⟨q, declares, rfl⟩ := placed_known g fuel out done placed name t own found
  rw [List.mem_singleton.mp member]
  exact .name _ (Or.inr (Or.inl ⟨q, declares, rfl⟩))

theorem used_known (used : g.UnionsUsed fuel) (r : String) (referred : r ∈ out.declarations.refs) :
    g.Known out (g.mark ++ r) := by
  obtain ⟨tracks, written⟩ := generate_tracks g fuel out done
  have collected : g.Collected fuel r := by
    rcases (declarations_refs g fuel out tracks r).mp referred with own | ⟨use, listed, element⟩ | ⟨name, listed, parent⟩
    · exact own
    · exact used.elements use listed r element
    · exact used.parents name listed r parent
  exact Or.inr (Or.inr ⟨r, (implicits_collected g fuel out tracks written r).mpr collected, rfl⟩)

end Declarations

-- A namespace with a class whose constructor takes a callback, an array of the class or text, and an array of a union.
def packClass : Class :=
  ⟨"Pack", some "o3d", "o3d.Pack", ⟨"pack.js", "/", 1, none⟩, none, none,
    some [⟨some ⟨["o3d.Callback"]⟩, some "opt_callback"⟩, ⟨some ⟨["Array.<o3d.Pack>", "string"]⟩, some "packs"⟩,
      ⟨some ⟨["Array.<o3d.Shape>"]⟩, some "shapes"⟩], none⟩

def callback : Typedef :=
  ⟨"Callback", "o3d.Callback", ⟨"pack.js", "/", 2, none⟩, some "o3d", some ⟨["function"]⟩,
    some [⟨some ⟨["o3d.Pack"]⟩, some "pack"⟩], none⟩

def shape : Typedef := ⟨"Shape", "o3d.Shape", ⟨"pack.js", "/", 3, none⟩, some "o3d", some ⟨["string", "number"]⟩, none, none⟩

def packGenerator : Generator :=
  ⟨[.namespaceDoclet ⟨"o3d"⟩, .classDoclet packClass, .typedefDoclet callback, .typedefDoclet shape], ["jsfacade"], "pkg",
    ["implicits"], fun _ => ""⟩

theorem pack_placed : packGenerator.WellPlaced where
  classes := by
    intro cl listed
    have only : packGenerator.classes = [packClass] := by decide +kernel
    rw [only] at listed
    rw [List.mem_singleton.mp listed]
    exact Or.inl ⟨by decide +kernel, by decide +kernel⟩
  interfaces := by
    intro cl listed
    have none_listed : packGenerator.interfaces = [] := by decide +kernel
    simp [none_listed] at listed
  typed := by
    intro td listed
    have either : td = callback ∨ td = shape := by simpa [packGenerator] using listed
    rcases either with rfl | rfl
    · decide +kernel
    · decide +kernel
  traits := by
    intro td listed object
    have either : td = callback ∨ td = shape := by simpa [packGenerator] using listed
    rcases either with rfl | rfl
    · exact absurd object (by decide +kernel)
    · exact absurd object (by decide +kernel)
  functionTypes := by
    intro td listed function
    have either : td = callback ∨ td = shape := by simpa [packGenerator] using listed
    rcases either with rfl | rfl
    · exact ⟨⟨by decide +kernel, by decide +kernel⟩, by decide +kernel, Or.inr rfl⟩
    · exact absurd function (by decide +kernel)

def packUnions : List String := ["`java.lang.String|scala.scalajs.js.Array[jsfacade.o3d.Pack]`", "`java.lang.String|scala.Double`"]

theorem pack_collected (r : String) (listed : r ∈ packUnions) : packGenerator.Collected 5 r := by
  simp only [packUnions, List.mem_cons, List.not_mem_nil, or_false] at listed
  rcases listed with rfl | rfl
  · refine ⟨(⟨["Array.<o3d.Pack>", "string"]⟩, false), by decide +kernel, ?_⟩
    exact ok_of_map (packGenerator.resolveUse 5 (⟨["Array.<o3d.Pack>", "string"]⟩, false)) ResolvedType.generated _
      (by decide +kernel)
  · refine ⟨(⟨["string", "number"]⟩, false), by decide +kernel, ?_⟩
    exact ok_of_map (packGenerator.resolveUse 5 (⟨["string", "number"]⟩, false)) ResolvedType.generated _
      (by decide +kernel)

-- The union of the array's elements is that of an alias.
theorem pack_used : packGenerator.UnionsUsed 5 := by
  have run : (packGenerator.generate 5).toOption.map (fun out => decide (out.declarations.refs ⊆ packUnions)) = some true := by
    decide +kernel
  obtain ⟨out, done, part⟩ := ok_of_map _ _ _ run
  obtain ⟨tracks, _⟩ := generate_tracks packGenerator 5 out done
  have referred := declarations_refs packGenerator 5 out tracks
  constructor
  · intro use listed r element
    exact pack_collected r (of_decide_eq_true part ((referred r).mpr (Or.inr (Or.inl ⟨use, listed, element⟩))))
  · intro name listed r parent
    exact pack_collected r (of_decide_eq_true part ((referred r).mpr (Or.inr (Or.inr ⟨name, listed, parent⟩))))

end Toolbox8.Jsdoc
