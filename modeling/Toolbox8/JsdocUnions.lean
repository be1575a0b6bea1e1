import Mathlib.Data.List.ReduceOption
import Toolbox8.JsdocNested

set_option autoImplicit false

namespace Toolbox8.Jsdoc

open Base

-- A type that a declaration is written with, and whether it is the one of an optional parameter.
abbrev Use : Type := DocletType × Bool

def signatureTypes (params : List Param) (returns : Option Return) : List Use :=
  params.map (fun p => (p.type, p.isOptional)) ++ returns.toList.map (fun ret => (ret.type, false))

def functionsTypes (fns : List Function) : List Use := fns.flatMap (fun fn => signatureTypes fn.params fn.returns)

def fieldTypes (ms : List Member) : List Use := ms.map (fun m => (m.type, false))

def aliasTypes (ms : List TypedefLike) : List Use := ms.map (fun m => (m.type, false))

section Declared

variable (g : Generator)

-- The types of the parameters, the returns, the fields and the aliases of a file.
def Generator.classTypes (cl : Class) : List Use :=
  (if cl.params.isEmpty then []
    else cl.params.map (fun p => (p.type, p.isOptional)) ++ functionsTypes (g.classFunctions cl)) ++
    (aliasTypes (g.typedefByParent (splitName cl.longname)) ++ fieldTypes (g.classStatics cl))

def Generator.interfaceTypes (cl : Interface) : List Use := functionsTypes (g.interfaceFunctions cl)

def Generator.traitTypes (td : Typedef) : List Use := fieldTypes (g.memberByParent (packageList (some td.longname)))

def Generator.packageTypes (ns : List String) : List Use :=
  aliasTypes (g.packageAliases ns) ++
    (functionsTypes (g.functionByParent ns) ++ fieldTypes (g.staticMembers ns) ++
      (g.functionTypes ns).flatMap (fun m => signatureTypes m.params m.returns))

def Generator.declared : List Use :=
  (g.inNamespaces g.classByParent).flatMap (fun cl => g.classTypes cl.2) ++
    (g.inNamespaces g.interfacesByParent).flatMap (fun cl => g.interfaceTypes cl.2) ++
    (g.inNamespaces g.objectTypedefs).flatMap (fun td => g.traitTypes td.2) ++ g.namespaces.flatMap g.packageTypes

def parents (cl : Class) : List String := cl.augments.toList ++ cl.implements

def Generator.inherited : List String := (g.inNamespaces g.classByParent).flatMap (fun cl => parents cl.2)

end Declared

section Rendering

variable {mark : String}

@[simp] theorem source_refs (g : Generator) (level : Nat) (docMeta : Meta) : (g.source level docMeta).refs = [] := by
  simp [Generator.source]

@[simp] theorem source_reports (g : Generator) (level : Nat) (docMeta : Meta) : (g.source level docMeta).reports = [] := rfl

@[simp] theorem js_name_of_refs (level : Nat) (name : String) : (jsNameOf level name : Declarations mark).refs = [] := by
  simp [jsNameOf]

@[simp] theorem js_name_of_reports (level : Nat) (name : String) : (jsNameOf level name : Declarations mark).reports = [] :=
  rfl

@[simp] theorem js_name_refs (level : Nat) (name : String) : (jsName level name : Declarations mark).refs = [] := by
  rw [jsName]
  split
  · simp
  · rfl

@[simp] theorem js_name_reports (level : Nat) (name : String) : (jsName level name : Declarations mark).reports = [] := by
  rw [jsName]
  split
  · rfl
  · rfl

@[simp] theorem js_native_refs (level : Nat) : (jsNative level : Declarations mark).refs = [] := by simp [jsNative]

@[simp] theorem js_native_reports (level : Nat) : (jsNative level : Declarations mark).reports = [] := rfl

@[simp] theorem unions_refs (w : Declarations mark) : (unions w).refs = w.refs := rfl

end Rendering

section Pieces

variable (g : Generator) (fuel : Nat)

def Generator.resolveUse (u : Use) : g.Resolved := g.resolveType fuel u.1 u.2

-- What a writer writes of the types and of the parents that it resolves.
def Generator.Tracks (uses : List Use) (others : List String) (w : Declarations g.mark) : Prop :=
  Writes (fun t : ResolvedType g.mark => t.toJsType.refs) ResolvedType.generated (uses.map (g.resolveUse fuel))
    (others.map (g.resolveDefined fuel)) w

theorem tracks_unions (uses : List Use) (others : List String) (w : Declarations g.mark)
    (tracks : g.Tracks fuel uses others w) : g.Tracks fuel uses others (unions w) := by
  constructor
  · exact tracks.refs
  · intro r
    rw [← tracks.reports, unions, List.filterMap_filter]
    apply iff_of_eq
    congr 1
    apply List.filterMap_congr
    intro t _
    cases names : t.unionNames with
    | none => simp [names, ResolvedType.generated]
    | some ns => simp
  · exact tracks.used
  · exact tracks.found

theorem tracks_append (uses moreUses : List Use) (v w : Declarations g.mark) (first : g.Tracks fuel uses [] v)
    (second : g.Tracks fuel moreUses [] w) : g.Tracks fuel (uses ++ moreUses) [] (v ++ w) := by
  rw [Generator.Tracks, List.map_append]
  exact writes_append _ _ _ _ _ _ _ _ first second

theorem tracks_each {β : Type} (body : β → Except Stop (Declarations g.mark)) (uses : β → List Use) (bs : List β)
    (w : Declarations g.mark) (done : writeEach body bs = .ok w)
    (each : ∀ b ∈ bs, ∀ v, body b = .ok v → g.Tracks fuel (uses b) [] v) : g.Tracks fuel (bs.flatMap uses) [] w := by
  rw [Generator.Tracks, List.map_flatMap]
  exact writes_each _ _ body _ bs w done each

theorem tracks_single (use : Use) (t : ResolvedType g.mark) (resolved : g.resolveUse fuel use = .ok t)
    (w : Declarations g.mark) (refs : w.refs = t.toJsType.refs) (reports : w.reports = [t]) : g.Tracks fuel [use] [] w := by
  constructor
  · intro r
    rw [refs]
    simp [resolved]
  · intro r
    rw [reports]
    simp [resolved, List.mem_filterMap]
  · simp [resolved]
  · simp

theorem tracks_each_single {β : Type} (use : β → Use) (type : β → g.Resolved)
    (resolves : ∀ b, type b = g.resolveUse fuel (use b)) (body : β → ResolvedType g.mark → Declarations g.mark)
    (refs : ∀ b t, (body b t).refs = t.toJsType.refs)
    (reports : ∀ b t, (body b t).reports = [t]) (bs : List β) (w : Declarations g.mark)
    (done : writeEach (fun b => type b >>= fun t => .ok (body b t)) bs = .ok w) : g.Tracks fuel (bs.map use) [] w := by
  rw [List.map_eq_flatMap]
  apply tracks_each g fuel _ _ bs w done
  intro b _ v here
  obtain ⟨t, resolved, same⟩ := (bind_ok _ _ _).mp here
  rw [resolves b] at resolved
  rw [← Except.ok.inj same]
  exact tracks_single g fuel _ t resolved _ (refs b t) (reports b t)

theorem resolve_union_use (type : DocletType) : g.resolveUnion fuel type = g.resolveUse fuel (type, false) := by
  rw [Generator.resolveUse, Generator.resolveType]
  cases g.resolveUnion fuel type with
  | error stop => rfl
  | ok t => rfl

theorem texts_mem {β : Type} (type : β → g.Resolved) (text : β → ResolvedType g.mark → Text g.mark) (bs : List β)
    (pairs : List (ResolvedType g.mark × Text g.mark))
    (done : bs.mapM (fun b => (type b).map (fun t => (t, text b t))) = .ok pairs)
    (pair : ResolvedType g.mark × Text g.mark) : pair ∈ pairs ↔ ∃ b ∈ bs, type b = .ok pair.1 ∧ text b pair.1 = pair.2 := by
  rw [map_m_mem _ bs pairs done pair, List.mem_map]
  apply exists_congr
  intro b
  apply and_congr_right
  intro _
  rw [map_ok]
  constructor
  · rintro ⟨t, resolved, rfl⟩
    exact ⟨resolved, rfl⟩
  · rintro ⟨resolved, same⟩
    exact ⟨pair.1, resolved, Prod.ext rfl same⟩

theorem tracks_texts {β : Type} (use : β → Use) (text : β → ResolvedType g.mark → Text g.mark)
    (shown : ∀ b t, (text b t).refs = t.toJsType.refs) (bs : List β) (pairs : List (ResolvedType g.mark × Text g.mark))
    (done : bs.mapM (fun b => (g.resolveUse fuel (use b)).map (fun t => (t, text b t))) = .ok pairs) (w : Declarations g.mark)
    (refs : w.refs = (pairs.map Prod.snd).flatMap Text.refs) (reports : w.reports = pairs.map Prod.fst) :
    g.Tracks fuel (bs.map use) [] w := by
  have members := texts_mem g _ text bs pairs done
  constructor
  · intro r
    rw [refs, List.map_map]
    constructor
    · intro member
      obtain ⟨s, listed, inside⟩ := List.mem_flatMap.mp member
      obtain ⟨pair, here, rfl⟩ := List.mem_map.mp listed
      obtain ⟨b, mapped, resolved, same⟩ := (members pair).mp here
      rw [← same, shown] at inside
      exact Or.inl ⟨pair.1, List.mem_map.mpr ⟨b, mapped, resolved⟩, inside⟩
    · rintro (⟨t, used, inside⟩ | ⟨t, used, _⟩)
      · obtain ⟨b, mapped, resolved⟩ := List.mem_map.mp used
        have here := (members (t, text b t)).mpr ⟨b, mapped, resolved, rfl⟩
        rw [← shown b t] at inside
        exact List.mem_flatMap.mpr ⟨text b t, List.mem_map.mpr ⟨_, here, rfl⟩, inside⟩
      · exact absurd used List.not_mem_nil
  · intro r
    rw [reports, List.mem_filterMap, List.map_map]
    apply exists_congr
    intro t
    apply and_congr_left
    intro _
    constructor
    · intro member
      obtain ⟨pair, here, rfl⟩ := List.mem_map.mp member
      obtain ⟨b, mapped, resolved, _⟩ := (members pair).mp here
      exact List.mem_map.mpr ⟨b, mapped, resolved⟩
    · intro used
      obtain ⟨b, mapped, resolved⟩ := List.mem_map.mp used
      exact List.mem_map.mpr ⟨_, (members (t, text b t)).mpr ⟨b, mapped, resolved, rfl⟩, rfl⟩
  · intro x member
    rw [List.map_map] at member
    obtain ⟨b, mapped, rfl⟩ := List.mem_map.mp member
    obtain ⟨pair, made⟩ := map_m_all _ bs pairs done b mapped
    obtain ⟨t, resolved, _⟩ := (map_ok _ _ _).mp made
    exact ⟨t, resolved⟩
  · simp

theorem tracks_params (before : String) (params : List Param) (pairs : List (ResolvedType g.mark × Text g.mark))
    (done : g.writtenParams fuel before params = .ok pairs) (w : Declarations g.mark)
    (refs : w.refs = (pairs.map Prod.snd).flatMap Text.refs) (reports : w.reports = pairs.map Prod.fst) :
    g.Tracks fuel (params.map (fun p => (p.type, p.isOptional))) [] w := by
  apply tracks_texts g fuel (fun p : Param => (p.type, p.isOptional)) _ _ params pairs done w refs reports
  intro p t
  simp [to_js_param_type_refs]

-- Where nothing is returned, the type Unit refers to no union.
theorem tracks_return (returns : Option Return) (t : ResolvedType g.mark) (returned : g.resolveReturn fuel returns = .ok t)
    (w : Declarations g.mark) (refs : w.refs = t.toJsType.refs) (reports : w.reports = [t]) :
    g.Tracks fuel (returns.toList.map (fun ret => (ret.type, false))) [] w := by
  cases returns with
  | some ret => exact tracks_single g fuel (ret.type, false) t returned w refs reports
  | none =>
      rw [← Except.ok.inj returned] at refs reports
      constructor
      · intro r
        rw [refs]
        simp [ResolvedType.toJsType, ResolvedType.optional, ResolvedType.toSingle]
      · intro r
        rw [reports]
        simp [ResolvedType.generated, ResolvedType.unionNames]
      · simp
      · simp

theorem tracks_signature (before : String) (params : List Param) (returns : Option Return)
    (pairs : List (ResolvedType g.mark × Text g.mark)) (t : ResolvedType g.mark)
    (parameters : g.writtenParams fuel before params = .ok pairs) (returned : g.resolveReturn fuel returns = .ok t)
    (w : Declarations g.mark) (refs : w.refs = (pairs.map Prod.snd).flatMap Text.refs ++ t.toJsType.refs)
    (reports : w.reports = pairs.map Prod.fst ++ [t]) : g.Tracks fuel (signatureTypes params returns) [] w := by
  have first := tracks_params g fuel before params pairs parameters
    (write g.mark 0 (Text.mkString "" (pairs.map Prod.snd)) ++ yields (pairs.map Prod.fst)) (by simp) (by simp)
  have second := tracks_return g fuel returns t returned (write g.mark 0 t.toJsType ++ yields [t]) (by simp) (by simp)
  exact writes_same _ _ _ _ _ w (tracks_append g fuel _ _ _ _ first second) (by simp [refs]) (by simp [reports])

theorem write_static_tracks (level : Nat) (fn : Function) (w : Declarations g.mark)
    (done : g.writeStatic fuel level fn = .ok w) : g.Tracks fuel (signatureTypes fn.params fn.returns) [] w := by
  obtain ⟨pairs, parameters, later⟩ := (bind_ok _ _ _).mp done
  obtain ⟨t, returned, same⟩ := (bind_ok _ _ _).mp later
  rw [← Except.ok.inj same]
  exact tracks_signature g fuel _ _ _ pairs t parameters returned _ (by simp) (by simp)

theorem write_statics_tracks (nsName : List String) (level : Nat) (w : Declarations g.mark)
    (done : g.writeStatics fuel nsName level = .ok w) :
    g.Tracks fuel (functionsTypes (g.functionByParent nsName) ++ fieldTypes (g.staticMembers nsName)) [] w := by
  obtain ⟨t1s, functions, afterFunctions⟩ := (bind_ok _ _ _).mp done
  obtain ⟨t2s, members, afterMembers⟩ := (bind_ok _ _ _).mp afterFunctions
  obtain ⟨subpackages, packages, afterPackages⟩ := (bind_ok _ _ _).mp afterMembers
  obtain ⟨classes, listed, same⟩ := (bind_ok _ _ _).mp afterPackages
  have quietPackages : subpackages.refs = [] ∧ subpackages.reports = [] := by
    apply quiet_each _ _ _ packages
    intro ns _ v here
    rw [← Except.ok.inj here]
    simp
  have quietClasses : classes.refs = [] ∧ classes.reports = [] := by
    apply quiet_each _ _ _ listed
    intro cl _ v here
    rw [← Except.ok.inj here]
    simp
  have first : g.Tracks fuel (functionsTypes (g.functionByParent nsName)) [] t1s :=
    tracks_each g fuel _ _ _ t1s functions (fun fn _ v here => write_static_tracks g fuel level fn v here)
  have second : g.Tracks fuel (fieldTypes (g.staticMembers nsName)) [] t2s :=
    tracks_each_single g fuel (fun m : Member => (m.type, false)) _ (fun _ => rfl) _ (by simp) (by simp) _ t2s members
  rw [← Except.ok.inj same]
  apply tracks_unions
  apply writes_same _ _ _ _ _ _ (tracks_append g fuel _ _ _ _ first second)
  · simp [quietPackages, quietClasses]
  · simp [quietPackages, quietClasses]

theorem write_function_type_tracks (level : Nat) (m : Typedef) (w : Declarations g.mark)
    (done : g.writeFunctionType fuel level m = .ok w) : g.Tracks fuel (signatureTypes m.params m.returns) [] w := by
  obtain ⟨t11, parameters, later⟩ := (bind_ok _ _ _).mp done
  obtain ⟨t12, returned, same⟩ := (bind_ok _ _ _).mp later
  have first := tracks_each_single g fuel (fun p : Param => (p.type, p.isOptional)) _ (fun _ => rfl) _ (by simp) (by simp)
    m.params t11 parameters
  have second := tracks_return g fuel m.returns t12 returned (write g.mark 0 t12.toJsType ++ yields [t12]) (by simp) (by simp)
  rw [← Except.ok.inj same]
  apply writes_same _ _ _ _ _ _ (tracks_append g fuel _ _ _ _ first second)
  · simp
  · simp

theorem write_function_types_tracks (nsName : List String) (level : Nat) (w : Declarations g.mark)
    (done : g.writeFunctionTypes fuel nsName level = .ok w) :
    g.Tracks fuel ((g.functionTypes nsName).flatMap (fun m => signatureTypes m.params m.returns)) [] w := by
  obtain ⟨t1, types, same⟩ := (bind_ok _ _ _).mp done
  rw [← Except.ok.inj same]
  apply tracks_unions
  exact tracks_each g fuel _ _ _ t1 types (fun m _ v here => write_function_type_tracks g fuel level m v here)

-- An empty text refers to nothing: a reference has the mark.
theorem empty_text_refs (t : Text g.mark) (empty : t.string.isEmpty) : t.refs = [] := by
  apply List.eq_nil_iff_forall_not_mem.mpr
  intro r member
  have inside := t.occur r member
  rw [String.isEmpty_iff.mp empty] at inside
  have none_left := List.eq_nil_of_infix_nil inside
  simp [Generator.mark] at none_left

theorem write_function_tracks (level : Nat) (defStart : String) (fn : Function) (w : Declarations g.mark)
    (done : g.writeFunction fuel level defStart fn = .ok w) : g.Tracks fuel (signatureTypes fn.params fn.returns) [] w := by
  obtain ⟨pairs, parameters, later⟩ := (bind_ok _ _ _).mp done
  obtain ⟨t, returned, same⟩ := (bind_ok _ _ _).mp later
  rw [← Except.ok.inj same]
  by_cases empty : (Text.mkString "," (pairs.map Prod.snd)).string.isEmpty
  · have silent := empty_text_refs g _ empty
    rw [mk_string_refs] at silent
    rw [if_pos empty]
    apply tracks_signature g fuel _ _ _ pairs t parameters returned
    · simp [silent]
    · simp
  · rw [if_neg empty]
    apply tracks_signature g fuel _ _ _ pairs t parameters returned
    · simp
    · simp

theorem write_class_members_tracks (cl : Class) (level : Nat) (w : Declarations g.mark)
    (done : g.writeClassMembers fuel cl level = .ok w) :
    g.Tracks fuel (if cl.params.isEmpty then [] else
      cl.params.map (fun p => (p.type, p.isOptional)) ++ functionsTypes (g.classFunctions cl)) [] w := by
  rw [Generator.writeClassMembers] at done
  by_cases empty : cl.params.isEmpty
  · rw [if_pos empty] at done ⊢
    rw [← Except.ok.inj done]
    exact writes_empty _ _
  · rw [if_neg empty] at done ⊢
    obtain ⟨pairs, parameters, later⟩ := (bind_ok _ _ _).mp done
    obtain ⟨t2s, functions, same⟩ := (bind_ok _ _ _).mp later
    have first := tracks_params g fuel _ _ pairs parameters
      (write g.mark 0 (Text.mkString "" (pairs.map Prod.snd)) ++ yields (pairs.map Prod.fst)) (by simp) (by simp)
    have second : g.Tracks fuel (functionsTypes (g.classFunctions cl)) [] t2s :=
      tracks_each g fuel _ _ _ t2s functions (fun fn _ v here => write_function_tracks g fuel level _ fn v here)
    rw [← Except.ok.inj same]
    apply tracks_unions
    apply writes_same _ _ _ _ _ _ (tracks_append g fuel _ _ _ _ first second)
    · simp
    · simp

theorem write_interface_members_tracks (cl : Interface) (level : Nat) (w : Declarations g.mark)
    (done : g.writeInterfaceMembers fuel cl level = .ok w) : g.Tracks fuel (g.interfaceTypes cl) [] w := by
  obtain ⟨t1, functions, same⟩ := (bind_ok _ _ _).mp done
  rw [← Except.ok.inj same]
  apply tracks_unions
  exact tracks_each g fuel _ _ _ t1 functions (fun fn _ v here => write_function_tracks g fuel level _ fn v here)

theorem write_class_static_members_tracks (cl : Class) (level : Nat) (w : Declarations g.mark)
    (done : g.writeClassStaticMembers fuel cl level = .ok w) :
    g.Tracks fuel (aliasTypes (g.typedefByParent (splitName cl.longname)) ++ fieldTypes (g.classStatics cl)) [] w := by
  obtain ⟨t1, aliases, afterAliases⟩ := (bind_ok _ _ _).mp done
  obtain ⟨inner, types, afterTypes⟩ := (bind_ok _ _ _).mp afterAliases
  obtain ⟨t2, members, same⟩ := (bind_ok _ _ _).mp afterTypes
  have quiet : inner.refs = [] ∧ inner.reports = [] := by
    apply quiet_each _ _ _ types
    intro m _ v here
    rw [← Except.ok.inj here]
    simp
  have first : g.Tracks fuel (aliasTypes (g.typedefByParent (splitName cl.longname))) [] t1 :=
    tracks_each_single g fuel (fun m : TypedefLike => (m.type, false)) _ (fun m => resolve_union_use g fuel m.type) _
      (by simp) (by simp) _ t1 aliases
  have second : g.Tracks fuel (fieldTypes (g.classStatics cl)) [] t2 :=
    tracks_each_single g fuel (fun m : Member => (m.type, false)) _ (fun _ => rfl) _ (by simp) (by simp) _ t2 members
  rw [← Except.ok.inj same]
  apply tracks_unions
  apply writes_same _ _ _ _ _ _ (tracks_append g fuel _ _ _ _ first second)
  · simp [quiet]
  · simp [quiet]

theorem parents_refs (aus : List String) (found : List (Option (Text g.mark)))
    (done : aus.mapM (g.writtenParent fuel) = .ok found) (r : String) : r ∈ found.reduceOption.flatMap Text.refs ↔
      ∃ t, .ok (some t) ∈ aus.map (g.resolveDefined fuel) ∧ r ∈ t.toJsType.refs := by
  constructor
  · intro member
    obtain ⟨s, listed, inside⟩ := List.mem_flatMap.mp member
    have here := (map_m_mem _ aus found done (some s)).mp (List.reduceOption_mem_iff.mp listed)
    obtain ⟨au, mapped, made⟩ := List.mem_map.mp here
    obtain ⟨defined, resolved, same⟩ := (map_ok _ _ _).mp made
    obtain ⟨t, rfl, rfl⟩ := Option.map_eq_some_iff.mp same
    exact ⟨t, List.mem_map.mpr ⟨au, mapped, resolved⟩, inside⟩
  · rintro ⟨t, used, inside⟩
    obtain ⟨au, mapped, resolved⟩ := List.mem_map.mp used
    have made : g.writtenParent fuel au = .ok (some t.toJsType) := by
      rw [Generator.writtenParent, resolved]
      rfl
    have here := (map_m_mem _ aus found done _).mpr (List.mem_map.mpr ⟨au, mapped, made⟩)
    exact List.mem_flatMap.mpr ⟨_, List.reduceOption_mem_iff.mpr here, inside⟩

theorem written_parent_found (aus : List String) (found : List (Option (Text g.mark)))
    (done : aus.mapM (g.writtenParent fuel) = .ok found) (au : String) (listed : au ∈ aus) :
    ∃ t, g.resolveDefined fuel au = .ok t := by
  obtain ⟨text, made⟩ := map_m_all _ aus found done au listed
  obtain ⟨t, resolved, _⟩ := (map_ok _ _ _).mp made
  exact ⟨t, resolved⟩

-- There is at most one superclass.
theorem superclass_found (augments : Option String) (found : List (Option (Text g.mark)))
    (done : augments.toList.mapM (g.writtenParent fuel) = .ok found) :
    ∃ parent : Option (Text g.mark), found.reduceOption = parent.toList := by
  cases augments with
  | none =>
      rw [← Except.ok.inj done]
      exact ⟨none, rfl⟩
  | some au =>
      obtain ⟨parent, rest, _, others, rfl⟩ := (map_m_cons_ok _ au [] found).mp done
      rw [← Except.ok.inj others]
      cases parent with
      | none => exact ⟨none, rfl⟩
      | some s => exact ⟨some s, rfl⟩

theorem superclass_refs (augments : Option String) (found : List (Option (Text g.mark))) (default : String)
    (done : augments.toList.mapM (g.writtenParent fuel) = .ok found) :
    (found.reduceOption.head?.getD default).refs = found.reduceOption.flatMap Text.refs := by
  obtain ⟨parent, only⟩ := superclass_found g fuel augments found done
  rw [only]
  cases parent with
  | none => rfl
  | some s => simp

theorem parents_tracks (cl : Class) (superClass imps : List (Option (Text g.mark))) (default : String)
    (extended : cl.augments.toList.mapM (g.writtenParent fuel) = .ok superClass)
    (implemented : cl.implements.mapM (g.writtenParent fuel) = .ok imps) (w : Declarations g.mark)
    (refs : w.refs = (superClass.reduceOption.head?.getD default).refs ++ imps.reduceOption.flatMap Text.refs)
    (reports : w.reports = []) : g.Tracks fuel [] (parents cl) w := by
  constructor
  · intro r
    rw [refs, List.mem_append, superclass_refs g fuel cl.augments superClass default extended,
      parents_refs g fuel _ _ extended, parents_refs g fuel _ _ implemented, ← exists_or, parents]
    simp only [List.map_append, List.mem_append, or_and_right, List.map_nil, List.not_mem_nil, false_and, exists_false,
      false_or]
  · intro r
    rw [reports]
    simp
  · simp
  · intro x member
    obtain ⟨au, listed, rfl⟩ := List.mem_map.mp member
    rcases List.mem_append.mp listed with first | second
    · exact written_parent_found g fuel _ _ extended au first
    · exact written_parent_found g fuel _ _ implemented au second

theorem write_class_tracks (cl : Class) (level : Nat) (w : Declarations g.mark) (done : g.writeClass fuel cl level = .ok w) :
    g.Tracks fuel (g.classTypes cl) (parents cl) w := by
  obtain ⟨superClass, extended, afterExtended⟩ := (bind_ok _ _ _).mp done
  obtain ⟨imps, implemented, afterImplemented⟩ := (bind_ok _ _ _).mp afterExtended
  obtain ⟨t1, members, afterMembers⟩ := (bind_ok _ _ _).mp afterImplemented
  obtain ⟨t2, statics, same⟩ := (bind_ok _ _ _).mp afterMembers
  let clause : List (Text g.mark) := (superClass.reduceOption.head?.getD "scala.scalajs.js.Object") :: imps.reduceOption
  have first := parents_tracks g fuel cl superClass imps "scala.scalajs.js.Object" extended implemented
    (write g.mark 0 (Text.mkString " with " clause)) (by simp [clause]) (by simp)
  have second := tracks_append g fuel _ _ t1 t2 (write_class_members_tracks g fuel cl _ t1 members)
    (write_class_static_members_tracks g fuel cl _ t2 statics)
  have all := writes_append _ _ _ _ _ _ _ _ first second
  rw [List.map_nil, List.nil_append, List.map_nil, List.append_nil] at all
  rw [← Except.ok.inj same]
  apply writes_same _ _ _ _ _ _ all
  · simp [clause]
  · simp

theorem write_interface_tracks (cl : Interface) (level : Nat) (w : Declarations g.mark)
    (done : g.writeInterface fuel cl level = .ok w) : g.Tracks fuel (g.interfaceTypes cl) [] w := by
  obtain ⟨t1, members, same⟩ := (bind_ok _ _ _).mp done
  rw [← Except.ok.inj same]
  apply writes_same _ _ _ _ _ _ (write_interface_members_tracks g fuel cl _ t1 members)
  · simp
  · simp

theorem tracks_twice (uses : List Use) (v w : Declarations g.mark) (first : g.Tracks fuel uses [] v)
    (second : g.Tracks fuel uses [] w) : g.Tracks fuel uses [] (v ++ w) := by
  have both := tracks_append g fuel _ _ _ _ first second
  constructor
  · intro r
    rw [both.refs]
    simp
  · intro r
    rw [both.reports]
    simp
  · exact first.used
  · exact first.found

-- The fields of a typedef are written as fields and as parameters.
theorem write_typedef_tracks (td : Typedef) (level : Nat) (w : Declarations g.mark)
    (done : g.writeTypedef fuel td level = .ok w) : g.Tracks fuel (g.traitTypes td) [] w := by
  obtain ⟨t1, fields, afterFields⟩ := (bind_ok _ _ _).mp done
  obtain ⟨t2str, parameters, same⟩ := (bind_ok _ _ _).mp afterFields
  have first : g.Tracks fuel (g.traitTypes td) [] t1 :=
    tracks_each_single g fuel (fun m : Member => (m.type, false)) _ (fun _ => rfl) _ (by simp) (by simp) _ t1 fields
  have second : g.Tracks fuel (g.traitTypes td) []
      (write g.mark 0 (Text.mkString "" (t2str.map Prod.snd)) ++ yields (t2str.map Prod.fst)) :=
    tracks_texts g fuel (fun m : Member => (m.type, false)) _ (by simp [to_js_param_type_refs]) _ t2str parameters _
      (by simp) (by simp)
  rw [← Except.ok.inj same]
  apply tracks_unions
  apply writes_same _ _ _ _ _ _ (tracks_twice g fuel _ _ _ first second)
  · simp
  · simp

theorem write_package_tracks (ns : List String) (w : Declarations g.mark) (done : g.writePackage fuel ns = .ok w) :
    g.Tracks fuel (g.packageTypes ns) [] w := by
  rw [Generator.writePackage] at done
  cases last : (g.rootPackage ++ ns).getLast? with
  | none => simp [last] at done
  | some name =>
      rw [last] at done
      obtain ⟨t11, aliases, afterAliases⟩ := (bind_ok _ _ _).mp done
      obtain ⟨t21, statics, afterStatics⟩ := (bind_ok _ _ _).mp afterAliases
      obtain ⟨t22, functions, same⟩ := (bind_ok _ _ _).mp afterStatics
      have first : g.Tracks fuel (aliasTypes (g.packageAliases ns)) [] (unions t11) :=
        tracks_unions g fuel _ _ _
          (tracks_each_single g fuel (fun m : TypedefLike => (m.type, false)) _ (fun m => resolve_union_use g fuel m.type) _
      (by simp) (by simp) _ t11 aliases)
      have second := tracks_append g fuel _ _ t21 t22 (write_statics_tracks g fuel ns _ t21 statics)
        (write_function_types_tracks g fuel ns _ t22 functions)
      rw [← Except.ok.inj same]
      apply writes_same _ _ _ _ _ _ (tracks_append g fuel _ _ _ _ first second)
      · cases ns with
        | nil => simp [Generator.writeGlobal]
        | cons part rest => simp
      · cases ns with
        | nil => simp [Generator.writeGlobal]
        | cons part rest => simp

end Pieces

section Files

variable (g : Generator) (fuel : Nat)

theorem write_file_written (longname heading : String) (writer : Except Stop (Declarations g.mark)) (file : SourceFile g.mark)
    (done : g.writeFile longname (writer.map (fun w => write g.mark 0 heading ++ w)) = .ok file) :
    ∃ w, writer = .ok w ∧ file.written = write g.mark 0 heading ++ w := by
  obtain ⟨v, headed, rfl⟩ := (map_ok _ _ _).mp done
  obtain ⟨w, finished, rfl⟩ := (map_ok _ _ _).mp headed
  exact ⟨w, finished, rfl⟩

theorem tracks_headed (uses : List Use) (others : List String)
    (heading : String) (w : Declarations g.mark) (tracks : g.Tracks fuel uses others w) :
    g.Tracks fuel uses others (write g.mark 0 heading ++ w) :=
  writes_same _ _ _ _ _ _ tracks (by simp) (by simp)

theorem class_file_tracks (ns : List String) (cl : Class) (file : SourceFile g.mark)
    (done : g.classFile fuel ns cl = .ok file) : g.Tracks fuel (g.classTypes cl) (parents cl) file.written := by
  obtain ⟨w, finished, same⟩ := write_file_written g _ _ _ file done
  rw [same]
  exact tracks_headed g fuel _ _ _ w (write_class_tracks g fuel cl 0 w finished)

theorem interface_file_tracks (ns : List String) (cl : Interface) (file : SourceFile g.mark)
    (done : g.interfaceFile fuel ns cl = .ok file) : g.Tracks fuel (g.interfaceTypes cl) [] file.written := by
  obtain ⟨w, finished, same⟩ := write_file_written g _ _ _ file done
  rw [same]
  exact tracks_headed g fuel _ _ _ w (write_interface_tracks g fuel cl 0 w finished)

theorem trait_file_tracks (ns : List String) (td : Typedef) (file : SourceFile g.mark)
    (done : g.traitFile fuel ns td = .ok file) : g.Tracks fuel (g.traitTypes td) [] file.written := by
  obtain ⟨w, finished, same⟩ := write_file_written g _ _ _ file done
  rw [same]
  exact tracks_headed g fuel _ _ _ w (write_typedef_tracks g fuel td 0 w finished)

theorem package_file_tracks (ns : List String) (file : SourceFile g.mark) (done : g.packageFile fuel ns = .ok file) :
    g.Tracks fuel (g.packageTypes ns) [] file.written := by
  obtain ⟨w, finished, rfl⟩ := (map_ok _ _ _).mp done
  exact write_package_tracks g fuel ns w finished

-- The class, interface, trait and package files together.
def Generated.declarations {mark : String} (out : Generated mark) : Declarations mark :=
  .concat (out.files.map SourceFile.written)

theorem declarations_reports {mark : String} (out : Generated mark) :
    out.declarations.reports = out.files.flatMap (fun file => file.written.reports) :=
  List.flatMap_map _ _ _

theorem generate_files (out : Generated g.mark) (done : g.generate fuel = .ok out) :
    ∃ classFiles interfaceFiles traitFiles packageFiles,
      g.classFiles fuel = .ok classFiles ∧ g.interfaceFiles fuel = .ok interfaceFiles ∧
      g.traitFiles fuel = .ok traitFiles ∧ g.packageFiles fuel = .ok packageFiles ∧
      out.files = classFiles ++ interfaceFiles ++ traitFiles ++ packageFiles ∧
      g.implicitsFile (out.files.flatMap (fun file => file.written.reports)) = .ok out.implicitsFile := by
  rw [Generator.generate] at done
  split at done
  · obtain ⟨classFiles, classes, afterClasses⟩ := (bind_ok _ _ _).mp done
    obtain ⟨interfaceFiles, interfaces, afterInterfaces⟩ := (bind_ok _ _ _).mp afterClasses
    obtain ⟨traitFiles, traits, afterTraits⟩ := (bind_ok _ _ _).mp afterInterfaces
    obtain ⟨packageFiles, packages, afterPackages⟩ := (bind_ok _ _ _).mp afterTraits
    obtain ⟨implicitsFile, implicits, same⟩ := (bind_ok _ _ _).mp afterPackages
    rw [← Except.ok.inj same]
    exact ⟨classFiles, interfaceFiles, traitFiles, packageFiles, classes, interfaces, traits, packages, rfl, implicits⟩
  · exact absurd done (by simp)

theorem generate_tracks (out : Generated g.mark) (done : g.generate fuel = .ok out) :
    g.Tracks fuel g.declared g.inherited out.declarations ∧
      g.implicitsFile out.declarations.reports = .ok out.implicitsFile := by
  obtain ⟨classFiles, interfaceFiles, traitFiles, packageFiles, classes, interfaces, traits, packages, files, implicits⟩ :=
    generate_files g fuel out done
  have first := writes_concat _ _ _ SourceFile.written _ _ _ classFiles classes
    (fun cl _ file here => class_file_tracks g fuel cl.1 cl.2 file here)
  have second := writes_concat_uses _ _ _ SourceFile.written _ _ interfaceFiles interfaces
    (fun cl _ file here => interface_file_tracks g fuel cl.1 cl.2 file here)
  have third := writes_concat_uses _ _ _ SourceFile.written _ _ traitFiles traits
    (fun td _ file here => trait_file_tracks g fuel td.1 td.2 file here)
  have fourth := writes_concat_uses _ _ _ SourceFile.written _ _ packageFiles packages
    (fun ns _ file here => package_file_tracks g fuel ns file here)
  have three := writes_append _ _ _ _ _ _ _ _ (writes_append _ _ _ _ _ _ _ _ first second) third
  have all := writes_append _ _ _ _ _ _ _ _ three fourth
  simp only [← concat_append, ← List.map_append, List.append_nil] at all
  constructor
  · simp only [Generator.Tracks, Generator.declared, Generator.inherited, List.map_append, List.map_flatMap]
    rw [Generated.declarations, files]
    exact all
  · rw [declarations_reports]
    exact implicits

-- Only the line of a trait starts as one.
theorem not_trait (s r : String) (start : s.toList.head? ≠ some 's') : s ≠ sealedTrait r := by
  intro same
  apply start
  rw [same]
  simp [sealedTrait]

theorem prints_conversion (level : Nat) (names : List (Text g.mark)) (t : Text g.mark) (r : String) :
    ¬ (writeConversion level names t).Prints (sealedTrait r) := by
  rw [writeConversion, prints_append, prints_write, prints_write, not_or]
  constructor
  · exact not_trait _ r (by simp)
  · exact not_trait _ r (by simp)

theorem prints_union (level : Nat) (names : List (Text g.mark)) (r : String) :
    (writeUnion level names).Prints (sealedTrait r) ↔ (generatedName names).string = r := by
  simp only [writeUnion, jsNative, prints_append, prints_concat, prints_write, List.mem_map]
  constructor
  · rintro ((((same | same) | same) | ⟨w, ⟨t, _, rfl⟩, printed⟩) | same)
    · exact absurd same (not_trait _ r (by simp))
    · simpa [sealedTrait] using same
    · exact absurd same (not_trait _ r (by simp))
    · exact absurd printed (prints_conversion g _ names t r)
    · exact absurd same (not_trait _ r (by simp))
  · rintro rfl
    exact Or.inl (Or.inl (Or.inl (Or.inr rfl)))

theorem prints_implicits (level : Nat) (types : List (ResolvedType g.mark)) (r : String) :
    (writeImplicits level types).Prints (sealedTrait r) ↔ r ∈ types.filterMap ResolvedType.generated := by
  rw [writeImplicits, prints_concat, List.mem_filterMap]
  constructor
  · rintro ⟨w, member, printed⟩
    obtain ⟨names, listed, rfl⟩ := List.mem_map.mp member
    obtain ⟨t, reported, union⟩ := List.mem_filterMap.mp (mem_of_mem_distinct_by _ _ names listed)
    have named := (prints_union g level names r).mp printed
    refine ⟨t, reported, ?_⟩
    rw [ResolvedType.generated, union, ← named]
    rfl
  · rintro ⟨t, reported, named⟩
    obtain ⟨names, union, rfl⟩ := Option.map_eq_some_iff.mp named
    have reportedNames := List.mem_filterMap.mpr ⟨t, reported, union⟩
    obtain ⟨kept, listed, same⟩ := distinct_by_complete (List.map Text.string) _ names reportedNames
    exact ⟨_, List.mem_map.mpr ⟨kept, listed, rfl⟩, (prints_union g level kept _).mpr (generated_name_congr kept names same)⟩

theorem implicits_file_prints (types : List (ResolvedType g.mark)) (file : SourceFile g.mark)
    (done : g.implicitsFile types = .ok file) (r : String) :
    file.written.Prints (sealedTrait r) ↔ r ∈ types.filterMap ResolvedType.generated := by
  rw [Generator.implicitsFile] at done
  cases last : g.implicits.getLast? with
  | none => simp [last] at done
  | some name =>
      rw [last] at done
      obtain ⟨w, finished, rfl⟩ := (map_ok _ _ _).mp done
      rw [← Except.ok.inj finished, ← prints_implicits g 1 types r]
      simp only [prints_append, prints_write]
      constructor
      · rintro ((((same | same) | printed) | same) | same)
        · exact absurd same (not_trait _ r (by simp))
        · exact absurd same (not_trait _ r (by simp))
        · exact printed
        · exact absurd same (not_trait _ r (by simp))
        · exact absurd same (not_trait _ r (by simp))
      · intro printed
        exact Or.inl (Or.inl (Or.inr printed))

end Files

section Closure

variable (g : Generator) (fuel : Nat)

-- The unions that the generator defines: those which a parameter, a return, a field or an alias is of.
def Generator.Collected (r : String) : Prop := ∃ use ∈ g.declared, ∃ t, g.resolveUse fuel use = .ok t ∧ t.generated = some r

-- The element of an array type that the names of a type lead to is the union r.
def Generator.Element (names : List String) (r : String) : Prop := ∃ n ∈ names.map typeName, g.ElementOf fuel n r

theorem union_element (type : DocletType) (t : ResolvedType g.mark) (resolved : g.resolveUnion fuel type = .ok t)
    (r : String) : r ∈ t.nested ↔ g.Element fuel type.names r := by
  rw [resolve_union_nested g _ type t resolved]
  apply exists_congr
  intro n
  apply and_congr_right
  intro listed
  obtain ⟨ts, mapped, _⟩ := (bind_ok _ _ _).mp resolved
  obtain ⟨s, found⟩ := map_m_all _ _ ts mapped n listed
  rw [← resolve_nested g fuel n s found]
  constructor
  · rintro ⟨other, again, inside⟩
    rw [found] at again
    rw [Except.ok.inj again]
    exact inside
  · intro inside
    exact ⟨s, found, inside⟩

theorem use_element (use : Use) (t : ResolvedType g.mark) (resolved : g.resolveUse fuel use = .ok t) (r : String) :
    r ∈ t.nested ↔ g.Element fuel use.1.names r := by
  obtain ⟨utypes, found, joins⟩ := (bind_ok _ _ _).mp resolved
  rw [← union_element g fuel use.1 utypes found]
  split at joins
  · rw [join_nested utypes .optionalType t joins]
    simp [ResolvedType.nested, ResolvedType.toSet]
  · rw [Except.ok.inj joins]

def Generator.definedNames (name : String) : List String := ((g.typeOf name).map DocletType.names).getD []

theorem defined_element (name : String) (t : ResolvedType g.mark) (resolved : g.resolveDefined fuel name = .ok (some t))
    (r : String) : r ∈ t.nested ↔ g.Element fuel (g.definedNames name) r := by
  rw [Generator.definedNames]
  rcases resolve_defined_cases g _ name _ resolved with ⟨type, joined, defined, found, same⟩ | ⟨undefined, same⟩
  · rw [defined, Option.some.inj same]
    exact union_element g fuel type joined found r
  · rw [undefined, defined_nested g name t same.symm]
    simp [Generator.Element]

-- A parent is a union or leads to one.
def Generator.ParentUnion (name r : String) : Prop :=
  (∃ t, g.resolveDefined fuel name = .ok (some t) ∧ t.generated = some r) ∨ g.Element fuel (g.definedNames name) r

theorem inherited_refs (name : String) (defined : Option (ResolvedType g.mark))
    (resolved : g.resolveDefined fuel name = .ok defined) (r : String) :
    g.ParentUnion fuel name r ↔ ∃ t, defined = some t ∧ r ∈ t.toJsType.refs := by
  rw [Generator.ParentUnion, resolved]
  cases defined with
  | none =>
      have empty : g.definedNames name = [] := by
        rcases resolve_defined_cases g _ name _ resolved with ⟨_, _, _, _, impossible⟩ | ⟨undefined, _⟩
        · exact absurd impossible (by simp)
        · rw [Generator.definedNames, undefined]
          rfl
      rw [empty]
      simp [Generator.Element]
  | some t =>
      rw [← defined_element g fuel name t resolved]
      simp [mem_js_type_refs]

-- What the declarations refer to: the unions that the types of the declarations are of or lead to, and those of the
-- parents.
theorem declarations_refs (out : Generated g.mark) (tracks : g.Tracks fuel g.declared g.inherited out.declarations)
    (r : String) : r ∈ out.declarations.refs ↔
      g.Collected fuel r ∨ (∃ use ∈ g.declared, g.Element fuel use.1.names r) ∨
        ∃ name ∈ g.inherited, g.ParentUnion fuel name r := by
  rw [tracks.refs]
  constructor
  · rintro (⟨t, member, inside⟩ | ⟨t, member, inside⟩)
    · obtain ⟨use, listed, resolved⟩ := List.mem_map.mp member
      rcases (mem_js_type_refs t r).mp inside with named | deeper
      · exact Or.inl ⟨use, listed, t, resolved, named⟩
      · exact Or.inr (Or.inl ⟨use, listed, (use_element g fuel use t resolved r).mp deeper⟩)
    · obtain ⟨name, listed, resolved⟩ := List.mem_map.mp member
      exact Or.inr (Or.inr ⟨name, listed, (inherited_refs g fuel name _ resolved r).mpr ⟨t, rfl, inside⟩⟩)
  · rintro (⟨use, listed, t, resolved, named⟩ | ⟨use, listed, element⟩ | ⟨name, listed, parent⟩)
    · exact Or.inl ⟨t, List.mem_map.mpr ⟨use, listed, resolved⟩, (mem_js_type_refs t r).mpr (Or.inl named)⟩
    · obtain ⟨t, resolved⟩ := tracks.used _ (List.mem_map.mpr ⟨use, listed, rfl⟩)
      have deeper := (use_element g fuel use t resolved r).mpr element
      exact Or.inl ⟨t, List.mem_map.mpr ⟨use, listed, resolved⟩, (mem_js_type_refs t r).mpr (Or.inr deeper)⟩
    · obtain ⟨defined, resolved⟩ := tracks.found _ (List.mem_map.mpr ⟨name, listed, rfl⟩)
      obtain ⟨t, rfl, inside⟩ := (inherited_refs g fuel name defined resolved r).mp parent
      exact Or.inr ⟨t, List.mem_map.mpr ⟨name, listed, resolved⟩, inside⟩

theorem implicits_collected (out : Generated g.mark) (tracks : g.Tracks fuel g.declared g.inherited out.declarations)
    (written : g.implicitsFile out.declarations.reports = .ok out.implicitsFile) (r : String) :
    out.implicitsFile.written.Prints (sealedTrait r) ↔ g.Collected fuel r := by
  rw [implicits_file_prints g _ out.implicitsFile written r, tracks.reports]
  constructor
  · rintro ⟨t, member, named⟩
    obtain ⟨use, listed, resolved⟩ := List.mem_map.mp member
    exact ⟨use, listed, t, resolved, named⟩
  · rintro ⟨use, listed, t, resolved, named⟩
    exact ⟨t, List.mem_map.mpr ⟨use, listed, resolved⟩, named⟩

-- The unions that the parameters, the returns, the fields and the aliases refer to are those that they are of and those
-- that they lead to; the others that the declarations refer to are of the parents of the classes.
theorem unions_defined_iff (out : Generated g.mark) (done : g.generate fuel = .ok out) :
    ((∀ use ∈ g.declared, ∀ t, g.resolveUse fuel use = .ok t → ∀ r ∈ t.toJsType.refs,
        out.implicitsFile.written.Prints (sealedTrait r)) ↔
      ∀ use ∈ g.declared, ∀ r, g.Element fuel use.1.names r → g.Collected fuel r) ∧
    ((∀ r ∈ out.declarations.refs, out.implicitsFile.written.Prints (sealedTrait r)) ↔
      (∀ use ∈ g.declared, ∀ r, g.Element fuel use.1.names r → g.Collected fuel r) ∧
      ∀ name ∈ g.inherited, ∀ r, g.ParentUnion fuel name r → g.Collected fuel r) := by
  obtain ⟨tracks, written⟩ := generate_tracks g fuel out done
  simp only [implicits_collected g fuel out tracks written, declarations_refs g fuel out tracks]
  constructor
  · constructor
    · intro closed use listed r element
      obtain ⟨t, resolved⟩ := tracks.used _ (List.mem_map.mpr ⟨use, listed, rfl⟩)
      have deeper := (use_element g fuel use t resolved r).mpr element
      exact closed use listed t resolved r ((mem_js_type_refs t r).mpr (Or.inr deeper))
    · intro elements use listed t resolved r inside
      rcases (mem_js_type_refs t r).mp inside with named | deeper
      · exact ⟨use, listed, t, resolved, named⟩
      · exact elements use listed r ((use_element g fuel use t resolved r).mp deeper)
  · constructor
    · intro closed
      constructor
      · intro use listed r element
        exact closed r (Or.inr (Or.inl ⟨use, listed, element⟩))
      · intro name listed r parent
        exact closed r (Or.inr (Or.inr ⟨name, listed, parent⟩))
    · rintro ⟨elements, inherited⟩ r (collected | ⟨use, listed, element⟩ | ⟨name, listed, parent⟩)
      · exact collected
      · exact elements use listed r element
      · exact inherited name listed r parent

end Closure

-- The union U is declared in an interface, whose typedefs are not written, and f has a parameter that is an array of it.
def elementUnion : Generator :=
  ⟨[.interfaceDoclet ⟨"I", "I", none, some "public", ⟨"i.js", "/", 1, none⟩⟩,
    .typedefDoclet ⟨"U", "I.U", ⟨"i.js", "/", 2, none⟩, some "I", some ⟨["string", "number"]⟩, none, none⟩,
    .functionDoclet ⟨"f", none, some "global", ⟨"i.js", "/", 3, none⟩, false, false, false, none, none,
      some [⟨some ⟨["Array.<I.U>"]⟩, some "p"⟩], none, false⟩],
    ["jsfacade"], "pkg", ["implicits"], fun _ => ""⟩

theorem element_union_run : ∃ out, elementUnion.generate 5 = .ok out ∧
    out.declarations.refs = ["`java.lang.String|scala.Double`"] ∧
    out.implicitsFile.written.lines.map (fun line => line.text.string) =
      ["package jsfacade", "package object implicits \x7b", "\x7d", ""] := by
  have run : (elementUnion.generate 5).toOption.map (fun out =>
      (out.declarations.refs, out.implicitsFile.written.lines.map (fun line => line.text.string))) =
      some (["`java.lang.String|scala.Double`"], ["package jsfacade", "package object implicits \x7b", "\x7d", ""]) := by
    decide +kernel
  obtain ⟨out, done, same⟩ := ok_of_map _ _ _ run
  obtain ⟨refs, lines⟩ := Prod.mk.inj same
  exact ⟨out, done, refs, lines⟩

theorem element_union_undefined : ∃ out, elementUnion.generate 5 = .ok out ∧
    (∃ line ∈ out.declarations.lines,
      (elementUnion.unionClass ++ "." ++ "`java.lang.String|scala.Double`").toList <:+: line.text.string.toList) ∧
    ¬ out.implicitsFile.written.Prints (sealedTrait "`java.lang.String|scala.Double`") := by
  obtain ⟨out, done, refs, lines⟩ := element_union_run
  have referred : "`java.lang.String|scala.Double`" ∈ out.declarations.refs := by
    rw [refs]
    exact List.mem_singleton_self _
  refine ⟨out, done, refs_occur out.declarations _ referred, ?_⟩
  rintro ⟨line, listed, same⟩
  have text : line.text.string ∈ ["package jsfacade", "package object implicits \x7b", "\x7d", ""] := by
    rw [← lines]
    exact List.mem_map.mpr ⟨line, listed, rfl⟩
  rw [same] at text
  exact absurd text (by decide)

theorem element_union_defined_iff : ∃ out, elementUnion.generate 5 = .ok out ∧
    ((∀ use ∈ elementUnion.declared, ∀ t, elementUnion.resolveUse 5 use = .ok t → ∀ r ∈ t.toJsType.refs,
        out.implicitsFile.written.Prints (sealedTrait r)) ↔
      ∀ use ∈ elementUnion.declared, ∀ r, elementUnion.Element 5 use.1.names r → elementUnion.Collected 5 r) ∧
    ((∀ r ∈ out.declarations.refs, out.implicitsFile.written.Prints (sealedTrait r)) ↔
      (∀ use ∈ elementUnion.declared, ∀ r, elementUnion.Element 5 use.1.names r → elementUnion.Collected 5 r) ∧
      ∀ name ∈ elementUnion.inherited, ∀ r, elementUnion.ParentUnion 5 name r → elementUnion.Collected 5 r) := by
  obtain ⟨out, done, _, _⟩ := element_union_run
  exact ⟨out, done, unions_defined_iff elementUnion 5 out done⟩

end Toolbox8.Jsdoc
