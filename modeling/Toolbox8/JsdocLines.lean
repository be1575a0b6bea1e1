import Toolbox8.JsdocUnions

set_option autoImplicit false

namespace Toolbox8.Jsdoc

open Base

section Pieces

variable (g : Generator) (fuel : Nat)

-- The type of each of the uses is a part of a line.
def Generator.ShowsUses (uses : List Use) (w : Declarations g.mark) : Prop :=
  ∀ use ∈ uses, ∀ t, g.resolveUse fuel use = .ok t → w.Shows t.toJsType.string

theorem shows_unions {mark : String} (w : Declarations mark) (s : String) : (unions w).Shows s ↔ w.Shows s := Iff.rfl

theorem shows_more (uses : List Use) (v w : Declarations g.mark) (shown : g.ShowsUses fuel uses v)
    (more : ∀ s, v.Shows s → w.Shows s) : g.ShowsUses fuel uses w := by
  intro use listed t resolved
  exact more _ (shown use listed t resolved)

theorem shows_uses_append (uses moreUses : List Use) (w : Declarations g.mark) (first : g.ShowsUses fuel uses w)
    (second : g.ShowsUses fuel moreUses w) : g.ShowsUses fuel (uses ++ moreUses) w := by
  intro use listed
  rcases List.mem_append.mp listed with here | there
  · exact first use here
  · exact second use there

theorem shows_single (use : Use) (t : ResolvedType g.mark) (resolved : g.resolveUse fuel use = .ok t)
    (w : Declarations g.mark) (shown : w.Shows t.toJsType.string) : g.ShowsUses fuel [use] w := by
  intro other listed u again
  obtain rfl := List.mem_singleton.mp listed
  obtain rfl : t = u := Except.ok.inj (resolved.symm.trans again)
  exact shown

theorem shows_uses_each {β : Type} (body : β → Except Stop (Declarations g.mark)) (uses : β → List Use) (bs : List β)
    (w : Declarations g.mark) (done : writeEach body bs = .ok w)
    (each : ∀ b v, body b = .ok v → g.ShowsUses fuel (uses b) v) : g.ShowsUses fuel (bs.flatMap uses) w := by
  intro use listed t resolved
  obtain ⟨b, member, own⟩ := List.mem_flatMap.mp listed
  exact shows_each body bs w done _ b member (fun v here => each b v here use own t resolved)

theorem shows_each_single {β : Type} (use : β → Use) (type : β → g.Resolved)
    (resolves : ∀ b, type b = g.resolveUse fuel (use b)) (body : β → ResolvedType g.mark → Declarations g.mark)
    (shown : ∀ b t, (body b t).Shows t.toJsType.string) (bs : List β) (w : Declarations g.mark)
    (done : writeEach (fun b => type b >>= fun t => .ok (body b t)) bs = .ok w) : g.ShowsUses fuel (bs.map use) w := by
  rw [List.map_eq_flatMap]
  apply shows_uses_each g fuel _ _ bs w done
  intro b v here
  obtain ⟨t, resolved, same⟩ := (bind_ok _ _ _).mp here
  rw [resolves b] at resolved
  rw [← Except.ok.inj same]
  exact shows_single g fuel _ t resolved _ (shown b t)

theorem param_type_shows {mark : String} (t : ResolvedType mark) : t.toJsParamType.Shows t.toJsType.string := by
  rw [ResolvedType.toJsParamType]
  split
  · exact text_shows_append _ _ _ (Or.inl (text_shows_self _))
  · exact text_shows_self _

-- The texts of the parameters are written in one line.
theorem shows_params (before separator : String) (params : List Param) (pairs : List (ResolvedType g.mark × Text g.mark))
    (done : g.writtenParams fuel before params = .ok pairs) (w : Declarations g.mark)
    (shown : w.Shows (Text.mkString separator (pairs.map Prod.snd)).string) :
    g.ShowsUses fuel (params.map (fun p => (p.type, p.isOptional))) w := by
  intro use listed t resolved
  obtain ⟨p, member, rfl⟩ := List.mem_map.mp listed
  have pair : (t, (before ++ id p.name ++ " : " ++ t.toJsParamType : Text g.mark)) ∈ pairs :=
    (texts_mem g _ _ params pairs done _).mpr ⟨p, member, resolved, rfl⟩
  apply shows_trans w _ _ shown
  apply text_shows_trans _ _ _ (mk_string_shows separator _ _ (List.mem_map_of_mem (f := Prod.snd) pair))
  exact text_shows_append _ _ _ (Or.inr (param_type_shows t))

theorem shows_return (returns : Option Return) (t : ResolvedType g.mark) (returned : g.resolveReturn fuel returns = .ok t)
    (w : Declarations g.mark) (shown : w.Shows t.toJsType.string) :
    g.ShowsUses fuel (returns.toList.map (fun ret => (ret.type, false))) w := by
  cases returns with
  | some ret => exact shows_single g fuel (ret.type, false) t returned w shown
  | none =>
      intro use listed
      exact absurd listed List.not_mem_nil

theorem shows_signature (before separator : String) (params : List Param) (returns : Option Return)
    (pairs : List (ResolvedType g.mark × Text g.mark)) (t : ResolvedType g.mark)
    (parameters : g.writtenParams fuel before params = .ok pairs) (returned : g.resolveReturn fuel returns = .ok t)
    (w : Declarations g.mark) (listed : w.Shows (Text.mkString separator (pairs.map Prod.snd)).string)
    (shown : w.Shows t.toJsType.string) : g.ShowsUses fuel (signatureTypes params returns) w :=
  shows_uses_append g fuel _ _ w (shows_params g fuel before separator params pairs parameters w listed)
    (shows_return g fuel returns t returned w shown)

theorem write_static_shows (level : Nat) (fn : Function) (w : Declarations g.mark)
    (done : g.writeStatic fuel level fn = .ok w) : g.ShowsUses fuel (signatureTypes fn.params fn.returns) w := by
  obtain ⟨pairs, parameters, later⟩ := (bind_ok _ _ _).mp done
  obtain ⟨t, returned, same⟩ := (bind_ok _ _ _).mp later
  rw [← Except.ok.inj same]
  apply shows_signature g fuel _ ",\n" _ _ pairs t parameters returned
  · simp [shows_append, shows_write, text_shows_self]
  · simp [shows_append, shows_write, text_shows_middle]

theorem write_statics_shows (nsName : List String) (level : Nat) (w : Declarations g.mark)
    (done : g.writeStatics fuel nsName level = .ok w) :
    g.ShowsUses fuel (functionsTypes (g.functionByParent nsName) ++ fieldTypes (g.staticMembers nsName)) w := by
  obtain ⟨t1s, functions, afterFunctions⟩ := (bind_ok _ _ _).mp done
  obtain ⟨t2s, members, afterMembers⟩ := (bind_ok _ _ _).mp afterFunctions
  obtain ⟨subpackages, _, afterPackages⟩ := (bind_ok _ _ _).mp afterMembers
  obtain ⟨classes, _, same⟩ := (bind_ok _ _ _).mp afterPackages
  have first : g.ShowsUses fuel (functionsTypes (g.functionByParent nsName)) t1s :=
    shows_uses_each g fuel _ _ _ t1s functions (fun fn v here => write_static_shows g fuel level fn v here)
  have second : g.ShowsUses fuel (fieldTypes (g.staticMembers nsName)) t2s :=
    shows_each_single g fuel (fun m : Member => (m.type, false)) _ (fun _ => rfl) _
      (by simp [shows_append, shows_write, text_shows_middle]) _ t2s members
  rw [← Except.ok.inj same]
  apply shows_uses_append
  · apply shows_more g fuel _ _ _ first
    intro s shown
    simp [shows_unions, shows_append, shown]
  · apply shows_more g fuel _ _ _ second
    intro s shown
    simp [shows_unions, shows_append, shown]

theorem write_function_type_shows (level : Nat) (m : Typedef) (w : Declarations g.mark)
    (done : g.writeFunctionType fuel level m = .ok w) : g.ShowsUses fuel (signatureTypes m.params m.returns) w := by
  obtain ⟨t11, parameters, later⟩ := (bind_ok _ _ _).mp done
  obtain ⟨t12, returned, same⟩ := (bind_ok _ _ _).mp later
  have first := shows_each_single g fuel (fun p : Param => (p.type, p.isOptional)) _ (fun _ => rfl) _
    (by simp [shows_append, shows_write, text_shows_middle]) m.params t11 parameters
  rw [← Except.ok.inj same]
  apply shows_uses_append
  · apply shows_more g fuel _ _ _ first
    intro s shown
    simp [shows_append, shown]
  · apply shows_return g fuel m.returns t12 returned
    simp [shows_append, shows_write, text_shows_last]

theorem write_function_types_shows (nsName : List String) (level : Nat) (w : Declarations g.mark)
    (done : g.writeFunctionTypes fuel nsName level = .ok w) :
    g.ShowsUses fuel ((g.functionTypes nsName).flatMap (fun m => signatureTypes m.params m.returns)) w := by
  obtain ⟨t1, types, same⟩ := (bind_ok _ _ _).mp done
  rw [← Except.ok.inj same]
  exact shows_uses_each g fuel _ _ _ t1 types (fun m v here => write_function_type_shows g fuel level m v here)

-- Parameters without a text are written with no line of their own, and then show nothing.
theorem write_function_shows (level : Nat) (defStart : String) (fn : Function) (w : Declarations g.mark)
    (done : g.writeFunction fuel level defStart fn = .ok w) : g.ShowsUses fuel (signatureTypes fn.params fn.returns) w := by
  obtain ⟨pairs, parameters, later⟩ := (bind_ok _ _ _).mp done
  obtain ⟨t, returned, same⟩ := (bind_ok _ _ _).mp later
  rw [← Except.ok.inj same]
  apply shows_signature g fuel _ "," _ _ pairs t parameters returned
  · by_cases empty : (Text.mkString "," (pairs.map Prod.snd)).string.isEmpty
    · have blank : (Text.mkString "," (pairs.map Prod.snd)).string = "" := String.isEmpty_iff.mp empty
      rw [blank]
      simp [shows_append, shows_write, text_shows_blank]
    · rw [if_neg empty]
      simp [shows_append, shows_write, text_shows_last]
  · split
    · simp [shows_append, shows_write, text_shows_append _ _ _ (Or.inr (text_shows_middle _ _ _))]
    · simp [shows_append, shows_write, text_shows_middle]

theorem write_class_members_shows (cl : Class) (level : Nat) (w : Declarations g.mark)
    (done : g.writeClassMembers fuel cl level = .ok w) :
    g.ShowsUses fuel (if cl.params.isEmpty then [] else
      cl.params.map (fun p => (p.type, p.isOptional)) ++ functionsTypes (g.classFunctions cl)) w := by
  rw [Generator.writeClassMembers] at done
  by_cases empty : cl.params.isEmpty
  · rw [if_pos empty]
    intro use listed
    exact absurd listed List.not_mem_nil
  · rw [if_neg empty] at done ⊢
    obtain ⟨pairs, parameters, later⟩ := (bind_ok _ _ _).mp done
    obtain ⟨t2s, functions, same⟩ := (bind_ok _ _ _).mp later
    have second : g.ShowsUses fuel (functionsTypes (g.classFunctions cl)) t2s :=
      shows_uses_each g fuel _ _ _ t2s functions (fun fn v here => write_function_shows g fuel level _ fn v here)
    rw [← Except.ok.inj same]
    apply shows_uses_append
    · apply shows_params g fuel _ ",\n" _ pairs parameters
      simp [shows_unions, shows_append, shows_write, text_shows_self]
    · apply shows_more g fuel _ _ _ second
      intro s shown
      simp [shows_unions, shows_append, shown]

theorem write_interface_members_shows (cl : Interface) (level : Nat) (w : Declarations g.mark)
    (done : g.writeInterfaceMembers fuel cl level = .ok w) : g.ShowsUses fuel (g.interfaceTypes cl) w := by
  obtain ⟨t1, functions, same⟩ := (bind_ok _ _ _).mp done
  rw [← Except.ok.inj same]
  exact shows_uses_each g fuel _ _ _ t1 functions (fun fn v here => write_function_shows g fuel level _ fn v here)

theorem write_class_static_members_shows (cl : Class) (level : Nat) (w : Declarations g.mark)
    (done : g.writeClassStaticMembers fuel cl level = .ok w) :
    g.ShowsUses fuel (aliasTypes (g.typedefByParent (splitName cl.longname)) ++ fieldTypes (g.classStatics cl)) w := by
  obtain ⟨t1, aliases, afterAliases⟩ := (bind_ok _ _ _).mp done
  obtain ⟨inner, _, afterTypes⟩ := (bind_ok _ _ _).mp afterAliases
  obtain ⟨t2, members, same⟩ := (bind_ok _ _ _).mp afterTypes
  have first : g.ShowsUses fuel (aliasTypes (g.typedefByParent (splitName cl.longname))) t1 :=
    shows_each_single g fuel (fun m : TypedefLike => (m.type, false)) _ (fun m => resolve_union_use g fuel m.type) _
      (by simp [shows_append, shows_write, text_shows_last]) _ t1 aliases
  have second : g.ShowsUses fuel (fieldTypes (g.classStatics cl)) t2 :=
    shows_each_single g fuel (fun m : Member => (m.type, false)) _ (fun _ => rfl) _
      (by simp [shows_append, shows_write, text_shows_middle]) _ t2 members
  rw [← Except.ok.inj same]
  apply shows_uses_append
  · apply shows_more g fuel _ _ _ first
    intro s shown
    simp [shows_unions, shows_append, shown]
  · apply shows_more g fuel _ _ _ second
    intro s shown
    simp [shows_unions, shows_append, shown]

theorem parent_written (aus : List String) (found : List (Option (Text g.mark)))
    (done : aus.mapM (g.writtenParent fuel) = .ok found) (au : String) (listed : au ∈ aus) (t : ResolvedType g.mark)
    (resolved : g.resolveDefined fuel au = .ok (some t)) : t.toJsType ∈ found.reduceOption := by
  have made : g.writtenParent fuel au = .ok (some t.toJsType) := by
    rw [Generator.writtenParent, resolved]
    rfl
  exact List.reduceOption_mem_iff.mpr ((map_m_mem _ aus found done _).mpr (List.mem_map.mpr ⟨au, listed, made⟩))

theorem superclass_written (augments : Option String) (found : List (Option (Text g.mark))) (default : Text g.mark)
    (done : augments.toList.mapM (g.writtenParent fuel) = .ok found) (text : Text g.mark)
    (written : text ∈ found.reduceOption) : found.reduceOption.head?.getD default = text := by
  obtain ⟨parent, only⟩ := superclass_found g fuel augments found done
  rw [only] at written ⊢
  cases parent with
  | none => exact absurd written List.not_mem_nil
  | some s =>
      have same : text = s := by simpa using written
      rw [same]
      rfl

theorem write_class_shows (cl : Class) (level : Nat) (w : Declarations g.mark) (done : g.writeClass fuel cl level = .ok w) :
    g.ShowsUses fuel (g.classTypes cl) w ∧
      ∀ au ∈ parents cl, ∀ t, g.resolveDefined fuel au = .ok (some t) → w.Shows t.toJsType.string := by
  obtain ⟨superClass, extended, afterExtended⟩ := (bind_ok _ _ _).mp done
  obtain ⟨imps, implemented, afterImplemented⟩ := (bind_ok _ _ _).mp afterExtended
  obtain ⟨t1, members, afterMembers⟩ := (bind_ok _ _ _).mp afterImplemented
  obtain ⟨t2, statics, same⟩ := (bind_ok _ _ _).mp afterMembers
  rw [← Except.ok.inj same]
  constructor
  · apply shows_uses_append
    · apply shows_more g fuel _ _ _ (write_class_members_shows g fuel cl _ t1 members)
      intro s shown
      simp [shows_append, shown]
    · apply shows_more g fuel _ _ _ (write_class_static_members_shows g fuel cl _ t2 statics)
      intro s shown
      simp [shows_append, shown]
  · intro au listed t resolved
    let clause : List (Text g.mark) := (superClass.reduceOption.head?.getD "scala.scalajs.js.Object") :: imps.reduceOption
    have member : t.toJsType ∈ clause := by
      rcases List.mem_append.mp listed with first | second
      · have written := parent_written g fuel _ _ extended au first t resolved
        rw [← superclass_written g fuel cl.augments superClass "scala.scalajs.js.Object" extended _ written]
        exact List.mem_cons_self
      · exact List.mem_cons_of_mem _ (parent_written g fuel _ _ implemented au second t resolved)
    have shown := mk_string_shows " with " clause _ member
    have line : (write g.mark level ("class " ++ cl.name ++ " extends " ++ Text.mkString " with " clause ++ " \x7b") :
        Declarations g.mark).Shows t.toJsType.string :=
      (shows_write level _ _).mpr (text_shows_trans _ _ _ (text_shows_middle _ _ _) shown)
    simp only [shows_append]
    exact Or.inl (Or.inl (Or.inl (Or.inl (Or.inl (Or.inl (Or.inr line))))))

theorem write_interface_shows (cl : Interface) (level : Nat) (w : Declarations g.mark)
    (done : g.writeInterface fuel cl level = .ok w) : g.ShowsUses fuel (g.interfaceTypes cl) w := by
  obtain ⟨t1, members, same⟩ := (bind_ok _ _ _).mp done
  rw [← Except.ok.inj same]
  apply shows_more g fuel _ _ _ (write_interface_members_shows g fuel cl _ t1 members)
  intro s shown
  simp [shows_append, shown]

theorem write_typedef_shows (td : Typedef) (level : Nat) (w : Declarations g.mark)
    (done : g.writeTypedef fuel td level = .ok w) : g.ShowsUses fuel (g.traitTypes td) w := by
  obtain ⟨t1, fields, afterFields⟩ := (bind_ok _ _ _).mp done
  obtain ⟨t2str, _, same⟩ := (bind_ok _ _ _).mp afterFields
  have first : g.ShowsUses fuel (g.traitTypes td) t1 :=
    shows_each_single g fuel (fun m : Member => (m.type, false)) _ (fun _ => rfl) _
      (by simp [shows_append, shows_write, text_shows_middle]) _ t1 fields
  rw [← Except.ok.inj same]
  apply shows_more g fuel _ _ _ first
  intro s shown
  simp [shows_unions, shows_append, shown]

theorem write_package_shows (ns : List String) (w : Declarations g.mark) (done : g.writePackage fuel ns = .ok w) :
    g.ShowsUses fuel (g.packageTypes ns) w := by
  rw [Generator.writePackage] at done
  cases last : (g.rootPackage ++ ns).getLast? with
  | none => simp [last] at done
  | some name =>
      rw [last] at done
      obtain ⟨t11, aliases, afterAliases⟩ := (bind_ok _ _ _).mp done
      obtain ⟨t21, statics, afterStatics⟩ := (bind_ok _ _ _).mp afterAliases
      obtain ⟨t22, functions, same⟩ := (bind_ok _ _ _).mp afterStatics
      have first : g.ShowsUses fuel (aliasTypes (g.packageAliases ns)) t11 :=
        shows_each_single g fuel (fun m : TypedefLike => (m.type, false)) _ (fun m => resolve_union_use g fuel m.type) _
          (by simp [shows_append, shows_write, text_shows_last]) _ t11 aliases
      rw [← Except.ok.inj same]
      apply shows_uses_append
      · apply shows_more g fuel _ _ _ first
        intro s shown
        simp [shows_unions, shows_append, shown]
      · apply shows_uses_append
        · apply shows_more g fuel _ _ _ (write_statics_shows g fuel ns _ t21 statics)
          intro s shown
          simp [shows_append, shown]
        · apply shows_more g fuel _ _ _ (write_function_types_shows g fuel ns _ t22 functions)
          intro s shown
          simp [shows_append, shown]

end Pieces

section Files

variable (g : Generator) (fuel : Nat)

theorem file_shows (longname heading : String) (writer : Except Stop (Declarations g.mark)) (file : SourceFile g.mark)
    (done : g.writeFile longname (writer.map (fun w => write g.mark 0 heading ++ w)) = .ok file) :
    ∃ w, writer = .ok w ∧ ∀ s, w.Shows s → file.written.Shows s := by
  obtain ⟨w, finished, same⟩ := write_file_written g longname heading writer file done
  refine ⟨w, finished, ?_⟩
  intro s shown
  rw [same, shows_append]
  exact Or.inr shown

theorem out_shows (out : Generated g.mark) (file : SourceFile g.mark) (member : file ∈ out.files) (s : String)
    (shown : file.written.Shows s) : out.declarations.Shows s :=
  shows_concat _ s file.written (List.mem_map.mpr ⟨file, member, rfl⟩) shown

theorem shows_files {β : Type} (out : Generated g.mark) (body : β → Except Stop (SourceFile g.mark)) (uses : β → List Use)
    (bs : List β) (files : List (SourceFile g.mark)) (made : bs.mapM body = .ok files) (part : ∀ file ∈ files, file ∈ out.files)
    (each : ∀ b file, body b = .ok file → g.ShowsUses fuel (uses b) file.written) :
    g.ShowsUses fuel (bs.flatMap uses) out.declarations := by
  intro use listed t resolved
  obtain ⟨b, member, own⟩ := List.mem_flatMap.mp listed
  obtain ⟨file, here⟩ := map_m_all body bs files made b member
  have inside := part file ((map_m_mem body bs files made file).mpr (List.mem_map.mpr ⟨b, member, here⟩))
  exact out_shows g out file inside _ (each b file here use own t resolved)

-- The types of the declarations and the parents of the classes stand in the lines of the files.
theorem declared_shown (out : Generated g.mark) (done : g.generate fuel = .ok out) :
    g.ShowsUses fuel g.declared out.declarations ∧
      ∀ name ∈ g.inherited, ∀ t, g.resolveDefined fuel name = .ok (some t) → out.declarations.Shows t.toJsType.string := by
  obtain ⟨classFiles, interfaceFiles, traitFiles, packageFiles, classes, interfaces, traits, packages, files, _⟩ :=
    generate_files g fuel out done
  constructor
  · apply shows_uses_append
    · apply shows_uses_append
      · apply shows_uses_append
        · apply shows_files g fuel out _ _ _ classFiles classes (fun file member => by simp [files, member])
          intro cl file made
          obtain ⟨w, finished, more⟩ := file_shows g _ _ _ file made
          exact shows_more g fuel _ _ _ (write_class_shows g fuel cl.2 0 w finished).1 more
        · apply shows_files g fuel out _ _ _ interfaceFiles interfaces (fun file member => by simp [files, member])
          intro cl file made
          obtain ⟨w, finished, more⟩ := file_shows g _ _ _ file made
          exact shows_more g fuel _ _ _ (write_interface_shows g fuel cl.2 0 w finished) more
      · apply shows_files g fuel out _ _ _ traitFiles traits (fun file member => by simp [files, member])
        intro td file made
        obtain ⟨w, finished, more⟩ := file_shows g _ _ _ file made
        exact shows_more g fuel _ _ _ (write_typedef_shows g fuel td.2 0 w finished) more
    · apply shows_files g fuel out _ _ _ packageFiles packages (fun file member => by simp [files, member])
      intro ns file made
      obtain ⟨w, finished, rfl⟩ := (map_ok _ _ _).mp made
      exact write_package_shows g fuel ns w finished
  · intro name listed t resolved
    obtain ⟨cl, member, own⟩ := List.mem_flatMap.mp listed
    obtain ⟨file, made⟩ := map_m_all _ _ classFiles classes cl member
    have inside := (map_m_mem _ _ classFiles classes file).mpr (List.mem_map.mpr ⟨cl, member, made⟩)
    obtain ⟨w, finished, more⟩ := file_shows g _ _ _ file made
    have shown := (write_class_shows g fuel cl.2 0 w finished).2 name own t resolved
    exact out_shows g out file (by simp [files, inside]) _ (more _ shown)

end Files

end Toolbox8.Jsdoc
