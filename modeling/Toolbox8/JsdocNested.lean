import Toolbox8.JsdocTermination
import Toolbox8.JsdocWriters

set_option autoImplicit false

namespace Toolbox8.Jsdoc

open Base

section Types

variable {mark : String}

-- The name of the trait of a union type, and the unions that a type refers to in the names of its set.
def ResolvedType.generated (t : ResolvedType mark) : Option String :=
  t.unionNames.map (fun names => (generatedName names).string)

def ResolvedType.nested (t : ResolvedType mark) : List String := t.toSet.flatMap Text.refs

@[simp] theorem generated_name_refs (names : List (Text mark)) : (generatedName names).refs = names.flatMap Text.refs := by
  simp [generatedName, generatedNameNoQuotes]

theorem generated_name_congr (names others : List (Text mark)) (same : names.map Text.string = others.map Text.string) :
    (generatedName names).string = (generatedName others).string := by
  simp [generatedName, generatedNameNoQuotes, mk_string_congr "|" names others same]

theorem to_single_refs (t : ResolvedType mark) : t.toSingle.refs = t.generated.toList ++ t.nested := by
  cases t with
  | singleType name optional =>
      simp [ResolvedType.toSingle, ResolvedType.generated, ResolvedType.unionNames, ResolvedType.nested, ResolvedType.toSet]
  | unionType first second others optional =>
      show (generatedName (first :: second :: others)).string :: (generatedName (first :: second :: others)).refs = _
      rw [generated_name_refs]
      rfl
  | optionalType => rfl
  | unkownType optional => rfl

theorem to_js_type_refs (t : ResolvedType mark) : t.toJsType.refs = t.generated.toList ++ t.nested := by
  have inside : t.toJsType.refs = t.toSingle.refs := by
    rw [ResolvedType.toJsType.eq_def]
    split
    · rfl
    · split
      · simp
      · rfl
  rw [inside, to_single_refs]

theorem to_js_param_type_refs (t : ResolvedType mark) : t.toJsParamType.refs = t.toJsType.refs := by
  rw [ResolvedType.toJsParamType]
  split
  · simp
  · rfl

theorem mem_js_type_refs (t : ResolvedType mark) (r : String) :
    r ∈ t.toJsType.refs ↔ t.generated = some r ∨ r ∈ t.nested := by
  rw [to_js_type_refs, List.mem_append, Option.mem_toList]

theorem join_sets_nested (t other joined : ResolvedType mark) (joins : joinSets t other = .ok joined) (r : String) :
    r ∈ joined.nested ↔ r ∈ t.nested ∨ r ∈ other.nested := by
  have sorted : ∀ texts : List (Text mark),
      r ∈ (sortBy Text.string texts).flatMap Text.refs ↔ r ∈ texts.flatMap Text.refs := by
    intro texts
    simp only [List.mem_flatMap, mem_sort_by]
  rw [ResolvedType.nested, (of_names_set _ _ joined joins).1, sorted, distinct_texts_refs, List.flatMap_append,
    List.mem_append]
  exact Iff.rfl

theorem join_nested (t other joined : ResolvedType mark) (joins : t.join other = .ok joined) (r : String) :
    r ∈ joined.nested ↔ r ∈ t.nested ∨ r ∈ other.nested := by
  rw [ResolvedType.join.eq_def] at joins
  split at joins
  · rw [← Except.ok.inj joins]
    simp [ResolvedType.nested, ResolvedType.toSet]
  · rw [← Except.ok.inj joins]
    simp [ResolvedType.nested, ResolvedType.toSet]
  · rw [← Except.ok.inj joins]
    simp [ResolvedType.nested, ResolvedType.toSet]
  · rw [← Except.ok.inj joins]
    simp [ResolvedType.nested, ResolvedType.toSet]
  · exact join_sets_nested t other joined joins r

theorem join_all_nested (t joined : ResolvedType mark) (rest : List (ResolvedType mark)) (joins : joinAll t rest = .ok joined)
    (r : String) : r ∈ joined.nested ↔ ∃ s ∈ t :: rest, r ∈ s.nested := by
  induction rest generalizing t with
  | nil =>
      rw [← Except.ok.inj joins]
      simp
  | cons other rest ih =>
      obtain ⟨next, first, later⟩ := (bind_ok _ _ _).mp joins
      rw [ih next later]
      simp [join_nested t other next first, or_assoc]

theorem reduce_join_nested (ts : List (ResolvedType mark)) (joined : ResolvedType mark) (joins : reduceJoin ts = .ok joined)
    (r : String) : r ∈ joined.nested ↔ ∃ s ∈ ts, r ∈ s.nested := by
  cases ts with
  | nil => simp [reduceJoin] at joins
  | cons t rest => exact join_all_nested t joined rest joins r

theorem builtin_name (name : String) (t : ResolvedType mark) (builtin : builtins name = some t) :
    name ∈ ["string", "number", "Element", "HTMLCanvas", "boolean", "undefined"] := by
  by_contra missing
  simp only [List.mem_cons, List.not_mem_nil, or_false, not_or] at missing
  simp [builtins, missing] at builtin

theorem builtin_not_array (name : String) (t : ResolvedType mark) (builtin : builtins name = some t) :
    arrayElement name = none := by
  have none_array : ∀ known ∈ ["string", "number", "Element", "HTMLCanvas", "boolean", "undefined"],
      arrayElement known = none := by decide
  exact none_array name (builtin_name name t builtin)

theorem builtin_nested (name : String) (t : ResolvedType mark) (builtin : builtins name = some t) : t.nested = [] := by
  have known := builtin_name name t builtin
  simp only [List.mem_cons, List.not_mem_nil, or_false] at known
  rcases known with rfl | rfl | rfl | rfl | rfl | rfl
  all_goals
    rw [← Option.some.inj builtin]
    rfl

end Types

def arrayOf {mark : String} (inner : ResolvedType mark) : ResolvedType mark :=
  .singleType ("scala.scalajs.js.Array[" ++ inner.toJsType ++ "]") false

section Resolution

variable (g : Generator)

-- The maps give the classes, the interfaces and the typedefs their own names.
theorem defined_nested (name : String) (t : ResolvedType g.mark) (found : g.definedTypesByNameMap name = some t) :
    t.nested = [] := by
  have entry := lookup_mem _ name t found
  rcases List.mem_append.mp entry with first | second
  · obtain ⟨longname, _, same⟩ := List.mem_map.mp first
    obtain ⟨rfl, rfl⟩ := Prod.mk.inj same
    rfl
  · obtain ⟨dt, _, same⟩ := List.mem_map.mp second
    obtain ⟨rfl, rfl⟩ := Prod.mk.inj same
    rfl

theorem resolve_defined_cases (resolve : String → g.Resolved) (name : String) (defined : Option (ResolvedType g.mark))
    (done : g.resolveDefinedBy resolve name = .ok defined) :
    (∃ type t, g.typeOf name = some type ∧ g.resolveUnionBy resolve type = .ok t ∧ defined = some t) ∨
      (g.typeOf name = none ∧ defined = g.definedTypesByNameMap name) := by
  rw [Generator.resolveDefinedBy] at done
  rw [Generator.typeOf]
  cases union : g.unionTypedefs name with
  | some type =>
      rw [union] at done
      obtain ⟨t, resolved, rfl⟩ := (map_ok _ _ _).mp done
      exact Or.inl ⟨type, t, rfl, resolved, rfl⟩
  | none =>
      rw [union] at done
      rw [Generator.definedTypesByNameBy] at done
      cases aliased : g.typeAliasByName name with
      | some ta =>
          rw [aliased] at done
          obtain ⟨t, resolved, rfl⟩ := (map_ok _ _ _).mp done
          exact Or.inl ⟨ta.type, t, rfl, resolved, rfl⟩
      | none =>
          rw [aliased] at done
          exact Or.inr ⟨rfl, (Except.ok.inj done).symm⟩

theorem resolve_by_cases (resolve : String → g.Resolved) (name : String) (t : ResolvedType g.mark)
    (done : g.resolveBy resolve name = .ok t) :
    (arrayElement name = none ∧ g.onward name = [] ∧ t.nested = []) ∨
    (∃ element inner, arrayElement name = some element ∧ g.onward name = [element] ∧ resolve element = .ok inner ∧
      t = arrayOf inner) ∨
    (∃ type, arrayElement name = none ∧ g.onward name = type.names.map typeName ∧
      g.resolveUnionBy resolve type = .ok t) := by
  rw [Generator.resolveBy] at done
  rw [Generator.onward]
  cases builtin : (builtins name : Option (ResolvedType g.mark)) with
  | some known =>
      rw [builtin] at done
      rw [← Except.ok.inj done]
      exact Or.inl ⟨builtin_not_array name known builtin, rfl, builtin_nested name known builtin⟩
  | none =>
      rw [builtin] at done
      obtain ⟨array, first, later⟩ := (bind_ok _ _ _).mp done
      rw [Generator.resolveArrayBy] at first
      cases element : arrayElement name with
      | some part =>
          rw [element] at first
          obtain ⟨text, rendered, same⟩ := (bind_ok _ _ _).mp first
          obtain ⟨inner, resolved, rfl⟩ := (map_ok _ _ _).mp rendered
          rw [← Except.ok.inj same] at later
          exact Or.inr (Or.inl ⟨part, inner, rfl, rfl, resolved, (Except.ok.inj later).symm⟩)
      | none =>
          rw [element] at first
          rw [← Except.ok.inj first] at later
          obtain ⟨defined, found, same⟩ := (bind_ok _ _ _).mp later
          rw [← Except.ok.inj same]
          rcases resolve_defined_cases g resolve name defined found with ⟨type, joined, known, resolved, rfl⟩ | ⟨unknown, rfl⟩
          · rw [known]
            exact Or.inr (Or.inr ⟨type, rfl, rfl, resolved⟩)
          · rw [unknown]
            refine Or.inl ⟨rfl, rfl, ?_⟩
            cases named : g.definedTypesByNameMap name with
            | none => rfl
            | some t => exact defined_nested g name t named

theorem map_m_agree {β : Type} (f h : β → g.Resolved) (agree : ∀ b t, f b = .ok t → h b = .ok t) (bs : List β)
    (ts : List (ResolvedType g.mark)) (done : bs.mapM f = .ok ts) : bs.mapM h = .ok ts := by
  induction bs generalizing ts with
  | nil => exact done
  | cons b rest ih =>
      obtain ⟨t, others, here, there, rfl⟩ := (map_m_cons_ok f b rest ts).mp done
      exact (map_m_cons_ok h b rest _).mpr ⟨t, others, agree b t here, ih others there, rfl⟩

theorem resolve_union_agree (f h : String → g.Resolved) (agree : ∀ n t, f n = .ok t → h n = .ok t) (type : DocletType)
    (t : ResolvedType g.mark) (done : g.resolveUnionBy f type = .ok t) : g.resolveUnionBy h type = .ok t := by
  obtain ⟨ts, resolved, joins⟩ := (bind_ok _ _ _).mp done
  exact (bind_ok _ _ _).mpr ⟨ts, map_m_agree g f h agree _ ts resolved, joins⟩

theorem resolve_array_agree (f h : String → g.Resolved) (agree : ∀ n t, f n = .ok t → h n = .ok t) (name : String)
    (array : Option (ResolvedType g.mark)) (done : g.resolveArrayBy f name = .ok array) :
    g.resolveArrayBy h name = .ok array := by
  rw [Generator.resolveArrayBy] at done ⊢
  cases element : arrayElement name with
  | none =>
      rw [element] at done
      exact done
  | some part =>
      rw [element] at done
      obtain ⟨text, rendered, same⟩ := (bind_ok _ _ _).mp done
      obtain ⟨inner, resolved, shown⟩ := (map_ok _ _ _).mp rendered
      exact (bind_ok _ _ _).mpr ⟨text, (map_ok _ _ _).mpr ⟨inner, agree part inner resolved, shown⟩, same⟩

theorem resolve_defined_agree (f h : String → g.Resolved) (agree : ∀ n t, f n = .ok t → h n = .ok t) (name : String)
    (defined : Option (ResolvedType g.mark)) (done : g.resolveDefinedBy f name = .ok defined) :
    g.resolveDefinedBy h name = .ok defined := by
  rw [Generator.resolveDefinedBy] at done ⊢
  cases union : g.unionTypedefs name with
  | some type =>
      rw [union] at done
      obtain ⟨t, resolved, same⟩ := (map_ok _ _ _).mp done
      exact (map_ok _ _ _).mpr ⟨t, resolve_union_agree g f h agree type t resolved, same⟩
  | none =>
      rw [union] at done
      rw [Generator.definedTypesByNameBy] at done
      simp only [Generator.definedTypesByNameBy]
      cases aliased : g.typeAliasByName name with
      | some ta =>
          rw [aliased] at done
          obtain ⟨t, resolved, same⟩ := (map_ok _ _ _).mp done
          exact (map_ok _ _ _).mpr ⟨t, resolve_union_agree g f h agree ta.type t resolved, same⟩
      | none =>
          rw [aliased] at done
          exact done

theorem resolve_by_agree (f h : String → g.Resolved) (agree : ∀ n t, f n = .ok t → h n = .ok t) (name : String)
    (t : ResolvedType g.mark) (done : g.resolveBy f name = .ok t) : g.resolveBy h name = .ok t := by
  rw [Generator.resolveBy] at done ⊢
  cases builtin : (builtins name : Option (ResolvedType g.mark)) with
  | some known =>
      rw [builtin] at done
      exact done
  | none =>
      rw [builtin] at done
      obtain ⟨array, first, later⟩ := (bind_ok _ _ _).mp done
      apply (bind_ok _ _ _).mpr
      refine ⟨array, resolve_array_agree g f h agree name array first, ?_⟩
      cases array with
      | some known => exact later
      | none =>
          obtain ⟨defined, found, same⟩ := (bind_ok _ _ _).mp later
          exact (bind_ok _ _ _).mpr ⟨defined, resolve_defined_agree g f h agree name defined found, same⟩

theorem resolve_succ (fuel : Nat) (name : String) (t : ResolvedType g.mark) (done : g.resolve fuel name = .ok t) :
    g.resolve (fuel + 1) name = .ok t := by
  induction fuel generalizing name t with
  | zero => simp [Generator.resolve] at done
  | succ fuel ih => exact resolve_by_agree g (g.resolve fuel) (g.resolve (fuel + 1)) ih name t done

-- The unions that a name refers to are those which its array types are of.
def Generator.ElementOf (fuel : Nat) (name r : String) : Prop :=
  ∃ array element u, Relation.ReflTransGen (Refers g.onward) name array ∧ arrayElement array = some element ∧
    g.resolve fuel element = .ok u ∧ u.generated = some r

theorem element_of_succ (fuel : Nat) (name r : String) (inside : g.ElementOf fuel name r) :
    g.ElementOf (fuel + 1) name r := by
  obtain ⟨array, element, u, reaches, part, resolved, named⟩ := inside
  exact ⟨array, element, u, reaches, part, resolve_succ g fuel element u resolved, named⟩

theorem element_of_onward (fuel : Nat) (name next r : String) (refers : next ∈ g.onward name)
    (inside : g.ElementOf fuel next r) : g.ElementOf fuel name r := by
  obtain ⟨array, element, u, reaches, part, resolved, named⟩ := inside
  exact ⟨array, element, u, Relation.ReflTransGen.head refers reaches, part, resolved, named⟩

theorem array_onward (array element : String) (part : arrayElement array = some element) : g.onward array = [element] := by
  rw [Generator.onward]
  cases builtin : (builtins array : Option (ResolvedType g.mark)) with
  | some known =>
      rw [builtin_not_array array known builtin] at part
      exact absurd part (by simp)
  | none => rw [part]

theorem reached_resolves (fuel : Nat) (name next : String) (t : ResolvedType g.mark) (done : g.resolve fuel name = .ok t)
    (onward : Relation.TransGen (Refers g.onward) name next) : ∃ s, g.resolve fuel next = .ok s := by
  have visited := (resolve_returns g fuel name).mp ⟨t, done⟩
  obtain ⟨less, below, reached⟩ := onward_ok g.onward g.nameless fuel name next visited onward
  apply (resolve_returns g fuel next).mpr
  rw [visit_mono g.onward g.nameless less fuel next (Nat.le_of_lt below) (by rw [reached]; simp)]
  exact reached

theorem element_of_pred (fuel : Nat) (name r : String) (t : ResolvedType g.mark) (done : g.resolve fuel name = .ok t)
    (inside : g.ElementOf (fuel + 1) name r) : g.ElementOf fuel name r := by
  obtain ⟨array, element, u, reaches, part, resolved, named⟩ := inside
  have refers : Refers g.onward array element := by
    rw [Refers, array_onward g array element part]
    exact List.mem_singleton_self element
  obtain ⟨s, earlier⟩ := reached_resolves g fuel name element t done (Relation.TransGen.tail' reaches refers)
  have same : s = u := Except.ok.inj ((resolve_succ g fuel element s earlier).symm.trans resolved)
  rw [same] at earlier
  exact ⟨array, element, u, reaches, part, earlier, named⟩

theorem element_of_stable (fuel : Nat) (name r : String) (t : ResolvedType g.mark) (done : g.resolve fuel name = .ok t) :
    g.ElementOf (fuel + 1) name r ↔ g.ElementOf fuel name r :=
  ⟨element_of_pred g fuel name r t done, element_of_succ g fuel name r⟩

theorem element_of_cases (fuel : Nat) (name r : String) :
    g.ElementOf fuel name r ↔
      (∃ element u, arrayElement name = some element ∧ g.resolve fuel element = .ok u ∧ u.generated = some r) ∨
        ∃ next ∈ g.onward name, g.ElementOf fuel next r := by
  constructor
  · intro inside
    obtain ⟨array, element, u, reaches, part, resolved, named⟩ := inside
    rcases Relation.ReflTransGen.cases_head reaches with rfl | ⟨next, refers, later⟩
    · exact Or.inl ⟨element, u, part, resolved, named⟩
    · exact Or.inr ⟨next, refers, array, element, u, later, part, resolved, named⟩
  · rintro (⟨element, u, part, resolved, named⟩ | ⟨next, refers, inside⟩)
    · exact ⟨name, element, u, Relation.ReflTransGen.refl, part, resolved, named⟩
    · exact element_of_onward g fuel name next r refers inside

theorem element_of_single (fuel : Nat) (name r : String) (single : arrayElement name = none) :
    g.ElementOf fuel name r ↔ ∃ next ∈ g.onward name, g.ElementOf fuel next r := by
  rw [element_of_cases, single]
  simp

theorem element_of_array (fuel : Nat) (name element r : String) (u : ResolvedType g.mark)
    (array : arrayElement name = some element) (resolved : g.resolve fuel element = .ok u) :
    g.ElementOf fuel name r ↔ u.generated = some r ∨ g.ElementOf fuel element r := by
  rw [element_of_cases, array, array_onward g name element array]
  simp [resolved]

theorem resolve_union_nested (resolve : String → g.Resolved) (type : DocletType) (t : ResolvedType g.mark)
    (done : g.resolveUnionBy resolve type = .ok t) (r : String) :
    r ∈ t.nested ↔ ∃ n ∈ type.names.map typeName, ∃ s, resolve n = .ok s ∧ r ∈ s.nested := by
  obtain ⟨ts, resolved, joins⟩ := (bind_ok _ _ _).mp done
  rw [reduce_join_nested ts t joins]
  constructor
  · rintro ⟨s, member, inside⟩
    obtain ⟨n, listed, here⟩ := List.mem_map.mp ((map_m_mem _ _ ts resolved s).mp member)
    exact ⟨n, listed, s, here, inside⟩
  · rintro ⟨n, listed, s, here, inside⟩
    exact ⟨s, (map_m_mem _ _ ts resolved s).mpr (List.mem_map.mpr ⟨n, listed, here⟩), inside⟩

theorem resolve_nested (fuel : Nat) (name : String) (t : ResolvedType g.mark) (done : g.resolve fuel name = .ok t)
    (r : String) : r ∈ t.nested ↔ g.ElementOf fuel name r := by
  induction fuel generalizing name t with
  | zero => simp [Generator.resolve] at done
  | succ fuel ih =>
      rcases resolve_by_cases g (g.resolve fuel) name t done with
        ⟨single, last, plain⟩ | ⟨element, inner, array, _, resolved, rfl⟩ | ⟨type, single, several, resolved⟩
      · rw [plain, element_of_single g _ name r single, last]
        simp
      · have refs : r ∈ (arrayOf inner).nested ↔ inner.generated = some r ∨ r ∈ inner.nested := by
          rw [← mem_js_type_refs]
          simp [arrayOf, ResolvedType.nested, ResolvedType.toSet]
        have here := resolve_succ g fuel element inner resolved
        rw [refs, ih element inner resolved, element_of_array g _ name element r inner array here,
          element_of_stable g fuel element r inner resolved]
      · rw [resolve_union_nested g _ type t resolved, element_of_single g _ name r single, several]
        obtain ⟨ts, mapped, _⟩ := (bind_ok _ _ _).mp resolved
        apply exists_congr
        intro next
        apply and_congr_right
        intro listed
        obtain ⟨s, found⟩ := map_m_all _ _ ts mapped next listed
        rw [element_of_stable g fuel next r s found, ← ih next s found, found]
        simp

end Resolution

end Toolbox8.Jsdoc
