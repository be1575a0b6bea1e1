import Mathlib.Data.List.Sublists
import Toolbox8.JsdocResolution

set_option autoImplicit false

namespace Toolbox8.Jsdoc

open Base

section Names

variable (g : Generator)

-- The type that a typedef or an alias gives a name.
def Generator.typeOf (name : String) : Option DocletType :=
  (g.unionTypedefs name).or ((g.typeAliasByName name).map Member.type)

def Generator.onward (name : String) : List String :=
  match (builtins name : Option (ResolvedType g.mark)) with
  | some _ => []
  | none =>
      match arrayElement name with
      | some element => [element]
      | none =>
          match g.typeOf name with
          | some t => t.names.map typeName
          | none => []

-- An alias whose type has no names: reduce throws.
def Generator.nameless (name : String) : Bool :=
  match (builtins name : Option (ResolvedType g.mark)) with
  | some _ => false
  | none =>
      match arrayElement name with
      | some _ => false
      | none =>
          match g.typeOf name with
          | some t => t.names.isEmpty
          | none => false

end Names

section Joins

variable {mark : String}

theorem of_names_ok (names : List (Text mark)) (optional : Bool) (some_name : names ≠ []) :
    ∃ t, ofNames names optional = .ok t := by
  match names with
  | [] => exact absurd rfl some_name
  | [_] => exact ⟨_, rfl⟩
  | _ :: _ :: _ => exact ⟨_, rfl⟩

theorem of_names_set (names : List (Text mark)) (optional : Bool) (t : ResolvedType mark)
    (made : ofNames names optional = .ok t) : t.toSet = names ∧ t.optional = optional := by
  match names with
  | [] => simp [ofNames] at made
  | [_] =>
      rw [← Except.ok.inj made]
      exact ⟨rfl, rfl⟩
  | _ :: _ :: _ =>
      rw [← Except.ok.inj made]
      exact ⟨rfl, rfl⟩

theorem join_sets_ok (t other : ResolvedType mark) (name : Text mark) (member : name ∈ t.toSet ++ other.toSet) :
    ∃ joined, joinSets t other = .ok joined := by
  apply of_names_ok
  obtain ⟨kept, listed⟩ := List.exists_mem_of_ne_nil _ (distinct_texts_ne_nil _ (List.ne_nil_of_mem member))
  exact List.ne_nil_of_mem ((mem_sort_by Text.string _ kept).mpr listed)

theorem join_ok (t other : ResolvedType mark) : ∃ joined, t.join other = .ok joined := by
  cases t with
  | singleType name optional => exact join_sets_ok _ other name (by simp [ResolvedType.toSet])
  | unionType first second others optional => exact join_sets_ok _ other first (by simp [ResolvedType.toSet])
  | optionalType =>
      cases other with
      | singleType name optional => exact join_sets_ok _ _ name (by simp [ResolvedType.toSet])
      | unionType first second others optional => exact join_sets_ok _ _ first (by simp [ResolvedType.toSet])
      | optionalType => exact ⟨_, rfl⟩
      | unkownType _ => exact ⟨_, rfl⟩
  | unkownType optional =>
      cases other with
      | singleType name _ => exact join_sets_ok _ _ name (by simp [ResolvedType.toSet])
      | unionType first second others _ => exact join_sets_ok _ _ first (by simp [ResolvedType.toSet])
      | optionalType => exact ⟨_, rfl⟩
      | unkownType _ => exact ⟨_, rfl⟩

theorem join_all_ok (t : ResolvedType mark) (rest : List (ResolvedType mark)) : ∃ joined, joinAll t rest = .ok joined := by
  induction rest generalizing t with
  | nil => exact ⟨t, rfl⟩
  | cons other rest ih =>
      obtain ⟨next, joins⟩ := join_ok t other
      obtain ⟨joined, all⟩ := ih next
      refine ⟨joined, ?_⟩
      rw [joinAll, joins]
      exact all

theorem reduce_join_end (ts : List (ResolvedType mark)) :
    (reduceJoin ts).map (fun _ => ()) = if ts.isEmpty then .error .thrown else .ok () := by
  cases ts with
  | nil => rfl
  | cons t rest =>
      obtain ⟨joined, all⟩ := join_all_ok t rest
      rw [reduceJoin, all]
      rfl

end Joins

theorem lookup_mem {α : Type} (entries : List (String × α)) (name : String) (a : α) (found : lookup entries name = some a) :
    (name, a) ∈ entries := by
  obtain ⟨entry, here, rfl⟩ := Option.map_eq_some_iff.mp found
  have named : entry.1 = name := by simpa using List.find?_some here
  have member := List.mem_reverse.mp (List.mem_of_find?_eq_some here)
  rw [← named]
  exact member

theorem strip_mark_part (cs : List Char) : (stripMark cs).Sublist cs := by
  rw [stripMark.eq_def]
  split
  · exact List.sublist_cons_self _ _
  · exact List.Sublist.refl _

theorem array_element_part (name element : String) (array : arrayElement name = some element) :
    element.toList.Sublist name.toList := by
  rw [arrayElement, Option.or_eq_some_iff] at array
  rcases array with first | ⟨_, second⟩
  · simp only [arrayPattern1] at first
    split at first
    · split at first
      · split at first
        · rw [← Option.some.inj first, String.toList_ofList]
          exact (strip_mark_part _).trans ((List.dropLast_sublist _).trans (List.drop_sublist 7 _))
        · exact absurd first (by simp)
      · exact absurd first (by simp)
    · exact absurd first (by simp)
  · simp only [arrayPattern2] at second
    split at second
    · split at second
      · rw [← Option.some.inj second, String.toList_ofList]
        exact List.take_sublist _ _
      · exact absurd second (by simp)
    · exact absurd second (by simp)

section Recursion

variable (g : Generator) (resolve : String → g.Resolved)

theorem resolve_union_end (t : DocletType) :
    (g.resolveUnionBy resolve t).map (fun _ => ()) =
      each (fun n => (resolve n).map (fun _ => ())) (t.names.map typeName) >>= fun _ =>
        if t.names.isEmpty then .error .thrown else .ok () := by
  rw [← map_m_each, Generator.resolveUnionBy]
  cases resolved : (t.names.map typeName).mapM resolve with
  | error stop => rfl
  | ok ts =>
      have same : ts.isEmpty = t.names.isEmpty := by
        cases names : t.names with
        | nil =>
            rw [names] at resolved
            rw [← Except.ok.inj resolved]
            rfl
        | cons n rest =>
            rw [names, List.map_cons, map_m_cons_ok] at resolved
            obtain ⟨_, _, _, _, rfl⟩ := resolved
            rfl
      rw [← same]
      exact reduce_join_end ts

theorem found_end (x : g.Resolved) :
    (x.map some >>= fun defined => Except.ok (defined.getD (.unkownType false))).map (fun _ => ()) = x.map (fun _ => ()) := by
  cases x with
  | error stop => rfl
  | ok t => rfl

theorem resolve_by_end (name : String) :
    (g.resolveBy resolve name).map (fun _ => ()) =
      each (fun n => (resolve n).map (fun _ => ())) (g.onward name) >>= fun _ =>
        if g.nameless name then .error .thrown else .ok () := by
  rw [Generator.resolveBy, Generator.onward, Generator.nameless]
  cases (builtins name : Option (ResolvedType g.mark)) with
  | some builtin => rfl
  | none =>
      rw [Generator.resolveArrayBy]
      cases arrayElement name with
      | some element =>
          simp only [Generator.resolveSingleBy, each]
          cases resolve element with
          | error stop => rfl
          | ok t => rfl
      | none =>
          rw [Generator.resolveDefinedBy, Generator.typeOf]
          cases g.unionTypedefs name with
          | some t => exact (found_end g (g.resolveUnionBy resolve t)).trans (resolve_union_end g resolve t)
          | none =>
              simp only [Generator.definedTypesByNameBy]
              cases g.typeAliasByName name with
              | some ta => exact (found_end g (g.resolveUnionBy resolve ta.type)).trans (resolve_union_end g resolve ta.type)
              | none => rfl

end Recursion

section Resolution

variable (g : Generator)

-- The mutual recursion ends as the visits of the names do that a name goes on to.
theorem resolve_visit (fuel : Nat) (name : String) :
    (g.resolve fuel name).map (fun _ => ()) = visit g.onward g.nameless fuel name := by
  induction fuel generalizing name with
  | zero => rfl
  | succ fuel ih =>
      have same : (fun n => (g.resolve fuel n).map (fun _ => ())) = visit g.onward g.nameless fuel := funext ih
      rw [Generator.resolve, resolve_by_end, same]
      rfl

theorem resolve_out_of_fuel (fuel : Nat) (name : String) :
    g.resolve fuel name = .error .outOfFuel ↔ visit g.onward g.nameless fuel name = .error .outOfFuel := by
  rw [← resolve_visit]
  cases g.resolve fuel name with
  | error stop => simp [Except.map]
  | ok t => simp [Except.map]

theorem resolve_returns (fuel : Nat) (name : String) :
    (∃ t, g.resolve fuel name = .ok t) ↔ visit g.onward g.nameless fuel name = .ok () := by
  rw [← resolve_visit]
  cases g.resolve fuel name with
  | error stop => simp [Except.map]
  | ok t => simp [Except.map]

def Generator.mentioned : List String :=
  (g.unionTypedefEntries.map Prod.snd ++ g.typeAliases.map Member.type).flatMap (fun t => t.names.map typeName)

theorem type_of_mentioned (name : String) (t : DocletType) (found : g.typeOf name = some t) (n : String)
    (member : n ∈ t.names.map typeName) : n ∈ g.mentioned := by
  apply List.mem_flatMap.mpr
  rw [Generator.typeOf, Option.or_eq_some_iff] at found
  rcases found with typedef | ⟨_, aliased⟩
  · have entry := lookup_mem _ name t typedef
    exact ⟨t, List.mem_append_left _ (List.mem_map.mpr ⟨(name, t), entry, rfl⟩), member⟩
  · obtain ⟨ta, here, rfl⟩ := Option.map_eq_some_iff.mp aliased
    obtain ⟨d, listed, same⟩ := List.mem_map.mp (lookup_mem _ name ta here)
    have same_alias : d = ta := congrArg Prod.snd same
    rw [same_alias] at listed
    exact ⟨ta.type, List.mem_append_right _ (List.mem_map.mpr ⟨ta, listed, rfl⟩), member⟩

theorem reached_part (name n : String) (reaches : Relation.ReflTransGen (Refers g.onward) name n) :
    ∃ m ∈ name :: g.mentioned, n.toList.Sublist m.toList := by
  induction reaches with
  | refl => exact ⟨name, List.mem_cons_self, List.Sublist.refl _⟩
  | @tail b c _ refers ih =>
      rw [Refers, Generator.onward] at refers
      cases builtin : (builtins b : Option (ResolvedType g.mark)) with
      | some t => simp [builtin] at refers
      | none =>
          cases array : arrayElement b with
          | some element =>
              have here : c = element := by simpa [builtin, array] using refers
              obtain ⟨m, listed, part⟩ := ih
              rw [here]
              exact ⟨m, listed, (array_element_part b element array).trans part⟩
          | none =>
              cases found : g.typeOf b with
              | none => simp [builtin, array, found] at refers
              | some t =>
                  rw [builtin, array, found] at refers
                  exact ⟨c, List.mem_cons_of_mem _ (type_of_mentioned g b t found c refers), List.Sublist.refl _⟩

theorem reached_finite (name : String) : {n | Relation.ReflTransGen (Refers g.onward) name n}.Finite := by
  have parts : {n | n ∈ (name :: g.mentioned).flatMap (fun m => m.toList.sublists.map String.ofList)}.Finite :=
    List.finite_toSet _
  apply parts.subset
  intro n reaches
  obtain ⟨m, listed, part⟩ := reached_part g name n reaches
  have spelled : n ∈ m.toList.sublists.map String.ofList :=
    List.mem_map.mpr ⟨n.toList, List.mem_sublists.mpr part, String.ofList_toList⟩
  exact List.mem_flatMap.mpr ⟨m, listed, spelled⟩

theorem resolve_terminates_iff (name : String) :
    ((∃ fuel, g.resolve fuel name ≠ .error .outOfFuel) ↔
      ∀ n, Relation.ReflTransGen (Reached g.onward g.nameless) name n →
        ¬ Relation.TransGen (Reached g.onward g.nameless) n n) ∧
    ((∃ fuel t, g.resolve fuel name = .ok t) ↔
      ∀ n, Relation.ReflTransGen (Refers g.onward) name n →
        ¬ Relation.TransGen (Refers g.onward) n n ∧ g.nameless n = false) := by
  constructor
  · rw [← terminates_iff g.onward g.nameless name (reached_finite g name)]
    exact exists_congr (fun fuel => not_congr (resolve_out_of_fuel g fuel name))
  · exact (exists_congr (fun fuel => resolve_returns g fuel name)).trans
      (returns_iff g.onward g.nameless name (reached_finite g name))

end Resolution

-- The typedef A, whose type is A.
def selfReference : Generator :=
  ⟨[.typedefDoclet ⟨"A", "A", ⟨"a.js", "/", 1, none⟩, none, some ⟨["A"]⟩, none, none⟩], ["jsfacade"], "pkg", ["implicits"],
    fun _ => ""⟩

theorem self_reference_never_ends : ¬ ∃ fuel, selfReference.resolve fuel "A" ≠ .error .outOfFuel := by
  have onward : selfReference.onward "A" = ["A"] := by decide +kernel
  rintro ⟨fuel, ends⟩
  apply ends
  rw [resolve_out_of_fuel]
  clear ends
  induction fuel with
  | zero => rfl
  | succ fuel ih =>
      rw [visit, onward, each, ih]
      rfl

end Toolbox8.Jsdoc
