import Mathlib.Data.Fintype.Order
import Toolbox8.Base.Joins
import Toolbox8.JsdocTermination

set_option autoImplicit false

namespace Toolbox8.Jsdoc

open Base

section Meanings

variable {mark : String}

def ResolvedType.names (t : ResolvedType mark) : List String := t.toSet.map Text.string

-- What a type is of, without the order in which its names are listed.
def ResolvedType.meaning (t : ResolvedType mark) : Finset String × Bool := (t.names.toFinset, t.optional)

-- The type as the generator has it: its names only.
def ResolvedType.plain : ResolvedType mark → ResolvedType mark
  | .singleType name optional => .singleType (Text.plain name.string) optional
  | .unionType first second others optional =>
      .unionType (Text.plain first.string) (Text.plain second.string) (others.map (fun t => Text.plain t.string)) optional
  | .optionalType => .optionalType
  | .unkownType optional => .unkownType optional

-- The names are a set, and only an unknown type is any type.
structure ResolvedType.WellFormed (t : ResolvedType mark) : Prop where
  sorted : t.names.Pairwise (fun s u => utf16 s ≤ utf16 u)
  nodup : t.names.Nodup
  known : ∀ name optional, t = .singleType name optional → name.string ≠ jsAny

def ResolvedType.unnamed : ResolvedType mark → Bool
  | .optionalType => true
  | .unkownType _ => true
  | _ => false

theorem well_formed_single (name : Text mark) (optional : Bool) (known : name.string ≠ jsAny) :
    (ResolvedType.singleType name optional).WellFormed := by
  constructor
  · exact List.pairwise_singleton _ _
  · exact List.nodup_singleton _
  · intro other _ same
    obtain ⟨rfl, _⟩ := ResolvedType.singleType.inj same
    exact known

theorem well_formed_unnamed (t : ResolvedType mark) (unnamed : t.unnamed = true) : t.WellFormed := by
  cases t with
  | singleType name optional => simp [ResolvedType.unnamed] at unnamed
  | unionType first second others optional => simp [ResolvedType.unnamed] at unnamed
  | optionalType =>
      constructor
      · exact List.Pairwise.nil
      · exact List.nodup_nil
      · rintro _ _ ⟨⟩
  | unkownType optional =>
      constructor
      · exact List.pairwise_singleton _ _
      · exact List.nodup_singleton _
      · rintro _ _ ⟨⟩

theorem any_unnamed (t : ResolvedType mark) (valid : t.WellFormed) (only : ∀ s ∈ t.names, s = jsAny) : t.unnamed = true := by
  cases t with
  | singleType name optional =>
      have named := only name.string (by simp [ResolvedType.names, ResolvedType.toSet])
      exact absurd named (valid.known name optional rfl)
  | unionType first second others optional =>
      have both : first.string = second.string :=
        (only _ (by simp [ResolvedType.names, ResolvedType.toSet])).trans
          (only _ (by simp [ResolvedType.names, ResolvedType.toSet])).symm
      have nodup := valid.nodup
      simp [ResolvedType.names, ResolvedType.toSet, both] at nodup
  | optionalType => rfl
  | unkownType optional => rfl

theorem plain_determined (t u : ResolvedType mark) (first : t.WellFormed) (second : u.WellFormed)
    (same : t.meaning = u.meaning) : t.plain = u.plain := by
  obtain ⟨sets, optional⟩ := Prod.mk.inj same
  have members : ∀ s, s ∈ t.names ↔ s ∈ u.names := by
    intro s
    rw [← List.mem_toFinset, sets, List.mem_toFinset]
  have names := sorted_strings _ _ first.sorted second.sorted first.nodup second.nodup members
  cases t with
  | singleType name flag =>
      cases u with
      | singleType other _ =>
          obtain rfl : flag = _ := optional
          have string : name.string = other.string := by simpa [ResolvedType.names, ResolvedType.toSet] using names
          rw [ResolvedType.plain, ResolvedType.plain, string]
      | unionType _ _ _ _ => simp [ResolvedType.names, ResolvedType.toSet] at names
      | optionalType => simp [ResolvedType.names, ResolvedType.toSet] at names
      | unkownType _ =>
          have any : name.string = jsAny := by simpa [ResolvedType.names, ResolvedType.toSet] using names
          exact absurd any (first.known name flag rfl)
  | unionType one two others flag =>
      cases u with
      | singleType _ _ => simp [ResolvedType.names, ResolvedType.toSet] at names
      | unionType left right more _ =>
          obtain rfl : flag = _ := optional
          simp only [ResolvedType.names, ResolvedType.toSet, List.map_cons, List.cons.injEq] at names
          obtain ⟨here, next, rest⟩ := names
          have later := congrArg (List.map (@Text.plain mark)) rest
          rw [List.map_map, List.map_map] at later
          rw [ResolvedType.plain, ResolvedType.plain, here, next]
          exact congrArg (fun texts => ResolvedType.unionType _ _ texts _) later
      | optionalType => simp [ResolvedType.names, ResolvedType.toSet] at names
      | unkownType _ => simp [ResolvedType.names, ResolvedType.toSet] at names
  | optionalType =>
      cases u with
      | singleType _ _ => simp [ResolvedType.names, ResolvedType.toSet] at names
      | unionType _ _ _ _ => simp [ResolvedType.names, ResolvedType.toSet] at names
      | optionalType => rfl
      | unkownType _ => simp [ResolvedType.names, ResolvedType.toSet] at names
  | unkownType flag =>
      cases u with
      | singleType name other =>
          have any : jsAny = name.string := by simpa [ResolvedType.names, ResolvedType.toSet] using names
          exact absurd any.symm (second.known name other rfl)
      | unionType _ _ _ _ => simp [ResolvedType.names, ResolvedType.toSet] at names
      | optionalType => simp [ResolvedType.names, ResolvedType.toSet] at names
      | unkownType _ =>
          obtain rfl : flag = _ := optional
          rfl

end Meanings

section Laws

variable {mark : String}

theorem join_sets_names (t u joined : ResolvedType mark) (joins : joinSets t u = .ok joined) :
    (∀ s, s ∈ joined.names ↔ s ∈ t.names ∨ s ∈ u.names) ∧ joined.optional = (t.optional || u.optional) := by
  obtain ⟨set, optional⟩ := of_names_set _ _ joined joins
  refine ⟨?_, optional⟩
  intro s
  have perm : joined.names.Perm ((distinctTexts (t.toSet ++ u.toSet)).map Text.string) := by
    rw [ResolvedType.names, set]
    exact (List.perm_insertionSort _ _).map Text.string
  rw [perm.mem_iff, distinct_texts_mem, List.map_append, List.mem_append]
  exact Iff.rfl

theorem join_sets_meaning (t u joined : ResolvedType mark) (joins : joinSets t u = .ok joined) :
    joined.meaning = t.meaning ⊔ u.meaning := by
  obtain ⟨names, optional⟩ := join_sets_names t u joined joins
  apply Prod.ext
  · ext s
    simp [ResolvedType.meaning, names]
  · exact optional

theorem join_sets_well_formed (t u joined : ResolvedType mark) (first : t.WellFormed) (second : u.WellFormed)
    (named : ¬ (t.unnamed = true ∧ u.unnamed = true)) (joins : joinSets t u = .ok joined) : joined.WellFormed := by
  obtain ⟨names, _⟩ := join_sets_names t u joined joins
  obtain ⟨set, _⟩ := of_names_set _ _ joined joins
  constructor
  · rw [ResolvedType.names, set, List.pairwise_map]
    exact sort_by_sorted Text.string _
  · rw [ResolvedType.names, set]
    apply ((List.perm_insertionSort _ _).map Text.string).nodup_iff.mpr
    exact distinct_texts_nodup _
  · rintro name optional rfl any
    have only : ∀ s, s ∈ t.names ∨ s ∈ u.names → s = jsAny := by
      intro s member
      have single := (names s).mpr member
      rw [← any]
      simpa [ResolvedType.names, ResolvedType.toSet] using single
    apply named
    constructor
    · exact any_unnamed t first (fun s member => only s (.inl member))
    · exact any_unnamed u second (fun s member => only s (.inr member))

theorem join_named (t u : ResolvedType mark) (named : ¬ (t.unnamed = true ∧ u.unnamed = true)) : t.join u = joinSets t u := by
  cases t with
  | singleType _ _ => rfl
  | unionType _ _ _ _ => rfl
  | optionalType =>
      cases u with
      | singleType _ _ => rfl
      | unionType _ _ _ _ => rfl
      | optionalType => exact absurd ⟨rfl, rfl⟩ named
      | unkownType _ => exact absurd ⟨rfl, rfl⟩ named
  | unkownType _ =>
      cases u with
      | singleType _ _ => rfl
      | unionType _ _ _ _ => rfl
      | optionalType => exact absurd ⟨rfl, rfl⟩ named
      | unkownType _ => exact absurd ⟨rfl, rfl⟩ named

theorem join_unnamed (t u : ResolvedType mark) (first : t.unnamed = true) (second : u.unnamed = true) :
    ∃ joined, t.join u = .ok joined ∧ joined.unnamed = true ∧ joined.meaning = t.meaning ⊔ u.meaning := by
  cases t with
  | singleType _ _ => simp [ResolvedType.unnamed] at first
  | unionType _ _ _ _ => simp [ResolvedType.unnamed] at first
  | optionalType =>
      cases u with
      | singleType _ _ => simp [ResolvedType.unnamed] at second
      | unionType _ _ _ _ => simp [ResolvedType.unnamed] at second
      | optionalType => exact ⟨_, rfl, rfl, (sup_idem _).symm⟩
      | unkownType _ => exact ⟨_, rfl, rfl, by simp [ResolvedType.meaning, ResolvedType.names, ResolvedType.toSet,
          ResolvedType.optional]⟩
  | unkownType optional =>
      cases u with
      | singleType _ _ => simp [ResolvedType.unnamed] at second
      | unionType _ _ _ _ => simp [ResolvedType.unnamed] at second
      | optionalType => exact ⟨_, rfl, rfl, by simp [ResolvedType.meaning, ResolvedType.names, ResolvedType.toSet,
          ResolvedType.optional]⟩
      | unkownType other => exact ⟨_, rfl, rfl, by simp [ResolvedType.meaning, ResolvedType.names, ResolvedType.toSet,
          ResolvedType.optional]⟩

theorem join_law : JoinLaw (@ResolvedType.meaning mark) ResolvedType.join := by
  constructor
  · exact join_ok
  · intro t u joined joins
    by_cases unnamed : t.unnamed = true ∧ u.unnamed = true
    · obtain ⟨other, again, _, means⟩ := join_unnamed t u unnamed.1 unnamed.2
      rw [joins] at again
      rw [Except.ok.inj again, means]
    · rw [join_named t u unnamed] at joins
      exact join_sets_meaning t u joined joins

theorem join_well_formed (t u joined : ResolvedType mark) (first : t.WellFormed) (second : u.WellFormed)
    (joins : t.join u = .ok joined) : joined.WellFormed := by
  by_cases unnamed : t.unnamed = true ∧ u.unnamed = true
  · obtain ⟨other, again, special, _⟩ := join_unnamed t u unnamed.1 unnamed.2
    rw [joins] at again
    rw [Except.ok.inj again]
    exact well_formed_unnamed other special
  · rw [join_named t u unnamed] at joins
    exact join_sets_well_formed t u joined first second unnamed joins

theorem join_all_fold (t : ResolvedType mark) (rest : List (ResolvedType mark)) :
    joinAll t rest = rest.foldlM ResolvedType.join t := by
  induction rest generalizing t with
  | nil => rfl
  | cons u rest ih =>
      rw [joinAll, List.foldlM_cons]
      exact congrArg _ (funext ih)

theorem join_all_well_formed (t joined : ResolvedType mark) (rest : List (ResolvedType mark)) (first : t.WellFormed)
    (others : ∀ u ∈ rest, u.WellFormed) (joins : joinAll t rest = .ok joined) : joined.WellFormed := by
  induction rest generalizing t with
  | nil =>
      rw [← Except.ok.inj joins]
      exact first
  | cons u rest ih =>
      obtain ⟨next, here, later⟩ := (bind_ok _ _ _).mp joins
      have valid := join_well_formed t u next first (others u List.mem_cons_self) here
      exact ih next valid (fun v member => others v (List.mem_cons_of_mem _ member)) later

theorem reduce_join_well_formed (ts : List (ResolvedType mark)) (joined : ResolvedType mark) (all : ∀ t ∈ ts, t.WellFormed)
    (joins : reduceJoin ts = .ok joined) : joined.WellFormed := by
  cases ts with
  | nil => simp [reduceJoin] at joins
  | cons t rest =>
      exact join_all_well_formed t joined rest (all t List.mem_cons_self)
        (fun u member => all u (List.mem_cons_of_mem _ member)) joins

theorem reduce_join_members (ts us : List (ResolvedType mark)) (t : ResolvedType mark) (all : ∀ t ∈ ts, t.WellFormed)
    (same : ∀ s, s ∈ ts ↔ s ∈ us) (joins : reduceJoin ts = .ok t) : ∃ u, reduceJoin us = .ok u ∧ u.plain = t.plain := by
  cases ts with
  | nil => simp [reduceJoin] at joins
  | cons first rest =>
      cases us with
      | nil => simpa using same first
      | cons other others =>
          obtain ⟨u, done⟩ := join_all_ok other others
          refine ⟨u, done, ?_⟩
          have valid := reduce_join_well_formed _ t all joins
          have validOther := reduce_join_well_formed (other :: others) u (fun s member => all s ((same s).mpr member)) done
          apply plain_determined u t validOther valid
          rw [reduceJoin, join_all_fold] at joins
          rw [join_all_fold] at done
          apply fold_join_members join_law other first others rest u t done joins
          intro m
          simp only [same]

end Laws

section Resolution

variable (g : Generator)

-- The types that the classes, the interfaces and the typedefs declare.
def Generator.declaredRefs : List String :=
  (g.classes.map Class.longname ++ g.interfaces.map Interface.longname ++ g.realTypedefs.map TypedefLike.longname).map
      g.definedTypeRef ++
    g.functionTypedefs.map (fun dt => g.functionTypeRef dt.longname)

theorem builtin_well_formed (name : String) (t : ResolvedType g.mark) (builtin : builtins name = some t) : t.WellFormed := by
  have known (ref : String) (apart : ref ≠ jsAny) : (ResolvedType.singleType (Text.plain ref : Text g.mark) false).WellFormed :=
    well_formed_single _ false apart
  unfold builtins at builtin
  split_ifs at builtin
  · exact Option.some.inj builtin ▸ known "java.lang.String" (by decide)
  · exact Option.some.inj builtin ▸ known "scala.Double" (by decide)
  · exact Option.some.inj builtin ▸ known "org.scalajs.dom.raw.Element" (by decide)
  · exact Option.some.inj builtin ▸ known "org.scalajs.dom.raw.HTMLCanvasElement" (by decide)
  · exact Option.some.inj builtin ▸ known "scala.Boolean" (by decide)
  · exact Option.some.inj builtin ▸ well_formed_unnamed .optionalType rfl

theorem array_well_formed (inner : Text g.mark) :
    (ResolvedType.singleType ("scala.scalajs.js.Array[" ++ inner ++ "]" : Text g.mark) false).WellFormed := by
  apply well_formed_single
  intro any
  have letters := congrArg String.toList any
  simp [jsAny, String.toList_append] at letters

theorem defined_well_formed (apart : jsAny ∉ g.declaredRefs) (name : String) (t : ResolvedType g.mark)
    (found : g.definedTypesByNameMap name = some t) : t.WellFormed := by
  have member := lookup_mem _ name t found
  rcases List.mem_append.mp member with declared | functions
  · obtain ⟨longname, listed, same⟩ := List.mem_map.mp declared
    obtain ⟨_, rfl⟩ := Prod.mk.inj same
    apply well_formed_single
    intro any
    have ref : g.definedTypeRef longname = jsAny := any
    exact apart (List.mem_append_left _ (List.mem_map.mpr ⟨longname, listed, ref⟩))
  · obtain ⟨dt, listed, same⟩ := List.mem_map.mp functions
    obtain ⟨_, rfl⟩ := Prod.mk.inj same
    apply well_formed_single
    intro any
    have ref : g.functionTypeRef dt.longname = jsAny := any
    exact apart (List.mem_append_right _ (List.mem_map.mpr ⟨dt, listed, ref⟩))

theorem resolve_union_well_formed (resolve : String → g.Resolved)
    (all : ∀ n s, resolve n = .ok s → s.WellFormed) (type : DocletType) (t : ResolvedType g.mark)
    (resolved : g.resolveUnionBy resolve type = .ok t) : t.WellFormed := by
  obtain ⟨ts, mapped, joins⟩ := (bind_ok _ _ _).mp resolved
  apply reduce_join_well_formed ts t _ joins
  intro s member
  obtain ⟨n, _, here⟩ := List.mem_map.mp ((map_m_mem _ _ ts mapped s).mp member)
  exact all n s here

theorem resolve_by_well_formed (apart : jsAny ∉ g.declaredRefs) (resolve : String → g.Resolved)
    (all : ∀ n s, resolve n = .ok s → s.WellFormed) (name : String) (t : ResolvedType g.mark)
    (resolved : g.resolveBy resolve name = .ok t) : t.WellFormed := by
  rw [Generator.resolveBy] at resolved
  cases builtin : (builtins name : Option (ResolvedType g.mark)) with
  | some s =>
      rw [builtin] at resolved
      rw [← Except.ok.inj resolved]
      exact builtin_well_formed g name s builtin
  | none =>
      rw [builtin] at resolved
      obtain ⟨array, found, later⟩ := (bind_ok _ _ _).mp resolved
      cases array with
      | some s =>
          rw [← Except.ok.inj later]
          rw [Generator.resolveArrayBy] at found
          cases element : arrayElement name with
          | none => simp [element] at found
          | some inside =>
              rw [element] at found
              obtain ⟨inner, _, same⟩ := (bind_ok _ _ _).mp found
              rw [← Option.some.inj (Except.ok.inj same)]
              exact array_well_formed g inner
      | none =>
          obtain ⟨defined, known, same⟩ := (bind_ok _ _ _).mp later
          rw [← Except.ok.inj same]
          cases defined with
          | none => exact well_formed_unnamed _ rfl
          | some s =>
              rw [Generator.resolveDefinedBy] at known
              cases typedef : g.unionTypedefs name with
              | some type =>
                  rw [typedef] at known
                  obtain ⟨joined, union, here⟩ := (map_ok _ _ _).mp known
                  rw [← here]
                  exact resolve_union_well_formed g resolve all type joined union
              | none =>
                  simp only [typedef, Generator.definedTypesByNameBy] at known
                  cases aliased : g.typeAliasByName name with
                  | some ta =>
                      rw [aliased] at known
                      obtain ⟨joined, union, here⟩ := (map_ok _ _ _).mp known
                      rw [← here]
                      exact resolve_union_well_formed g resolve all ta.type joined union
                  | none =>
                      rw [aliased] at known
                      exact defined_well_formed g apart name s (Except.ok.inj known)

theorem resolve_well_formed (apart : jsAny ∉ g.declaredRefs) (fuel : Nat) (name : String) (t : ResolvedType g.mark)
    (resolved : g.resolve fuel name = .ok t) : t.WellFormed := by
  induction fuel generalizing name t with
  | zero => simp [Generator.resolve] at resolved
  | succ fuel ih => exact resolve_by_well_formed g apart (g.resolve fuel) ih name t resolved

theorem resolve_union_members (apart : jsAny ∉ g.declaredRefs) (fuel : Nat) (names others : List String)
    (same : ∀ n, n ∈ names ↔ n ∈ others) (t : ResolvedType g.mark) (resolved : g.resolveUnion fuel ⟨names⟩ = .ok t) :
    ∃ u, g.resolveUnion fuel ⟨others⟩ = .ok u ∧ u.plain = t.plain := by
  obtain ⟨ts, mapped, joins⟩ := (bind_ok _ _ _).mp resolved
  have sameNames : ∀ n, n ∈ names.map typeName ↔ n ∈ others.map typeName := by
    intro n
    simp only [List.mem_map, same]
  obtain ⟨us, mappedOthers⟩ := map_m_total (g.resolve fuel) (others.map typeName)
    (fun n member => map_m_all _ _ ts mapped n ((sameNames n).mpr member))
  have sameTypes : ∀ s, s ∈ ts ↔ s ∈ us := by
    intro s
    rw [map_m_mem _ _ ts mapped, map_m_mem _ _ us mappedOthers, List.mem_map, List.mem_map]
    simp only [sameNames]
  have valid : ∀ s ∈ ts, s.WellFormed := by
    intro s member
    obtain ⟨n, _, here⟩ := List.mem_map.mp ((map_m_mem _ _ ts mapped s).mp member)
    exact resolve_well_formed g apart fuel n s here
  obtain ⟨u, joined, plain⟩ := reduce_join_members ts us t valid sameTypes joins
  exact ⟨u, (bind_ok _ _ _).mpr ⟨us, mappedOthers, joined⟩, plain⟩

theorem same_types {mark : String} (x y : Except Stop (ResolvedType mark)) (first : ∀ t, x = .ok t → t.WellFormed)
    (second : ∀ u, y = .ok u → u.WellFormed) (m : Finset String × Bool) (left : x.map ResolvedType.meaning = .ok m)
    (right : y.map ResolvedType.meaning = .ok m) :
    ∃ joined, x.map ResolvedType.plain = .ok joined ∧ y.map ResolvedType.plain = .ok joined := by
  obtain ⟨t, rfl, means⟩ := (map_ok _ _ _).mp left
  obtain ⟨u, rfl, same⟩ := (map_ok _ _ _).mp right
  refine ⟨t.plain, rfl, ?_⟩
  rw [plain_determined t u (first t rfl) (second u rfl) (means.trans same.symm)]
  rfl

theorem join_order_insensitive (apart : jsAny ∉ g.declaredRefs) (fuel : Nat) :
    (∀ name t, g.resolve fuel name = .ok t → t.WellFormed) ∧
    (∀ t u : ResolvedType g.mark, t.WellFormed → u.WellFormed →
      ∃ joined, (t.join u).map ResolvedType.plain = .ok joined ∧ (u.join t).map ResolvedType.plain = .ok joined) ∧
    (∀ t u v : ResolvedType g.mark, t.WellFormed → u.WellFormed → v.WellFormed →
      ∃ joined, (t.join u >>= fun tu => tu.join v).map ResolvedType.plain = .ok joined ∧
        (u.join v >>= fun uv => t.join uv).map ResolvedType.plain = .ok joined) ∧
    (∀ t : ResolvedType g.mark, t.WellFormed → (t.join t).map ResolvedType.plain = .ok t.plain) ∧
    ∀ names others : List String, (∀ n, n ∈ names ↔ n ∈ others) → ∀ t, g.resolveUnion fuel ⟨names⟩ = .ok t →
      ∃ u, g.resolveUnion fuel ⟨others⟩ = .ok u ∧ u.plain = t.plain := by
  refine ⟨resolve_well_formed g apart fuel, ?_, ?_, ?_, resolve_union_members g apart fuel⟩
  · intro t u first second
    apply same_types _ _ _ _ _ (join_means join_law t u) ((join_means_comm join_law u t).trans (join_means join_law t u))
    · exact fun joined joins => join_well_formed t u joined first second joins
    · exact fun joined joins => join_well_formed u t joined second first joins
  · intro t u v first second third
    obtain ⟨tu, here⟩ := join_ok t u
    have means : (t.join u >>= fun tu => tu.join v).map ResolvedType.meaning = .ok (tu.meaning ⊔ v.meaning) := by
      rw [here]
      exact join_means join_law tu v
    apply same_types _ _ _ _ _ means ((join_means_assoc join_law t u v).symm.trans means)
    · intro joined joins
      obtain ⟨left, made, later⟩ := (bind_ok _ _ _).mp joins
      exact join_well_formed left v joined (join_well_formed t u left first second made) third later
    · intro joined joins
      obtain ⟨right, made, later⟩ := (bind_ok _ _ _).mp joins
      exact join_well_formed t right joined first (join_well_formed u v right second third made) later
  · intro t valid
    obtain ⟨joined, joins⟩ := join_ok t t
    have means := join_means_idem join_law t
    rw [joins] at means ⊢
    have same := plain_determined joined t (join_well_formed t t joined valid valid joins) valid (Except.ok.inj means)
    exact congrArg Except.ok same

end Resolution

-- The typedef Ink, which is a string or a Shape.
def inkGenerator : Generator :=
  ⟨[.interfaceDoclet ⟨"Shape", "Shape", none, some "public", ⟨"shape.js", "/", 1, none⟩⟩,
    .typedefDoclet ⟨"Ink", "Ink", ⟨"shape.js", "/", 2, none⟩, none, some ⟨["string", "Shape"]⟩, none, none⟩],
    ["jsfacade"], "pkg", ["implicits"], fun _ => ""⟩

theorem ink_order_insensitive : ∃ t u, inkGenerator.resolveUnion 2 ⟨["Ink", "undefined", "*"]⟩ = .ok t ∧
    inkGenerator.resolveUnion 2 ⟨["*", "undefined", "Ink", "undefined"]⟩ = .ok u ∧ u.plain = t.plain := by
  obtain ⟨t, resolved⟩ := ok_of_some (inkGenerator.resolveUnion 2 ⟨["Ink", "undefined", "*"]⟩) (by decide +kernel)
  obtain ⟨_, _, _, _, unions⟩ := join_order_insensitive inkGenerator (by decide +kernel) 2
  have members : ∀ n, n ∈ ["Ink", "undefined", "*"] ↔ n ∈ ["*", "undefined", "Ink", "undefined"] := by
    intro n
    simp only [List.mem_cons, List.not_mem_nil, or_false]
    tauto
  obtain ⟨u, again, same⟩ := unions _ _ members t resolved
  exact ⟨t, u, resolved, again, same⟩

end Toolbox8.Jsdoc
