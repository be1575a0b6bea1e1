import Mathlib.Data.List.Nodup
import Toolbox8.DBReflector

set_option autoImplicit false

namespace Toolbox8.DBus

open Base

theorem descend_append (o : DBObject) (front back : List String) :
    o.descend (front ++ back) = (o.descend front).bind (fun below => below.descend back) := by
  induction front generalizing o with
  | nil => rfl
  | cons name rest ih =>
      rw [List.cons_append, DBObject.descend, DBObject.descend]
      cases o.children.find name with
      | none => rfl
      | some child => exact ih child

theorem find_names (f : Forest) (name : String) (o : DBObject) (found : f.find name = some o) : name ∈ f.names := by
  induction f with
  | nil => simp [Forest.find] at found
  | node first interfaces children siblings _ later =>
      rw [Forest.find] at found
      split at found
      · rename_i same
        rw [same]
        exact List.mem_cons_self
      · exact List.mem_cons_of_mem _ (later found)

section Walk

variable (bus : String → Option DBObject) (service : String) (root : DBObject)

theorem obj_step (fuel : Nat) (acc : DBReflection) (names : List String) (o : DBObject) (valid : ∀ n ∈ names, NodeName n)
    (served : bus service = some root) (reached : root.descend names = some o) :
    obj (introspect bus) service (fuel + 1) acc (pathOf names) =
      (addObject acc (⟨service, pathOf names⟩, o.interfaces)).bind (fun added =>
        o.children.names.foldlM
          (fun acc2 nodeName => obj (introspect bus) service fuel acc2 (subNodeName (pathOf names) nodeName)) added) := by
  have answer : introspect bus service (pathOf names) = some ⟨o.interfaces, o.children.names⟩ := by
    simp [introspect, served, names_of_path_of names valid, reached]
  rw [obj, answer]
  rfl

-- By induction on the forest: the walk visits the objects in pre-order.
theorem walk_forest (served : bus service = some root) (f : Forest) (above : List String) (fuel : Nat) (acc : DBReflection)
    (valid : ∀ n ∈ above, NodeName n) (legal : f.Legal) (enough : f.height ≤ fuel)
    (reached : ∀ name o, f.find name = some o → root.descend (above ++ [name]) = some o) :
    f.names.foldlM (fun acc2 nodeName => obj (introspect bus) service fuel acc2 (subNodeName (pathOf above) nodeName)) acc =
      (f.objects service above).foldlM addObject acc := by
  induction f generalizing above fuel acc with
  | nil => rfl
  | node name interfaces children siblings below later =>
      obtain ⟨named, fresh, _, legalBelow, legalLater⟩ := legal
      have deep : children.height + 1 ≤ fuel := Nat.le_trans (Nat.le_max_left _ _) enough
      have wide : siblings.height ≤ fuel := Nat.le_trans (Nat.le_max_right _ _) enough
      obtain ⟨less, rfl⟩ := Nat.exists_eq_add_of_le' (Nat.le_trans (Nat.le_add_left 1 _) deep)
      have validHere : ∀ n ∈ above ++ [name], NodeName n := by
        intro n member
        rcases List.mem_append.mp member with old | new
        · exact valid n old
        · rw [List.mem_singleton.mp new]
          exact named
      have here : root.descend (above ++ [name]) = some ⟨interfaces, children⟩ := reached name _ (by simp [Forest.find])
      have reachedBelow : ∀ child o, children.find child = some o → root.descend (above ++ [name] ++ [child]) = some o := by
        intro child o found
        rw [descend_append, here]
        simp [DBObject.descend, found]
      have reachedLater : ∀ other o, siblings.find other = some o → root.descend (above ++ [other]) = some o := by
        intro other o found
        have different : name ≠ other := by
          rintro rfl
          exact fresh (find_names siblings name o found)
        exact reached other o (by simp [Forest.find, different, found])
      rw [Forest.names, Forest.objects, List.foldlM_cons, List.foldlM_cons, sub_node_name_path above name valid,
        obj_step bus service root less acc (above ++ [name]) ⟨interfaces, children⟩ validHere served here]
      simp only [Option.bind_eq_bind, Option.bind_assoc, List.foldlM_append]
      congr 1
      funext added
      rw [below (above ++ [name]) less added validHere legalBelow (Nat.le_of_succ_le_succ deep) reachedBelow]
      congr 1
      funext walked
      exact later above (less + 1) walked valid legalLater wide reachedLater

theorem walk_service (served : bus service = some root) (fuel : Nat) (acc : DBReflection) (legal : root.Legal)
    (enough : root.children.height < fuel) :
    obj (introspect bus) service fuel acc "/" = (root.objects service).foldlM addObject acc := by
  obtain ⟨less, rfl⟩ := Nat.exists_eq_add_of_le' (Nat.le_trans (Nat.le_add_left 1 _) enough)
  have step := obj_step bus service root less acc [] root (by simp) served rfl
  rw [show pathOf [] = "/" from rfl] at step
  rw [step, DBObject.objects, List.foldlM_cons]
  simp only [Option.bind_eq_bind, show pathOf [] = "/" from rfl]
  congr 1
  funext added
  have walked := walk_forest bus service root served root.children [] less added (by simp) legal.2
    (Nat.le_of_lt_succ enough) (by simp [DBObject.descend])
  rw [show pathOf [] = "/" from rfl] at walked
  exact walked

end Walk

def depth (bus : String → Option DBObject) (services : List String) : Nat :=
  (services.map (fun service => ((bus service).map (fun o => o.children.height)).getD 0)).foldr Nat.max 0

theorem depth_bound (bus : String → Option DBObject) (services : List String) (service : String) (o : DBObject)
    (member : service ∈ services) (served : bus service = some o) : o.children.height ≤ depth bus services := by
  induction services with
  | nil => simp at member
  | cons first rest ih =>
      rcases List.mem_cons.mp member with rfl | later
      · simp only [depth, List.map_cons, served, Option.map_some, Option.getD_some, List.foldr_cons]
        exact Nat.le_max_left _ _
      · exact Nat.le_trans (ih later) (Nat.le_max_right _ _)

def Served (bus : String → Option DBObject) (services : List String) : Prop :=
  ∀ service ∈ services, ∃ o, bus service = some o ∧ o.Legal

theorem run_walks (bus : String → Option DBObject) (fuel : Nat) (services : List String) (acc : DBReflection)
    (served : Served bus services) (enough : depth bus services < fuel) :
    services.foldlM (fun acc service => obj (introspect bus) service fuel acc "/") acc =
      (objects bus services).foldlM addObject acc := by
  induction services generalizing acc with
  | nil => rfl
  | cons service rest ih =>
      obtain ⟨root, found, legal⟩ := served service List.mem_cons_self
      have high := depth_bound bus (service :: rest) service root List.mem_cons_self found
      have below : depth bus rest ≤ depth bus (service :: rest) := Nat.le_max_right _ _
      rw [List.foldlM_cons, walk_service bus service root found fuel acc legal (Nat.lt_of_le_of_lt high enough)]
      rw [objects, List.flatMap_cons, found, Option.map_some, Option.getD_some, List.foldlM_append]
      congr 1
      funext walked
      exact ih walked (fun other member => served other (List.mem_cons_of_mem _ member)) (Nat.lt_of_le_of_lt below enough)

-- One entry for each interface that an object lists.
def listings (objs : List (DBInstance × List InterfaceNode)) : List (DBInstance × InterfaceNode) :=
  objs.flatMap (fun o => o.2.map (fun iface => (o.1, iface)))

def addListing (acc : DBReflection) (listing : DBInstance × InterfaceNode) : Option DBReflection :=
  addInterface listing.1 acc listing.2

theorem fold_objects (objs : List (DBInstance × List InterfaceNode)) (acc : DBReflection) :
    objs.foldlM addObject acc = (listings objs).foldlM addListing acc := by
  induction objs generalizing acc with
  | nil => rfl
  | cons o rest ih =>
      rw [listings, List.flatMap_cons, List.foldlM_cons, List.foldlM_append, List.foldlM_map]
      congr 1
      funext added
      exact ih added

def Names (key : DBInterfaceName) (iface : InterfaceNode) : Prop :=
  key ∉ builtin ∧ DBInterfaceName.fromName iface.name = some key

instance Names.decidable (key : DBInterfaceName) (iface : InterfaceNode) : Decidable (Names key iface) :=
  inferInstanceAs (Decidable (_ ∧ _))

def listingsOf (key : DBInterfaceName) (ls : List (DBInstance × InterfaceNode)) : List (DBInstance × InterfaceNode) :=
  ls.filter (fun l => Names key l.2)

-- What the listings of one interface make of its entry.
def collect (key : DBInterfaceName) (entry : Option DBInterface) : List (DBInstance × InterfaceNode) → Option DBInterface
  | [] => entry
  | l :: rest => collect key (updatedInterface key l.2 l.1 entry) rest

theorem mapM_succeeds {α β : Type} (f : α → Option β) (xs : List α) (succeeds : ∀ x ∈ xs, ∃ y, f x = some y) :
    ∃ ys, xs.mapM f = some ys := by
  induction xs with
  | nil => exact ⟨[], rfl⟩
  | cons x rest ih =>
      obtain ⟨y, head⟩ := succeeds x List.mem_cons_self
      obtain ⟨ys, tail⟩ := ih (fun z member => succeeds z (List.mem_cons_of_mem _ member))
      refine ⟨y :: ys, ?_⟩
      rw [List.mapM_cons, head, tail]
      rfl

theorem map_m_some {α β : Type} (f : α → Option β) (as : List α) (bs : List β) (mapped : as.mapM f = some bs) :
    List.Forall₂ (fun a b => f a = some b) as bs := by
  induction as generalizing bs with
  | nil =>
      obtain rfl := Option.some.inj mapped
      exact .nil
  | cons a rest ih =>
      rw [List.mapM_cons] at mapped
      obtain ⟨first, here, later⟩ := Option.bind_eq_some_iff.mp mapped
      obtain ⟨others, there, same⟩ := Option.bind_eq_some_iff.mp later
      obtain rfl := Option.some.inj same
      exact .cons here (ih others there)

-- An access as it stands in a document.
def DBAccess.text : DBAccess → String
  | .dbRead => "read"
  | .dbWrite => "write"
  | .dbReadWrite => "readwrite"

structure MethodReflected (n : MethodNode) (m : DBMethod) : Prop where
  name : m.name = n.name
  ins : m.ins = (n.args.filter (fun arg => arg.direction ≠ "out")).map (fun arg => ⟨arg.name, arg.typeString⟩)
  out : m.out = (n.args.filter (fun arg => arg.direction = "out")).map (fun arg => ⟨arg.name, arg.typeString⟩)

structure PropertyReflected (n : PropertyNode) (p : DBProperty) : Prop where
  name : p.name = n.name
  access : p.access.text = n.access
  typeString : p.typeString = n.typeString

-- Every method and property of the listing, in the order of their names.
structure InterfaceReflected (node : InterfaceNode) (iface : DBInterface) : Prop where
  methods : ∃ sorted, SortedBy MethodNode.name node.methods sorted ∧ List.Forall₂ MethodReflected sorted iface.methods
  properties : ∃ sorted, SortedBy PropertyNode.name node.properties sorted ∧ List.Forall₂ PropertyReflected sorted iface.properties

theorem reflect_method_spec (n : MethodNode) (m : DBMethod) (reflected : reflectMethod n = some m) : MethodReflected n m := by
  simp only [reflectMethod, List.partition_eq_filter_filter] at reflected
  obtain ⟨_, same⟩ := Option.ite_none_right_eq_some.mp reflected
  rw [← Option.some.inj same]
  refine ⟨rfl, ?_, rfl⟩
  show List.map dbArg _ = List.map dbArg _
  congr 2
  funext arg
  exact decide_not.symm

theorem reflect_property_spec (n : PropertyNode) (p : DBProperty) (reflected : reflectProperty n = some p) :
    PropertyReflected n p := by
  obtain ⟨access, read, rfl⟩ := Option.map_eq_some_iff.mp reflected
  refine ⟨rfl, ?_, rfl⟩
  simp only [dbAccess] at read
  split at read
  · rename_i same
    rw [← Option.some.inj read, same]
    rfl
  · split at read
    · rename_i same
      rw [← Option.some.inj read, same]
      rfl
    · obtain ⟨same, readWrite⟩ := Option.ite_none_right_eq_some.mp read
      rw [← Option.some.inj readWrite, same]
      rfl

theorem reflect_interface_spec (key : DBInterfaceName) (node : InterfaceNode) (object : DBInstance) (iface : DBInterface)
    (reflected : reflectInterface key node object = some iface) : InterfaceReflected node iface := by
  obtain ⟨methods, found, later⟩ := Option.bind_eq_some_iff.mp reflected
  obtain ⟨props, given, same⟩ := Option.bind_eq_some_iff.mp later
  obtain rfl := Option.some.inj same
  have eachMethod := (map_m_some _ _ _ found).imp (fun n m => reflect_method_spec n m)
  have eachProperty := (map_m_some _ _ _ given).imp (fun n p => reflect_property_spec n p)
  exact ⟨⟨_, sort_by_spec MethodNode.name node.methods, eachMethod⟩, ⟨_, sort_by_spec PropertyNode.name node.properties, eachProperty⟩⟩

theorem reflect_interface_legal (key : DBInterfaceName) (iface : InterfaceNode) (object : DBInstance)
    (legal : LegalInterface iface) : ∃ reflected, reflectInterface key iface object = some reflected := by
  obtain ⟨_, methods, properties⟩ := legal
  have methodsReflect : ∀ m ∈ sortBy MethodNode.name iface.methods, ∃ y, reflectMethod m = some y := by
    intro m member
    have few := methods m ((mem_sort_by _ _ _).mp member)
    simp only [reflectMethod, List.partition_eq_filter_filter]
    exact ⟨_, if_pos few⟩
  have propertiesReflect : ∀ p ∈ sortBy PropertyNode.name iface.properties, ∃ y, reflectProperty p = some y := by
    intro p member
    have access := properties p ((mem_sort_by _ _ _).mp member)
    simp only [List.mem_cons, List.not_mem_nil, or_false] at access
    rcases access with read | write | readWrite
    · exact ⟨_, by rw [reflectProperty, read]; rfl⟩
    · exact ⟨_, by rw [reflectProperty, write]; rfl⟩
    · exact ⟨_, by rw [reflectProperty, readWrite]; rfl⟩
  obtain ⟨ms, gotMethods⟩ := mapM_succeeds _ _ methodsReflect
  obtain ⟨ps, gotProperties⟩ := mapM_succeeds _ _ propertiesReflect
  exact ⟨_, by simp only [reflectInterface, gotMethods, gotProperties, Option.bind_eq_bind, Option.bind_some]; rfl⟩

theorem updated_interface_legal (key : DBInterfaceName) (iface : InterfaceNode) (object : DBInstance)
    (entry : Option DBInterface) (legal : LegalInterface iface) :
    ∃ added, updatedInterface key iface object entry = some added := by
  cases entry with
  | none => exact reflect_interface_legal key iface object legal
  | some known => exact ⟨_, rfl⟩

theorem add_listing (acc : DBReflection) (l : DBInstance × InterfaceNode) (legal : LegalInterface l.2) :
    ∃ next, addListing acc l = some next ∧ next.debug = acc.debug ∧
      ∀ key, next.interfaces key =
        if Names key l.2 then updatedInterface key l.2 l.1 (acc.interfaces key) else acc.interfaces key := by
  obtain ⟨name, named⟩ := from_name_well_named l.2.name legal.1
  by_cases known : name ∈ builtin
  · refine ⟨acc, by simp [addListing, addInterface, named, known], rfl, ?_⟩
    intro key
    have other : ¬ Names key l.2 := by
      intro names
      rw [Names, named] at names
      exact names.1 (Option.some.inj names.2 ▸ known)
    rw [if_neg other]
  · obtain ⟨added, updated⟩ := updated_interface_legal name l.2 l.1 (acc.interfaces name) legal
    refine ⟨{ acc with interfaces := Function.update acc.interfaces name (some added) }, ?_, rfl, ?_⟩
    · simp only [addListing, addInterface, named, Option.bind_eq_bind, Option.bind_some, known, if_false, updated]
    intro key
    by_cases same : key = name
    · subst same
      rw [if_pos ⟨known, named⟩, updated]
      exact Function.update_self key (some added) acc.interfaces
    · have other : ¬ Names key l.2 := by
        intro names
        rw [Names, named] at names
        exact same (Option.some.inj names.2).symm
      rw [if_neg other]
      exact Function.update_of_ne same (some added) acc.interfaces

theorem fold_listings (ls : List (DBInstance × InterfaceNode)) (acc : DBReflection) (legal : ∀ l ∈ ls, LegalInterface l.2) :
    ∃ r, ls.foldlM addListing acc = some r ∧ r.debug = acc.debug ∧
      ∀ key, r.interfaces key = collect key (acc.interfaces key) (listingsOf key ls) := by
  induction ls generalizing acc with
  | nil => exact ⟨acc, rfl, rfl, fun _ => rfl⟩
  | cons l rest ih =>
      obtain ⟨next, added, debug, entries⟩ := add_listing acc l (legal l List.mem_cons_self)
      obtain ⟨r, folded, kept, collected⟩ := ih next (fun other member => legal other (List.mem_cons_of_mem _ member))
      refine ⟨r, by rw [List.foldlM_cons, added]; exact folded, kept.trans debug, ?_⟩
      intro key
      rw [collected key, entries key, listingsOf, listingsOf, List.filter_cons]
      by_cases names : Names key l.2
      · rw [if_pos names, if_pos (by simpa using names)]
        rfl
      · rw [if_neg names, if_neg (by simpa using names)]

theorem collect_known (key : DBInterfaceName) (ls : List (DBInstance × InterfaceNode)) (known : DBInterface) :
    collect key (some known) ls = some { known with instances := known.instances ++ ls.map Prod.fst } := by
  induction ls generalizing known with
  | nil => simp [collect]
  | cons l rest ih =>
      rw [collect, updatedInterface, ih]
      simp

theorem collect_new (key : DBInterfaceName) (l : DBInstance × InterfaceNode) (rest : List (DBInstance × InterfaceNode))
    (legal : LegalInterface l.2) :
    ∃ first, reflectInterface key l.2 l.1 = some first ∧
      collect key none (l :: rest) = some { first with instances := (l :: rest).map Prod.fst } ∧ first.name = key := by
  obtain ⟨first, reflected⟩ := reflect_interface_legal key l.2 l.1 legal
  have made : first.instances = [l.1] ∧ first.name = key := by
    simp only [reflectInterface, Option.bind_eq_bind, Option.bind_eq_some_iff] at reflected
    obtain ⟨_, _, _, _, same⟩ := reflected
    obtain rfl := Option.some.inj same
    exact ⟨rfl, rfl⟩
  refine ⟨first, reflected, ?_, made.2⟩
  rw [collect, updatedInterface, reflected, collect_known, made.1]
  rfl

def Lists (key : DBInterfaceName) (o : DBInstance × List InterfaceNode) : Prop := ∃ iface ∈ o.2, Names key iface

instance Lists.decidable (key : DBInterfaceName) (o : DBInstance × List InterfaceNode) : Decidable (Lists key o) :=
  inferInstanceAs (Decidable (∃ iface ∈ o.2, Names key iface))

-- The instances that list the interface, in the order in which they are visited.
def instancesOf (key : DBInterfaceName) (objs : List (DBInstance × List InterfaceNode)) : List DBInstance :=
  (objs.filter (fun o => Lists key o)).map Prod.fst

-- An object lists a name at most once, since it lists no two interfaces of one name.
theorem names_once (key : DBInterfaceName) (ifaces : List InterfaceNode) (legal : LegalInterfaces ifaces) (object : DBInstance) :
    (listingsOf key (ifaces.map (fun iface => (object, iface)))).map Prod.fst =
      if Lists key (object, ifaces) then [object] else [] := by
  induction ifaces with
  | nil => simp [listingsOf, Lists]
  | cons iface rest ih =>
      obtain ⟨distinct, all⟩ := legal
      obtain ⟨fresh, later⟩ := List.nodup_cons.mp distinct
      have tail := ih ⟨later, fun other member => all other (List.mem_cons_of_mem _ member)⟩
      rw [List.map_cons, listingsOf, List.filter_cons]
      by_cases names : Names key iface
      · have none : ¬ Lists key (object, rest) := by
          rintro ⟨other, member, also⟩
          have same := from_name_injective other.name iface.name (all other (List.mem_cons_of_mem _ member)).1
            (all iface List.mem_cons_self).1 (also.2.trans names.2.symm)
          exact fresh (List.mem_map.mpr ⟨other, member, same⟩)
        have here : Lists key (object, iface :: rest) := ⟨iface, List.mem_cons_self, names⟩
        rw [if_neg none] at tail
        rw [if_pos (by simpa using names), if_pos here, List.map_cons]
        exact congrArg (List.cons object) tail
      · have same : Lists key (object, iface :: rest) ↔ Lists key (object, rest) := by
          simp [Lists, names]
        rw [if_neg (by simpa using names)]
        simp only [same]
        exact tail

theorem listings_instances (key : DBInterfaceName) (objs : List (DBInstance × List InterfaceNode))
    (legal : ∀ o ∈ objs, LegalInterfaces o.2) : (listingsOf key (listings objs)).map Prod.fst = instancesOf key objs := by
  induction objs with
  | nil => rfl
  | cons o rest ih =>
      have tail := ih (fun other member => legal other (List.mem_cons_of_mem _ member))
      have head := names_once key o.2 (legal o List.mem_cons_self) o.1
      rw [instancesOf, List.filter_cons]
      rw [listings, List.flatMap_cons, listingsOf, List.filter_append, List.map_append]
      rw [listingsOf] at head
      rw [head]
      by_cases listed : Lists key o
      · rw [if_pos listed, if_pos (by simpa using listed)]
        exact congrArg (List.cons o.1) tail
      · rw [if_neg listed, if_neg (by simpa using listed)]
        exact tail

section Paths

variable (service : String)

theorem forest_interfaces (f : Forest) (above : List String) (legal : f.Legal) :
    ∀ o ∈ f.objects service above, LegalInterfaces o.2 := by
  induction f generalizing above with
  | nil => simp [Forest.objects]
  | node name interfaces children siblings below later =>
      obtain ⟨_, _, here, legalBelow, legalLater⟩ := legal
      intro o member
      rcases List.mem_cons.mp member with rfl | rest
      · exact here
      · rcases List.mem_append.mp rest with child | sibling
        · exact below (above ++ [name]) legalBelow o child
        · exact later above legalLater o sibling

theorem forest_paths (f : Forest) (above : List String) (legal : f.Legal) :
    ∀ o ∈ f.objects service above, ∃ name rest, name ∈ f.names ∧ (∀ n ∈ name :: rest, NodeName n) ∧
      o.1 = ⟨service, pathOf (above ++ name :: rest)⟩ := by
  induction f generalizing above with
  | nil => simp [Forest.objects]
  | node name interfaces children siblings below later =>
      obtain ⟨named, _, _, legalBelow, legalLater⟩ := legal
      intro o member
      rcases List.mem_cons.mp member with rfl | rest
      · exact ⟨name, [], List.mem_cons_self, by simpa using named, rfl⟩
      · rcases List.mem_append.mp rest with child | sibling
        · obtain ⟨first, more, _, valid, path⟩ := below (above ++ [name]) legalBelow o child
          refine ⟨name, first :: more, List.mem_cons_self, ?_, ?_⟩
          · intro n inside
            rcases List.mem_cons.mp inside with rfl | deeper
            · exact named
            · exact valid n deeper
          · rw [path, List.append_assoc, List.singleton_append]
        · obtain ⟨first, more, found, valid, path⟩ := later above legalLater o sibling
          exact ⟨first, more, List.mem_cons_of_mem _ found, valid, path⟩

theorem path_of_below (above front back : List String) (valid : ∀ n ∈ above, NodeName n) (validFront : ∀ n ∈ front, NodeName n)
    (validBack : ∀ n ∈ back, NodeName n) (same : pathOf (above ++ front) = pathOf (above ++ back)) : front = back := by
  have whole := path_of_injective (above ++ front) (above ++ back)
    (fun n member => (List.mem_append.mp member).elim (valid n) (validFront n))
    (fun n member => (List.mem_append.mp member).elim (valid n) (validBack n)) same
  exact List.append_cancel_left whole

theorem forest_distinct (f : Forest) (above : List String) (legal : f.Legal) (valid : ∀ n ∈ above, NodeName n) :
    ((f.objects service above).map Prod.fst).Nodup := by
  induction f generalizing above with
  | nil => exact List.nodup_nil
  | node name interfaces children siblings below later =>
      obtain ⟨named, fresh, _, legalBelow, legalLater⟩ := legal
      have validName : ∀ n ∈ [name], NodeName n := by simpa using named
      have validHere : ∀ n ∈ above ++ [name], NodeName n :=
        fun n member => (List.mem_append.mp member).elim (valid n) (validName n)
      -- what is below the child has its name in front, and more
      have childPaths : ∀ o ∈ children.objects service (above ++ [name]), ∃ more, more ≠ [] ∧
          (∀ n ∈ name :: more, NodeName n) ∧ o.1 = ⟨service, pathOf (above ++ name :: more)⟩ := by
        intro o member
        obtain ⟨first, more, _, deeper, path⟩ := forest_paths service children (above ++ [name]) legalBelow o member
        refine ⟨first :: more, List.cons_ne_nil _ _, ?_, ?_⟩
        · intro n inside
          rcases List.mem_cons.mp inside with rfl | rest
          · exact named
          · exact deeper n rest
        · rw [path, List.append_assoc, List.singleton_append]
      rw [Forest.objects, List.map_cons, List.map_append, List.nodup_cons, List.nodup_append]
      refine ⟨?_, below (above ++ [name]) legalBelow validHere, later above legalLater valid, ?_⟩
      · intro member
        rcases List.mem_append.mp member with child | sibling
        · obtain ⟨o, inside, same⟩ := List.mem_map.mp child
          obtain ⟨more, nonempty, deeper, path⟩ := childPaths o inside
          rw [path, DBInstance.mk.injEq] at same
          have equal := path_of_below above (name :: more) [name] valid deeper validName same.2
          exact nonempty (List.cons.inj equal).2
        · obtain ⟨o, inside, same⟩ := List.mem_map.mp sibling
          obtain ⟨other, more, found, deeper, path⟩ := forest_paths service siblings above legalLater o inside
          rw [path, DBInstance.mk.injEq] at same
          have equal := path_of_below above (other :: more) [name] valid deeper validName same.2
          exact fresh ((List.cons.inj equal).1 ▸ found)
      · intro a child b sibling same
        obtain ⟨o, inside, rfl⟩ := List.mem_map.mp child
        obtain ⟨p, beside, rfl⟩ := List.mem_map.mp sibling
        obtain ⟨more, _, deeper, path⟩ := childPaths o inside
        obtain ⟨other, rest, found, valid', also⟩ := forest_paths service siblings above legalLater p beside
        rw [path, also, DBInstance.mk.injEq] at same
        have equal := path_of_below above (name :: more) (other :: rest) valid deeper valid' same.2
        exact fresh ((List.cons.inj equal).1 ▸ found)

theorem service_distinct (root : DBObject) (legal : root.Legal) : ((root.objects service).map Prod.fst).Nodup := by
  rw [DBObject.objects, List.map_cons, List.nodup_cons]
  refine ⟨?_, forest_distinct service root.children [] legal.2 (by simp)⟩
  intro member
  obtain ⟨o, inside, same⟩ := List.mem_map.mp member
  obtain ⟨name, rest, _, valid, path⟩ := forest_paths service root.children [] legal.2 o inside
  rw [path, DBInstance.mk.injEq] at same
  have equal := path_of_below [] (name :: rest) [] (by simp) valid (by simp) same.2
  simp at equal

theorem service_bus (root : DBObject) (legal : root.Legal) : ∀ o ∈ root.objects service, o.1.bus = service ∧ LegalInterfaces o.2 := by
  intro o member
  rcases List.mem_cons.mp member with rfl | below
  · exact ⟨rfl, legal.1⟩
  · obtain ⟨name, rest, _, _, path⟩ := forest_paths service root.children [] legal.2 o below
    exact ⟨by rw [path], forest_interfaces service root.children [] legal.2 o below⟩

end Paths

theorem objects_legal (bus : String → Option DBObject) (services : List String) (served : Served bus services) :
    ∀ o ∈ objects bus services, o.1.bus ∈ services ∧ LegalInterfaces o.2 := by
  intro o member
  obtain ⟨service, inside, found⟩ := List.mem_flatMap.mp member
  obtain ⟨root, answers, legal⟩ := served service inside
  rw [answers, Option.map_some, Option.getD_some] at found
  obtain ⟨same, ifaces⟩ := service_bus service root legal o found
  exact ⟨same ▸ inside, ifaces⟩

theorem objects_distinct (bus : String → Option DBObject) (services : List String) (distinct : services.Nodup)
    (served : Served bus services) : ((objects bus services).map Prod.fst).Nodup := by
  induction services with
  | nil => exact List.nodup_nil
  | cons service rest ih =>
      obtain ⟨fresh, later⟩ := List.nodup_cons.mp distinct
      obtain ⟨root, answers, legal⟩ := served service List.mem_cons_self
      have servedRest : Served bus rest := fun other member => served other (List.mem_cons_of_mem _ member)
      rw [objects, List.flatMap_cons, answers, Option.map_some, Option.getD_some, List.map_append, List.nodup_append]
      refine ⟨service_distinct service root legal, ih later servedRest, ?_⟩
      intro a first b second same
      obtain ⟨o, inside, rfl⟩ := List.mem_map.mp first
      obtain ⟨p, beside, rfl⟩ := List.mem_map.mp second
      have busO := (service_bus service root legal o inside).1
      have busP := (objects_legal bus rest servedRest p beside).1
      exact fresh (busO ▸ same ▸ busP)

theorem listings_legal (objs : List (DBInstance × List InterfaceNode)) (legal : ∀ o ∈ objs, LegalInterfaces o.2) :
    ∀ l ∈ listings objs, LegalInterface l.2 := by
  intro l member
  obtain ⟨o, inside, found⟩ := List.mem_flatMap.mp member
  obtain ⟨iface, listed, rfl⟩ := List.mem_map.mp found
  exact (legal o inside).2 iface listed

theorem listings_of_exists (key : DBInterfaceName) (objs : List (DBInstance × List InterfaceNode)) :
    listingsOf key (listings objs) ≠ [] ↔ ∃ o ∈ objs, Lists key o := by
  constructor
  · intro some
    obtain ⟨l, member⟩ := List.exists_mem_of_ne_nil _ some
    obtain ⟨listed, names⟩ := List.mem_filter.mp member
    obtain ⟨o, inside, found⟩ := List.mem_flatMap.mp listed
    obtain ⟨iface, there, rfl⟩ := List.mem_map.mp found
    exact ⟨o, inside, iface, there, by simpa using names⟩
  · intro lists
    obtain ⟨o, inside, iface, there, names⟩ := lists
    have listed : (o.1, iface) ∈ listings objs := List.mem_flatMap.mpr ⟨o, inside, List.mem_map_of_mem there⟩
    exact List.ne_nil_of_mem (List.mem_filter.mpr ⟨listed, by simpa using names⟩)

theorem run_is_exact (bus : String → Option DBObject) (services : List String) (distinct : services.Nodup)
    (served : Served bus services) (fuel : Nat) (enough : depth bus services < fuel) :
    ∃ r, run (introspect bus) fuel services = some r ∧
      (∀ key, (r.interfaces key).isSome ↔ ∃ o ∈ objects bus services, Lists key o) ∧
      ∀ key iface, r.interfaces key = some iface →
        iface.name = key ∧ iface.instances = instancesOf key (objects bus services) ∧ iface.instances.Nodup ∧
          ∃ l, (listings (objects bus services)).find? (fun l => Names key l.2) = some l ∧ InterfaceReflected l.2 iface := by
  have legal := fun o member => (objects_legal bus services served o member).2
  have legalListings := listings_legal (objects bus services) legal
  obtain ⟨r, folded, _, entries⟩ := fold_listings (listings (objects bus services)) .empty legalListings
  refine ⟨r, ?_, ?_, ?_⟩
  · rw [run, run_walks bus fuel services .empty served enough, fold_objects, folded]
  · intro key
    rw [← listings_of_exists, entries key]
    cases found : listingsOf key (listings (objects bus services)) with
    | nil => simp [collect, DBReflection.empty]
    | cons l rest =>
        have member : l ∈ listingsOf key (listings (objects bus services)) := found ▸ List.mem_cons_self
        obtain ⟨first, _, collected, _⟩ := collect_new key l rest (legalListings l (List.mem_filter.mp member).1)
        simp [DBReflection.empty, collected]
  · intro key iface entry
    rw [entries key] at entry
    cases found : listingsOf key (listings (objects bus services)) with
    | nil => simp [found, collect, DBReflection.empty] at entry
    | cons l rest =>
        have member : l ∈ listingsOf key (listings (objects bus services)) := found ▸ List.mem_cons_self
        obtain ⟨first, reflected, collected, named⟩ := collect_new key l rest (legalListings l (List.mem_filter.mp member).1)
        rw [found, DBReflection.empty, collected] at entry
        obtain rfl := Option.some.inj entry
        have instances : (l :: rest).map Prod.fst = instancesOf key (objects bus services) := by
          rw [← found, listings_instances key (objects bus services) legal]
        have head : (listings (objects bus services)).find? (fun l => Names key l.2) = some l := by
          rw [← List.head?_filter]
          exact congrArg List.head? found
        have spec := reflect_interface_spec key l.2 l.1 first reflected
        refine ⟨named, instances, ?_, l, head, spec.methods, spec.properties⟩
        show ((l :: rest).map Prod.fst).Nodup
        rw [instances]
        exact (objects_distinct bus services distinct served).sublist (List.filter_sublist.map _)

-- A service with one object below its root, both of which list the same interface, its methods out of order.
def exampleInterface : InterfaceNode :=
  ⟨"org.bluez.Agent", [⟨"Release", [⟨"reason", "s", "in"⟩, ⟨"released", "b", "out"⟩]⟩, ⟨"Cancel", []⟩], [⟨"Powered", "readwrite", "b"⟩]⟩

def exampleBus (service : String) : Option DBObject :=
  if service = "org.bluez" then some ⟨[exampleInterface], .node "hci" [exampleInterface] .nil .nil⟩ else none

theorem example_legal : LegalInterfaces [exampleInterface] := by
  refine ⟨List.nodup_singleton _, ?_⟩
  intro node member
  rw [List.mem_singleton.mp member]
  exact ⟨by unfold WellNamed; decide, by decide, by decide⟩

theorem example_served : Served exampleBus ["org.bluez"] := by
  intro service member
  rw [List.mem_singleton.mp member]
  refine ⟨_, rfl, example_legal, ?_, ?_, example_legal, trivial, trivial⟩
  · exact ⟨by decide, by decide⟩
  · exact List.not_mem_nil

theorem run_is_exact_on_one_service :
    ∃ r, run (introspect exampleBus) 2 ["org.bluez"] = some r ∧
      (∀ key, (r.interfaces key).isSome ↔ ∃ o ∈ objects exampleBus ["org.bluez"], Lists key o) ∧
      ∀ key iface, r.interfaces key = some iface →
        iface.name = key ∧ iface.instances = instancesOf key (objects exampleBus ["org.bluez"]) ∧ iface.instances.Nodup ∧
          ∃ l, (listings (objects exampleBus ["org.bluez"])).find? (fun l => Names key l.2) = some l ∧ InterfaceReflected l.2 iface :=
  run_is_exact exampleBus ["org.bluez"] (by decide) example_served 2 (by decide)

end Toolbox8.DBus
