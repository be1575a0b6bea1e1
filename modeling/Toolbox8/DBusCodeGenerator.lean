import Toolbox8.DBReflector

set_option autoImplicit false

namespace Toolbox8.DBus

open Base

-- parent.toSeq.flatMap(_.segments) :+ name
def DBPackage.segments : DBPackage → List String
  | .none => []
  | .some name parent => parent.segments ++ [name]

def DBInterfaceName.segments (n : DBInterfaceName) : List String := n.pkg.segments ++ [n.name]

-- What DBusCodeGenerator.run writes into the annotation and the companion of an interface.
def dbusInterfaceName (iface : DBInterface) : String := ".".intercalate iface.name.segments

theorem from_reverse_segments_segments (segments : List String) :
    (DBPackage.fromReverseSegments segments).segments = segments.reverse := by
  induction segments with
  | nil => rfl
  | cons head tail ih => rw [DBPackage.fromReverseSegments, DBPackage.segments, ih, List.reverse_cons]

-- The last segment is handled apart, and the others come back in their order.
theorem from_name_segments (name : String) (key : DBInterfaceName) (parsed : DBInterfaceName.fromName name = some key) :
    key.segments = split '.' name := by
  rw [DBInterfaceName.fromName] at parsed
  cases reversed : (split '.' name).reverse with
  | nil => simp [reversed] at parsed
  | cons head tail =>
      rw [reversed] at parsed
      have forward : split '.' name = (head :: tail).reverse := by rw [← reversed, List.reverse_reverse]
      rw [← Option.some.inj parsed, DBInterfaceName.segments, from_reverse_segments_segments, forward, List.reverse_cons]

theorem joined_pieces (name : String) : ".".intercalate ((name.toList.splitOn '.').map String.ofList) = name := by
  apply String.toList_inj.mp
  have same : (String.toList ∘ String.ofList) = fun cs => cs := funext (fun cs => String.toList_ofList)
  rw [String.toList_intercalate, List.map_map, same, List.map_id']
  exact List.intercalate_splitOn '.'

theorem from_name_joined (name : String) (well : WellNamed name) (key : DBInterfaceName)
    (parsed : DBInterfaceName.fromName name = some key) : ".".intercalate key.segments = name := by
  rw [from_name_segments name key parsed, split_well_named name well, joined_pieces]

-- Every interface is kept under its own name.
def Keyed (acc : DBReflection) : Prop := ∀ key iface, acc.interfaces key = some iface → iface.name = key

theorem fold_keyed {α : Type} (f : DBReflection → α → Option DBReflection)
    (keeps : ∀ acc a next, Keyed acc → f acc a = some next → Keyed next) (as : List α) (acc final : DBReflection)
    (keyed : Keyed acc) (folded : as.foldlM f acc = some final) : Keyed final := by
  induction as generalizing acc with
  | nil =>
      rw [← Option.some.inj folded]
      exact keyed
  | cons a rest ih =>
      rw [List.foldlM_cons] at folded
      obtain ⟨next, first, later⟩ := Option.bind_eq_some_iff.mp folded
      exact ih next (keeps acc a next keyed first) later

theorem updated_interface_name (name : DBInterfaceName) (ifaceNode : InterfaceNode) (object : DBInstance)
    (known : Option DBInterface) (own : ∀ iface, known = some iface → iface.name = name) (added : DBInterface)
    (updated : updatedInterface name ifaceNode object known = some added) : added.name = name := by
  cases known with
  | some iface2 =>
      rw [← Option.some.inj updated]
      exact own iface2 rfl
  | none =>
      rw [updatedInterface, reflectInterface] at updated
      obtain ⟨methods, _, later⟩ := Option.bind_eq_some_iff.mp updated
      obtain ⟨props, _, same⟩ := Option.bind_eq_some_iff.mp later
      rw [← Option.some.inj same]

theorem add_interface_keyed (object : DBInstance) (acc next : DBReflection) (iface : InterfaceNode) (keyed : Keyed acc)
    (added : addInterface object acc iface = some next) : Keyed next := by
  rw [addInterface] at added
  obtain ⟨name, _, later⟩ := Option.bind_eq_some_iff.mp added
  by_cases known : name ∈ builtin
  · rw [if_pos known] at later
    rw [← Option.some.inj later]
    exact keyed
  · rw [if_neg known] at later
    obtain ⟨updated, made, same⟩ := Option.bind_eq_some_iff.mp later
    have named := updated_interface_name name iface object _ (fun iface2 found => keyed name iface2 found) updated made
    rw [← Option.some.inj same]
    intro key found here
    by_cases own : key = name
    · rw [own] at here
      have stored : updated = found := by simpa using here
      rw [← stored, named, own]
    · exact keyed key found (by simpa [own] using here)

section Connection

variable (conn : String → String → Option Introspection)

theorem obj_keyed (service : String) (fuel : Nat) (acc next : DBReflection) (objectName : String) (keyed : Keyed acc)
    (walked : obj conn service fuel acc objectName = some next) : Keyed next := by
  induction fuel generalizing acc next objectName with
  | zero => simp [obj] at walked
  | succ fuel ih =>
      rw [obj] at walked
      obtain ⟨introspection, _, afterIntrospection⟩ := Option.bind_eq_some_iff.mp walked
      obtain ⟨ifacesAdded, listed, children⟩ := Option.bind_eq_some_iff.mp afterIntrospection
      have own : Keyed ifacesAdded := by
        apply fold_keyed _ _ _ acc ifacesAdded keyed listed
        exact fun acc2 iface added => add_interface_keyed _ acc2 added iface
      apply fold_keyed _ _ _ ifacesAdded next own children
      exact fun acc2 nodeName after here => ih acc2 after _ here

theorem run_keyed (fuel : Nat) (services : List String) (reflection : DBReflection)
    (ran : run conn fuel services = some reflection) : Keyed reflection := by
  apply fold_keyed _ _ services .empty reflection _ ran
  · exact fun acc service next keyed => obj_keyed conn service fuel acc next "/" keyed
  · intro key iface found
    simp [DBReflection.empty] at found

end Connection

theorem interface_name_survives (name : String) (well : WellNamed name) :
    ∃ key, DBInterfaceName.fromName name = some key ∧ ".".intercalate key.segments = name ∧
      (∀ other, WellNamed other → DBInterfaceName.fromName other = some key → other = name) ∧
      ∀ conn fuel services reflection iface, run conn fuel services = some reflection →
        reflection.interfaces key = some iface → dbusInterfaceName iface = name := by
  obtain ⟨key, parsed⟩ := from_name_well_named name well
  refine ⟨key, parsed, from_name_joined name well key parsed, ?_, ?_⟩
  · intro other wellOther same
    exact from_name_injective other name wellOther well (same.trans parsed.symm)
  · intro conn fuel services reflection iface ran found
    rw [dbusInterfaceName, run_keyed conn fuel services reflection ran key iface found]
    exact from_name_joined name well key parsed

-- A bus whose objects all list the agent of bluez.
def agentConnection (_service _path : String) : Option Introspection := some ⟨[⟨"org.bluez.Agent", [], []⟩], []⟩

theorem agent_name_survives : WellNamed "org.bluez.Agent" ∧
    ∃ key reflection iface, DBInterfaceName.fromName "org.bluez.Agent" = some key ∧
      ".".intercalate key.segments = "org.bluez.Agent" ∧ run agentConnection 1 ["org.bluez"] = some reflection ∧
      reflection.interfaces key = some iface ∧ dbusInterfaceName iface = "org.bluez.Agent" := by
  have well : WellNamed "org.bluez.Agent" := by
    rw [WellNamed]
    decide
  obtain ⟨key, parsed, joined, _, annotated⟩ := interface_name_survives "org.bluez.Agent" well
  have known : key = ⟨.some "bluez" (.some "org" .none), "Agent"⟩ := Option.some.inj (parsed.symm.trans (by decide))
  cases ran : run agentConnection 1 ["org.bluez"] with
  | none =>
      have runs : (run agentConnection 1 ["org.bluez"]).isSome := by decide
      simp [ran] at runs
  | some reflection =>
      cases found : reflection.interfaces key with
      | none =>
          have listed : ((run agentConnection 1 ["org.bluez"]).bind (fun r =>
              r.interfaces ⟨.some "bluez" (.some "org" .none), "Agent"⟩)).isSome := by decide
          rw [known] at found
          simp [ran, found] at listed
      | some iface =>
          exact ⟨well, key, reflection, iface, parsed, joined, rfl, found,
            annotated agentConnection 1 ["org.bluez"] reflection iface ran found⟩

end Toolbox8.DBus
