import Mathlib.Data.Set.Finite.Basic
import Mathlib.Logic.Relation
import Mathlib.Order.WellFounded

set_option autoImplicit false

namespace Toolbox8.Base

-- Why a recursion has no value: its fuel has run out, or it has thrown.
inductive Stop where
  | outOfFuel
  | thrown
deriving DecidableEq, Repr

theorem ok_of_some {α : Type} (x : Except Stop α) (found : x.toOption.isSome = true) : ∃ a, x = .ok a := by
  cases x with
  | error stop => simp [Except.toOption] at found
  | ok a => exact ⟨a, rfl⟩

theorem ok_of_map {α β : Type} (x : Except Stop α) (f : α → β) (b : β) (found : x.toOption.map f = some b) :
    ∃ a, x = .ok a ∧ f a = b := by
  cases x with
  | error stop => simp [Except.toOption] at found
  | ok a => exact ⟨a, rfl, Option.some.inj found⟩

theorem bind_ok {ε α β : Type} (x : Except ε α) (next : α → Except ε β) (b : β) :
    x >>= next = .ok b ↔ ∃ a, x = .ok a ∧ next a = .ok b := by
  cases x with
  | error stop => simp [bind, Except.bind]
  | ok a => simp [bind, Except.bind]

theorem map_ok {ε α β : Type} (x : Except ε α) (f : α → β) (b : β) : x.map f = .ok b ↔ ∃ a, x = .ok a ∧ f a = b := by
  cases x with
  | error stop => simp [Except.map]
  | ok a => simp [Except.map]

theorem map_m_cons_ok {α β : Type} (f : α → Except Stop β) (a : α) (as : List α) (bs : List β) :
    (a :: as).mapM f = .ok bs ↔ ∃ b rest, f a = .ok b ∧ as.mapM f = .ok rest ∧ bs = b :: rest := by
  rw [List.mapM_cons, bind_ok]
  constructor
  · rintro ⟨b, first, later⟩
    obtain ⟨rest, others, same⟩ := (bind_ok _ _ _).mp later
    exact ⟨b, rest, first, others, (Except.ok.inj same).symm⟩
  · rintro ⟨b, rest, first, others, rfl⟩
    exact ⟨b, first, (bind_ok _ _ _).mpr ⟨rest, others, rfl⟩⟩

theorem map_m_mem {α β : Type} (f : α → Except Stop β) (as : List α) (bs : List β) (done : as.mapM f = .ok bs) (b : β) :
    b ∈ bs ↔ .ok b ∈ as.map f := by
  induction as generalizing bs with
  | nil =>
      rw [← Except.ok.inj done]
      simp
  | cons a rest ih =>
      obtain ⟨first, others, here, there, rfl⟩ := (map_m_cons_ok f a rest bs).mp done
      rw [List.mem_cons, ih others there, List.map_cons, List.mem_cons, here, Except.ok.injEq]

theorem map_m_all {α β : Type} (f : α → Except Stop β) (as : List α) (bs : List β) (done : as.mapM f = .ok bs) (a : α)
    (member : a ∈ as) : ∃ b, f a = .ok b := by
  induction as generalizing bs with
  | nil => exact absurd member List.not_mem_nil
  | cons first rest ih =>
      obtain ⟨b, others, here, there, _⟩ := (map_m_cons_ok f first rest bs).mp done
      rcases List.mem_cons.mp member with rfl | later
      · exact ⟨b, here⟩
      · exact ih others there later

theorem map_m_map {α β κ : Type} (f : α → Except Stop β) (key : β → κ) (name : α → κ) (as : List α) (bs : List β)
    (done : as.mapM f = .ok bs) (each : ∀ a ∈ as, ∀ b, f a = .ok b → key b = name a) : bs.map key = as.map name := by
  induction as generalizing bs with
  | nil =>
      rw [← Except.ok.inj done]
      rfl
  | cons a rest ih =>
      obtain ⟨b, others, here, there, rfl⟩ := (map_m_cons_ok f a rest bs).mp done
      rw [List.map_cons, List.map_cons, each a List.mem_cons_self b here,
        ih others there (fun c member => each c (List.mem_cons_of_mem _ member))]

theorem map_m_total {α β : Type} (f : α → Except Stop β) (as : List α) (all : ∀ a ∈ as, ∃ b, f a = .ok b) :
    ∃ bs, as.mapM f = .ok bs := by
  induction as with
  | nil => exact ⟨[], rfl⟩
  | cons a rest ih =>
      obtain ⟨b, here⟩ := all a List.mem_cons_self
      obtain ⟨bs, there⟩ := ih (fun c member => all c (List.mem_cons_of_mem _ member))
      exact ⟨b :: bs, (map_m_cons_ok f a rest _).mpr ⟨b, bs, here, there, rfl⟩⟩

section Recursion

variable {α : Type}

-- The calls one after the other, up to the first that has no value.
def each (call : α → Except Stop Unit) : List α → Except Stop Unit
  | [] => .ok ()
  | a :: rest => call a >>= fun _ => each call rest

variable (calls : α → List α) (fails : α → Bool)

-- A recursion that makes its calls in order and may then throw.
def visit : Nat → α → Except Stop Unit
  | 0, _ => .error .outOfFuel
  | fuel + 1, a => each (visit fuel) (calls a) >>= fun _ => if fails a then .error .thrown else .ok ()

def Terminates (a : α) : Prop := ∃ fuel, visit calls fails fuel a ≠ .error .outOfFuel

def Refers (a b : α) : Prop := b ∈ calls a

-- Nothing that a leads to fails or leads back to itself.
def Sound (a : α) : Prop :=
  ∀ b, Relation.ReflTransGen (Refers calls) a b → ¬ Relation.TransGen (Refers calls) b b ∧ fails b = false

-- The calls that are made for a: each one whose predecessors are sound.
def Reached (a b : α) : Prop := ∃ front back, calls a = front ++ b :: back ∧ ∀ c ∈ front, Sound calls fails c

-- Where finitely many elements can be reached and none of them leads back to itself, a property that each element has
-- if all those after it have it is one of the first element.
theorem acyclic_induction (r : α → α → Prop) (a : α) (finite : {b | Relation.ReflTransGen r a b}.Finite)
    (acyclic : ∀ b, Relation.ReflTransGen r a b → ¬ Relation.TransGen r b b) (holds : α → Prop)
    (step : ∀ b, (∀ c, r b c → holds c) → holds b) : holds a := by
  let onward (x y : {b // Relation.ReflTransGen r a b}) : Prop := Relation.TransGen r y.val x.val
  have finiteType : Finite {b // Relation.ReflTransGen r a b} := finite.to_subtype
  have irreflexive : Std.Irrefl onward := ⟨fun x cycle => acyclic x.val x.property cycle⟩
  have transitive : IsTrans _ onward := ⟨fun _ _ _ first second => second.trans first⟩
  have wellFounded : WellFounded onward := Finite.wellFounded_of_trans_of_irrefl onward
  have all : ∀ x : {b // Relation.ReflTransGen r a b}, holds x.val := by
    intro x
    induction x using wellFounded.induction with
    | _ x ih =>
        apply step
        intro c next
        exact ih ⟨c, x.property.tail next⟩ (Relation.TransGen.single next)
  exact all ⟨a, .refl⟩

theorem reached_refers (a b : α) (reached : Reached calls fails a b) : Refers calls a b := by
  obtain ⟨front, back, split, _⟩ := reached
  rw [Refers, split]
  exact List.mem_append_right front List.mem_cons_self

theorem each_mono (f g : α → Except Stop Unit) (as : List α) (agree : ∀ a, f a ≠ .error .outOfFuel → g a = f a)
    (done : each f as ≠ .error .outOfFuel) : each g as = each f as := by
  induction as with
  | nil => rfl
  | cons a rest ih =>
      rw [each] at done ⊢
      rw [each]
      cases first : f a with
      | error stop =>
          have known : f a ≠ .error .outOfFuel := by
            intro out
            rw [out] at done
            exact done rfl
          rw [agree a known, first]
          rfl
      | ok value =>
          rw [first] at done
          rw [agree a (by rw [first]; simp), first]
          exact ih done

theorem visit_succ (fuel : Nat) (a : α) (done : visit calls fails fuel a ≠ .error .outOfFuel) :
    visit calls fails (fuel + 1) a = visit calls fails fuel a := by
  induction fuel generalizing a with
  | zero => exact absurd rfl done
  | succ fuel ih =>
      have inner : each (visit calls fails fuel) (calls a) ≠ .error .outOfFuel := by
        intro out
        rw [visit, out] at done
        exact done rfl
      rw [visit, each_mono (visit calls fails fuel) (visit calls fails (fuel + 1)) (calls a) ih inner]
      rfl

theorem visit_mono (fuel more : Nat) (a : α) (le : fuel ≤ more) (done : visit calls fails fuel a ≠ .error .outOfFuel) :
    visit calls fails more a = visit calls fails fuel a := by
  induction le with
  | refl => rfl
  | step _ ih => rw [visit_succ calls fails _ a (by rw [ih]; exact done), ih]

theorem each_ok (call : α → Except Stop Unit) (as : List α) (done : each call as = .ok ()) : ∀ a ∈ as, call a = .ok () := by
  induction as with
  | nil => simp
  | cons first rest ih =>
      rw [each] at done
      cases here : call first with
      | error stop => simp [here, bind, Except.bind] at done
      | ok value =>
          rw [here] at done
          intro a member
          rcases List.mem_cons.mp member with rfl | later
          · exact here
          · exact ih done a later

theorem visit_ok (fuel : Nat) (a : α) (done : visit calls fails fuel a = .ok ()) :
    fails a = false ∧ ∃ less, fuel = less + 1 ∧ ∀ b ∈ calls a, visit calls fails less b = .ok () := by
  cases fuel with
  | zero => simp [visit] at done
  | succ less =>
      rw [visit] at done
      cases inner : each (visit calls fails less) (calls a) with
      | error stop => simp [inner, bind, Except.bind] at done
      | ok value =>
          cases failing : fails a with
          | true => simp [inner, failing, bind, Except.bind] at done
          | false => exact ⟨rfl, less, rfl, each_ok _ (calls a) inner⟩

theorem onward_ok (fuel : Nat) (a b : α) (done : visit calls fails fuel a = .ok ())
    (onward : Relation.TransGen (Refers calls) a b) : ∃ less, less < fuel ∧ visit calls fails less b = .ok () := by
  induction onward with
  | single refers =>
      obtain ⟨_, less, rfl, all⟩ := visit_ok calls fails fuel a done
      exact ⟨less, Nat.lt_succ_self less, all _ refers⟩
  | tail _ refers ih =>
      obtain ⟨middle, below, reached⟩ := ih
      obtain ⟨_, less, rfl, all⟩ := visit_ok calls fails middle _ reached
      exact ⟨less, Nat.lt_of_succ_lt below, all _ refers⟩

theorem ok_no_cycle (fuel : Nat) (a : α) (done : visit calls fails fuel a = .ok ()) :
    ¬ Relation.TransGen (Refers calls) a a := by
  induction fuel using Nat.strongRecOn with
  | ind fuel ih =>
      intro cycle
      obtain ⟨less, below, again⟩ := onward_ok calls fails fuel a a done cycle
      exact ih less below again cycle

theorem ok_sound (fuel : Nat) (a : α) (done : visit calls fails fuel a = .ok ()) : Sound calls fails a := by
  intro b reaches
  rcases Relation.reflTransGen_iff_eq_or_transGen.mp reaches with rfl | onward
  · exact ⟨ok_no_cycle calls fails fuel b done, (visit_ok calls fails fuel b done).1⟩
  · obtain ⟨less, _, reached⟩ := onward_ok calls fails fuel a b done onward
    exact ⟨ok_no_cycle calls fails less b reached, (visit_ok calls fails less b reached).1⟩

theorem sound_calls (a : α) (sound : Sound calls fails a) (b : α) (refers : b ∈ calls a) : Sound calls fails b :=
  fun c reaches => sound c (Relation.ReflTransGen.head refers reaches)

theorem each_no_throw (call : α → Except Stop Unit) (as : List α) (calm : ∀ a ∈ as, call a ≠ .error .thrown) :
    each call as ≠ .error .thrown := by
  induction as with
  | nil => simp [each]
  | cons a rest ih =>
      rw [each]
      cases here : call a with
      | error stop =>
          have other := calm a List.mem_cons_self
          rw [here] at other
          exact other
      | ok value => exact ih (fun b member => calm b (List.mem_cons_of_mem _ member))

theorem sound_no_throw (fuel : Nat) (a : α) (sound : Sound calls fails a) : visit calls fails fuel a ≠ .error .thrown := by
  induction fuel generalizing a with
  | zero => simp [visit]
  | succ fuel ih =>
      have inner := each_no_throw (visit calls fails fuel) (calls a)
        (fun b refers => ih b (sound_calls calls fails a sound b refers))
      rw [visit]
      cases here : each (visit calls fails fuel) (calls a) with
      | error stop =>
          rw [here] at inner
          exact inner
      | ok value =>
          have calm := (sound a .refl).2
          simp [calm, bind, Except.bind]

theorem sound_no_cycle (a : α) (sound : Sound calls fails a) (b : α)
    (reaches : Relation.ReflTransGen (Reached calls fails) a b) :
    ¬ Relation.TransGen (Reached calls fails) b b := by
  intro cycle
  have back := Relation.TransGen.mono (reached_refers calls fails) b b cycle
  exact (sound b (Relation.ReflTransGen.mono (reached_refers calls fails) a b reaches)).1 back

theorem cycle_out_of_fuel (fuel : Nat) (a b : α) (reaches : Relation.ReflTransGen (Reached calls fails) a b)
    (cycle : Relation.TransGen (Reached calls fails) b b) : visit calls fails fuel a = .error .outOfFuel := by
  induction fuel generalizing a b with
  | zero => rfl
  | succ fuel ih =>
      have onward : ∃ c, Reached calls fails a c ∧ Relation.ReflTransGen (Reached calls fails) c b := by
        rcases Relation.ReflTransGen.cases_head reaches with rfl | next
        · obtain ⟨c, first, later⟩ := Relation.TransGen.head'_iff.mp cycle
          exact ⟨c, first, later⟩
        · exact next
      obtain ⟨c, ⟨front, back, split, sound⟩, later⟩ := onward
      have stuck : each (visit calls fails fuel) (front ++ c :: back) = .error .outOfFuel := by
        clear split
        induction front with
        | nil =>
            rw [List.nil_append, each, ih c b later cycle]
            rfl
        | cons first rest again =>
            have calm := sound_no_throw calls fails fuel first (sound first List.mem_cons_self)
            rw [List.cons_append, each]
            cases here : visit calls fails fuel first with
            | error stop =>
                cases stop with
                | outOfFuel => rfl
                | thrown => exact absurd here calm
            | ok value => exact again (fun d member => sound d (List.mem_cons_of_mem _ member))
      rw [visit, split, stuck]
      rfl

theorem each_terminates (as : List α)
    (all : ∀ front c back, as = front ++ c :: back → (∀ d ∈ front, Sound calls fails d) → Terminates calls fails c) :
    ∃ fuel, each (visit calls fails fuel) as ≠ .error .outOfFuel := by
  induction as with
  | nil => exact ⟨0, by simp [each]⟩
  | cons a rest ih =>
      obtain ⟨fuel, done⟩ := all [] a rest rfl (by simp)
      cases here : visit calls fails fuel a with
      | error stop =>
          refine ⟨fuel, ?_⟩
          rw [here] at done
          rw [each, here]
          exact done
      | ok value =>
          have sound := ok_sound calls fails fuel a here
          have later : ∀ front c back, rest = front ++ c :: back → (∀ d ∈ front, Sound calls fails d) →
              Terminates calls fails c := by
            intro front c back split before
            apply all (a :: front) c back (by rw [split, List.cons_append])
            intro d member
            rcases List.mem_cons.mp member with rfl | inside
            · exact sound
            · exact before d inside
          obtain ⟨more, finished⟩ := ih later
          refine ⟨Nat.max fuel more, ?_⟩
          have first := visit_mono calls fails fuel (Nat.max fuel more) a (Nat.le_max_left _ _) done
          have others := each_mono (visit calls fails more) (visit calls fails (Nat.max fuel more)) rest
            (fun b known => visit_mono calls fails more (Nat.max fuel more) b (Nat.le_max_right _ _) known) finished
          rw [each, first, here]
          show each (visit calls fails (Nat.max fuel more)) rest ≠ .error .outOfFuel
          rw [others]
          exact finished

theorem terminates_iff (a : α) (finite : {b | Relation.ReflTransGen (Refers calls) a b}.Finite) :
    Terminates calls fails a ↔
      ∀ b, Relation.ReflTransGen (Reached calls fails) a b → ¬ Relation.TransGen (Reached calls fails) b b := by
  constructor
  · intro terminates b reaches cycle
    obtain ⟨fuel, done⟩ := terminates
    exact done (cycle_out_of_fuel calls fails fuel a b reaches cycle)
  · intro acyclic
    have fewer : {b | Relation.ReflTransGen (Reached calls fails) a b}.Finite :=
      finite.subset (fun b reaches => Relation.ReflTransGen.mono (reached_refers calls fails) a b reaches)
    apply acyclic_induction (Reached calls fails) a fewer acyclic (Terminates calls fails)
    intro b all
    obtain ⟨fuel, done⟩ := each_terminates calls fails (calls b)
      (fun front c back split before => all c ⟨front, back, split, before⟩)
    refine ⟨fuel + 1, ?_⟩
    rw [visit]
    cases inner : each (visit calls fails fuel) (calls b) with
    | error stop =>
        rw [inner] at done
        exact done
    | ok value =>
        cases failing : fails b with
        | true => simp [bind, Except.bind]
        | false => simp [bind, Except.bind]

-- A recursion that is also to return, and not only to end, leads to no element that fails.
theorem returns_iff (a : α) (finite : {b | Relation.ReflTransGen (Refers calls) a b}.Finite) :
    (∃ fuel, visit calls fails fuel a = .ok ()) ↔ Sound calls fails a := by
  constructor
  · rintro ⟨fuel, done⟩
    exact ok_sound calls fails fuel a done
  · intro sound
    obtain ⟨fuel, done⟩ := (terminates_iff calls fails a finite).mpr (sound_no_cycle calls fails a sound)
    have calm := sound_no_throw calls fails fuel a sound
    cases here : visit calls fails fuel a with
    | ok value => exact ⟨fuel, here⟩
    | error stop =>
        cases stop with
        | outOfFuel => exact absurd here done
        | thrown => exact absurd here calm

theorem map_m_each {β : Type} (f : α → Except Stop β) (as : List α) :
    (as.mapM f).map (fun _ => ()) = each (fun a => (f a).map (fun _ => ())) as := by
  induction as with
  | nil => rfl
  | cons a rest ih =>
      rw [List.mapM_cons, each, ← ih]
      cases f a with
      | error stop => rfl
      | ok b =>
          cases rest.mapM f with
          | error stop => rfl
          | ok bs => rfl

end Recursion

end Toolbox8.Base
