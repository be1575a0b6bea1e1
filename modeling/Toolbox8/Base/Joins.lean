import Mathlib.Order.Bounds.Basic
import Toolbox8.Base.Visits

set_option autoImplicit false

namespace Toolbox8.Base

section Joins

variable {α L : Type} [SemilatticeSup L] (meaning : α → L) (join : α → α → Except Stop α)

-- A join returns, and what it returns means the least upper bound.
structure JoinLaw : Prop where
  total : ∀ a b, ∃ c, join a b = .ok c
  sup : ∀ a b c, join a b = .ok c → meaning c = meaning a ⊔ meaning b

variable {meaning join} (law : JoinLaw meaning join)

include law

theorem join_means (a b : α) : (join a b).map meaning = .ok (meaning a ⊔ meaning b) := by
  obtain ⟨c, joined⟩ := law.total a b
  rw [joined, ← law.sup a b c joined]
  rfl

theorem join_means_comm (a b : α) : (join a b).map meaning = (join b a).map meaning := by
  rw [join_means law, join_means law, sup_comm]

theorem join_means_idem (a : α) : (join a a).map meaning = .ok (meaning a) := by
  rw [join_means law, sup_idem]

theorem join_means_assoc (a b c : α) :
    (join a b >>= fun ab => join ab c).map meaning = (join b c >>= fun bc => join a bc).map meaning := by
  obtain ⟨ab, first⟩ := law.total a b
  obtain ⟨bc, second⟩ := law.total b c
  rw [first, second]
  calc (join ab c).map meaning
      = .ok (meaning ab ⊔ meaning c) := join_means law ab c
    _ = .ok (meaning a ⊔ meaning bc) := by rw [law.sup a b ab first, law.sup b c bc second, sup_assoc]
    _ = (join a bc).map meaning := (join_means law a bc).symm

theorem fold_join_least (a : α) (rest : List α) (c : α) (done : rest.foldlM join a = .ok c) :
    IsLUB {m | ∃ b ∈ a :: rest, meaning b = m} (meaning c) := by
  induction rest generalizing a with
  | nil =>
      obtain rfl := Except.ok.inj done
      have single : {m | ∃ b ∈ [a], meaning b = m} = {meaning a} := by
        ext m
        simp [eq_comm]
      rw [single]
      exact isLUB_singleton
  | cons b rest ih =>
      rw [List.foldlM_cons] at done
      obtain ⟨ab, joined, later⟩ := (bind_ok _ _ _).mp done
      have upper := ih ab later
      constructor
      · rintro m ⟨d, member, rfl⟩
        have above : meaning a ⊔ meaning b ≤ meaning c := by
          rw [← law.sup a b ab joined]
          exact upper.1 ⟨ab, List.mem_cons_self, rfl⟩
        rcases List.mem_cons.mp member with rfl | others
        · exact le_sup_left.trans above
        · rcases List.mem_cons.mp others with rfl | more
          · exact le_sup_right.trans above
          · exact upper.1 ⟨d, List.mem_cons_of_mem _ more, rfl⟩
      · intro bound bounds
        apply upper.2
        rintro m ⟨d, member, rfl⟩
        rcases List.mem_cons.mp member with rfl | more
        · rw [law.sup a b d joined]
          exact sup_le (bounds ⟨a, List.mem_cons_self, rfl⟩)
            (bounds ⟨b, List.mem_cons_of_mem _ List.mem_cons_self, rfl⟩)
        · exact bounds ⟨d, List.mem_cons_of_mem _ (List.mem_cons_of_mem _ more), rfl⟩

theorem fold_join_members (a b : α) (as bs : List α) (c d : α) (first : as.foldlM join a = .ok c)
    (second : bs.foldlM join b = .ok d)
    (same : ∀ m, (∃ x ∈ a :: as, meaning x = m) ↔ ∃ y ∈ b :: bs, meaning y = m) : meaning c = meaning d := by
  have sets : {m | ∃ x ∈ a :: as, meaning x = m} = {m | ∃ y ∈ b :: bs, meaning y = m} := Set.ext same
  have least := fold_join_least law a as c first
  rw [sets] at least
  exact least.unique (fold_join_least law b bs d second)

end Joins

end Toolbox8.Base
