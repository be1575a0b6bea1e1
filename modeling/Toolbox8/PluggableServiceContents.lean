import Toolbox8.PluggableService

set_option autoImplicit false

namespace Toolbox8.PluggableService

variable {Ref Instance Previous : Type} (request : PlugRequest → Prop) (asker : Ref → Prop)

def Evt.Holds : Evt → Prop
  | .plugRequest r => request r
  | .clear => True

def Message.Holds : Message Ref Instance → Prop
  | .evt e sender => e.Holds request ∧ asker sender
  | .pluggingComplete _ replyTo => ∀ ref ∈ replyTo, asker ref
  | _ => True

-- Every request in the actor, and everybody that it will tell Done or has told so.
structure System.Holds (s : System Ref Instance) : Prop where
  state : ∀ r ∈ s.state.request, request r
  stash : ∀ m ∈ s.stash, m.Holds request asker
  mailbox : ∀ m ∈ s.mailbox, m.Holds request asker
  pending : ∀ p ∈ s.pending, p.e.Holds request ∧ asker p.sender
  recovering : ∀ journal ∈ s.recovering, ∀ e ∈ journal, e.Holds request
  running : ∀ p ∈ s.running, (∀ r ∈ p.request, request r) ∧ ∀ ref ∈ p.replyTo, asker ref
  journal : ∀ e ∈ s.journal, e.Holds request
  replies : ∀ ref, (ref, .done) ∈ s.replies → asker ref

theorem update_state_holds (state : State) (e : Evt) (holds : e.Holds request) :
    ∀ r ∈ (updateState state e).request, request r := by
  cases e with
  | plugRequest r =>
      intro other same
      rw [Option.mem_def, updateState, Option.some.injEq] at same
      exact same ▸ holds
  | clear => simp [updateState]

theorem do_plugging_holds (s : System Ref Instance) (replyTo : Option Ref) (holds : s.Holds request asker)
    (asks : ∀ ref ∈ replyTo, asker ref) : (s.doPlugging replyTo).Holds request asker := by
  refine { holds with running := ?_ }
  intro p member
  rcases List.mem_append.mp member with old | new
  · exact holds.running p old
  · rw [List.mem_singleton.mp new]
    exact ⟨holds.state, asks⟩

theorem receive_command_holds (s : System Ref Instance) (m : Message Ref Instance) (holds : s.Holds request asker)
    (told : m.Holds request asker) : (s.receiveCommand m).Holds request asker := by
  have stashed : ∀ other ∈ s.stash ++ [m], other.Holds request asker := by
    intro other member
    rcases List.mem_append.mp member with old | new
    · exact holds.stash other old
    · exact List.mem_singleton.mp new ▸ told
  cases m with
  | pluggingComplete plugged replyTo =>
      refine { holds with stash := by simp [System.receiveCommand], mailbox := ?_, replies := ?_ }
      · intro m member
        exact (List.mem_append.mp member).elim (holds.stash m) (holds.mailbox m)
      · intro ref member
        rcases List.mem_append.mp member with old | new
        · exact holds.replies ref old
        · obtain ⟨other, inside, same⟩ := List.mem_map.mp new
          rw [Prod.mk.injEq] at same
          exact same.1 ▸ told other (Option.mem_toList.mp inside)
  | failure => exact holds
  | getPlugged sender =>
      simp only [System.receiveCommand]
      split
      · exact { holds with stash := stashed }
      · refine { holds with replies := fun ref member => holds.replies ref ?_ }
        simpa using member
  | evt e sender =>
      simp only [System.receiveCommand]
      split
      · exact { holds with stash := stashed }
      · refine { holds with pending := ?_ }
        intro p same
        rw [← Option.some.inj same]
        exact told
  | query sender =>
      refine { holds with replies := fun ref member => holds.replies ref ?_ }
      simpa [System.receiveCommand] using member

theorem step_holds (s next : System Ref Instance) (event : Event Ref Instance Previous) (holds : s.Holds request asker)
    (arrives : ∀ m, event = .arrive m → m.Holds request asker) (stepped : step s event = some next) :
    next.Holds request asker := by
  cases event with
  | arrive m =>
      obtain ⟨_, same⟩ := Option.ite_none_left_eq_some.mp stepped
      rw [← Option.some.inj same]
      refine { holds with mailbox := ?_ }
      intro other member
      rcases List.mem_append.mp member with old | new
      · exact holds.mailbox other old
      · exact List.mem_singleton.mp new ▸ arrives m rfl
  | receive =>
      simp only [step] at stepped
      split at stepped
      · rename_i m rest _ _ head
        rw [← Option.some.inj stepped]
        have inside := holds.mailbox
        rw [head] at inside
        exact receive_command_holds request asker { s with mailbox := rest } m
          { holds with mailbox := fun other member => inside other (List.mem_cons_of_mem _ member) } (inside m List.mem_cons_self)
      · cases stepped
  | persist =>
      simp only [step] at stepped
      split at stepped
      · rename_i e sender pending
        rw [← Option.some.inj stepped]
        have here := holds.pending _ pending
        refine { holds with pending := ?_, journal := ?_ }
        · intro p same
          rw [← Option.some.inj same]
          exact here
        · intro other member
          rcases List.mem_append.mp member with old | new
          · exact holds.journal other old
          · exact List.mem_singleton.mp new ▸ here.1
      · cases stepped
  | handle =>
      simp only [step] at stepped
      split at stepped
      · rename_i e sender pending
        rw [← Option.some.inj stepped]
        obtain ⟨known, asks⟩ := holds.pending _ pending
        refine do_plugging_holds request asker _ (some sender) ?_ (by rintro _ ⟨⟩; exact asks)
        exact { holds with
          state := update_state_holds request s.state e known
          pending := by simp }
      · cases stepped
  | complete index world =>
      simp only [step] at stepped
      split at stepped
      · cases stepped
      · rename_i p here
        have asks := (holds.running p (List.mem_of_getElem? here)).2
        have fewer : ∀ other ∈ s.running.eraseIdx index,
            (∀ r ∈ other.request, request r) ∧ ∀ ref ∈ other.replyTo, asker ref :=
          fun other member => holds.running other (List.mem_of_mem_eraseIdx member)
        split at stepped
        · rw [← Option.some.inj stepped]
          refine { holds with running := fewer, mailbox := ?_ }
          intro m member
          rcases List.mem_append.mp member with old | new
          · exact holds.mailbox m old
          · exact List.mem_singleton.mp new ▸ asks
        · rw [← Option.some.inj stepped]
          refine { holds with running := fewer, mailbox := ?_ }
          intro m member
          rcases List.mem_append.mp member with old | new
          · exact holds.mailbox m old
          · exact List.mem_singleton.mp new ▸ trivial
  | recover =>
      obtain ⟨journal, recovering, rfl⟩ := Option.map_eq_some_iff.mp stepped
      have known := holds.recovering journal recovering
      cases journal with
      | nil => exact do_plugging_holds request asker _ none { holds with recovering := by simp } (by simp)
      | cons e rest =>
          refine { holds with
            state := update_state_holds request s.state e (known e List.mem_cons_self)
            recovering := ?_ }
          intro others same other member
          rw [← Option.some.inj same] at member
          exact known other (List.mem_cons_of_mem _ member)
  | restart =>
      rw [← Option.some.inj stepped]
      refine { holds with
        state := by simp
        stash := by simp
        mailbox := ?_
        pending := by simp
        recovering := ?_
        running := ?_ }
      · intro m member
        exact (List.mem_append.mp member).elim (holds.stash m) (holds.mailbox m)
      · intro others same
        rw [← Option.some.inj same]
        exact holds.journal
      · intro p member
        obtain ⟨other, inside, rfl⟩ := List.mem_map.mp member
        exact holds.running other inside
  | crash =>
      rw [← Option.some.inj stepped]
      refine { holds with
        state := by simp
        stash := by simp
        mailbox := by simp
        pending := by simp
        recovering := ?_
        running := by simp }
      intro others same
      rw [← Option.some.inj same]
      exact holds.journal

theorem holds_weaken (s : System Ref Instance) (wider : PlugRequest → Prop) (others : Ref → Prop) (holds : s.Holds request asker)
    (requests : ∀ r, request r → wider r) (askers : ∀ ref, asker ref → others ref) : s.Holds wider others := by
  have evts : ∀ e : Evt, e.Holds request → e.Holds wider := by
    intro e known
    cases e with
    | plugRequest r => exact requests r known
    | clear => trivial
  have messages : ∀ m : Message Ref Instance, m.Holds request asker → m.Holds wider others := by
    intro m told
    cases m with
    | evt e sender => exact ⟨evts e told.1, askers sender told.2⟩
    | pluggingComplete plugged replyTo => exact fun ref member => askers ref (told ref member)
    | _ => trivial
  exact {
    state := fun r member => requests r (holds.state r member)
    stash := fun m member => messages m (holds.stash m member)
    mailbox := fun m member => messages m (holds.mailbox m member)
    pending := fun p member => ⟨evts p.e (holds.pending p member).1, askers p.sender (holds.pending p member).2⟩
    recovering := fun journal member e inside => evts e (holds.recovering journal member e inside)
    running := fun p member =>
      ⟨fun r same => requests r ((holds.running p member).1 r same), fun ref same => askers ref ((holds.running p member).2 ref same)⟩
    journal := fun e member => evts e (holds.journal e member)
    replies := fun ref member => askers ref (holds.replies ref member) }

theorem step_running (s next : System Ref Instance) (event : Event Ref Instance Previous)
    (other : ∀ index world, event ≠ .complete index world) (alive : event ≠ .crash) (stepped : step s event = some next) :
    ∃ kept, kept.map Plugging.request = s.running.map Plugging.request ∧
      (next.running = kept ∨ ∃ p, next.running = kept ++ [p]) := by
  cases event with
  | arrive m =>
      obtain ⟨_, same⟩ := Option.ite_none_left_eq_some.mp stepped
      exact ⟨s.running, rfl, .inl (by rw [← Option.some.inj same])⟩
  | receive =>
      simp only [step] at stepped
      split at stepped
      · rename_i m rest _ _ _
        refine ⟨s.running, rfl, .inl ?_⟩
        rw [← Option.some.inj stepped]
        cases m <;> simp only [System.receiveCommand] <;> split <;> rfl
      · cases stepped
  | persist =>
      simp only [step] at stepped
      split at stepped
      · exact ⟨s.running, rfl, .inl (by rw [← Option.some.inj stepped])⟩
      · cases stepped
  | handle =>
      simp only [step] at stepped
      split at stepped
      · rename_i e sender pending
        exact ⟨s.running, rfl, .inr ⟨_, by rw [← Option.some.inj stepped]; rfl⟩⟩
      · cases stepped
  | complete index world => exact absurd rfl (other index world)
  | recover =>
      obtain ⟨journal, _, rfl⟩ := Option.map_eq_some_iff.mp stepped
      cases journal with
      | nil => exact ⟨s.running, rfl, .inr ⟨_, rfl⟩⟩
      | cons e rest => exact ⟨s.running, rfl, .inl rfl⟩
  | restart =>
      refine ⟨next.running, ?_, .inl rfl⟩
      rw [← Option.some.inj stepped]
      simp [Function.comp_def]
  | crash => exact absurd rfl alive

end Toolbox8.PluggableService
