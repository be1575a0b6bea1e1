import Toolbox8.JarCacheUploaderRuns
import Mathlib.Algebra.BigOperators.Group.List.Basic

set_option autoImplicit false

namespace Toolbox8.JarCacheUploader

open Base JarCacheActor

-- The steps that are left to a transfer, its Finished, the event of that and the Done.
def Phase.work : Phase → Nat
  | .created => 6
  | .started => 5
  | .finished => 4
  | .reported => 0

def pendingWork : Pending → Nat
  | .persisting (.verify _ missing) => 6 * missing.length + 3
  | .persisted (.verify _ missing) => 6 * missing.length + 2
  | .persisting (.put _) => 3
  | .persisted (.put _) => 2

def transfersWork (transfers : List Transfer) : Nat := (transfers.map (fun t => t.phase.work)).sum

def channelWork (asked : List Nat) (channel : Nat → List Reply) : Nat := (asked.map (fun u => (channel u).length)).sum

section Work

variable (keysOf : Nat → List JarKey)

def askingWork (asking : List Nat) : Nat := (asking.map (fun u => 6 * (keysOf u).length + 4)).sum

def work (s : System) : Nat :=
  askingWork keysOf s.asking + (s.cache.pending.map pendingWork).getD 0 + transfersWork s.transfers + channelWork s.asked s.channel

theorem set_transfer_work (transfers : List Transfer) (target : Nat) (t : Transfer) (phase : Phase)
    (here : transfers[target]? = some t) :
    transfersWork (transfers.set target { t with phase := phase }) + t.phase.work = transfersWork transfers + phase.work :=
  sum_set (fun t => t.phase.work) transfers target t { t with phase := phase } here

theorem start_transfers_work (targets : List Nat) (transfers : List Transfer)
    (each : ∀ target ∈ targets, ∃ t, transfers[target]? = some t ∧ (t.phase = .created ∨ t.phase = .started)) :
    transfersWork (startTransfers targets transfers) ≤ transfersWork transfers := by
  induction targets generalizing transfers with
  | nil => exact Nat.le_refl _
  | cons first rest ih =>
      obtain ⟨t, here, waits⟩ := each first List.mem_cons_self
      have modified : transfers.modify first Transfer.begin = transfers.set first { t with phase := .started } := by
        rw [List.modify_eq_set_getElem?, here]
        rfl
      have less : transfersWork (transfers.modify first Transfer.begin) ≤ transfersWork transfers := by
        have counted := set_transfer_work transfers first t .started here
        rw [← modified] at counted
        rcases waits with created | started
        · simp only [created, Phase.work] at counted
          omega
        · simp only [started, Phase.work] at counted
          omega
      refine Nat.le_trans (ih _ ?_) less
      intro target member
      obtain ⟨u, there, idle⟩ := each target (List.mem_cons_of_mem _ member)
      rw [List.getElem?_modify, there]
      by_cases same : first = target
      · exact ⟨u.begin, by simp [same], .inr rfl⟩
      · exact ⟨u, by simp [same], idle⟩

theorem channel_length (channel : Nat → List Reply) (u : Nat) (replies : List Reply) :
    (fun v => (Function.update channel u replies v).length) = Function.update (fun v => (channel v).length) u replies.length := by
  funext v
  by_cases here : v = u
  · subst here
    simp
  · simp [Function.update_of_ne here]

theorem tell_work (asked : List Nat) (channel : Nat → List Reply) (u : Nat) (m : Reply) (distinct : asked.Nodup) :
    channelWork asked (tell channel u m) ≤ channelWork asked channel + 1 := by
  have counted := sum_update (fun v => (channel v).length) u (channel u ++ [m]).length asked distinct
  rw [← channel_length, List.length_append, List.length_singleton] at counted
  simp only [channelWork, tell]
  split at counted <;> omega

theorem take_work (asked : List Nat) (channel : Nat → List Reply) (u : Nat) (m : Reply) (rest : List Reply) (distinct : asked.Nodup)
    (member : u ∈ asked) (head : channel u = m :: rest) :
    channelWork asked (Function.update channel u rest) + 1 = channelWork asked channel := by
  have counted := sum_update (fun v => (channel v).length) u rest.length asked distinct
  rw [← channel_length, if_pos member, if_pos member, head, List.length_cons] at counted
  simp only [channelWork]
  omega

theorem channel_asked (s : System) (u : Nat) (m : Reply) (rest : List Reply) (inv : Invariant keysOf s)
    (head : s.channel u = m :: rest) : u ∈ s.asked := by
  have tickets := inv.tickets u
  obtain ⟨_, due⟩ := due_reply keysOf s u m rest inv head
  by_contra unasked
  rw [if_neg unasked, head, List.countP_cons] at tickets
  cases grants : m.grants with
  | true => simp [grants] at tickets
  | false => simp [due, grants] at tickets

theorem verify_work (asking : List Nat) (state : JarCacheActor.State) (u : Nat) (missing : List JarKey) (member : u ∈ asking)
    (walked : missing.Perm (missingKeys state (keysOf u))) :
    askingWork keysOf (asking.erase u) + (6 * missing.length + 4) ≤ askingWork keysOf asking := by
  have counted := List.sum_map_erase (fun u => 6 * (keysOf u).length + 4) member
  have fewer : missing.length ≤ (keysOf u).length := by
    rw [walked.length_eq]
    exact Nat.le_trans (List.length_filter_le _ _) (List.dedup_sublist _).length_le
  simp only [askingWork]
  omega

theorem created_work (running : List Finished) (sender : Nat) :
    transfersWork (running.map (fun f => ⟨f, sender, .created⟩)) = 6 * running.length := by
  induction running with
  | nil => rfl
  | cons f rest ih =>
      simp only [transfersWork, List.map_cons, List.sum_cons, List.length_cons, Phase.work] at ih ⊢
      omega

theorem step_works (s next : System) (event : Event) (inv : Invariant keysOf s) (created : ∀ u, event ≠ .preStart u)
    (asks : ∀ keys, event ≠ .get keys) (stepped : step keysOf s event = some next) : work keysOf next < work keysOf s := by
  cases event with
  | preStart u => exact absurd rfl (created u)
  | get keys => exact absurd rfl (asks keys)
  | verifyRequest u missing =>
      simp only [step, JarCacheActor.step, Option.ite_none_right_eq_some, Option.map_eq_some_iff, Option.some.injEq] at stepped
      obtain ⟨member, _, ⟨⟨idle, walked⟩, rfl⟩, rfl⟩ := stepped
      have less := verify_work keysOf s.asking s.cache.state u missing member walked
      simp only [work, idle, Option.map_some, Option.map_none, Option.getD_some, Option.getD_none, pendingWork]
      omega
  | persist =>
      simp only [step, JarCacheActor.step, Option.map_eq_some_iff] at stepped
      obtain ⟨cache, persisted, rfl⟩ := stepped
      split at persisted
      · rename_i command pending
        obtain rfl := Option.some.inj persisted
        cases command with
        | verify startId missing =>
            simp only [work, pending, Option.map_some, Option.getD_some, pendingWork]
            omega
        | put running =>
            simp only [work, pending, Option.map_some, Option.getD_some, pendingWork]
            omega
      · cases persisted
  | handle order =>
      have told := fun m => tell_work s.asked s.channel s.sender m inv.asked
      simp only [step] at stepped
      split at stepped
      · rename_i startId missing pending
        simp only [JarCacheActor.step, pending, Option.map_some, Option.ite_none_right_eq_some, Option.some.injEq] at stepped
        obtain ⟨_, rfl⟩ := stepped
        have less := told (.jarsRequest order)
        have more := created_work (Command.verify startId missing).requests s.sender
        have length : (Command.verify startId missing).requests.length = missing.length := by simp [Command.requests]
        simp only [work, pending, Option.map_some, Option.map_none, Option.getD_some, Option.getD_none, pendingWork, transfersWork,
          List.map_append, List.sum_append] at more ⊢
        omega
      · rename_i running pending
        simp only [JarCacheActor.step, pending, Option.map_some, Option.some.injEq] at stepped
        subst stepped
        have less := told .done
        simp only [work, pending, Option.map_some, Option.map_none, Option.getD_some, Option.getD_none, pendingWork]
        omega
      · cases stepped
  | receive u =>
      simp only [step] at stepped
      split at stepped
      · cases stepped
      · rename_i m rest head
        obtain rfl := Option.some.inj stepped
        obtain ⟨running, due⟩ := due_reply keysOf s u m rest inv head
        obtain ⟨_, split, _⟩ := receive_sound (s.uploaders u) m (inv.sound u) running due
        obtain ⟨_, each⟩ := taken_created keysOf s u _ _ inv (taken_requests s u m rest _ _ head split)
        have less := take_work s.asked s.channel u m rest inv.asked (channel_asked keysOf s u m rest inv head) head
        have started := start_transfers_work (((s.uploaders u).receive m).2.map JarRequest.target) s.transfers ?_
        · simp only [work]
          omega
        · intro target member
          obtain ⟨t, here, _, waits⟩ := each target member
          exact ⟨t, here, .inl waits⟩
  | complete target =>
      simp only [step] at stepped
      split at stepped
      · cases stepped
      · rename_i t here
        simp only [Option.ite_none_right_eq_some, Option.some.injEq] at stepped
        obtain ⟨started, rfl⟩ := stepped
        have counted := set_transfer_work s.transfers target t .finished here
        simp only [started, Phase.work] at counted
        simp only [work]
        omega
  | finished target =>
      simp only [step] at stepped
      split at stepped
      · cases stepped
      · rename_i t here
        simp only [JarCacheActor.step, Option.ite_none_right_eq_some, Option.map_eq_some_iff, Option.some.injEq] at stepped
        obtain ⟨finished, _, ⟨⟨idle, _⟩, rfl⟩, rfl⟩ := stepped
        have counted := set_transfer_work s.transfers target t .reported here
        simp only [finished, Phase.work] at counted
        simp only [work, idle, Option.map_some, Option.map_none, Option.getD_some, Option.getD_none, pendingWork]
        omega

theorem step_asked (s next : System) (event : Event) (created : ∀ u, event ≠ .preStart u)
    (stepped : step keysOf s event = some next) : next.asked = s.asked := by
  cases event with
  | preStart u => exact absurd rfl (created u)
  | verifyRequest u missing =>
      obtain ⟨_, verifies⟩ := Option.ite_none_right_eq_some.mp stepped
      obtain ⟨cache, _, rfl⟩ := Option.map_eq_some_iff.mp verifies
      rfl
  | get keys =>
      obtain ⟨cache, _, rfl⟩ := Option.map_eq_some_iff.mp stepped
      rfl
  | persist =>
      obtain ⟨cache, _, rfl⟩ := Option.map_eq_some_iff.mp stepped
      rfl
  | handle order =>
      simp only [step] at stepped
      split at stepped
      · obtain ⟨_, handled⟩ := Option.ite_none_right_eq_some.mp stepped
        obtain ⟨cache, _, rfl⟩ := Option.map_eq_some_iff.mp handled
        rfl
      · obtain ⟨cache, _, rfl⟩ := Option.map_eq_some_iff.mp stepped
        rfl
      · cases stepped
  | receive u =>
      simp only [step] at stepped
      split at stepped
      · cases stepped
      · rw [← Option.some.inj stepped]
  | complete target =>
      simp only [step] at stepped
      split at stepped
      · cases stepped
      · obtain ⟨_, same⟩ := Option.ite_none_right_eq_some.mp stepped
        rw [← Option.some.inj same]
  | finished target =>
      simp only [step] at stepped
      split at stepped
      · cases stepped
      · obtain ⟨_, finishes⟩ := Option.ite_none_right_eq_some.mp stepped
        obtain ⟨cache, _, rfl⟩ := Option.map_eq_some_iff.mp finishes
        rfl

theorem stopped_asked (s : System) (u : Nat) (inv : Invariant keysOf s) (stopped : (s.uploaders u).state.stopped = true) :
    u ∈ s.asked := by
  have tickets := inv.tickets u
  have requested := ((inv.sound u).stops.mp stopped).1
  by_contra unasked
  rw [if_pos requested, if_neg unasked] at tickets
  omega

end Work

end Toolbox8.JarCacheUploader
