import Toolbox8.Multiplex

set_option autoImplicit false

namespace Toolbox8.AkkaStreamCoding.Multiplex

open Base

def isInternal : Event → Prop
  | .emit _ _ _ => False
  | _ => True

def sent (c : Connection) (side : Side) (header : Byte) : List ByteString := ((c.peer side).group header).emitted

def entered (c : Connection) (side : Side) (header : Byte) : List ByteString := ((c.peer side).group header).received

-- Nothing is left between the flows of the two sides.
def Quiet (c : Connection) : Prop :=
  ∀ side, (c.peer side).prepended = [] ∧ c.wire side = [] ∧
    ∀ header, ((c.peer side).group header).queued = [] ∧ ((c.peer side).group header).pending = []

def Group.work (group : Group) : Nat := group.queued.length + 3 * group.pending.length

def Peer.work (p : Peer) : Nat := p.prepended.length + (p.groups.map Group.work).sum

-- The internal steps that are left: setting up a flow, and three for every pending element.
def work (c : Connection) : Nat :=
  (c.peer .near).work + (c.peer .far).work + 2 * ((c.wire .near).length + (c.wire .far).length)

theorem work_sides (c : Connection) (side : Side) :
    work c = (c.peer side).work + (c.peer side.other).work + 2 * ((c.wire side).length + (c.wire side.other).length) := by
  cases side with
  | near => rfl
  | far =>
      simp only [work, Side.other]
      omega

theorem modify_work (p : Peer) (header : Byte) (f : Group → Group) (group : Group)
    (found : p.find header = some group) : (p.modify header f).work + group.work = p.work + (f group).work := by
  have changed := sum_modify_keyed Group.header header f Group.work p.groups group found
  simp only [Peer.work, Peer.modify]
  omega

theorem internal_works (n : Nat) (few : n ≤ 128) (c : Connection) (event : Event) (next : Connection)
    (inv : Invariant n c) (internal : isInternal event) (stepped : step n c event = some next) : work next < work c := by
  cases step_moved n few c next event inv stepped with
  | prepend side header rest left absent =>
      have opened : (((c.peer side).skip rest).openGroup header).work + 1 = (c.peer side).work := by
        simp only [Peer.work, Peer.openGroup, Peer.skip, left, List.map_append, List.sum_append, List.length_cons]
        simp [Group.work, Group.opened]
        omega
      rw [work_sides _ side, work_sides c side]
      simp only [set_peer_here, set_peer_there, set_peer_wire]
      omega
  | deliver side header data rest group onWire found =>
      have changed := modify_work _ header (fun g => { g with queued := g.queued ++ [data] }) group found
      have kept := set_wire_there side.other rest
        (c.setPeer side ((c.peer side).modify header (fun g => { g with queued := g.queued ++ [data] })))
      simp only [Group.work, List.length_append, List.length_singleton] at changed
      rw [other_other] at kept
      rw [work_sides _ side, work_sides c side, kept, onWire]
      simp only [set_peer_here, set_peer_there, set_peer_wire, set_wire_peer, set_wire_here, List.length_cons]
      omega
  | enter side header data rest group found waiting =>
      have changed := modify_work _ header
        (fun g => { g with queued := rest, received := g.received ++ [data] }) group found
      simp only [Group.work, waiting, List.length_cons] at changed
      rw [work_sides _ side, work_sides c side]
      simp only [set_peer_here, set_peer_there, set_peer_wire]
      omega
  | emit side header bs group found => exact False.elim internal
  | merge side header bs rest group found waiting =>
      have changed := modify_work _ header (fun g => { g with pending := rest }) group found
      simp only [Group.work, waiting, List.length_cons] at changed
      rw [work_sides _ side, work_sides c side]
      simp only [set_peer_here, set_peer_there, set_peer_wire, set_wire_peer, set_wire_here, set_wire_there,
        List.length_append, List.length_singleton]
      omega

theorem modify_keeps_emitted (c : Connection) (side target : Side) (header other : Byte) (f : Group → Group)
    (group : Group) (keeps : ∀ g, (f g).header = g.header ∧ (f g).emitted = g.emitted)
    (found : (c.peer side).find header = some group) :
    sent (c.setPeer side ((c.peer side).modify header f)) target other = sent c target other := by
  unfold sent
  cases side_cases target side with
  | inl here =>
      subst here
      rw [set_peer_here]
      by_cases same : other = header
      · subst same
        rw [group_modify_same _ other f group (fun g => (keeps g).1) found, (keeps group).2,
          group_of_find _ other group found]
      · rw [group_modify_other _ header other f (fun g => (keeps g).1) same]
  | inr there =>
      subst there
      rw [set_peer_there]

theorem set_wire_keeps_sent (c : Connection) (side target : Side) (header : Byte) (frames : List ByteString) :
    sent (c.setWire side frames) target header = sent c target header := rfl

theorem open_keeps_sent (c : Connection) (side target : Side) (header other : Byte) (rest : List ByteString)
    (absent : (c.peer side).find header = none) :
    sent (c.setPeer side (((c.peer side).skip rest).openGroup header)) target other = sent c target other := by
  unfold sent
  cases side_cases target side with
  | inl here =>
      subst here
      rw [set_peer_here, group_after_open ((c.peer target).skip rest) header other absent]
      rfl
  | inr there =>
      subst there
      rw [set_peer_there]

theorem internal_keeps_sent (n : Nat) (few : n ≤ 128) (c : Connection) (event : Event) (next : Connection)
    (inv : Invariant n c) (internal : isInternal event) (stepped : step n c event = some next)
    (target : Side) (other : Byte) : sent next target other = sent c target other := by
  cases step_moved n few c next event inv stepped with
  | prepend side header rest left absent => exact open_keeps_sent c side target header other rest absent
  | deliver side header data rest group onWire found =>
      rw [set_wire_keeps_sent]
      exact modify_keeps_emitted c side target header other _ group (fun _ => ⟨rfl, rfl⟩) found
  | enter side header data rest group found waiting =>
      exact modify_keeps_emitted c side target header other _ group (fun _ => ⟨rfl, rfl⟩) found
  | emit side header bs group found => exact False.elim internal
  | merge side header bs rest group found waiting =>
      rw [set_wire_keeps_sent]
      exact modify_keeps_emitted c side target header other _ group (fun _ => ⟨rfl, rfl⟩) found

theorem emit_sent (n : Nat) (few : n ≤ 128) (c next : Connection) (side target : Side) (header other : Byte)
    (bs : ByteString) (inv : Invariant n c) (stepped : step n c (.emit side header bs) = some next) :
    sent next target other = sent c target other ++ if target = side ∧ other = header then [bs] else [] := by
  cases step_moved n few c next _ inv stepped with
  | emit side header bs group found =>
      unfold sent
      rcases side_cases target side with rfl | rfl
      · rw [set_peer_here]
        by_cases same : other = header
        · subst same
          have changed := group_modify_same _ other (fun g => { g with emitted := g.emitted ++ [bs], pending := g.pending ++ [bs] })
            group (fun _ => rfl) found
          rw [changed, group_of_find _ other group found]
          simp
        · have kept := group_modify_other (c.peer target) header other
            (fun g => { g with emitted := g.emitted ++ [bs], pending := g.pending ++ [bs] }) (fun _ => rfl) same
          rw [kept]
          simp [same]
      · rw [set_peer_there]
        simp

-- What a flow emits in a run, read off the run.
def emission (side : Side) (header : Byte) : Event → Option ByteString
  | .emit source other bs => if source = side ∧ other = header then some bs else none
  | _ => none

def emissions (events : List Event) (side : Side) (header : Byte) : List ByteString := events.filterMap (emission side header)

theorem step_sent (n : Nat) (few : n ≤ 128) (c : Connection) (event : Event) (next : Connection) (inv : Invariant n c)
    (stepped : step n c event = some next) (side : Side) (header : Byte) :
    sent next side header = sent c side header ++ emissions [event] side header := by
  cases event with
  | emit source other bs =>
      rw [emit_sent n few c next source side other header bs inv stepped]
      by_cases same : side = source ∧ header = other
      · simp [emissions, emission, same]
      · have apart : ¬ (source = side ∧ other = header) := fun back => same ⟨back.1.symm, back.2.symm⟩
        simp [emissions, emission, same, apart]
  | _ =>
      refine (internal_keeps_sent n few c _ next inv ?_ stepped side header).trans ?_
      · trivial
      · simp [emissions, emission]

theorem run_sent (n : Nat) (few : n ≤ 128) (c final : Connection) (events : List Event) (inv : Invariant n c)
    (ran : (connection n).run c events = some final) (side : Side) (header : Byte) :
    sent final side header = sent c side header ++ emissions events side header := by
  induction events generalizing c with
  | nil =>
      cases ran
      simp [emissions]
  | cons event rest ih =>
      obtain ⟨next, stepped, later⟩ := Option.bind_eq_some_iff.mp ran
      have front := step_sent n few c event next inv stepped side header
      rw [ih next (step_invariant n few c event next inv stepped) later, front, List.append_assoc, emissions, emissions, emissions,
        ← List.filterMap_append, List.singleton_append]

theorem internal_emissions (events : List Event) (internal : ∀ event ∈ events, isInternal event) (side : Side) (header : Byte) :
    emissions events side header = [] := by
  rw [emissions, List.filterMap_eq_nil_iff]
  intro event member
  cases event with
  | emit source other bs => exact (internal _ member).elim
  | _ => rfl

theorem healthy_step (n : Nat) (c next : Connection) (event : Event) (inv : Invariant n c)
    (moved : move n c event = some next) : step n c event = some next := by
  simp [step, (inv.peers event.side).healthy, moved]

-- A group with something left is in the map, since the entry of an unopened one is empty.
theorem busy_group_found (p : Peer) (header : Byte)
    (busy : ¬ ((p.group header).queued = [] ∧ (p.group header).pending = [])) :
    p.find header = some (p.group header) := by
  cases found : p.find header with
  | none => simp [Peer.group, found, Group.opened] at busy
  | some group => rw [group_of_find p header group found]

theorem busy_group_enabled (n : Nat) (c : Connection) (side : Side) (header : Byte)
    (busy : ¬ (((c.peer side).group header).queued = [] ∧ ((c.peer side).group header).pending = [])) :
    ∃ event next, isInternal event ∧ move n c event = some next := by
  have found := busy_group_found _ header busy
  cases queued : ((c.peer side).group header).queued with
  | cons data rest => exact ⟨.enter side header, _, trivial, by simp only [move, found, queued]; rfl⟩
  | nil =>
      cases pending : ((c.peer side).group header).pending with
      | cons bs rest => exact ⟨.merge side header, _, trivial, by simp only [move, found, pending]; rfl⟩
      | nil => exact absurd ⟨queued, pending⟩ busy

theorem busy_side_enabled (n : Nat) (c : Connection) (side : Side)
    (busy : ¬ ((c.peer side).prepended = [] ∧ c.wire side.other = [])) :
    ∃ event next, isInternal event ∧ move n c event = some next := by
  cases left : (c.peer side).prepended with
  | cons frame rest => exact ⟨.prepend side, _, trivial, by simp only [move, left]; rfl⟩
  | nil =>
      cases onWire : c.wire side.other with
      | cons frame rest => exact ⟨.deliver side, _, trivial, by simp only [move, left, onWire]; rfl⟩
      | nil => exact absurd ⟨left, onWire⟩ busy

theorem not_quiet_enabled (n : Nat) (c : Connection) (inv : Invariant n c) (busy : ¬ Quiet c) :
    ∃ event next, isInternal event ∧ step n c event = some next := by
  suffices moves : ∃ event next, isInternal event ∧ move n c event = some next by
    obtain ⟨event, next, internal, moved⟩ := moves
    exact ⟨event, next, internal, healthy_step n c next event inv moved⟩
  by_contra stuck
  refine busy (fun side => ⟨?_, ?_, ?_⟩)
  · by_contra left
    exact stuck (busy_side_enabled n c side (fun empty => left empty.1))
  · by_contra onWire
    exact stuck (busy_side_enabled n c side.other (fun empty => onWire (by simpa using empty.2)))
  · intro header
    by_contra waiting
    exact stuck (busy_group_enabled n c side header waiting)

-- What one side has sent on a flow and the other side's flow has not drawn yet, oldest first.
def inTransit (c : Connection) (side : Side) (header : Byte) : List ByteString :=
  ((c.peer side.other).group header).queued ++ payloads header (c.wire side) ++ ((c.peer side).group header).pending

theorem sent_entered (n : Nat) (c : Connection) (inv : Invariant n c) (side : Side) (header : Byte) :
    sent c side header = entered c side.other header ++ inTransit c side header := by
  have books := inv.conserved side header
  simp only [Peer.inbox, List.append_assoc] at books
  simp only [sent, entered, inTransit, List.append_assoc, books]

theorem quiet_nothing_in_transit (c : Connection) (quiet : Quiet c) (side : Side) (header : Byte) :
    inTransit c side header = [] := by
  obtain ⟨_, onWire, here⟩ := quiet side
  obtain ⟨_, _, there⟩ := quiet side.other
  simp [inTransit, onWire, (here header).2, (there header).1, payloads]

theorem open_emits (n : Nat) (c : Connection) (side : Side) (header : Byte) (bs : ByteString) (group : Group) (inv : Invariant n c)
    (found : (c.peer side).find header = some group) (fits : (header :: bs).length ≤ framingLimit) :
    ∃ next, step n c (.emit side header bs) = some next :=
  ⟨_, healthy_step n c _ (.emit side header bs) inv (by simp only [move, found, if_pos fits]; rfl)⟩

theorem modify_keeps_open (p : Peer) (header other : Byte) (f : Group → Group) (group : Group)
    (keeps : ∀ g, (f g).header = g.header) (found : p.find other = some group) :
    ∃ after, (p.modify header f).find other = some after := by
  by_cases same : other = header
  · subst same
    exact ⟨f group, (find_modify_same Group.header other f p.groups keeps).trans (by rw [← Peer.find, found]; rfl)⟩
  · exact ⟨group, (find_modify_other Group.header header other f p.groups keeps same).trans found⟩

theorem emit_keeps_open (n : Nat) (few : n ≤ 128) (c next : Connection) (side : Side) (header : Byte) (bs : ByteString) (group : Group)
    (inv : Invariant n c) (stepped : step n c (.emit side header bs) = some next) (found : (c.peer side).find header = some group) :
    ∃ after, (next.peer side).find header = some after := by
  cases step_moved n few c next _ inv stepped with
  | emit side header bs other here =>
      rw [set_peer_here]
      exact modify_keeps_open _ header header _ group (fun _ => rfl) found

-- One after the other, whatever else is under way.
theorem emits_all (n : Nat) (few : n ≤ 128) (c : Connection) (side : Side) (header : Byte) (contents : List ByteString)
    (group : Group) (inv : Invariant n c) (found : (c.peer side).find header = some group)
    (fits : ∀ bs ∈ contents, (header :: bs).length ≤ framingLimit) :
    ∃ final, (connection n).run c (contents.map (.emit side header)) = some final := by
  induction contents generalizing c group with
  | nil => exact ⟨c, rfl⟩
  | cons bs rest ih =>
      obtain ⟨next, stepped⟩ := open_emits n c side header bs group inv found (fits bs (by simp))
      obtain ⟨after, still⟩ := emit_keeps_open n few c next side header bs group inv stepped found
      obtain ⟨final, ran⟩ := ih next after (step_invariant n few c _ next inv stepped) still (fun b member => fits b (by simp [member]))
      exact ⟨final, by rw [List.map_cons, run_cons_of_step (connection n) c next _ _ stepped, ran]⟩

theorem emissions_of_emits (side : Side) (header : Byte) (contents : List ByteString) :
    emissions (contents.map (.emit side header)) side header = contents := by
  induction contents with
  | nil => rfl
  | cons bs rest ih => simpa [emissions, emission] using ih

-- What the multiplexed connection promises of a run and the state it has come to. sent is what the flows of a side have
-- emitted in the run, entered what the flows of the other side were given.
structure Transparent (n : Nat) (events : List Event) (c : Connection) : Prop where
  healthy : ∀ side, (c.peer side).failed = false
  emitted : ∀ side header, sent c side header = emissions events side header
  in_order : ∀ side header, emissions events side header = entered c side.other header ++ inTransit c side header
  opened : Quiet c → ∀ side, ∀ header ∈ flowHeaders n, ∃ group, (c.peer side).find header = some group
  emits : ∀ side header bs group, (c.peer side).find header = some group → (header :: bs).length ≤ framingLimit →
    ∃ next, step n c (.emit side header bs) = some next
  quiet_equal : Quiet c → ∀ side header, entered c side.other header = emissions events side header
  bounded : ∀ more final, (∀ event ∈ more, isInternal event) → (connection n).run c more = some final → more.length ≤ work c
  drains : ∃ more final, (∀ event ∈ more, isInternal event) ∧ (connection n).run c more = some final ∧
    Quiet final ∧ ∀ side header, entered final side.other header = emissions events side header
  carries : ∀ side, ∀ header ∈ flowHeaders n, ∀ contents : List ByteString,
    (∀ bs ∈ contents, (header :: bs).length ≤ framingLimit) → ∃ more final, (connection n).run c more = some final ∧
      Quiet final ∧ emissions more side header = contents ∧ entered final side.other header = emissions events side header ++ contents

theorem quiet_entered (n : Nat) (c : Connection) (inv : Invariant n c) (quiet : Quiet c) (side : Side) (header : Byte) :
    entered c side.other header = sent c side header := by
  rw [sent_entered n c inv, quiet_nothing_in_transit c quiet, List.append_nil]

theorem settles (n : Nat) (few : n ≤ 128) (c : Connection) (inv : Invariant n c) :
    ∃ more final, (∀ event ∈ more, isInternal event) ∧ (connection n).run c more = some final ∧ Invariant n final ∧
      Quiet final ∧ ∀ side header, entered final side.other header = sent c side header := by
  obtain ⟨more, final, internal, ran, quiet⟩ := internal_run_finishes (connection n) (Invariant n) isInternal Quiet
    work (step_invariant n few) (internal_works n few) (not_quiet_enabled n) c inv
  have invFinal := run_keeps (connection n) (Invariant n) (step_invariant n few) c final more inv ran
  refine ⟨more, final, internal, ran, invFinal, quiet, fun side header => ?_⟩
  rw [quiet_entered n final invFinal quiet, run_sent n few c final more inv ran, internal_emissions more internal, List.append_nil]

-- The connection settles, the flow emits, and the connection settles again.
theorem carries_all (n : Nat) (few : n ≤ 128) (c : Connection) (side : Side) (header : Byte) (contents : List ByteString)
    (inv : Invariant n c) (used : header ∈ flowHeaders n) (fits : ∀ bs ∈ contents, (header :: bs).length ≤ framingLimit) :
    ∃ more final, (connection n).run c more = some final ∧ Quiet final ∧ emissions more side header = contents ∧
      entered final side.other header = sent c side header ++ contents := by
  obtain ⟨before, settled, internal, ran, invSettled, quiet, _⟩ := settles n few c inv
  obtain ⟨group, found⟩ := all_opened n _ (invSettled.peers side) (quiet side).1 header used
  obtain ⟨sending, emitted⟩ := emits_all n few settled side header contents group invSettled found fits
  have invSending := run_keeps (connection n) (Invariant n) (step_invariant n few) settled sending _ invSettled emitted
  obtain ⟨after, final, internalAfter, arrives, _, quietFinal, same⟩ := settles n few sending invSending
  refine ⟨before ++ (contents.map (.emit side header) ++ after), final, ?_, quietFinal, ?_, ?_⟩
  · rw [run_append, ran, Option.bind_some, run_append, emitted, Option.bind_some, arrives]
  · have apart := emissions_of_emits side header contents
    have front := internal_emissions before internal side header
    have back := internal_emissions after internalAfter side header
    simp only [emissions] at apart front back
    simp only [emissions, List.filterMap_append, apart, front, back, List.nil_append, List.append_nil]
  · rw [same, run_sent n few settled sending _ invSettled emitted, emissions_of_emits, run_sent n few c settled before inv ran,
      internal_emissions before internal, List.append_nil]

theorem run_transparent (n : Nat) (positive : 1 ≤ n) (few : n ≤ 128) (events : List Event) (c : Connection)
    (ran : (connection n).run (connection n).initial events = some c) : Transparent n events c := by
  have start := initial_invariant n positive
  have inv := reachable_invariant n positive few c ⟨events, ran⟩
  have emitted : ∀ side header, sent c side header = emissions events side header := by
    intro side header
    rw [run_sent n few (connection n).initial c events start ran]
    rfl
  refine {
    healthy := fun side => (inv.peers side).healthy
    emitted := emitted
    in_order := fun side header => (emitted side header).symm.trans (sent_entered n c inv side header)
    opened := fun quiet side header used => all_opened n _ (inv.peers side) (quiet side).1 header used
    emits := fun side header bs group found fits => open_emits n c side header bs group inv found fits
    quiet_equal := fun quiet side header => (quiet_entered n c inv quiet side header).trans (emitted side header)
    bounded := ?_
    drains := ?_
    carries := ?_ }
  · intro more final internal moved
    have bound := internal_run_bounded (connection n) (Invariant n) isInternal work (step_invariant n few)
      (internal_works n few) c final more inv internal moved
    omega
  · obtain ⟨more, final, internal, moved, _, quiet, same⟩ := settles n few c inv
    exact ⟨more, final, internal, moved, quiet, fun side header => (same side header).trans (emitted side header)⟩
  · intro side header used contents fits
    obtain ⟨more, final, moved, quiet, sends, same⟩ := carries_all n few c side header contents inv used fits
    exact ⟨more, final, moved, quiet, sends, by rw [same, emitted]⟩

theorem multiplexed_frame_fits (input : Emission Data) (frame : ByteString) (header : Byte)
    (member : frame ∈ (Terminal.encoder input).elems) : (header :: frame).length ≤ framingLimit := by
  have short := Terminal.encoder_frame_length input frame member
  simp only [List.length_cons, framingLimit, Terminal.maxChunkSize] at short ⊢
  omega

theorem multiplex_transparent (n : Nat) (positive : 1 ≤ n) (few : n ≤ 128) :
    (∀ events c, (connection n).run (connection n).initial events = some c → Transparent n events c) ∧
      ∀ (input : Emission Data) (frame : ByteString) (header : Byte),
        frame ∈ (Terminal.encoder input).elems → (header :: frame).length ≤ framingLimit :=
  ⟨run_transparent n positive few, multiplexed_frame_fits⟩

-- Both sides emit on both flows, an empty element among them, and the flows are merged in another order.
def crossing : List Event :=
  [.prepend .near, .prepend .near, .prepend .far, .prepend .far, .emit .near 0 [7, 8], .emit .near 1 [], .emit .far 1 [9],
    .emit .near 0 [3], .merge .near 1, .merge .near 0, .deliver .far, .deliver .far, .enter .far 0, .enter .far 1, .merge .far 1,
    .merge .near 0]

theorem multiplex_transparent_two :
    ∃ c, (connection 2).run (connection 2).initial crossing = some c ∧
      (sent c .near 0 = [[7, 8], [3]] ∧ entered c .far 0 = [[7, 8]] ∧ entered c .far 1 = [[]]) ∧ Transparent 2 crossing c ∧
      ∀ (input : Emission Data) (frame : ByteString) (header : Byte),
        frame ∈ (Terminal.encoder input).elems → (header :: frame).length ≤ framingLimit := by
  have ran : ((connection 2).run (connection 2).initial crossing).map
      (fun c => (sent c .near 0, entered c .far 0, entered c .far 1)) = some ([[7, 8], [3]], [[7, 8]], [[]]) := by decide +kernel
  obtain ⟨c, run, outcome⟩ := Option.map_eq_some_iff.mp ran
  simp only [Prod.mk.injEq] at outcome
  obtain ⟨transparent, fits⟩ := multiplex_transparent 2 (by decide) (by decide)
  exact ⟨c, run, outcome, transparent crossing c run, fits⟩

end Toolbox8.AkkaStreamCoding.Multiplex
