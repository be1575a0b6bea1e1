import Toolbox8.Base.Keyed
import Toolbox8.Base.Transition
import Toolbox8.AkkaTerminal

set_option autoImplicit false

namespace Toolbox8.AkkaStreamCoding

open Base

def framingLimit : Nat := Terminal.maxChunkSize * 2

namespace Multiplex

inductive Side where
  | near
  | far
deriving DecidableEq, Repr

def Side.other : Side → Side
  | .near => .far
  | .far => .near

-- A substream of groupBy whose first element prefixAndTail(1) has taken. The flow of the
-- header draws from queued; its outputs wait in pending until mergeSubstreams takes them.
structure Group where
  header : Byte
  queued : List ByteString
  received : List ByteString
  emitted : List ByteString
  pending : List ByteString
deriving DecidableEq, Repr

def Group.opened (header : Byte) : Group := ⟨header, [], [], [], []⟩

structure Peer where
  prepended : List ByteString
  groups : List Group
  failed : Bool
deriving DecidableEq, Repr

-- idx.toByte for every index of the flows.
def flowHeaders (n : Nat) : List Byte := (List.range n).map (BitVec.ofNat 8)

-- groupBy requires maxSubstreams > 0.
def Peer.initial (n : Nat) : Peer := ⟨(flowHeaders n).map (fun header => [header]), [], n = 0⟩

-- flows(header) widens the header to an Int and fails outside of the indices.
def hasFlow (n : Nat) (header : Byte) : Bool := 0 ≤ header.toInt ∧ header.toInt < n

def Peer.modify (header : Byte) (f : Group → Group) (p : Peer) : Peer :=
  { p with groups := modifyKeyed Group.header header f p.groups }

def Peer.find (p : Peer) (header : Byte) : Option Group := findKeyed Group.header header p.groups

def Peer.openGroup (header : Byte) (p : Peer) : Peer := { p with groups := p.groups ++ [.opened header] }

def Peer.skip (rest : List ByteString) (p : Peer) : Peer := { p with prepended := rest }

-- One element through map(getByteHeader), groupBy and prefixAndTail(1).
def Peer.accept (n : Nat) (frame : ByteString) (p : Peer) : Peer :=
  match getByteHeader frame with
  | none => { p with failed := true }
  | some (header, data) =>
      match p.find header with
      | some _ => p.modify header (fun group => { group with queued := group.queued ++ [data] })
      | none =>
          if p.groups.length < n ∧ hasFlow n header then p.openGroup header
          else { p with failed := true }

-- The wire of a side holds the frames it has sent and the other side has not taken yet.
structure Connection where
  peer : Side → Peer
  wire : Side → List ByteString

def Connection.setPeer (side : Side) (p : Peer) (c : Connection) : Connection :=
  { c with peer := Function.update c.peer side p }

def Connection.setWire (side : Side) (frames : List ByteString) (c : Connection) : Connection :=
  { c with wire := Function.update c.wire side frames }

inductive Event where
  | prepend (side : Side)
  | deliver (side : Side)
  | enter (side : Side) (header : Byte)
  | emit (side : Side) (header : Byte) (bs : ByteString)
  | merge (side : Side) (header : Byte)
deriving DecidableEq, Repr

def Event.side : Event → Side
  | .prepend side => side
  | .deliver side => side
  | .enter side _ => side
  | .emit side _ _ => side
  | .merge side _ => side

def move (n : Nat) (c : Connection) : Event → Option Connection
  | .prepend side =>
      match (c.peer side).prepended with
      | [] => none
      | frame :: rest => some (c.setPeer side (((c.peer side).skip rest).accept n frame))
  | .deliver side =>
      match (c.peer side).prepended, c.wire side.other with
      | [], frame :: rest => some ((c.setPeer side ((c.peer side).accept n frame)).setWire side.other rest)
      | _, _ => none
  | .enter side header =>
      match (c.peer side).find header with
      | none => none
      | some group =>
          match group.queued with
          | [] => none
          | data :: rest =>
              some (c.setPeer side ((c.peer side).modify header
                (fun g => { g with queued := rest, received := g.received ++ [data] })))
  | .emit side header bs =>
      match (c.peer side).find header with
      | none => none
      | some _ =>
          if (header :: bs).length ≤ framingLimit then
            some (c.setPeer side ((c.peer side).modify header
              (fun g => { g with emitted := g.emitted ++ [bs], pending := g.pending ++ [bs] })))
          else none
  | .merge side header =>
      match (c.peer side).find header with
      | none => none
      | some group =>
          match group.pending with
          | [] => none
          | bs :: rest =>
              some ((c.setPeer side ((c.peer side).modify header (fun g => { g with pending := rest }))).setWire side
                (c.wire side ++ [header :: bs]))

-- The flow of a peer that has failed takes no further element.
def step (n : Nat) (c : Connection) (event : Event) : Option Connection :=
  if (c.peer event.side).failed then none else move n c event

def connection (n : Nat) : Machine Connection Event where
  initial := ⟨fun _ => .initial n, fun _ => []⟩
  step := step n

def Peer.group (p : Peer) (header : Byte) : Group := (p.find header).getD (.opened header)

-- Everything the other side has handed over for a flow, whether it has entered it yet or not.
def Peer.inbox (p : Peer) (header : Byte) : List ByteString := (p.group header).received ++ (p.group header).queued

def payload (header : Byte) : ByteString → Option ByteString
  | [] => none
  | first :: data => if first = header then some data else none

def payloads (header : Byte) (frames : List ByteString) : List ByteString := frames.filterMap (payload header)

structure PeerInvariant (n : Nat) (p : Peer) : Prop where
  healthy : p.failed = false
  unread : ∃ headers, p.prepended = headers.map (fun header => [header]) ∧
    p.groups.map Group.header ++ headers = flowHeaders n

-- A byte string that a flow has emitted is pending, on the wire, or handed over, in order.
structure Invariant (n : Nat) (c : Connection) : Prop where
  peers : ∀ side, PeerInvariant n (c.peer side)
  headed : ∀ side, ∀ frame ∈ c.wire side, ∃ header data, frame = header :: data ∧ header ∈ flowHeaders n
  conserved : ∀ side header, ((c.peer side).group header).emitted =
    (c.peer side.other).inbox header ++ payloads header (c.wire side) ++ ((c.peer side).group header).pending

@[simp] theorem other_other (side : Side) : side.other.other = side := by cases side <;> rfl

@[simp] theorem other_ne (side : Side) : side.other ≠ side := by cases side <;> simp [Side.other]

@[simp] theorem ne_other (side : Side) : side ≠ side.other := by cases side <;> simp [Side.other]

theorem side_cases (side target : Side) : side = target ∨ side = target.other := by
  cases side <;> cases target <;> simp [Side.other]

@[simp] theorem set_peer_here (side : Side) (p : Peer) (c : Connection) : (c.setPeer side p).peer side = p := by
  simp [Connection.setPeer]

@[simp] theorem set_peer_there (side : Side) (p : Peer) (c : Connection) :
    (c.setPeer side p).peer side.other = c.peer side.other := by
  simp [Connection.setPeer]

@[simp] theorem set_peer_wire (side : Side) (p : Peer) (c : Connection) : (c.setPeer side p).wire = c.wire := rfl

@[simp] theorem set_wire_peer (side : Side) (frames : List ByteString) (c : Connection) :
    (c.setWire side frames).peer = c.peer := rfl

@[simp] theorem set_wire_here (side : Side) (frames : List ByteString) (c : Connection) :
    (c.setWire side frames).wire side = frames := by
  simp [Connection.setWire]

@[simp] theorem set_wire_there (side : Side) (frames : List ByteString) (c : Connection) :
    (c.setWire side frames).wire side.other = c.wire side.other := by
  simp [Connection.setWire]

theorem group_of_find (p : Peer) (header : Byte) (group : Group) (found : p.find header = some group) :
    p.group header = group := by
  rw [Peer.group, found, Option.getD_some]

theorem group_modify_same (p : Peer) (header : Byte) (f : Group → Group) (group : Group)
    (keeps : ∀ g, (f g).header = g.header) (found : p.find header = some group) :
    (p.modify header f).group header = f group := by
  have changed := find_modify_same Group.header header f p.groups keeps
  rw [show findKeyed Group.header header p.groups = some group from found] at changed
  exact group_of_find _ header _ changed

theorem group_modify_other (p : Peer) (header other : Byte) (f : Group → Group)
    (keeps : ∀ g, (f g).header = g.header) (different : other ≠ header) :
    (p.modify header f).group other = p.group other := by
  have kept := find_modify_other Group.header header other f p.groups keeps different
  exact congrArg (fun found => Option.getD found (Group.opened other)) kept

theorem modify_headers (p : Peer) (header : Byte) (f : Group → Group) (keeps : ∀ g, (f g).header = g.header) :
    (p.modify header f).groups.map Group.header = p.groups.map Group.header :=
  modify_keyed_keys Group.header header f p.groups keeps

theorem modify_peer_invariant (n : Nat) (p : Peer) (header : Byte) (f : Group → Group)
    (keeps : ∀ g, (f g).header = g.header) (inv : PeerInvariant n p) : PeerInvariant n (p.modify header f) := by
  obtain ⟨headers, left, order⟩ := inv.unread
  exact ⟨inv.healthy, headers, left, by rw [modify_headers p header f keeps]; exact order⟩

theorem flow_header_number (n : Nat) (few : n ≤ 128) (header : Byte) :
    header ∈ flowHeaders n ↔ header.toNat < n := by
  simp only [flowHeaders, List.mem_map, List.mem_range]
  constructor
  · rintro ⟨index, short, rfl⟩
    rw [BitVec.toNat_ofNat, Nat.mod_eq_of_lt (by omega)]
    exact short
  · intro short
    exact ⟨header.toNat, short, by simp⟩

theorem flow_headers_nodup (n : Nat) (few : n ≤ 128) : (flowHeaders n).Nodup := by
  refine List.Nodup.map_on ?_ List.nodup_range
  intro i iShort j jShort same
  rw [List.mem_range] at iShort jShort
  have values := congrArg BitVec.toNat same
  rwa [BitVec.toNat_ofNat, BitVec.toNat_ofNat, Nat.mod_eq_of_lt (by omega), Nat.mod_eq_of_lt (by omega)] at values

theorem has_flow_of_header (n : Nat) (few : n ≤ 128) (header : Byte) (used : header ∈ flowHeaders n) :
    hasFlow n header := by
  have short := (flow_header_number n few header).mp used
  have positive : header.toInt = header.toNat := BitVec.toInt_eq_toNat_of_lt (by omega)
  simp [hasFlow, positive, short]

theorem accept_opened (n : Nat) (p : Peer) (header : Byte) (data : ByteString) (group : Group)
    (found : p.find header = some group) :
    p.accept n (header :: data) = p.modify header (fun g => { g with queued := g.queued ++ [data] }) := by
  simp [Peer.accept, getByteHeader, found]

theorem accept_first (n : Nat) (p : Peer) (header : Byte) (data : ByteString) (absent : p.find header = none)
    (room : p.groups.length < n) (flow : hasFlow n header) :
    p.accept n (header :: data) = p.openGroup header := by
  simp [Peer.accept, getByteHeader, absent, room, flow]

theorem group_after_open (p : Peer) (header other : Byte) (absent : p.find header = none) :
    (p.openGroup header).group other = p.group other := by
  have appended := find_keyed_append Group.header other p.groups [.opened header]
  unfold Peer.group Peer.find Peer.openGroup
  rw [appended]
  by_cases same : other = header
  · subst same
    rw [show findKeyed Group.header other p.groups = none from absent]
    simp [find_keyed_cons, Group.opened]
  · have missing : findKeyed Group.header other [Group.opened header] = none := by
      simp [findKeyed, Group.opened, Ne.symm same]
    rw [missing, Option.or_none]

theorem unread_header (n : Nat) (few : n ≤ 128) (p : Peer) (frame : ByteString) (rest : List ByteString)
    (inv : PeerInvariant n p) (left : p.prepended = frame :: rest) :
    ∃ header, frame = [header] ∧ header ∈ flowHeaders n ∧ p.find header = none ∧ p.groups.length < n := by
  obtain ⟨headers, unread, order⟩ := inv.unread
  cases headers with
  | nil => simp [unread] at left
  | cons header later =>
      rw [unread, List.map_cons, List.cons.injEq] at left
      have used : header ∈ flowHeaders n := by simp [← order]
      have fresh : header ∉ p.groups.map Group.header := by
        have distinct := flow_headers_nodup n few
        rw [← order] at distinct
        exact fun old => (List.nodup_append.mp distinct).2.2 header old header (by simp) rfl
      have room : p.groups.length < n := by
        have lengths := congrArg List.length order
        simp only [List.length_append, List.length_map, List.length_cons, flowHeaders, List.length_range] at lengths
        omega
      exact ⟨header, left.1.symm, used, (find_keyed_none Group.header header p.groups).mpr fresh, room⟩

theorem open_peer_invariant (n : Nat) (p : Peer) (header : Byte) (rest : List ByteString) (inv : PeerInvariant n p)
    (left : p.prepended = [header] :: rest) : PeerInvariant n ((p.skip rest).openGroup header) := by
  obtain ⟨headers, unread, order⟩ := inv.unread
  cases headers with
  | nil => simp [unread] at left
  | cons first later =>
      rw [unread, List.map_cons, List.cons.injEq, List.cons.injEq] at left
      obtain ⟨⟨rfl, _⟩, remaining⟩ := left
      exact ⟨inv.healthy, later, remaining.symm, by simpa [Peer.openGroup, Peer.skip, Group.opened] using order⟩

theorem all_opened (n : Nat) (p : Peer) (inv : PeerInvariant n p) (done : p.prepended = []) (header : Byte)
    (used : header ∈ flowHeaders n) : ∃ group, p.find header = some group := by
  obtain ⟨headers, unread, order⟩ := inv.unread
  have none : headers = [] := by simpa [done] using unread.symm
  rw [none, List.append_nil] at order
  exact find_keyed_exists Group.header header p.groups (by rw [order]; exact used)

theorem found_is_flow (n : Nat) (p : Peer) (inv : PeerInvariant n p) (header : Byte) (group : Group)
    (found : p.find header = some group) : header ∈ flowHeaders n := by
  obtain ⟨headers, _, order⟩ := inv.unread
  rw [← order, List.mem_append]
  left
  by_contra absent
  rw [← find_keyed_none] at absent
  simp [Peer.find, absent] at found

-- One side changes, and with it possibly the wires: its own books and those of the other side remain to be checked.
theorem invariant_of_side (n : Nat) (c : Connection) (side : Side) (p : Peer) (wire : Side → List ByteString)
    (inv : Invariant n c) (peer : PeerInvariant n p)
    (headed : ∀ s, ∀ frame ∈ wire s, ∃ header data, frame = header :: data ∧ header ∈ flowHeaders n)
    (sent : ∀ header, (p.group header).emitted =
      (c.peer side.other).inbox header ++ payloads header (wire side) ++ (p.group header).pending)
    (taken : ∀ header, ((c.peer side.other).group header).emitted =
      p.inbox header ++ payloads header (wire side.other) ++ ((c.peer side.other).group header).pending) :
    Invariant n ⟨Function.update c.peer side p, wire⟩ := by
  refine ⟨?_, headed, ?_⟩
  · intro s
    rcases side_cases s side with rfl | rfl
    · simpa using peer
    · simpa using inv.peers side.other
  · intro s header
    rcases side_cases s side with rfl | rfl
    · simpa using sent header
    · simpa using taken header

theorem payloads_append (header : Byte) (front back : List ByteString) :
    payloads header (front ++ back) = payloads header front ++ payloads header back := List.filterMap_append

theorem payloads_same (header : Byte) (data : ByteString) (rest : List ByteString) :
    payloads header ((header :: data) :: rest) = data :: payloads header rest := by
  simp [payloads, payload]

theorem payloads_other (header other : Byte) (data : ByteString) (rest : List ByteString) (different : other ≠ header) :
    payloads other ((header :: data) :: rest) = payloads other rest := by
  simp [payloads, payload, Ne.symm different]

theorem group_books (n : Nat) (c : Connection) (side : Side) (header : Byte) (group : Group) (inv : Invariant n c)
    (found : (c.peer side).find header = some group) :
    group.emitted = (c.peer side.other).inbox header ++ payloads header (c.wire side) ++ group.pending ∧
      ((c.peer side.other).group header).emitted = group.received ++ group.queued ++
        payloads header (c.wire side.other) ++ ((c.peer side.other).group header).pending := by
  have here := group_of_find _ header group found
  have sent := inv.conserved side header
  have taken := inv.conserved side.other header
  rw [other_other, Peer.inbox, here] at taken
  rw [here] at sent
  exact ⟨sent, taken⟩

-- One group changes, and the wires carry the same for every other flow: the books of its flow remain to be checked.
theorem invariant_of_group (n : Nat) (c : Connection) (side : Side) (header : Byte) (f : Group → Group) (group : Group)
    (wire : Side → List ByteString) (inv : Invariant n c) (keeps : ∀ g, (f g).header = g.header)
    (found : (c.peer side).find header = some group)
    (headed : ∀ s, ∀ frame ∈ wire s, ∃ header data, frame = header :: data ∧ header ∈ flowHeaders n)
    (others : ∀ s other, other ≠ header → payloads other (wire s) = payloads other (c.wire s))
    (sent : (f group).emitted =
      (c.peer side.other).inbox header ++ payloads header (wire side) ++ (f group).pending)
    (taken : ((c.peer side.other).group header).emitted = (f group).received ++ (f group).queued ++
      payloads header (wire side.other) ++ ((c.peer side.other).group header).pending) :
    Invariant n ⟨Function.update c.peer side ((c.peer side).modify header f), wire⟩ := by
  refine invariant_of_side n c side _ wire inv (modify_peer_invariant n _ header f keeps (inv.peers side)) headed ?_ ?_
  · intro other
    by_cases same : other = header
    · subst same
      rw [group_modify_same _ other f group keeps found]
      exact sent
    · rw [group_modify_other _ header other f keeps same, others side other same]
      exact inv.conserved side other
  · intro other
    by_cases same : other = header
    · subst same
      rw [Peer.inbox, group_modify_same _ other f group keeps found]
      exact taken
    · have before := inv.conserved side.other other
      rw [other_other] at before
      rw [Peer.inbox, group_modify_other _ header other f keeps same, others side.other other same]
      exact before

-- What a step does where the invariant holds: no element fails the peer that takes it.
inductive Moved (c : Connection) : Event → Connection → Prop where
  | prepend (side : Side) (header : Byte) (rest : List ByteString)
      (left : (c.peer side).prepended = [header] :: rest) (absent : (c.peer side).find header = none) :
      Moved c (.prepend side) (c.setPeer side (((c.peer side).skip rest).openGroup header))
  | deliver (side : Side) (header : Byte) (data : ByteString) (rest : List ByteString) (group : Group)
      (onWire : c.wire side.other = (header :: data) :: rest) (found : (c.peer side).find header = some group) :
      Moved c (.deliver side) ((c.setPeer side ((c.peer side).modify header
        (fun g => { g with queued := g.queued ++ [data] }))).setWire side.other rest)
  | enter (side : Side) (header : Byte) (data : ByteString) (rest : List ByteString) (group : Group)
      (found : (c.peer side).find header = some group) (waiting : group.queued = data :: rest) :
      Moved c (.enter side header) (c.setPeer side ((c.peer side).modify header
        (fun g => { g with queued := rest, received := g.received ++ [data] })))
  | emit (side : Side) (header : Byte) (bs : ByteString) (group : Group)
      (found : (c.peer side).find header = some group) :
      Moved c (.emit side header bs) (c.setPeer side ((c.peer side).modify header
        (fun g => { g with emitted := g.emitted ++ [bs], pending := g.pending ++ [bs] })))
  | merge (side : Side) (header : Byte) (bs : ByteString) (rest : List ByteString) (group : Group)
      (found : (c.peer side).find header = some group) (waiting : group.pending = bs :: rest) :
      Moved c (.merge side header) ((c.setPeer side ((c.peer side).modify header
        (fun g => { g with pending := rest }))).setWire side (c.wire side ++ [header :: bs]))

theorem prepend_moved (n : Nat) (few : n ≤ 128) (c next : Connection) (side : Side) (inv : Invariant n c)
    (moved : move n c (.prepend side) = some next) : Moved c (.prepend side) next := by
  simp only [move] at moved
  cases left : (c.peer side).prepended with
  | nil => simp [left] at moved
  | cons frame rest =>
      obtain ⟨header, rfl, used, absent, room⟩ := unread_header n few _ frame rest (inv.peers side) left
      have accepted : ((c.peer side).skip rest).accept n [header] = ((c.peer side).skip rest).openGroup header :=
        accept_first n ((c.peer side).skip rest) header [] absent room (has_flow_of_header n few header used)
      rw [left] at moved
      simp only [accepted, Option.some.injEq] at moved
      exact moved ▸ .prepend side header rest left absent

theorem deliver_moved (n : Nat) (c next : Connection) (side : Side) (inv : Invariant n c)
    (moved : move n c (.deliver side) = some next) : Moved c (.deliver side) next := by
  simp only [move] at moved
  split at moved
  · rename_i frame rest done onWire
    obtain ⟨header, data, rfl, used⟩ := inv.headed side.other frame (by simp [onWire])
    obtain ⟨group, found⟩ := all_opened n _ (inv.peers side) done header used
    rw [accept_opened n _ header data group found, Option.some.injEq] at moved
    exact moved ▸ .deliver side header data rest group onWire found
  · simp at moved

theorem step_moved (n : Nat) (few : n ≤ 128) (c next : Connection) (event : Event) (inv : Invariant n c)
    (stepped : step n c event = some next) : Moved c event next := by
  have moved : move n c event = some next := by
    unfold step at stepped
    split at stepped
    · simp at stepped
    · exact stepped
  cases event with
  | prepend side => exact prepend_moved n few c next side inv moved
  | deliver side => exact deliver_moved n c next side inv moved
  | enter side header =>
      simp only [move] at moved
      cases found : (c.peer side).find header with
      | none => simp [found] at moved
      | some group =>
          cases waiting : group.queued with
          | nil => simp [found, waiting] at moved
          | cons data rest =>
              simp only [found, waiting, Option.some.injEq] at moved
              exact moved ▸ .enter side header data rest group found waiting
  | emit side header bs =>
      simp only [move] at moved
      cases found : (c.peer side).find header with
      | none => simp [found] at moved
      | some group =>
          simp only [found, Option.ite_none_right_eq_some, Option.some.injEq] at moved
          exact moved.2 ▸ .emit side header bs group found
  | merge side header =>
      simp only [move] at moved
      cases found : (c.peer side).find header with
      | none => simp [found] at moved
      | some group =>
          cases waiting : group.pending with
          | nil => simp [found, waiting] at moved
          | cons bs rest =>
              simp only [found, waiting, Option.some.injEq] at moved
              exact moved ▸ .merge side header bs rest group found waiting

theorem prepend_invariant (n : Nat) (c : Connection) (side : Side) (header : Byte) (rest : List ByteString)
    (inv : Invariant n c) (left : (c.peer side).prepended = [header] :: rest)
    (absent : (c.peer side).find header = none) :
    Invariant n (c.setPeer side (((c.peer side).skip rest).openGroup header)) := by
  have same : ∀ other, (((c.peer side).skip rest).openGroup header).group other = (c.peer side).group other :=
    fun other => group_after_open ((c.peer side).skip rest) header other absent
  refine invariant_of_side n c side _ c.wire inv (open_peer_invariant n _ header rest (inv.peers side) left) inv.headed ?_ ?_
  · intro other
    rw [same]
    exact inv.conserved side other
  · intro other
    have before := inv.conserved side.other other
    rw [other_other] at before
    rw [Peer.inbox, same]
    exact before

-- The first frame of the wire moves to the end of what its flow has queued.
theorem deliver_invariant (n : Nat) (c : Connection) (side : Side) (header : Byte) (data : ByteString)
    (rest : List ByteString) (group : Group) (inv : Invariant n c) (onWire : c.wire side.other = (header :: data) :: rest)
    (found : (c.peer side).find header = some group) :
    Invariant n ((c.setPeer side ((c.peer side).modify header
      (fun g => { g with queued := g.queued ++ [data] }))).setWire side.other rest) := by
  obtain ⟨sent, taken⟩ := group_books n c side header group inv found
  refine invariant_of_group n c side header _ group (Function.update c.wire side.other rest) inv (fun _ => rfl) found
    ?_ ?_ ?_ ?_
  · intro s frame member
    rcases side_cases s side.other with rfl | rfl
    · rw [Function.update_self] at member
      exact inv.headed side.other frame (by simp [onWire, member])
    · rw [Function.update_of_ne (by simp)] at member
      exact inv.headed _ frame member
  · intro s other different
    rcases side_cases s side.other with rfl | rfl
    · rw [Function.update_self, onWire, payloads_other header other data rest different]
    · rw [Function.update_of_ne (by simp)]
  · rw [Function.update_of_ne (Ne.symm (other_ne side))]
    exact sent
  · rw [onWire, payloads_same] at taken
    simpa using taken

theorem enter_invariant (n : Nat) (c : Connection) (side : Side) (header : Byte) (data : ByteString)
    (rest : List ByteString) (group : Group) (inv : Invariant n c) (found : (c.peer side).find header = some group)
    (waiting : group.queued = data :: rest) :
    Invariant n (c.setPeer side ((c.peer side).modify header
      (fun g => { g with queued := rest, received := g.received ++ [data] }))) := by
  obtain ⟨sent, taken⟩ := group_books n c side header group inv found
  refine invariant_of_group n c side header _ group c.wire inv (fun _ => rfl) found inv.headed (fun _ _ _ => rfl) sent ?_
  simpa [waiting] using taken

theorem emit_invariant (n : Nat) (c : Connection) (side : Side) (header : Byte) (bs : ByteString) (group : Group)
    (inv : Invariant n c) (found : (c.peer side).find header = some group) :
    Invariant n (c.setPeer side ((c.peer side).modify header
      (fun g => { g with emitted := g.emitted ++ [bs], pending := g.pending ++ [bs] }))) := by
  obtain ⟨sent, taken⟩ := group_books n c side header group inv found
  refine invariant_of_group n c side header _ group c.wire inv (fun _ => rfl) found inv.headed (fun _ _ _ => rfl) ?_ taken
  simp [sent]

theorem merge_invariant (n : Nat) (c : Connection) (side : Side) (header : Byte) (bs : ByteString)
    (rest : List ByteString) (group : Group) (inv : Invariant n c) (found : (c.peer side).find header = some group)
    (waiting : group.pending = bs :: rest) :
    Invariant n ((c.setPeer side ((c.peer side).modify header
      (fun g => { g with pending := rest }))).setWire side (c.wire side ++ [header :: bs])) := by
  obtain ⟨sent, taken⟩ := group_books n c side header group inv found
  have used := found_is_flow n _ (inv.peers side) header group found
  refine invariant_of_group n c side header _ group (Function.update c.wire side (c.wire side ++ [header :: bs])) inv
    (fun _ => rfl) found ?_ ?_ ?_ ?_
  · intro s frame member
    rcases side_cases s side with rfl | rfl
    · rw [Function.update_self, List.mem_append, List.mem_singleton] at member
      rcases member with old | rfl
      · exact inv.headed s frame old
      · exact ⟨header, bs, rfl, used⟩
    · rw [Function.update_of_ne (by simp)] at member
      exact inv.headed _ frame member
  · intro s other different
    rcases side_cases s side with rfl | rfl
    · rw [Function.update_self, payloads_append, payloads_other header other bs [] different]
      simp [payloads]
    · rw [Function.update_of_ne (by simp)]
  · rw [Function.update_self, payloads_append, payloads_same]
    rw [waiting] at sent
    simp [sent, payloads]
  · rw [Function.update_of_ne (by simp)]
    exact taken

theorem moved_invariant (n : Nat) (c next : Connection) (event : Event) (inv : Invariant n c)
    (moved : Moved c event next) : Invariant n next := by
  cases moved with
  | prepend side header rest left absent => exact prepend_invariant n c side header rest inv left absent
  | deliver side header data rest group onWire found =>
      exact deliver_invariant n c side header data rest group inv onWire found
  | enter side header data rest group found waiting =>
      exact enter_invariant n c side header data rest group inv found waiting
  | emit side header bs group found => exact emit_invariant n c side header bs group inv found
  | merge side header bs rest group found waiting =>
      exact merge_invariant n c side header bs rest group inv found waiting

theorem step_invariant (n : Nat) (few : n ≤ 128) (c : Connection) (event : Event) (next : Connection)
    (inv : Invariant n c) (stepped : step n c event = some next) : Invariant n next :=
  moved_invariant n c next event inv (step_moved n few c next event inv stepped)

theorem initial_invariant (n : Nat) (positive : 1 ≤ n) : Invariant n (connection n).initial := by
  refine ⟨fun _ => ⟨?_, flowHeaders n, rfl, rfl⟩, ?_, ?_⟩
  · simp [connection, Peer.initial]
    omega
  · simp [connection]
  · simp [connection, Peer.initial, Peer.group, Peer.inbox, Peer.find, findKeyed, Group.opened, payloads]

theorem reachable_invariant (n : Nat) (positive : 1 ≤ n) (few : n ≤ 128) (c : Connection)
    (reached : (connection n).Reachable c) : Invariant n c :=
  reachable_keeps (connection n) (Invariant n) (initial_invariant n positive) (step_invariant n few) c reached

end Multiplex

end Toolbox8.AkkaStreamCoding
