import Toolbox8.Base.Sequences
import Toolbox8.Base.Emissions
import Toolbox8.ByteStrings
import Mathlib.Algebra.Ring.Nat

set_option autoImplicit false

namespace Toolbox8.StreamCoding

open Base

def getByteHeader (bs : ByteString) : Option (Byte × ByteString) := ByteStrings.getByteHeader bs

def getIntHeader (bs : ByteString) : Option (BitVec 32 × ByteString) := ByteStrings.getIntHeader bs

namespace Terminal

def maxChunkSize : Nat := 16 * 1024
def nonLast : Byte := 0
def last : Byte := 1
def error : Byte := 2

def nonLastBS : ByteString := [nonLast]
def lastBS : ByteString := [last]

inductive Package where
  | data (bs : ByteString)
  | term
deriving DecidableEq, Repr

def Package.content : Package → Option ByteString
  | .data bs => some bs
  | .term => none

-- None where the flatMap function throws: no header byte, Error, or a header that no case matches.
def packages (bs : ByteString) : Option (List Package) :=
  match getByteHeader bs with
  | none => none
  | some (head, data) =>
      if head = nonLast then some [.data data]
      else if head = last then some [.data data, .term]
      else none

inductive Status where
  | running
  | ended (how : Ended)
deriving DecidableEq, Repr

-- One group of the decoder and what its inner stream has emitted so far.
structure Inner where
  id : BitVec 32
  data : List ByteString
  status : Status
deriving DecidableEq, Repr

-- takeWhile(_ != Term) then collect: the elements before Term are emitted, Term completes.
def Inner.feed (bs : ByteString) (inner : Inner) : Inner :=
  match packages bs with
  | none => { inner with status := .ended .failed }
  | some elems =>
      { inner with
        data := inner.data ++ (elems.takeWhile (fun elem => elem ≠ .term)).filterMap Package.content
        status := if .term ∈ elems then .ended .completed else inner.status }

def Inner.close (how : Ended) (inner : Inner) : Inner :=
  match inner.status with
  | .running => { inner with status := .ended how }
  | .ended _ => inner

-- groupBy forgets the key of a group whose consumer has stopped; a later element opens a new group.
def push (id : BitVec 32) (bs : ByteString) : List Inner → List Inner
  | [] => [Inner.feed bs ⟨id, [], .running⟩]
  | inner :: rest =>
      if inner.id = id ∧ inner.status = .running then inner.feed bs :: rest
      else inner :: push id bs rest

def decodeFrom (ended : Ended) (inners : List Inner) : List ByteString → Emission Inner
  | [] => ⟨inners.map (Inner.close ended), ended⟩
  | frame :: rest =>
      match getIntHeader frame with
      | none => ⟨inners.map (Inner.close .failed), .failed⟩
      | some (id, bs) => decodeFrom ended (push id bs inners) rest

def decoder (input : Emission ByteString) : Emission Inner := decodeFrom input.ended [] input.elems

-- zipWithIndex counts in Longs; toInt keeps the low 32 bits.
def idOf (index : Nat) : BitVec 32 := BitVec.ofNat 32 index

def terminated (s : List ByteString) : List ByteString :=
  (s.flatMap (grouped maxChunkSize)).map (fun bs => nonLastBS ++ bs) ++ [lastBS]

def encodeStream (index : Nat) (s : List ByteString) : List ByteString :=
  (terminated s).map (fun bs => ByteStrings.putInt (idOf index) ++ bs)

-- mergeMap may emit the frames of the streams in any merge that keeps the order of each.
def EncoderOutput (streams : List (List ByteString)) (wire : List ByteString) : Prop :=
  Interleaving (streams.mapIdx encodeStream) wire

theorem max_chunk_size_positive : 0 < maxChunkSize := by decide

@[simp] theorem feed_id (bs : ByteString) (inner : Inner) : (inner.feed bs).id = inner.id := by
  unfold Inner.feed
  split <;> rfl

theorem push_same_group (id : BitVec 32) (bs : ByteString) (inners : List Inner) :
    (push id bs inners).filter (fun inner => inner.id = id) = push id bs (inners.filter (fun inner => inner.id = id)) := by
  induction inners with
  | nil => simp [push]
  | cons inner rest ih =>
      by_cases same : inner.id = id
      · by_cases running : inner.status = .running
        · simp [push, same, running]
        · simp [push, same, running, ih]
      · simp [push, same, ih]

theorem push_other_group (id other : BitVec 32) (bs : ByteString) (inners : List Inner) (different : id ≠ other) :
    (push id bs inners).filter (fun inner => inner.id = other) = inners.filter (fun inner => inner.id = other) := by
  induction inners with
  | nil => simp [push, different]
  | cons inner rest ih =>
      by_cases hit : inner.id = id ∧ inner.status = .running
      · simp [push, hit, different]
      · rw [push, if_neg hit, List.filter_cons, List.filter_cons, ih]

-- The frames of one encoder, once its id has been taken off.
def pushAll (inners : List Inner) (frames : List (BitVec 32 × ByteString)) : List Inner :=
  frames.foldl (fun acc frame => push frame.1 frame.2 acc) inners

theorem decode_from_total (ended : Ended) (inners : List Inner) (wire : List ByteString)
    (split : ByteString → BitVec 32 × ByteString) (total : ∀ frame ∈ wire, getIntHeader frame = some (split frame)) :
    decodeFrom ended inners wire = ⟨(pushAll inners (wire.map split)).map (Inner.close ended), ended⟩ := by
  induction wire generalizing inners with
  | nil => rfl
  | cons frame rest ih =>
      rw [decodeFrom, total frame (by simp)]
      exact ih _ (fun other member => total other (by simp [member]))

theorem push_all_group (id : BitVec 32) (inners : List Inner) (frames : List (BitVec 32 × ByteString)) :
    (pushAll inners frames).filter (fun inner => inner.id = id) =
      pushAll (inners.filter (fun inner => inner.id = id)) (frames.filter (fun frame => frame.1 = id)) := by
  induction frames generalizing inners with
  | nil => rfl
  | cons frame rest ih =>
      by_cases same : frame.1 = id
      · subst same
        rw [List.filter_cons_of_pos (by simp)]
        simpa only [pushAll, List.foldl_cons, push_same_group] using ih (push frame.1 frame.2 inners)
      · rw [List.filter_cons_of_neg (by simp [same])]
        simpa only [pushAll, List.foldl_cons, push_other_group frame.1 id frame.2 inners same] using
          ih (push frame.1 frame.2 inners)

theorem feed_chunk (chunk : ByteString) (id : BitVec 32) (data : List ByteString) :
    Inner.feed (nonLastBS ++ chunk) ⟨id, data, .running⟩ = ⟨id, data ++ [chunk], .running⟩ := by
  simp [Inner.feed, packages, getByteHeader, nonLastBS, Package.content]

theorem feed_last (id : BitVec 32) (data : List ByteString) :
    Inner.feed lastBS ⟨id, data, .running⟩ = ⟨id, data ++ [[]], .ended .completed⟩ := by
  simp [Inner.feed, packages, getByteHeader, lastBS, last, nonLast, Package.content]

theorem push_all_chunks (id : BitVec 32) (data chunks : List ByteString) :
    pushAll [⟨id, data, .running⟩] (chunks.map (fun bs => (id, nonLastBS ++ bs)) ++ [(id, lastBS)]) =
      [⟨id, data ++ chunks ++ [[]], .ended .completed⟩] := by
  induction chunks generalizing data with
  | nil => simp [pushAll, push, feed_last]
  | cons chunk rest ih =>
      have later := ih (data ++ [chunk])
      simpa [pushAll, push, feed_chunk] using later

theorem push_all_stream (id : BitVec 32) (s : List ByteString) :
    pushAll [] ((terminated s).map (fun bs => (id, bs))) =
      [⟨id, s.flatMap (grouped maxChunkSize) ++ [[]], .ended .completed⟩] := by
  have opened : ∀ bs rest, pushAll [] ((id, bs) :: rest) = pushAll [⟨id, [], .running⟩] ((id, bs) :: rest) := by
    intro bs rest
    simp [pushAll, push]
  have whole := push_all_chunks id [] (s.flatMap (grouped maxChunkSize))
  rw [terminated, List.map_append, List.map_map]
  cases chunks : s.flatMap (grouped maxChunkSize) with
  | nil =>
      rw [chunks] at whole
      exact (opened _ _).trans whole
  | cons chunk rest =>
      rw [chunks] at whole
      exact (opened _ _).trans whole

-- The id and the frame that the decoder reads off an encoded frame.
def routed (frame : ByteString) : BitVec 32 × ByteString := (getIntHeader frame).getD (0, [])

theorem routed_encoded (id : BitVec 32) (bs : ByteString) : routed (ByteStrings.putInt id ++ bs) = (id, bs) := by
  simp [routed, getIntHeader, ByteStrings.get_int_header_put_int]

theorem encode_stream_routed (index : Nat) (s : List ByteString) :
    (encodeStream index s).map routed = (terminated s).map (fun bs => (idOf index, bs)) := by
  simp [encodeStream, routed_encoded]

theorem encoded_source (streams : List (List ByteString)) (index : Nat) (source : List ByteString)
    (found : (streams.mapIdx encodeStream)[index]? = some source) :
    ∃ s, streams[index]? = some s ∧ source = encodeStream index s := by
  rw [List.getElem?_mapIdx, Option.map_eq_some_iff] at found
  obtain ⟨s, inStreams, rfl⟩ := found
  exact ⟨s, inStreams, rfl⟩

theorem encoded_source_id (streams : List (List ByteString)) (index : Nat) (source : List ByteString)
    (found : (streams.mapIdx encodeStream)[index]? = some source) (frame : ByteString) (member : frame ∈ source) :
    (routed frame).1 = idOf index := by
  obtain ⟨s, _, rfl⟩ := encoded_source streams index source found
  obtain ⟨bs, _, rfl⟩ := List.mem_map.mp member
  rw [routed_encoded]

theorem wire_frame (streams : List (List ByteString)) (wire : List ByteString) (output : EncoderOutput streams wire)
    (frame : ByteString) (member : frame ∈ wire) :
    getIntHeader frame = some (routed frame) ∧ ∃ index, index < streams.length ∧ (routed frame).1 = idOf index := by
  obtain ⟨source, fromStreams, inSource⟩ := interleaving_member _ wire output frame member
  obtain ⟨index, found⟩ := List.getElem?_of_mem fromStreams
  obtain ⟨s, inStreams, same⟩ := encoded_source streams index source found
  have keyed := encoded_source_id streams index source found frame inSource
  rw [same] at inSource
  obtain ⟨bs, _, rfl⟩ := List.mem_map.mp inSource
  exact ⟨by rw [routed_encoded]; exact ByteStrings.get_int_header_put_int _ bs,
    index, (List.getElem?_eq_some_iff.mp inStreams).1, keyed⟩

theorem id_of_distinct (i j : Nat) (iBound : i < 2 ^ 32) (jBound : j < 2 ^ 32) (same : idOf i = idOf j) : i = j := by
  have values := congrArg BitVec.toNat same
  rwa [idOf, idOf, BitVec.toNat_ofNat, BitVec.toNat_ofNat, Nat.mod_eq_of_lt iBound, Nat.mod_eq_of_lt jBound] at values

-- The group that the stream with this index ends up in.
def decodedStream (index : Nat) (s : List ByteString) : Inner :=
  ⟨idOf index, s.flatMap (grouped maxChunkSize) ++ [[]], .ended .completed⟩

theorem decoded_group (streams : List (List ByteString)) (wire : List ByteString) (few : streams.length ≤ 2 ^ 32)
    (output : EncoderOutput streams wire) (index : Nat) (s : List ByteString) (found : streams[index]? = some s) :
    (pushAll [] (wire.map routed)).filter (fun inner => inner.id = idOf index) = [decodedStream index s] := by
  have group := interleaving_filter (streams.mapIdx encodeStream) wire (fun frame => (routed frame).1) idOf output
    (encoded_source_id streams)
    (fun i j iShort jShort same => by
      rw [List.length_mapIdx] at iShort jShort
      exact id_of_distinct i j (by omega) (by omega) same)
    index (encodeStream index s) (by simp [found])
  rw [push_all_group, List.filter_map]
  simpa only [Function.comp_def, group, encode_stream_routed, List.filter_nil, decodedStream] using
    push_all_stream (idOf index) s

theorem unused_group (streams : List (List ByteString)) (wire : List ByteString) (output : EncoderOutput streams wire)
    (id : BitVec 32) (unused : ∀ index, index < streams.length → idOf index ≠ id) :
    (pushAll [] (wire.map routed)).filter (fun inner => inner.id = id) = [] := by
  have none : (wire.map routed).filter (fun frame => frame.1 = id) = [] := by
    rw [List.filter_eq_nil_iff]
    intro frame member same
    obtain ⟨encoded, onWire, rfl⟩ := List.mem_map.mp member
    obtain ⟨_, index, short, keyed⟩ := wire_frame streams wire output encoded onWire
    exact unused index short (keyed.symm.trans (of_decide_eq_true same))
  rw [push_all_group, none]
  rfl

theorem decoded_ids_distinct (streams : List (List ByteString)) (few : streams.length ≤ 2 ^ 32) :
    ((streams.mapIdx decodedStream).map Inner.id).Nodup := by
  rw [List.nodup_iff_injective_getElem]
  intro i j same
  have iBound : i.val < streams.length := by simpa using i.isLt
  have jBound : j.val < streams.length := by simpa using j.isLt
  apply Fin.ext
  apply id_of_distinct i.val j.val (by omega) (by omega)
  simpa [decodedStream] using same

theorem decoded_groups (streams : List (List ByteString)) (wire : List ByteString) (few : streams.length ≤ 2 ^ 32)
    (output : EncoderOutput streams wire) :
    (pushAll [] (wire.map routed)).Perm (streams.mapIdx decodedStream) := by
  apply perm_of_same_groups Inner.id
  intro id
  by_cases used : ∃ index, index < streams.length ∧ idOf index = id
  · obtain ⟨index, short, rfl⟩ := used
    have found : streams[index]? = some streams[index] := List.getElem?_eq_getElem short
    rw [decoded_group streams wire few output index streams[index] found]
    have member : decodedStream index streams[index] ∈ streams.mapIdx decodedStream :=
      List.mem_of_getElem? (i := index) (by simp [found])
    exact (filter_distinct_key Inner.id _ _ (decoded_ids_distinct streams few) member).symm
  · have unused : ∀ index, index < streams.length → idOf index ≠ id := fun index short same => used ⟨index, short, same⟩
    rw [unused_group streams wire output id unused]
    symm
    rw [List.filter_eq_nil_iff]
    intro inner member same
    obtain ⟨index, short, rfl⟩ := List.mem_mapIdx.mp member
    exact unused index short (of_decide_eq_true same)

-- Whatever the merge order and however the wire ends: one completed inner stream for each
-- original stream, under its id, with its bytes.
theorem decoder_any_interleaving (streams : List (List ByteString)) (wire : List ByteString) (ended : Ended)
    (few : streams.length ≤ 2 ^ 32) (output : EncoderOutput streams wire) :
    (decoder ⟨wire, ended⟩).ended = ended ∧
      ((decoder ⟨wire, ended⟩).elems.map (fun inner => (inner.id, inner.data.flatten, inner.status))).Perm
        (streams.mapIdx (fun index s => (idOf index, s.flatten, Status.ended .completed))) := by
  have total := decode_from_total ended [] wire routed (fun frame member => (wire_frame streams wire output frame member).1)
  have groups := decoded_groups streams wire few output
  rw [decoder, total]
  refine ⟨rfl, ?_⟩
  have closed : ((streams.mapIdx decodedStream).map (Inner.close ended)).map
      (fun inner => (inner.id, inner.data.flatten, inner.status)) =
        streams.mapIdx (fun index s => (idOf index, s.flatten, Status.ended .completed)) := by
    apply List.ext_getElem?
    intro index
    cases found : streams[index]? with
    | none => simp [found]
    | some s => simp [found, decodedStream, Inner.close, grouped_pieces_flatten maxChunkSize _ max_chunk_size_positive]
  rw [← closed]
  exact (groups.map _).map _

-- Two streams, the second one empty, whose frames arrive merged.
theorem decoder_any_interleaving_two :
    (decoder ⟨[[0, 0, 0, 0, 0, 9], [0, 0, 0, 1, 1], [0, 0, 0, 0, 1]], .completed⟩).ended = .completed ∧
      ((decoder ⟨[[0, 0, 0, 0, 0, 9], [0, 0, 0, 1, 1], [0, 0, 0, 0, 1]], .completed⟩).elems.map
        (fun inner => (inner.id, inner.data.flatten, inner.status))).Perm
          ([[[9]], []].mapIdx (fun index s => (idOf index, s.flatten, Status.ended .completed))) := by
  apply decoder_any_interleaving [[[9]], []] _ .completed (by decide)
  apply Interleaving.next _ 0 _ [[0, 0, 0, 0, 1]] _ (by decide)
  apply Interleaving.next _ 1 _ [] _ (by decide)
  apply Interleaving.next _ 0 _ [] _ (by decide)
  exact .done _ (by decide)

end Terminal

end Toolbox8.StreamCoding
