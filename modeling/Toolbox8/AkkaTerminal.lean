import Toolbox8.Base.Sequences
import Toolbox8.Base.Emissions
import Toolbox8.ByteStrings

set_option autoImplicit false

namespace Toolbox8.AkkaStreamCoding

open Base

def getByteHeader (bs : ByteString) : Option (Byte × ByteString) := ByteStrings.getByteHeader bs

def getIntHeader (bs : ByteString) : Option (BitVec 32 × ByteString) := ByteStrings.getIntHeader bs

abbrev Data := Emission ByteString

namespace Terminal

def maxChunkSize : Nat := 16 * 1024
def nonLast : Byte := 0
def last : Byte := 1
def error : Byte := 2

def nonLastBS : ByteString := [nonLast]
def lastBS : ByteString := [last]

def splitHeader (elem : Byte × ByteString) : Option Bool :=
  if elem.1 = last then some true
  else if elem.1 = error then none
  else some false

-- The substreams of splitAfter, with the headers of their frames still on.
def framesOfData (input : Emission ByteString) : Emission (Emission (Byte × ByteString)) :=
  (input.mapThrowing getByteHeader).splitAfter splitHeader

-- prefixAndTail(0) and concatSubstreams hand every substream on as one Data, in order.
def decoder (input : Emission ByteString) : Emission Data :=
  (framesOfData input).map (fun sub => sub.map Prod.snd)

def encodeData (data : Data) : Emission ByteString :=
  ((data.mapConcat (grouped maxChunkSize)).map (fun bs => nonLastBS ++ bs)).concat (.completed [lastBS])

def encoder (input : Emission Data) : Emission ByteString := input.flatMapConcat encodeData

def concat (input : Emission Data) : Emission ByteString :=
  input.flatMapConcat (fun data => data.fold [] (fun buffer bs => buffer ++ bs))

theorem max_chunk_size_positive : 0 < maxChunkSize := by decide

@[simp] theorem split_header_last (data : ByteString) : splitHeader (last, data) = some true := rfl

@[simp] theorem split_header_non_last (data : ByteString) : splitHeader (nonLast, data) = some false := rfl

theorem split_header_true (elem : Byte × ByteString) : splitHeader elem = some true ↔ elem.1 = last := by
  unfold splitHeader
  split
  · simp_all
  · split <;> simp_all

theorem split_header_throws (elem : Byte × ByteString) : splitHeader elem = none ↔ elem.1 = error := by
  unfold splitHeader
  split
  · rename_i isLast
    simp [isLast, last, error]
  · split <;> simp_all

def chunksOf (pieces : List ByteString) : List ByteString := pieces.flatMap (grouped maxChunkSize)

theorem chunks_flatten (pieces : List ByteString) : (chunksOf pieces).flatten = pieces.flatten :=
  grouped_pieces_flatten maxChunkSize pieces max_chunk_size_positive

theorem encode_data_completed (pieces : List ByteString) :
    encodeData (.completed pieces) =
      .completed ((chunksOf pieces).map (fun bs => nonLastBS ++ bs) ++ [lastBS]) := rfl

theorem encode_data_frame (data : Data) (frame : ByteString) (member : frame ∈ (encodeData data).elems) :
    ∃ header payload, frame = header :: payload ∧ payload.length ≤ maxChunkSize := by
  have chunkFrame : ∀ pieces : List ByteString, frame ∈ (chunksOf pieces).map (fun bs => nonLastBS ++ bs) →
      ∃ header payload, frame = header :: payload ∧ payload.length ≤ maxChunkSize := by
    intro pieces inChunks
    obtain ⟨chunk, isChunk, rfl⟩ := List.mem_map.mp inChunks
    exact ⟨nonLast, chunk, rfl, (grouped_pieces_bounds maxChunkSize pieces chunk max_chunk_size_positive isChunk).2⟩
  obtain ⟨pieces, ended⟩ := data
  cases ended with
  | failed => exact chunkFrame pieces member
  | completed =>
      change frame ∈ (chunksOf pieces).map (fun bs => nonLastBS ++ bs) ++ [lastBS] at member
      rcases List.mem_append.mp member with inChunks | isLast
      · exact chunkFrame pieces inChunks
      · exact ⟨last, [], List.mem_singleton.mp isLast, Nat.zero_le _⟩

theorem encoder_frame_length (input : Emission Data) (frame : ByteString) (member : frame ∈ (encoder input).elems) :
    frame.length ≤ maxChunkSize + 1 := by
  obtain ⟨data, _, inside⟩ := concat_member encodeData input.ended input.elems frame member
  obtain ⟨header, payload, rfl, short⟩ := encode_data_frame data frame inside
  simpa only [List.length_cons, Nat.add_le_add_iff_right] using short

theorem encoder_completed (messages : List (List ByteString)) :
    encoder (.completed (messages.map Emission.completed)) =
      .completed (messages.flatMap (fun pieces => (encodeData (.completed pieces)).elems)) := by
  have whole := concat_completed encodeData .completed (messages.map Emission.completed)
    (by simp [encode_data_completed])
  simpa [encoder, Emission.flatMapConcat, Emission.completed, List.flatMap_map] using whole

theorem headers_of_message (pieces : List ByteString) (rest : List ByteString) (ended : Ended) :
    mapThrowingFrom getByteHeader ended ((encodeData (.completed pieces)).elems ++ rest) =
      ⟨(chunksOf pieces).map (fun bs => (nonLast, bs)) ++ (last, []) :: (mapThrowingFrom getByteHeader ended rest).elems,
        (mapThrowingFrom getByteHeader ended rest).ended⟩ := by
  have headers : ∀ frame ∈ (encodeData (.completed pieces)).elems,
      getByteHeader frame = some (frame.headD 0, frame.tail) := by
    intro frame member
    obtain ⟨header, payload, rfl, _⟩ := encode_data_frame _ frame member
    rfl
  rw [map_throwing_append getByteHeader (fun frame => (frame.headD 0, frame.tail)) ended _ rest headers]
  simp [encode_data_completed, nonLastBS, lastBS]

theorem decoder_message (pieces : List ByteString) (rest : List ByteString) (ended : Ended) :
    decoder ⟨(encodeData (.completed pieces)).elems ++ rest, ended⟩ =
      ⟨.completed (chunksOf pieces ++ [[]]) :: (decoder ⟨rest, ended⟩).elems, (decoder ⟨rest, ended⟩).ended⟩ := by
  have split := split_after_message splitHeader (mapThrowingFrom getByteHeader ended rest).ended
    ((chunksOf pieces).map (fun bs => (nonLast, bs))) (mapThrowingFrom getByteHeader ended rest).elems (last, [])
    (by simp) (split_header_last [])
  have frames : framesOfData ⟨(encodeData (.completed pieces)).elems ++ rest, ended⟩ =
      ⟨.completed ((chunksOf pieces).map (fun bs => (nonLast, bs)) ++ [(last, [])]) :: (framesOfData ⟨rest, ended⟩).elems,
        (framesOfData ⟨rest, ended⟩).ended⟩ := by
    simpa only [framesOfData, Emission.mapThrowing, Emission.splitAfter, headers_of_message] using split
  rw [decoder, frames]
  simp [decoder, Emission.map, Emission.completed, Function.comp_def]

theorem decoder_messages (messages : List (List ByteString)) :
    decoder (.completed (messages.flatMap (fun pieces => (encodeData (.completed pieces)).elems))) =
      .completed (messages.map (fun pieces => .completed (chunksOf pieces ++ [[]]))) := by
  induction messages with
  | nil => rfl
  | cons pieces rest ih =>
      rw [List.flatMap_cons, Emission.completed, decoder_message pieces]
      exact congrArg (fun later : Emission Data =>
        (⟨.completed (chunksOf pieces ++ [[]]) :: later.elems, later.ended⟩ : Emission Data)) ih

theorem concat_completed_messages (messages : List (List ByteString)) :
    concat (.completed (messages.map Emission.completed)) = .completed (messages.map List.flatten) := by
  have whole := concat_completed (fun data : Data => data.fold [] (fun buffer bs => buffer ++ bs)) .completed
    (messages.map Emission.completed) (by simp [Emission.fold, Emission.completed])
  rw [concat, Emission.flatMapConcat, completed_ended, completed_elems, whole, List.flatMap_map]
  simp [Emission.fold, Emission.completed, ByteStrings.fold_append, ← List.map_eq_flatMap]

def messageSources (messages : List (List ByteString)) : Emission Data :=
  .completed (messages.map Emission.completed)

theorem terminal_round_trip (messages : List (List ByteString)) :
    concat (decoder (encoder (messageSources messages))) = .completed (messages.map List.flatten) ∧
      (∀ frame ∈ (encoder (messageSources messages)).elems,
        ∃ header payload, frame = header :: payload ∧ payload.length ≤ maxChunkSize) ∧
      (encoder (messageSources messages)).elems =
        messages.flatMap (fun pieces => (encodeData (.completed pieces)).elems) ∧
      ∀ pieces ∈ messages, ∃ front, (encodeData (.completed pieces)).elems = front ++ [lastBS] ∧
        ∀ frame ∈ front, frame.head? ≠ some last := by
  have encoded := encoder_completed messages
  refine ⟨?_, ?_, congrArg Emission.elems encoded, ?_⟩
  · have contents : messages.map (fun pieces => (chunksOf pieces ++ [[]]).flatten) = messages.map List.flatten := by
      simp [chunks_flatten]
    have decoded := concat_completed_messages (messages.map (fun pieces => chunksOf pieces ++ [[]]))
    rw [List.map_map, List.map_map] at decoded
    rw [messageSources, encoded, decoder_messages, ← contents]
    exact decoded
  · intro frame member
    rw [messageSources, encoded, completed_elems] at member
    obtain ⟨pieces, _, inMessage⟩ := List.mem_flatMap.mp member
    exact encode_data_frame _ frame inMessage
  · intro pieces _
    refine ⟨(chunksOf pieces).map (fun bs => nonLastBS ++ bs), rfl, ?_⟩
    intro frame member
    obtain ⟨chunk, _, rfl⟩ := List.mem_map.mp member
    simp [nonLastBS, nonLast, last]

-- A Data that looks complete belongs to a substream that did receive a Last frame.
def NoSilentTruncation (received : List ByteString) : Prop :=
  ∀ (i : Nat) (data : Data), (decoder (.completed received)).elems[i]? = some data → data.ended = .completed →
    ∃ sub, (framesOfData (.completed received)).elems[i]? = some sub ∧ ∃ elem ∈ sub.elems, elem.1 = last

-- A frame on which the decoder throws: no header byte, or the Error header.
def rejected (frame : ByteString) : Prop := frame = [] ∨ frame.head? = some error

theorem no_silent_truncation_frames (received : List ByteString) :
    NoSilentTruncation received ↔ ∀ sub ∈ (framesOfData (.completed received)).elems,
      sub.ended = .completed → ∃ elem ∈ sub.elems, splitHeader elem = some true := by
  simp only [split_header_true]
  constructor
  · intro safe sub member ended
    obtain ⟨i, found⟩ := List.getElem?_of_mem member
    obtain ⟨other, same, elem, inOther, isLast⟩ := safe i (sub.map Prod.snd) (by simp [decoder, found]) ended
    have eq : sub = other := Option.some.inj (found.symm.trans same)
    exact ⟨elem, eq ▸ inOther, isLast⟩
  · intro safe i data found ended
    simp only [decoder, map_elems, List.getElem?_map, Option.map_eq_some_iff] at found
    obtain ⟨sub, foundSub, rfl⟩ := found
    exact ⟨sub, foundSub, safe sub (List.mem_of_getElem? foundSub) ended⟩

-- The header test can only fail on a frame that has a header.
theorem rejected_frame (frame : ByteString) (elem : Byte × ByteString) (split : getByteHeader frame = some elem) :
    rejected frame ↔ splitHeader elem = none := by
  obtain rfl := ByteStrings.get_byte_header_some frame elem.2 elem.1 split
  simp [rejected, split_header_throws]

theorem truncation_free_iff (received : List ByteString) :
    NoSilentTruncation received ↔
      received = [] ∨ (∃ frame ∈ received, rejected frame) ∨
        ∃ frame, received.getLast? = some frame ∧ frame.head? = some last := by
  rw [no_silent_truncation_frames, framesOfData, Emission.splitAfter,
    split_after_complete_iff splitHeader _ none _ (by simp), Emission.mapThrowing]
  by_cases headless : [] ∈ received
  · have failed := map_throwing_failed getByteHeader .completed received [] headless rfl
    have throws : ∃ frame ∈ received, rejected frame := ⟨[], headless, Or.inl rfl⟩
    exact ⟨fun _ => Or.inr (Or.inl throws), fun _ => Or.inl failed⟩
  · have headers : ∀ frame ∈ received, getByteHeader frame = some (frame.headD 0, frame.tail) := by
      intro frame member
      cases frame with
      | nil => exact absurd member headless
      | cons header data => rfl
    rw [completed_ended, completed_elems, map_throwing_total getByteHeader _ .completed received headers]
    have throws : (∃ elem ∈ received.map (fun frame => (frame.headD 0, frame.tail)), splitHeader elem = none) ↔
        ∃ frame ∈ received, rejected frame := by
      simp only [List.mem_map, exists_exists_and_eq_and]
      refine exists_congr (fun frame => and_congr_right (fun member => ?_))
      exact (rejected_frame frame _ (headers frame member)).symm
    have ends : endsMatched splitHeader (received.map (fun frame => (frame.headD 0, frame.tail))) ↔
        ∃ frame, received.getLast? = some frame ∧ frame.head? = some last := by
      simp only [endsMatched, List.getLast?_map, Option.map_eq_some_iff, split_header_true]
      constructor
      · rintro ⟨elem, ⟨frame, isLast, rfl⟩, header⟩
        rw [← header]
        cases frame with
        | nil => exact absurd (List.mem_of_getLast? isLast) headless
        | cons first data => exact ⟨first :: data, isLast, rfl⟩
      · rintro ⟨frame, isLast, header⟩
        exact ⟨_, ⟨frame, isLast, rfl⟩, by simp [List.headD_eq_head?_getD, header]⟩
    rw [throws, ends]
    simp

-- A message cut after its first frame: one Data that ends as if it were whole.
theorem truncated_message_looks_complete : ¬ NoSilentTruncation [[nonLast, 7]] := by
  intro safe
  obtain ⟨sub, found, elem, member, isLast⟩ := safe 0 (.completed [[7]]) (by decide) rfl
  have only : (framesOfData (.completed [[nonLast, 7]])).elems[0]? = some (.completed [(nonLast, [7])]) := by decide
  obtain rfl : Emission.completed [(nonLast, [7])] = sub := Option.some.inj (only.symm.trans found)
  simp only [completed_elems, List.mem_singleton] at member
  simp [member, nonLast, last] at isLast

end Terminal

end Toolbox8.AkkaStreamCoding
