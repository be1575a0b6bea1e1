import Toolbox8.Base.Feeding
import Toolbox8.Streams

set_option autoImplicit false

namespace Toolbox8.GroupFirstBytes

open Base

-- The variables of ByteStreams.groupFirstBytes; a buffer of none is null.
structure Group where
  buffer : Option ByteString
  left : Int
deriving DecidableEq, Repr

-- The function that statefulMapConcat calls for each element. A null buffer throws, and the stream fails.
def onElement (s : Group) (bs : ByteString) : Fed Group ByteString :=
  if s.left = 0 then ⟨[bs], some s⟩
  else
    match s.buffer with
    | none => ⟨[], none⟩
    | some buffer =>
        if bs.length < s.left then ⟨[], some ⟨some (buffer ++ bs), s.left - bs.length⟩⟩
        else ⟨[buffer ++ buffer.take s.left.toNat, buffer.drop s.left.toNat], some ⟨none, 0⟩⟩

-- All that ByteStreams.groupFirstBytes emits.
def groupFirstBytes (numBytes : Int) (pieces : List ByteString) : List ByteString :=
  (feed onElement ⟨some [], numBytes⟩ pieces).outs

-- The function that Streams.groupFirstBytes gives to takeBytes, as the only named one.
def firstNBytes (_ : Unit) (bs : ByteString) : Streams.StateResult Unit := some (.noopSeqState, [bs])

-- All that Streams.groupFirstBytes emits. The fuel is what Streams.apply needs.
def streamsGroupFirstBytes (n : Int) (fuel : Nat) (pieces : List ByteString) : Option (List ByteString) :=
  (Streams.stateMachineMapAsyncConcat firstNBytes fuel (Streams.takeBytes n (.fn2state ())) pieces).map (fun ran => ran.outs)

theorem boundary_exists (numBytes : Int) (pieces : List ByteString) (positive : 0 < numBytes)
    (enough : numBytes ≤ pieces.flatten.length) :
    ∃ front piece back, pieces = front ++ piece :: back ∧ (front.flatten.length : Int) < numBytes ∧
      numBytes ≤ front.flatten.length + piece.length := by
  induction pieces generalizing numBytes with
  | nil => simp at enough; omega
  | cons first rest ih =>
      rw [List.flatten_cons, List.length_append] at enough
      by_cases short : (first.length : Int) < numBytes
      · obtain ⟨front, piece, back, rfl, before, within⟩ := ih (numBytes - first.length) (by omega) (by omega)
        refine ⟨first :: front, piece, back, rfl, ?_, ?_⟩
        · rw [List.flatten_cons, List.length_append]
          omega
        · rw [List.flatten_cons, List.length_append]
          omega
      · exact ⟨[], first, rest, rfl, by simpa using positive, by simp; omega⟩

theorem feed_passes (s : Group) (done : s.left = 0) (pieces : List ByteString) : feed onElement s pieces = ⟨pieces, some s⟩ := by
  induction pieces with
  | nil => rfl
  | cons bs rest ih => simp [feed_cons, onElement, done, ih]

theorem feed_gathers (buffer : ByteString) (left : Int) (front back : List ByteString)
    (short : (front.flatten.length : Int) < left) :
    feed onElement ⟨some buffer, left⟩ (front ++ back) =
      feed onElement ⟨some (buffer ++ front.flatten), left - front.flatten.length⟩ back := by
  induction front generalizing buffer left with
  | nil => simp
  | cons first rest ih =>
      rw [List.flatten_cons, List.length_append] at short
      have unfinished : left ≠ 0 := by omega
      have more : (first.length : Int) < left := by omega
      have step : onElement ⟨some buffer, left⟩ first = ⟨[], some ⟨some (buffer ++ first), left - first.length⟩⟩ := by
        simp [onElement, unfinished, more]
      rw [List.cons_append, feed_cons, step, and_then_silent, ih _ _ (by omega), List.flatten_cons, List.append_assoc,
        List.length_append]
      have same : left - (first.length : Int) - rest.flatten.length = left - ((first.length + rest.flatten.length : Nat) : Int) := by
        omega
      rw [same]

-- What is emitted at the boundary is made of the buffer alone.
theorem emitted_at_boundary (numBytes : Int) (front : List ByteString) (piece : ByteString) (back : List ByteString)
    (short : (front.flatten.length : Int) < numBytes) (full : numBytes ≤ front.flatten.length + piece.length) :
    groupFirstBytes numBytes (front ++ piece :: back) =
      (front.flatten ++ front.flatten.take (numBytes - front.flatten.length).toNat) ::
        front.flatten.drop (numBytes - front.flatten.length).toNat :: back := by
  have unfinished : numBytes - (front.flatten.length : Int) ≠ 0 := by omega
  have enough : ¬ (piece.length : Int) < numBytes - front.flatten.length := by omega
  rw [groupFirstBytes, feed_gathers [] numBytes front (piece :: back) short, feed_cons, List.nil_append]
  simp only [onElement, unfinished, enough, if_false, and_then_some]
  rw [feed_passes ⟨none, 0⟩ rfl]
  rfl

theorem noop_passes (fuel : Nat) (pieces : List ByteString) :
    Streams.stateMachineMapAsyncConcat firstNBytes (fuel + 1) .noopSeqState pieces =
      some ⟨[], pieces, some .noopSeqState⟩ := by
  induction pieces with
  | nil => rfl
  | cons bs rest ih =>
      exact Streams.run_moves firstNBytes (fuel + 1) bs .noopSeqState .noopSeqState rest [] [bs] _ rfl ih

theorem streams_at_boundary (fuel : Nat) (n : Int) (buffer : ByteString) (front : List ByteString) (piece : ByteString)
    (back : List ByteString) (short : (front.flatten.length : Int) < n) (full : n ≤ front.flatten.length + piece.length) :
    ∃ ran, Streams.stateMachineMapAsyncConcat firstNBytes (fuel + 2) (.takeBytesNext n buffer (.fn2state ()))
        (front ++ piece :: back) = some ran ∧
      ran.outs = (buffer ++ front.flatten ++ piece.take (n - front.flatten.length).toNat) ::
        piece.drop (n - front.flatten.length).toNat :: back := by
  induction front generalizing n buffer with
  | nil =>
      have enough : ¬ (piece.length : Int) < n := by
        simp at full
        omega
      have moves := Streams.apply_moves firstNBytes fuel n buffer piece () enough .noopSeqState _ rfl _ rfl
      refine ⟨_, Streams.run_moves firstNBytes (fuel + 2) piece _ _ back _ _ _ moves (noop_passes (fuel + 1) back), ?_⟩
      simp
  | cons first rest ih =>
      rw [List.flatten_cons, List.length_append] at short full
      have more : (first.length : Int) < n := by omega
      obtain ⟨later, ran, outs⟩ := ih (n - first.length) (buffer ++ first) (by omega) (by omega)
      have waits := Streams.apply_short firstNBytes (fuel + 1) n buffer first more (.fn2state ())
      refine ⟨_, Streams.run_moves firstNBytes (fuel + 2) first _ _ (rest ++ piece :: back) _ _ later waits ran, ?_⟩
      have left : n - ((first.length + rest.flatten.length : Nat) : Int) = n - first.length - rest.flatten.length := by omega
      simp only [List.nil_append, outs, List.flatten_cons, List.append_assoc, List.length_append, left]

structure Conserves (numBytes : Int) (fuel : Nat) (pieces : List ByteString) : Prop where
  lossless : (groupFirstBytes numBytes pieces).flatten = pieces.flatten
  first : 0 < numBytes → (groupFirstBytes numBytes pieces).head? = some (pieces.flatten.take numBytes.toNat)
  agrees : 0 < numBytes → ∃ outs, streamsGroupFirstBytes numBytes fuel pieces = some outs ∧
    outs.head? = (groupFirstBytes numBytes pieces).head?

theorem first_bytes_split (numBytes : Int) (front piece back : ByteString)
    (short : (front.length : Int) < numBytes) (full : numBytes ≤ front.length + piece.length) :
    (front ++ (piece ++ back)).take numBytes.toNat = front ++ piece.take (numBytes - front.length).toNat := by
  rw [List.take_append, List.take_of_length_le (by omega), List.take_append_of_le_length (by omega)]
  congr 2
  omega

theorem streams_group_first (numBytes : Int) (fuel : Nat) (pieces : List ByteString) (positive : 0 < numBytes)
    (enough : numBytes ≤ pieces.flatten.length) :
    ∃ outs, streamsGroupFirstBytes numBytes (fuel + 2) pieces = some outs ∧
      outs.head? = some (pieces.flatten.take numBytes.toNat) := by
  obtain ⟨front, piece, back, rfl, short, full⟩ := boundary_exists numBytes pieces positive enough
  obtain ⟨ran, done, outs⟩ := streams_at_boundary fuel numBytes [] front piece back short full
  refine ⟨ran.outs, by simp only [streamsGroupFirstBytes, Streams.takeBytes, done, Option.map_some], ?_⟩
  rw [outs, List.head?_cons, List.flatten_append, List.flatten_cons, List.nil_append,
    first_bytes_split numBytes front.flatten piece back.flatten short full]

-- At the boundary the buffer stands in for the piece, so the two have to be the same bytes.
theorem conserves_at_boundary (numBytes : Int) (fuel : Nat) (front : List ByteString) (piece : ByteString)
    (back : List ByteString) (short : (front.flatten.length : Int) < numBytes)
    (full : numBytes ≤ front.flatten.length + piece.length) :
    Conserves numBytes (fuel + 2) (front ++ piece :: back) ↔ piece = front.flatten := by
  have emitted := emitted_at_boundary numBytes front piece back short full
  constructor
  · intro conserves
    have lossless := conserves.lossless
    rw [emitted, List.flatten_cons, List.flatten_cons, List.flatten_append, List.flatten_cons, List.append_assoc,
      List.append_cancel_left_eq, ← List.append_assoc, List.take_append_drop, List.append_cancel_right_eq] at lossless
    exact lossless.symm
  · intro same
    have positive : 0 < numBytes := by omega
    have enough : numBytes ≤ (front ++ piece :: back).flatten.length := by
      rw [List.flatten_append, List.flatten_cons, List.length_append, List.length_append]
      omega
    have first : (groupFirstBytes numBytes (front ++ piece :: back)).head? =
        some ((front ++ piece :: back).flatten.take numBytes.toNat) := by
      rw [emitted, List.flatten_append, List.flatten_cons, first_bytes_split numBytes _ _ _ short full, same]
      rfl
    obtain ⟨outs, ran, agrees⟩ := streams_group_first numBytes fuel _ positive enough
    constructor
    · rw [emitted, List.flatten_cons, List.flatten_cons, List.flatten_append, List.flatten_cons, List.append_assoc,
        ← List.append_assoc (List.take _ _), List.take_append_drop, same]
    · exact fun _ => first
    · exact fun _ => ⟨outs, ran, agrees.trans first.symm⟩

theorem group_first_bytes_conserves_iff (numBytes : Int) (nonneg : 0 ≤ numBytes) (pieces : List ByteString)
    (enough : numBytes ≤ pieces.flatten.length) (fuel : Nat) :
    Conserves numBytes (fuel + 2) pieces ↔
      ∀ front piece back, pieces = front ++ piece :: back → (front.flatten.length : Int) < numBytes →
        numBytes ≤ front.flatten.length + piece.length → piece = front.flatten := by
  constructor
  · rintro conserves front piece back rfl short full
    exact (conserves_at_boundary numBytes fuel front piece back short full).mp conserves
  · intro doubled
    by_cases positive : 0 < numBytes
    · obtain ⟨front, piece, back, rfl, short, full⟩ := boundary_exists numBytes pieces positive enough
      exact (conserves_at_boundary numBytes fuel front piece back short full).mpr (doubled front piece back rfl short full)
    · have none : numBytes = 0 := by omega
      constructor
      · rw [none, groupFirstBytes, feed_passes _ rfl]
      · exact fun some => absurd some positive
      · exact fun some => absurd some positive

theorem group_first_bytes_conserves_iff_two :
    Conserves 2 2 [[7], [7]] ↔
      ∀ (front : List ByteString) (piece : ByteString) (back : List ByteString), [[7], [7]] = front ++ piece :: back →
        (front.flatten.length : Int) < 2 → 2 ≤ (front.flatten.length : Int) + piece.length → piece = front.flatten :=
  group_first_bytes_conserves_iff 2 (by decide) [[7], [7]] (by decide) 0

theorem group_first_bytes_loses_the_piece :
    ¬ ∀ numBytes : Int, 0 ≤ numBytes → ∀ pieces : List ByteString, numBytes ≤ pieces.flatten.length →
      Conserves numBytes 2 pieces := by
  intro always
  have lossless := (always 2 (by decide) [[1, 2, 3]] (by decide)).lossless
  revert lossless
  decide

end Toolbox8.GroupFirstBytes
