import Toolbox8.TakeBytesChain
import Mathlib.Algebra.Ring.Nat

set_option autoImplicit false

namespace Toolbox8

namespace JarTree8

def toBytes (int : BitVec 32) : ByteString :=
  [(int.sshiftRight 24 &&& 0xff#32).setWidth 8,
    (int.sshiftRight 16 &&& 0xff#32).setWidth 8,
    (int.sshiftRight 8 &&& 0xff#32).setWidth 8,
    (int &&& 0xff#32).setWidth 8]

-- The low byte of a word that is shifted by at most 24 has no copy of the sign in it.
theorem masked_shift (int : BitVec 32) (k : Nat) (low : k ≤ 24) :
    (int.sshiftRight k &&& 0xff#32).setWidth 8 = (int >>> k).setWidth 8 := by
  apply BitVec.eq_of_getLsbD_eq
  intro i bound
  simp only [BitVec.getLsbD_setWidth, BitVec.getLsbD_and, Base.byte_mask_bit, BitVec.getLsbD_sshiftRight,
    BitVec.getLsbD_ushiftRight]
  have inside : k + i < 32 := by omega
  simp [bound, inside]
  omega

theorem to_bytes_big_endian (int : BitVec 32) : toBytes int = Base.bigEndian int := by
  have unshifted := masked_shift int 0 (by decide)
  simp only [BitVec.sshiftRight_zero, BitVec.ushiftRight_zero] at unshifted
  simp only [toBytes, Base.bigEndian, masked_shift int 24 (by decide), masked_shift int 16 (by decide),
    masked_shift int 8 (by decide), unshifted]

end JarTree8

namespace Streams

open Base

inductive LoopFn where
  | int
  | payload
deriving DecidableEq, Repr

def lengthPrefixed : State LoopFn := takeBytes 4 (.fn2state .int)

def loopFns : LoopFn → ByteString → StateResult LoopFn
  | .int => takeInt (fun n => concatState2result (takeBytes n.toInt (.fn2state .payload)))
  | .payload => fun payload => some (lengthPrefixed, [payload])

def encode (payloads : List ByteString) : ByteString :=
  payloads.flatMap (fun payload => JarTree8.toBytes (BitVec.ofNat 32 payload.length) ++ payload)

-- The payloads whose encoding lies within the first bytes of the whole encoding.
def completeIn : List ByteString → Nat → List ByteString
  | [], _ => []
  | payload :: rest, available =>
      if 4 + payload.length ≤ available then payload :: completeIn rest (available - (4 + payload.length)) else []

def headerLink : Link LoopFn := .takeBytes 4 (by decide) .int

-- The loop as a chain: a payload that takes no byte is put out along with its header.
def loopNext : LoopFn → ByteString → Option (Link LoopFn × List ByteString)
  | .int, bs =>
      let n := (bs.foldl shiftInByte 0).toInt.toNat
      if positive : 1 ≤ n then some (.takeBytes n positive .payload, []) else some (headerLink, [[]])
  | .payload, bs => some (headerLink, [bs])

abbrev feedLoop := feed (stepByte loopNext)

-- The loop never completes, and what one application puts out is what the bytes put out.
def LoopAgrees (result : StateResult LoopFn) (fed : Fed (Pending LoopFn) (Effect LoopFn)) : Prop :=
  ∃ missing buffer fn, fed.state = some (.taking missing buffer fn) ∧
    result = some ((Pending.taking missing buffer fn).state, emitted fed.outs)

theorem loop_fired (fn : LoopFn) (bytes left : ByteString) (link : Link LoopFn) (out1 : List ByteString)
    (result2 : StateResult LoopFn) (agrees : LoopAgrees result2 (feedLoop link.pending left)) :
    LoopAgrees (result2.map (fun (state2, out2) => (state2, out1 ++ out2)))
      (Fed.andThen ⟨[.call fn bytes, .emit out1], some link.pending⟩ (fun p => feedLoop p left)) := by
  obtain ⟨missing, buffer, later, state, rfl⟩ := agrees
  exact ⟨missing, buffer, later, state, by simp⟩

theorem fire_payload (bytes : ByteString) :
    fire loopNext .payload bytes = ⟨[.call .payload bytes, .emit [bytes]], some headerLink.pending⟩ := rfl

theorem fire_length (bytes : ByteString) (n : Nat) (positive : 1 ≤ n)
    (length : (bytes.foldl shiftInByte 0).toInt.toNat = n) :
    fire loopNext .int bytes = ⟨[.call .int bytes, .emit []], some (Link.takeBytes n positive .payload).pending⟩ := by
  subst length
  rw [fire, loopNext, dif_pos positive]

theorem fire_empty (bytes : ByteString) (none : (bytes.foldl shiftInByte 0).toInt.toNat = 0) :
    fire loopNext .int bytes = ⟨[.call .int bytes, .emit [[]]], some headerLink.pending⟩ := by
  rw [fire, loopNext, dif_neg (by omega)]

def LoopApplies (fuel : Nat) (p : Pending LoopFn) (bs : ByteString) : Prop :=
  ∃ applied, apply loopFns fuel p.state bs = some applied ∧ LoopAgrees applied.result (feedLoop p bs)

theorem loop_short (fuel missing : Nat) (buffer bs : ByteString) (fn : LoopFn) (short : bs.length < missing + 1) :
    LoopApplies (fuel + 1) (.taking missing buffer fn) bs := by
  refine ⟨_, apply_short _ fuel _ buffer bs (by omega) _, missing - bs.length, buffer ++ bs, fn, ?_⟩
  rw [feedLoop, feed_short loopNext missing buffer bs fn (by omega), Pending.state,
    show ((missing + 1 : Nat) : Int) - bs.length = ((missing - bs.length + 1 : Nat) : Int) by omega]
  exact ⟨rfl, rfl⟩

theorem loop_payload (fuel missing : Nat) (buffer taken left : ByteString) (full : taken.length = missing + 1)
    (later : LoopApplies (fuel + 1) headerLink.pending left) :
    LoopApplies (fuel + 2) (.taking missing buffer .payload) (taken ++ left) := by
  obtain ⟨applied, rest, agrees⟩ := later
  refine ⟨_, apply_taken loopFns fuel buffer .payload missing taken left full lengthPrefixed [buffer ++ taken] rfl
    applied rest, ?_⟩
  rw [feedLoop, feed_full loopNext missing buffer taken left .payload full, fire_payload]
  exact loop_fired .payload _ _ headerLink _ applied.result agrees

theorem loop_header (fuel missing n : Nat) (buffer taken left : ByteString) (full : taken.length = missing + 1)
    (length : ((buffer ++ taken).foldl shiftInByte 0).toInt.toNat = n + 1)
    (later : LoopApplies (fuel + 1) (.taking n [] .payload) left) :
    LoopApplies (fuel + 2) (.taking missing buffer .int) (taken ++ left) := by
  obtain ⟨applied, rest, agrees⟩ := later
  have same : ((buffer ++ taken).foldl shiftInByte 0).toInt = ((n + 1 : Nat) : Int) := by omega
  have takes : loopFns .int (buffer ++ taken) = some ((Pending.taking n [] .payload).state, []) := by
    rw [Pending.state, ← same]
    rfl
  refine ⟨_, apply_taken loopFns fuel buffer .int missing taken left full _ [] takes applied rest, ?_⟩
  rw [feedLoop, feed_full loopNext missing buffer taken left .int full, fire_length _ (n + 1) (by omega) length]
  exact loop_fired .int _ _ (.takeBytes (n + 1) (by omega) .payload) _ applied.result agrees

-- A payload of no byte fires at once, on the bytes its header has left over.
theorem loop_header_empty (fuel missing : Nat) (buffer taken left : ByteString) (full : taken.length = missing + 1)
    (none : ((buffer ++ taken).foldl shiftInByte 0).toInt.toNat = 0)
    (later : LoopApplies (fuel + 1) headerLink.pending left) :
    LoopApplies (fuel + 3) (.taking missing buffer .int) (taken ++ left) := by
  obtain ⟨applied, rest, agrees⟩ := later
  have empty := apply_moves loopFns fuel ((buffer ++ taken).foldl shiftInByte 0).toInt [] left .payload (by omega)
    lengthPrefixed [[]] (by rw [none]; rfl) applied (by rw [none]; exact rest)
  refine ⟨_, apply_taken loopFns (fuel + 1) buffer .int missing taken left full _ [] rfl _ empty, ?_⟩
  rw [feedLoop, feed_full loopNext missing buffer taken left .int full, fire_empty _ none]
  simpa [Function.comp_def] using loop_fired .int (buffer ++ taken) _ headerLink [[]] applied.result agrees

-- The nesting ends: the loop comes back to its header with fewer bytes than it was given.
theorem loop_apply (fuel missing : Nat) (buffer bs : ByteString) (fn : LoopFn) (enough : 2 * bs.length + 3 ≤ fuel) :
    LoopApplies fuel (.taking missing buffer fn) bs := by
  induction size : bs.length using Nat.strongRecOn generalizing fuel missing buffer bs fn with
  | ind total ih =>
      obtain ⟨deeper, rfl⟩ : ∃ deeper, fuel = deeper + 3 := ⟨fuel - 3, by omega⟩
      rcases short_or_taken (missing + 1) bs with short | ⟨taken, left, rfl, full⟩
      · exact loop_short (deeper + 2) missing buffer bs fn short
      · rw [List.length_append, full] at enough size
        cases fn with
        | payload =>
            exact loop_payload (deeper + 1) missing buffer taken left full
              (ih left.length (by omega) (deeper + 2) 3 [] left .int (by omega) rfl)
        | int =>
            cases length : ((buffer ++ taken).foldl shiftInByte 0).toInt.toNat with
            | zero =>
                exact loop_header_empty deeper missing buffer taken left full length
                  (ih left.length (by omega) (deeper + 1) 3 [] left .int (by omega) rfl)
            | succ n =>
                exact loop_header (deeper + 1) missing n buffer taken left full length
                  (ih left.length (by omega) (deeper + 2) n [] left .payload (by omega) rfl)

theorem loop_run (fuel missing : Nat) (buffer : ByteString) (fn : LoopFn) (chunks : List ByteString)
    (enough : 2 * chunks.flatten.length + 3 ≤ fuel) :
    ∃ ran, stateMachineMapAsyncConcat loopFns fuel (Pending.taking missing buffer fn).state chunks = some ran ∧
      ran.outs = emitted (feedLoop (.taking missing buffer fn) chunks.flatten).outs := by
  induction chunks generalizing missing buffer fn with
  | nil => exact ⟨_, rfl, rfl⟩
  | cons bs rest ih =>
      rw [List.flatten_cons, List.length_append] at enough
      obtain ⟨⟨calls, result⟩, first, nextMissing, nextBuffer, nextFn, state, same⟩ :=
        loop_apply fuel missing buffer bs fn (by omega)
      simp only at same
      subst same
      obtain ⟨later, ran, outs⟩ := ih nextMissing nextBuffer nextFn (by omega)
      refine ⟨_, run_moves _ fuel bs _ _ rest calls _ later first ran, ?_⟩
      rw [List.flatten_cons, feedLoop, feed_append]
      simp [Fed.andThen, state, outs]

theorem header_length (payload : ByteString) (short : payload.length < 2 ^ 31) :
    ((JarTree8.toBytes (BitVec.ofNat 32 payload.length)).foldl shiftInByte 0).toInt.toNat = payload.length := by
  rw [JarTree8.to_bytes_big_endian, show (0 : BitVec 32) = 0#32 from rfl, shift_in_big_endian,
    BitVec.toInt_eq_toNat_of_lt]
  · simp only [Int.toNat_natCast, BitVec.toNat_ofNat]
    omega
  · simp only [BitVec.toNat_ofNat]
    omega

theorem to_bytes_length (int : BitVec 32) : (JarTree8.toBytes int).length = 4 := rfl

theorem feed_message (payload rest : ByteString) (short : payload.length < 2 ^ 31) :
    emitted (feedLoop headerLink.pending (JarTree8.toBytes (BitVec.ofNat 32 payload.length) ++ (payload ++ rest))).outs =
      payload :: emitted (feedLoop headerLink.pending rest).outs := by
  have header := feed_full loopNext 3 [] (JarTree8.toBytes (BitVec.ofNat 32 payload.length)) (payload ++ rest) .int
    (to_bytes_length _)
  have length := header_length payload short
  rw [List.nil_append] at header
  cases payload with
  | nil =>
      rw [fire_empty _ length] at header
      exact congrArg (fun fed => emitted fed.outs) header
  | cons b more =>
      rw [fire_length _ (more.length + 1) (by omega) length] at header
      have body := feed_full loopNext more.length [] (b :: more) rest .payload rfl
      rw [fire_payload] at body
      have whole := congrArg (fun fed => emitted fed.outs) header
      exact whole.trans (congrArg (fun fed => emitted fed.outs) body)

theorem feed_cut (payload received : ByteString) (short : payload.length < 2 ^ 31)
    (cut : received.length < 4 + payload.length)
    (before : received <+: JarTree8.toBytes (BitVec.ofNat 32 payload.length) ++ payload) :
    emitted (feedLoop headerLink.pending received).outs = [] := by
  by_cases inHeader : received.length ≤ 3
  · have fed := feed_short loopNext 3 [] received .int inHeader
    exact congrArg (fun fed => emitted fed.outs) fed
  · obtain ⟨part, rfl⟩ : ∃ part, received = JarTree8.toBytes (BitVec.ofNat 32 payload.length) ++ part := by
      have inside := List.prefix_of_prefix_length_le (List.prefix_append _ payload) before
        (by rw [to_bytes_length]; omega)
      exact ⟨_, (List.prefix_iff_eq_append.mp inside).symm⟩
    rw [List.length_append, to_bytes_length] at cut
    have header := feed_full loopNext 3 [] (JarTree8.toBytes (BitVec.ofNat 32 payload.length)) part .int (to_bytes_length _)
    rw [List.nil_append, fire_length _ payload.length (by omega) (header_length payload short)] at header
    have body := feed_short loopNext (payload.length - 1) [] part .payload (by omega)
    have whole := congrArg (fun fed => emitted fed.outs) header
    exact whole.trans (congrArg (fun fed => emitted fed.outs) body)

theorem encode_cons (payload : ByteString) (rest : List ByteString) :
    encode (payload :: rest) = JarTree8.toBytes (BitVec.ofNat 32 payload.length) ++ (payload ++ encode rest) := by
  simp [encode]

theorem feed_received (payloads : List ByteString) (received : ByteString)
    (short : ∀ payload ∈ payloads, payload.length < 2 ^ 31) (before : received <+: encode payloads) :
    emitted (feedLoop headerLink.pending received).outs = completeIn payloads received.length := by
  induction payloads generalizing received with
  | nil =>
      have empty : received = [] := List.prefix_nil.mp before
      rw [empty]
      rfl
  | cons payload rest ih =>
      have payloadShort := short payload (by simp)
      rw [encode_cons] at before
      by_cases whole : 4 + payload.length ≤ received.length
      · obtain ⟨left, rfl⟩ : ∃ left,
            received = JarTree8.toBytes (BitVec.ofNat 32 payload.length) ++ (payload ++ left) := by
          rw [← List.append_assoc] at before
          have inside := List.prefix_of_prefix_length_le (List.prefix_append _ (encode rest)) before
            (by rw [List.length_append, to_bytes_length]; exact whole)
          obtain ⟨left, split⟩ := inside
          exact ⟨left, by rw [← split, List.append_assoc]⟩
        rw [List.prefix_append_right_inj, List.prefix_append_right_inj] at before
        have later := ih left (fun p member => short p (by simp [member])) before
        rw [feed_message payload left payloadShort, later, completeIn, if_pos whole]
        simp only [List.length_append, to_bytes_length]
        congr 2
        omega
      · rw [completeIn, if_neg whole]
        refine feed_cut payload received payloadShort (by omega) ?_
        rw [← List.append_assoc] at before
        refine List.prefix_of_prefix_length_le before (List.prefix_append _ _) ?_
        rw [List.length_append, to_bytes_length]
        omega

theorem complete_in_whole (payloads : List ByteString) : completeIn payloads (encode payloads).length = payloads := by
  induction payloads with
  | nil => rfl
  | cons payload rest ih =>
      rw [completeIn, encode_cons, List.length_append, List.length_append, to_bytes_length, if_pos (by omega),
        show 4 + (payload.length + (encode rest).length) - (4 + payload.length) = (encode rest).length by omega, ih]

theorem loop_emits (payloads chunks : List ByteString) (short : ∀ payload ∈ payloads, payload.length < 2 ^ 31)
    (before : chunks.flatten <+: encode payloads) (fuel : Nat) (enough : 2 * chunks.flatten.length + 3 ≤ fuel) :
    ∃ ran, stateMachineMapAsyncConcat loopFns fuel lengthPrefixed chunks = some ran ∧
      ran.outs = completeIn payloads chunks.flatten.length := by
  obtain ⟨ran, runs, outs⟩ := loop_run fuel 3 [] .int chunks enough
  exact ⟨ran, runs, outs.trans (feed_received payloads chunks.flatten short before)⟩

-- Cut short, whole, and on bytes that are no encoding at all: there the applications still end.
theorem length_prefixed_any_chunking (payloads : List ByteString)
    (short : ∀ payload ∈ payloads, payload.length < 2 ^ 31) :
    (∀ chunks : List ByteString, chunks.flatten <+: encode payloads → ∃ enough, ∀ fuel, enough ≤ fuel →
      ∃ ran, stateMachineMapAsyncConcat loopFns fuel lengthPrefixed chunks = some ran ∧
        ran.outs = completeIn payloads chunks.flatten.length) ∧
    (∀ chunks : List ByteString, chunks.flatten = encode payloads → ∃ enough, ∀ fuel, enough ≤ fuel →
      ∃ ran, stateMachineMapAsyncConcat loopFns fuel lengthPrefixed chunks = some ran ∧ ran.outs = payloads) ∧
    (∀ chunks : List ByteString, ∃ enough, ∀ fuel, enough ≤ fuel →
      ∃ ran, stateMachineMapAsyncConcat loopFns fuel lengthPrefixed chunks = some ran) := by
  refine ⟨?_, ?_, ?_⟩
  · intro chunks before
    exact ⟨_, loop_emits payloads chunks short before⟩
  · intro chunks whole
    refine ⟨2 * chunks.flatten.length + 3, fun fuel enough => ?_⟩
    obtain ⟨ran, runs, outs⟩ := loop_emits payloads chunks short (whole ▸ List.prefix_rfl) fuel enough
    rw [whole, complete_in_whole] at outs
    exact ⟨ran, runs, outs⟩
  · intro chunks
    refine ⟨2 * chunks.flatten.length + 3, fun fuel enough => ?_⟩
    obtain ⟨ran, runs, _⟩ := loop_run fuel 3 [] .int chunks enough
    exact ⟨ran, runs⟩

theorem length_prefixed_two_payloads :
    (∀ payload ∈ ([[], [1, 2]] : List ByteString), payload.length < 2 ^ 31) ∧
    ∀ chunks : List ByteString, chunks.flatten = encode [[], [1, 2]] → ∃ enough, ∀ fuel, enough ≤ fuel →
      ∃ ran, stateMachineMapAsyncConcat loopFns fuel lengthPrefixed chunks = some ran ∧ ran.outs = [[], [1, 2]] :=
  ⟨by decide, (length_prefixed_any_chunking [[], [1, 2]] (by decide)).2.1⟩

end Streams

end Toolbox8
