import Toolbox8.ByteStrings

set_option autoImplicit false

namespace Toolbox8.Streams

-- The states a byte string machine is built from. Fn names the functions that fn2state
-- wraps, so that a state that leads back to itself is still a finite value.
inductive State (Fn : Type) where
  | takeBytesNext (n : Int) (buffer : ByteString) (andThen : State Fn)
  | fn2state (fn : Fn)
  | noopSeqState
  | ignore
deriving DecidableEq, Repr

variable {Fn : Type}

-- None completes the stream.
abbrev StateResult (Fn : Type) := Option (State Fn × List ByteString)

-- One application of a state, with the calls of named functions it has made.
structure Applied (Fn : Type) where
  calls : List (Fn × ByteString)
  result : StateResult Fn
deriving DecidableEq, Repr

def takeBytes (n : Int) (andThen : State Fn) : State Fn := .takeBytesNext n [] andThen

-- The function takeInt gives to takeBytes(4).
def takeInt (andThen : BitVec 32 → StateResult Fn) (bs : ByteString) : StateResult Fn :=
  andThen (bs.foldl Base.shiftInByte 0)

def concatState2result (state : State Fn) : StateResult Fn := some (state, [])

-- The fuel bounds the nesting of applications; none means that it has run out.
def apply (fns : Fn → ByteString → StateResult Fn) : Nat → State Fn → ByteString → Option (Applied Fn)
  | 0, _, _ => none
  | fuel + 1, .takeBytesNext n buffer andThen, bs =>
      if bs.length < n then some ⟨[], some (.takeBytesNext (n - bs.length) (buffer ++ bs) andThen, [])⟩
      else do
        let applied1 ← apply fns fuel andThen (buffer ++ bs.take n.toNat)
        match applied1.result with
        | none => some applied1
        | some (state1, out1) =>
            let applied2 ← apply fns fuel state1 (bs.drop n.toNat)
            some ⟨applied1.calls ++ applied2.calls, applied2.result.map (fun (state2, out2) => (state2, out1 ++ out2))⟩
  | _ + 1, .fn2state fn, bs => some ⟨[(fn, bs)], fns fn bs⟩
  | _ + 1, .noopSeqState, bs => some ⟨[], some (.noopSeqState, [bs])⟩
  | _ + 1, .ignore, _ => some ⟨[], some (.ignore, [])⟩

-- What a run over all the input has called and emitted; no state is left once it has completed.
structure Ran (Fn : Type) where
  calls : List (Fn × ByteString)
  outs : List ByteString
  state : Option (State Fn)
deriving DecidableEq, Repr

-- takeWhile ends the run at the first None, and mapConcat hands the outputs on one by one.
def stateMachineMapAsyncConcat (fns : Fn → ByteString → StateResult Fn) (fuel : Nat) :
    State Fn → List ByteString → Option (Ran Fn)
  | state, [] => some ⟨[], [], some state⟩
  | state, bs :: rest => do
      let applied ← apply fns fuel state bs
      match applied.result with
      | none => some ⟨applied.calls, [], none⟩
      | some (next, out) =>
          let later ← stateMachineMapAsyncConcat fns fuel next rest
          some ⟨applied.calls ++ later.calls, out ++ later.outs, later.state⟩

theorem short_or_taken (n : Nat) (bs : ByteString) :
    bs.length < n ∨ ∃ taken left, bs = taken ++ left ∧ taken.length = n := by
  by_cases short : bs.length < n
  · exact .inl short
  · refine .inr ⟨bs.take n, bs.drop n, (List.take_append_drop n bs).symm, ?_⟩
    rw [List.length_take]
    omega

theorem taken_bounds (missing : Nat) (taken left : ByteString) (full : taken.length = missing + 1) :
    ¬ (taken ++ left).length < ((missing + 1 : Nat) : Int) ∧
      (taken ++ left).take ((missing + 1 : Nat) : Int).toNat = taken ∧
      (taken ++ left).drop ((missing + 1 : Nat) : Int).toNat = left := by
  rw [Int.toNat_natCast, ← full, List.length_append]
  exact ⟨by omega, List.take_left, List.drop_left⟩

section Rules

variable (fns : Fn → ByteString → StateResult Fn) (fuel : Nat) (n : Int) (buffer bs : ByteString) (fn : Fn)

theorem apply_short (short : bs.length < n) (andThen : State Fn) :
    apply fns (fuel + 1) (.takeBytesNext n buffer andThen) bs =
      some ⟨[], some (.takeBytesNext (n - bs.length) (buffer ++ bs) andThen, [])⟩ := by
  rw [apply, if_pos short]

theorem apply_moves (enough : ¬ bs.length < n) (state1 : State Fn) (out1 : List ByteString)
    (moved : fns fn (buffer ++ bs.take n.toNat) = some (state1, out1)) (applied2 : Applied Fn)
    (left : apply fns (fuel + 1) state1 (bs.drop n.toNat) = some applied2) :
    apply fns (fuel + 2) (.takeBytesNext n buffer (.fn2state fn)) bs =
      some ⟨(fn, buffer ++ bs.take n.toNat) :: applied2.calls,
        applied2.result.map (fun (state2, out2) => (state2, out1 ++ out2))⟩ := by
  rw [apply, if_neg enough]
  simp [apply, moved, left]

theorem apply_taken (missing : Nat) (taken left : ByteString) (full : taken.length = missing + 1) (state1 : State Fn)
    (out1 : List ByteString) (moved : fns fn (buffer ++ taken) = some (state1, out1)) (applied2 : Applied Fn)
    (later : apply fns (fuel + 1) state1 left = some applied2) :
    apply fns (fuel + 2) (.takeBytesNext ((missing + 1 : Nat) : Int) buffer (.fn2state fn)) (taken ++ left) =
      some ⟨(fn, buffer ++ taken) :: applied2.calls,
        applied2.result.map (fun (state2, out2) => (state2, out1 ++ out2))⟩ := by
  obtain ⟨enough, front, back⟩ := taken_bounds missing taken left full
  have moves := apply_moves fns fuel ((missing + 1 : Nat) : Int) buffer (taken ++ left) fn enough state1 out1
    (by rw [front]; exact moved) applied2 (by rw [back]; exact later)
  rwa [front] at moves

theorem apply_completes (missing : Nat) (taken left : ByteString) (full : taken.length = missing + 1)
    (ends : fns fn (buffer ++ taken) = none) :
    apply fns (fuel + 2) (.takeBytesNext ((missing + 1 : Nat) : Int) buffer (.fn2state fn)) (taken ++ left) =
      some ⟨[(fn, buffer ++ taken)], none⟩ := by
  obtain ⟨enough, front, _⟩ := taken_bounds missing taken left full
  rw [apply, if_neg enough, front]
  simp [apply, ends]

theorem run_completes (state : State Fn) (rest : List ByteString) (calls : List (Fn × ByteString))
    (applied : apply fns fuel state bs = some ⟨calls, none⟩) :
    stateMachineMapAsyncConcat fns fuel state (bs :: rest) = some ⟨calls, [], none⟩ := by
  simp [stateMachineMapAsyncConcat, applied]

theorem run_moves (state next : State Fn) (rest : List ByteString) (calls : List (Fn × ByteString))
    (out : List ByteString) (later : Ran Fn) (applied : apply fns fuel state bs = some ⟨calls, some (next, out)⟩)
    (ran : stateMachineMapAsyncConcat fns fuel next rest = some later) :
    stateMachineMapAsyncConcat fns fuel state (bs :: rest) =
      some ⟨calls ++ later.calls, out ++ later.outs, later.state⟩ := by
  simp [stateMachineMapAsyncConcat, applied, ran]

end Rules

end Toolbox8.Streams
