import Toolbox8.ByteStrings

set_option autoImplicit false

namespace Toolbox8.ByteStringState

-- The states that a caller brings: out is put out when the driver enters the state. A Task of none fails.
structure StateAsync (S : Type) where
  out : S → List ByteString
  fn : S → ByteString → Option S

-- returned is the state that the Task of the call comes to.
structure ChunkCall (S : Type) where
  andThen : S
  bs : ByteString
  remaining : Nat
  returned : S
deriving DecidableEq, Repr

structure FnCall (S : Type) where
  state : S
  bs : ByteString
  returned : S
deriving DecidableEq, Repr

inductive Call (S : Type) where
  | chunk (call : ChunkCall S)
  | fn (call : FnCall S)
deriving DecidableEq, Repr

def Call.returned {S : Type} : Call S → S
  | .chunk call => call.returned
  | .fn call => call.returned

-- A state of takeAsync, one that the caller brings, or stateAsync with another out and the fn of such a state.
inductive BSAState (S : Type) where
  | inner (n : Nat) (andThen : S)
  | entered (s : S)
  | stateAsync (out : List ByteString) (s : S)
deriving DecidableEq, Repr

section Taking

variable {S : Type} (states : StateAsync S) (chunk : S → ByteString → Nat → Option S)

def BSAState.out : BSAState S → List ByteString
  | .inner _ _ => []
  | .entered s => states.out s
  | .stateAsync out _ => out

def callChunk (andThen : S) (bs : ByteString) (remaining : Nat) : Option (ChunkCall S) :=
  (chunk andThen bs remaining).map (fun s => ⟨andThen, bs, remaining, s⟩)

def callFn (s : S) (bs : ByteString) : Option (FnCall S) := (states.fn s bs).map (fun s2 => ⟨s, bs, s2⟩)

-- A Task gives the next state, with the calls that it has made.
def innerFn (n : Nat) (andThen : S) (bs : ByteString) : Option (BSAState S × List (Call S)) :=
  if bs.length < n then
    (callChunk chunk andThen bs (n - bs.length)).map (fun call => (.inner (n - bs.length) call.returned, [.chunk call]))
  else if bs.length = n then
    (callChunk chunk andThen bs 0).map (fun call => (.entered call.returned, [.chunk call]))
  else
    (callChunk chunk andThen (bs.take n) 0).bind (fun call =>
      (callFn states call.returned (bs.drop n)).map (fun later =>
        (.stateAsync (states.out call.returned ++ states.out later.returned) later.returned, [.chunk call, .fn later])))

def BSAState.fn : BSAState S → ByteString → Option (BSAState S × List (Call S))
  | .inner n andThen, bs => innerFn states chunk n andThen bs
  | .entered s, bs => (callFn states s bs).map (fun call => (.entered call.returned, [.fn call]))
  | .stateAsync _ s, bs => (callFn states s bs).map (fun call => (.entered call.returned, [.fn call]))

-- require(n > 0)
def takeAsync (n : Nat) (andThen : S) : Option (BSAState S) := if 0 < n then some (.inner n andThen) else none

-- What the driver emits on some input, and the calls that are made. It fails with the first Task that does.
def drive : BSAState S → List ByteString → Option (List ByteString × List (Call S))
  | state, [] => some (state.out states, [])
  | state, bs :: rest =>
      (state.fn states chunk bs).bind (fun (next, calls) =>
        (drive next rest).map (fun (outs, later) => (state.out states ++ outs, calls ++ later)))

def returnedLast (andThen : S) (chunks : List (ChunkCall S)) : S := (chunks.getLast?.map ChunkCall.returned).getD andThen

def reachedBy (s : S) (fns : List (FnCall S)) : S := (fns.getLast?.map FnCall.returned).getD s

-- Every call of chunk gets the state that the one before has returned and the bytes that are still missing after it.
structure Chunked (n : Nat) (andThen : S) (bytes : ByteString) (chunks : List (ChunkCall S)) : Prop where
  whole : (chunks.map ChunkCall.bs).flatten = bytes.take n
  nonempty : chunks ≠ []
  threaded : ∀ front call back, chunks = front ++ call :: back → call.andThen = returnedLast andThen front ∧
    chunk call.andThen call.bs call.remaining = some call.returned ∧
    call.remaining = n - ((front ++ [call]).map ChunkCall.bs).flatten.length ∧ (call.remaining = 0 ↔ back = [])

-- Every call of fn is one of the fn of the state that the one before has returned.
structure Followed (s : S) (bytes : ByteString) (fns : List (FnCall S)) : Prop where
  whole : (fns.map FnCall.bs).flatten = bytes
  threaded : ∀ front call back, fns = front ++ call :: back → call.state = reachedBy s front ∧
    states.fn call.state call.bs = some call.returned

def Accounted (n : Nat) (andThen : S) (bytes : ByteString) (emitted : List ByteString) (calls : List (Call S)) : Prop :=
  ∃ chunks fns, calls = chunks.map Call.chunk ++ fns.map Call.fn ∧ Chunked chunk n andThen bytes chunks ∧
    Followed states (returnedLast andThen chunks) (bytes.drop n) fns ∧
    emitted = calls.flatMap (fun call => states.out call.returned)

-- Nothing is put out by the states that chunk returns for the pieces that end before the n-th byte.
def SilentBefore : Nat → S → List ByteString → Prop
  | _, _, [] => True
  | n, andThen, bs :: rest =>
      bs.length < n → ∀ s, chunk andThen bs (n - bs.length) = some s →
        states.out s = [] ∧ SilentBefore (n - bs.length) s rest

section Chunks

variable (n : Nat) (andThen : S)

theorem returned_last_cons (call : ChunkCall S) (chunks : List (ChunkCall S)) :
    returnedLast andThen (call :: chunks) = returnedLast call.returned chunks := by
  cases chunks with
  | nil => rfl
  | cons next rest => simp [returnedLast, List.getLast?_cons]

theorem reached_by_cons (s : S) (call : FnCall S) (fns : List (FnCall S)) :
    reachedBy s (call :: fns) = reachedBy call.returned fns := by
  cases fns with
  | nil => rfl
  | cons next rest => simp [reachedBy, List.getLast?_cons]

theorem chunked_last (bs : ByteString) (bytes : ByteString) (s : S) (full : bs = bytes.take n) (enough : bs.length = n)
    (returns : chunk andThen bs 0 = some s) : Chunked chunk n andThen bytes [⟨andThen, bs, 0, s⟩] := by
  refine ⟨by simp [full], by simp, ?_⟩
  intro front call back split
  cases front with
  | nil =>
      obtain ⟨rfl, rfl⟩ := List.cons.inj split
      exact ⟨rfl, returns, by simp [enough], by simp⟩
  | cons first rest => simp at split

theorem chunked_more (bs : ByteString) (bytes : ByteString) (s : S) (chunks : List (ChunkCall S)) (short : bs.length < n)
    (returns : chunk andThen bs (n - bs.length) = some s) (later : Chunked chunk (n - bs.length) s bytes chunks) :
    Chunked chunk n andThen (bs ++ bytes) (⟨andThen, bs, n - bs.length, s⟩ :: chunks) := by
  refine ⟨?_, by simp, ?_⟩
  · rw [List.map_cons, List.flatten_cons, later.whole, List.take_append, List.take_of_length_le (Nat.le_of_lt short)]
  · intro front call back split
    cases front with
    | nil =>
        obtain ⟨rfl, rfl⟩ := List.cons.inj split
        refine ⟨rfl, returns, by simp, iff_of_false ?_ later.nonempty⟩
        simp only
        omega
    | cons first rest =>
        obtain ⟨rfl, rfl⟩ := List.cons.inj split
        obtain ⟨threads, returned, missing, last⟩ := later.threaded rest call back rfl
        refine ⟨?_, returned, ?_, last⟩
        · rw [returned_last_cons]
          exact threads
        · rw [missing, List.cons_append, List.map_cons, List.flatten_cons, List.length_append]
          simp only
          omega

theorem followed_nil (s : S) : Followed states s [] [] := by
  refine ⟨rfl, ?_⟩
  intro front call back split
  simp at split

theorem followed_cons (s : S) (bs bytes : ByteString) (s2 : S) (fns : List (FnCall S)) (returns : states.fn s bs = some s2)
    (later : Followed states s2 bytes fns) : Followed states s (bs ++ bytes) (⟨s, bs, s2⟩ :: fns) := by
  refine ⟨by rw [List.map_cons, List.flatten_cons, later.whole], ?_⟩
  intro front call back split
  cases front with
  | nil =>
      obtain ⟨rfl, rfl⟩ := List.cons.inj split
      exact ⟨rfl, returns⟩
  | cons first rest =>
      obtain ⟨rfl, rfl⟩ := List.cons.inj split
      rw [reached_by_cons]
      exact later.threaded rest call back rfl

end Chunks

section Runs

def callOuts (calls : List (Call S)) : List ByteString := calls.flatMap (fun call => states.out call.returned)

-- A state that passes what comes in on to s.
def PassesTo (state : BSAState S) (s : S) : Prop :=
  ∀ bs, state.fn states chunk bs = (callFn states s bs).map (fun call => (.entered call.returned, [.fn call]))

theorem drive_cons (state : BSAState S) (bs : ByteString) (rest : List ByteString) (emitted : List ByteString)
    (calls : List (Call S)) (drove : drive states chunk state (bs :: rest) = some (emitted, calls)) :
    ∃ next made outs later, state.fn states chunk bs = some (next, made) ∧ drive states chunk next rest = some (outs, later) ∧
      emitted = state.out states ++ outs ∧ calls = made ++ later := by
  obtain ⟨⟨next, made⟩, stepped, drove⟩ := Option.bind_eq_some_iff.mp drove
  obtain ⟨⟨outs, later⟩, went, same⟩ := Option.map_eq_some_iff.mp drove
  obtain ⟨rfl, rfl⟩ := Prod.mk.inj same
  exact ⟨next, made, outs, later, stepped, went, rfl, rfl⟩

theorem drive_passing (state : BSAState S) (s : S) (passes : PassesTo states chunk state s) (pieces emitted : List ByteString)
    (calls : List (Call S)) (drove : drive states chunk state pieces = some (emitted, calls)) :
    ∃ fns, calls = fns.map Call.fn ∧ Followed states s pieces.flatten fns ∧ emitted = state.out states ++ callOuts states calls := by
  induction pieces generalizing state s emitted calls with
  | nil =>
      obtain ⟨rfl, rfl⟩ := Prod.mk.inj (Option.some.inj drove)
      exact ⟨[], rfl, followed_nil states s, by simp [callOuts]⟩
  | cons bs rest ih =>
      obtain ⟨next, made, outs, later, stepped, went, rfl, rfl⟩ := drive_cons states chunk state bs rest emitted calls drove
      rw [passes bs] at stepped
      obtain ⟨call, called, same⟩ := Option.map_eq_some_iff.mp stepped
      obtain ⟨rfl, rfl⟩ := Prod.mk.inj same
      obtain ⟨s2, returns, rfl⟩ := Option.map_eq_some_iff.mp called
      obtain ⟨fns, rfl, followed, rfl⟩ := ih (.entered s2) s2 (fun _ => rfl) outs later went
      exact ⟨⟨s, bs, s2⟩ :: fns, rfl, followed_cons states s bs rest.flatten s2 fns returns followed,
        by simp [callOuts, BSAState.out, Call.returned]⟩

-- What is put out by the states that chunk returns before its last call.
def dropped (chunks : List (ChunkCall S)) : List ByteString := chunks.dropLast.flatMap (fun call => states.out call.returned)

theorem inner_cases (n : Nat) (andThen : S) (bs : ByteString) (next : BSAState S) (made : List (Call S))
    (stepped : innerFn states chunk n andThen bs = some (next, made)) :
    (bs.length < n ∧ ∃ s, chunk andThen bs (n - bs.length) = some s ∧ next = .inner (n - bs.length) s ∧
      made = [.chunk ⟨andThen, bs, n - bs.length, s⟩]) ∨
    (bs.length = n ∧ ∃ s, chunk andThen bs 0 = some s ∧ next = .entered s ∧ made = [.chunk ⟨andThen, bs, 0, s⟩]) ∨
    (n < bs.length ∧ ∃ s s2, chunk andThen (bs.take n) 0 = some s ∧ states.fn s (bs.drop n) = some s2 ∧
      next = .stateAsync (states.out s ++ states.out s2) s2 ∧
      made = [.chunk ⟨andThen, bs.take n, 0, s⟩, .fn ⟨s, bs.drop n, s2⟩]) := by
  rw [innerFn] at stepped
  split at stepped
  · rename_i short
    simp only [callChunk, Option.map_map, Option.map_eq_some_iff, Function.comp_apply, Prod.mk.injEq] at stepped
    obtain ⟨s, returns, rfl, rfl⟩ := stepped
    exact .inl ⟨short, s, returns, rfl, rfl⟩
  · split at stepped
    · rename_i full
      simp only [callChunk, Option.map_map, Option.map_eq_some_iff, Function.comp_apply, Prod.mk.injEq] at stepped
      obtain ⟨s, returns, rfl, rfl⟩ := stepped
      exact .inr (.inl ⟨full, s, returns, rfl, rfl⟩)
    · obtain ⟨call, called, stepped⟩ := Option.bind_eq_some_iff.mp stepped
      obtain ⟨s, returns, rfl⟩ := Option.map_eq_some_iff.mp called
      simp only [callFn, Option.map_map, Option.map_eq_some_iff, Function.comp_apply, Prod.mk.injEq] at stepped
      obtain ⟨s2, goes, rfl, rfl⟩ := stepped
      exact .inr (.inr ⟨by omega, s, s2, returns, goes, rfl, rfl⟩)

-- The induction is on the pieces: n is what is still missing of the first bytes, andThen the state that chunk is at.
theorem drive_inner (n : Nat) (andThen : S) (pieces emitted : List ByteString) (calls : List (Call S)) (positive : 0 < n)
    (enough : n ≤ pieces.flatten.length) (drove : drive states chunk (.inner n andThen) pieces = some (emitted, calls)) :
    ∃ chunks fns, calls = chunks.map Call.chunk ++ fns.map Call.fn ∧ Chunked chunk n andThen pieces.flatten chunks ∧
      Followed states (returnedLast andThen chunks) (pieces.flatten.drop n) fns ∧
      callOuts states calls = dropped states chunks ++ emitted ∧
      (dropped states chunks = [] ↔ SilentBefore states chunk n andThen pieces) := by
  induction pieces generalizing n andThen emitted calls with
  | nil =>
      rw [List.flatten_nil, List.length_nil] at enough
      omega
  | cons bs rest ih =>
      obtain ⟨next, made, outs, later, stepped, went, rfl, rfl⟩ := drive_cons states chunk _ bs rest emitted calls drove
      rw [List.flatten_cons, List.length_append] at enough
      rw [List.flatten_cons]
      rcases inner_cases states chunk n andThen bs next made stepped with
        ⟨short, s, returns, rfl, rfl⟩ | ⟨full, s, returns, rfl, rfl⟩ | ⟨long, s, s2, returns, goes, rfl, rfl⟩
      · obtain ⟨chunks, fns, rfl, chunked, followed, outputs, silent⟩ :=
          ih (n - bs.length) s emitted later (by omega) (by omega) went
        refine ⟨⟨andThen, bs, n - bs.length, s⟩ :: chunks, fns, rfl,
          chunked_more chunk n andThen bs rest.flatten s chunks short returns chunked, ?_, ?_, ?_⟩
        · rw [returned_last_cons, List.drop_append, List.drop_of_length_le (Nat.le_of_lt short), List.nil_append]
          exact followed
        · have split : dropped states (⟨andThen, bs, n - bs.length, s⟩ :: chunks) = states.out s ++ dropped states chunks := by
            rw [dropped, List.dropLast_cons_of_ne_nil chunked.nonempty]
            rfl
          rw [split, List.append_assoc, ← outputs]
          rfl
        · rw [dropped, List.dropLast_cons_of_ne_nil chunked.nonempty, List.flatMap_cons, List.append_eq_nil_iff,
            ← dropped, silent, SilentBefore]
          simp [short, returns]
      · obtain ⟨fns, rfl, followed, rfl⟩ := drive_passing states chunk (.entered s) s (fun _ => rfl) rest emitted later went
        refine ⟨[⟨andThen, bs, 0, s⟩], fns, rfl, chunked_last chunk n andThen bs _ s ?_ full returns, ?_, ?_, ?_⟩
        · rw [← full, List.take_left]
        · rw [← full, List.drop_left]
          exact followed
        · simp [callOuts, dropped, BSAState.out, Call.returned]
        · simp [dropped, SilentBefore, full]
      · obtain ⟨fns, rfl, followed, rfl⟩ :=
          drive_passing states chunk (.stateAsync (states.out s ++ states.out s2) s2) s2 (fun _ => rfl) rest emitted later went
        refine ⟨[⟨andThen, bs.take n, 0, s⟩], ⟨s, bs.drop n, s2⟩ :: fns, rfl,
          chunked_last chunk n andThen (bs.take n) _ s ?_ (by simp; omega) returns, ?_, ?_, ?_⟩
        · rw [List.take_append_of_le_length (Nat.le_of_lt long)]
        · rw [List.drop_append_of_le_length (Nat.le_of_lt long)]
          exact followed_cons states s (bs.drop n) rest.flatten s2 fns goes followed
        · simp [callOuts, dropped, BSAState.out, Call.returned]
        · simp [dropped, SilentBefore, Nat.lt_asymm long]

theorem take_async_accounts_iff (n : Nat) (andThen : S) (state : BSAState S) (pieces emitted : List ByteString)
    (calls : List (Call S)) (taken : takeAsync n andThen = some state) (enough : n ≤ pieces.flatten.length)
    (drove : drive states chunk state pieces = some (emitted, calls)) :
    Accounted states chunk n andThen pieces.flatten emitted calls ↔ SilentBefore states chunk n andThen pieces := by
  rw [takeAsync, Option.ite_none_right_eq_some] at taken
  obtain ⟨positive, same⟩ := taken
  obtain rfl := Option.some.inj same
  obtain ⟨chunks, fns, split, chunked, followed, outputs, silent⟩ :=
    drive_inner states chunk n andThen pieces emitted calls positive enough drove
  rw [← silent]
  constructor
  · rintro ⟨_, _, _, _, _, whole⟩
    rw [callOuts, ← whole] at outputs
    exact List.self_eq_append_left.mp outputs
  · intro none
    rw [none, List.nil_append] at outputs
    exact ⟨chunks, fns, split, chunked, followed, outputs.symm⟩

end Runs

end Taking

-- States that put out their number, which every call makes one larger.
def counting : StateAsync Nat where
  out s := [[BitVec.ofNat 8 s]]
  fn s _ := some (s + 1)

def countChunk (andThen : Nat) (_ : ByteString) (_ : Nat) : Option Nat := some (andThen + 1)

theorem take_async_accounts_iff_whole :
    Accounted counting countChunk 2 0 [7, 8, 9] [[1], [2]] [.chunk ⟨0, [7, 8], 0, 1⟩, .fn ⟨1, [9], 2⟩] ↔
      SilentBefore counting countChunk 2 0 [[7, 8, 9]] :=
  take_async_accounts_iff counting countChunk 2 0 (.inner 2 0) [[7, 8, 9]] _ _ rfl (by decide) (by decide)

-- The state that chunk returns for the first byte puts out 1, which is not among what is emitted.
theorem earlier_output_dropped :
    drive counting countChunk (.inner 2 0) [[7], [8]] =
        some ([[2]], [.chunk ⟨0, [7], 1, 1⟩, .chunk ⟨1, [8], 0, 2⟩]) ∧
      ¬ Accounted counting countChunk 2 0 [7, 8] [[2]] [.chunk ⟨0, [7], 1, 1⟩, .chunk ⟨1, [8], 0, 2⟩] := by
  refine ⟨by decide, ?_⟩
  rintro ⟨_, _, _, _, _, emitted⟩
  revert emitted
  decide

end Toolbox8.ByteStringState
