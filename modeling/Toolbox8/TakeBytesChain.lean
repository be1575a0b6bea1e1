import Toolbox8.Base.Feeding
import Toolbox8.Streams

set_option autoImplicit false

namespace Toolbox8.Streams

open Base

-- A stage of a chain. Stage functions are named, and next says what each of them makes of its bytes.
inductive Link (Fn : Type) where
  | takeBytes (n : Nat) (positive : 1 ≤ n) (fn : Fn)
  | noopSeqState
deriving DecidableEq, Repr

variable {Fn : Type}

def Link.state : Link Fn → State Fn
  | .takeBytes n _ fn => Streams.takeBytes n (.fn2state fn)
  | .noopSeqState => .noopSeqState

def stageFns (next : Fn → ByteString → Option (Link Fn × List ByteString)) (fn : Fn) (bs : ByteString) :
    StateResult Fn :=
  (next fn bs).map (fun (link, out) => (link.state, out))

-- The chain reaches a stage that completes on these bytes, and the stages before it have
-- put out the bytes of before.
inductive Completes (next : Fn → ByteString → Option (Link Fn × List ByteString)) :
    Link Fn → ByteString → ByteString → Prop where
  | stops (n : Nat) (positive : 1 ≤ n) (fn : Fn) (taken left : ByteString) (full : taken.length = n)
      (ends : next fn taken = none) : Completes next (.takeBytes n positive fn) (taken ++ left) []
  | moves (n : Nat) (positive : 1 ≤ n) (fn : Fn) (taken left : ByteString) (full : taken.length = n)
      (link : Link Fn) (out : List ByteString) (before : ByteString) (moved : next fn taken = some (link, out))
      (later : Completes next link left before) :
      Completes next (.takeBytes n positive fn) (taken ++ left) (out.flatten ++ before)

-- The chain one byte at a time. A pending stage still waits for one byte more than missing.
inductive Pending (Fn : Type) where
  | taking (missing : Nat) (buffer : ByteString) (fn : Fn)
  | passing
deriving DecidableEq, Repr

inductive Effect (Fn : Type) where
  | call (fn : Fn) (bs : ByteString)
  | emit (out : List ByteString)
deriving DecidableEq, Repr

def Link.pending : Link Fn → Pending Fn
  | .takeBytes n _ fn => .taking (n - 1) [] fn
  | .noopSeqState => .passing

def Pending.state : Pending Fn → State Fn
  | .taking missing buffer fn => .takeBytesNext ((missing + 1 : Nat) : Int) buffer (.fn2state fn)
  | .passing => .noopSeqState

section Chain

variable (next : Fn → ByteString → Option (Link Fn × List ByteString))

def fire (fn : Fn) (bs : ByteString) : Fed (Pending Fn) (Effect Fn) :=
  match next fn bs with
  | none => ⟨[.call fn bs], none⟩
  | some (link, out) => ⟨[.call fn bs, .emit out], some link.pending⟩

def stepByte : Pending Fn → Byte → Fed (Pending Fn) (Effect Fn)
  | .taking 0 buffer fn, b => fire next fn (buffer ++ [b])
  | .taking (missing + 1) buffer fn, b => ⟨[], some (.taking missing (buffer ++ [b]) fn)⟩
  | .passing, b => ⟨[.emit [[b]]], some .passing⟩

end Chain

def Effect.called : Effect Fn → Option (Fn × ByteString)
  | .call fn bs => some (fn, bs)
  | .emit _ => none

def Effect.emitted : Effect Fn → List ByteString
  | .call _ _ => []
  | .emit out => out

def calls (effects : List (Effect Fn)) : List (Fn × ByteString) := effects.filterMap Effect.called

def emitted (effects : List (Effect Fn)) : List ByteString := effects.flatMap Effect.emitted

@[simp] theorem calls_nil : calls ([] : List (Effect Fn)) = [] := rfl

@[simp] theorem calls_call (fn : Fn) (bs : ByteString) (rest : List (Effect Fn)) :
    calls (.call fn bs :: rest) = (fn, bs) :: calls rest := rfl

@[simp] theorem calls_emit (out : List ByteString) (rest : List (Effect Fn)) : calls (.emit out :: rest) = calls rest := rfl

@[simp] theorem emitted_nil : emitted ([] : List (Effect Fn)) = [] := rfl

@[simp] theorem emitted_call (fn : Fn) (bs : ByteString) (rest : List (Effect Fn)) :
    emitted (.call fn bs :: rest) = emitted rest := rfl

@[simp] theorem emitted_emit (out : List ByteString) (rest : List (Effect Fn)) :
    emitted (.emit out :: rest) = out ++ emitted rest := rfl

@[simp] theorem calls_append (front back : List (Effect Fn)) : calls (front ++ back) = calls front ++ calls back :=
  List.filterMap_append

@[simp] theorem emitted_append (front back : List (Effect Fn)) :
    emitted (front ++ back) = emitted front ++ emitted back := List.flatMap_append

theorem link_state (link : Link Fn) : link.state = link.pending.state := by
  cases link with
  | noopSeqState => rfl
  | takeBytes n positive fn => simp only [Link.state, Streams.takeBytes, Link.pending, Pending.state, Nat.sub_add_cancel positive]

section Chain

variable (next : Fn → ByteString → Option (Link Fn × List ByteString))

theorem feed_short (missing : Nat) (buffer bs : ByteString) (fn : Fn) (short : bs.length ≤ missing) :
    feed (stepByte next) (.taking missing buffer fn) bs = ⟨[], some (.taking (missing - bs.length) (buffer ++ bs) fn)⟩ := by
  induction bs generalizing missing buffer with
  | nil => simp [feed]
  | cons b rest ih =>
      cases missing with
      | zero => simp at short
      | succ missing =>
          simp only [List.length_cons, Nat.add_le_add_iff_right] at short
          rw [feed_cons, stepByte, and_then_silent, ih missing (buffer ++ [b]) short]
          simp

theorem feed_full (missing : Nat) (buffer taken left : ByteString) (fn : Fn) (full : taken.length = missing + 1) :
    feed (stepByte next) (.taking missing buffer fn) (taken ++ left) =
      (fire next fn (buffer ++ taken)).andThen (fun p => feed (stepByte next) p left) := by
  induction missing generalizing buffer taken with
  | zero =>
      obtain ⟨b, rfl⟩ := List.length_eq_one_iff.mp full
      rfl
  | succ missing ih =>
      cases taken with
      | nil => simp at full
      | cons b rest =>
          rw [List.cons_append, feed_cons, stepByte, and_then_silent, ih (buffer ++ [b]) rest (by simpa using full)]
          simp

theorem feed_passing (bs : ByteString) :
    feed (stepByte next) .passing bs = ⟨bs.map (fun b => .emit [[b]]), some .passing⟩ := by
  induction bs with
  | nil => rfl
  | cons b rest ih => simp [feed_cons, stepByte, ih]

theorem passing_emitted (bs : ByteString) : (emitted (bs.map (fun b => (.emit [[b]] : Effect Fn)))).flatten = bs := by
  induction bs with
  | nil => rfl
  | cons b rest ih => simpa using ih

theorem passing_calls (bs : ByteString) : calls (bs.map (fun b => (.emit [[b]] : Effect Fn))) = [] := by
  simp [calls, Effect.called]

-- One application is the byte-wise run, except that completing drops what was put out.
def Agrees (applied : Applied Fn) (fed : Fed (Pending Fn) (Effect Fn)) : Prop :=
  applied.calls = calls fed.outs ∧
    match fed.state with
    | none => applied.result = none
    | some p => ∃ out, applied.result = some (p.state, out) ∧ out.flatten = (emitted fed.outs).flatten

theorem agrees_completed (applied : Applied Fn) (fed : Fed (Pending Fn) (Effect Fn)) (agrees : Agrees applied fed)
    (completed : fed.state = none) : applied = ⟨calls fed.outs, none⟩ := by
  obtain ⟨sameCalls, result⟩ := agrees
  rw [completed] at result
  cases applied with
  | mk applied_calls applied_result =>
      simp only at sameCalls result
      rw [sameCalls, result]

theorem agrees_moved (applied : Applied Fn) (fed : Fed (Pending Fn) (Effect Fn)) (agrees : Agrees applied fed)
    (p : Pending Fn) (moved : fed.state = some p) :
    ∃ out, applied = ⟨calls fed.outs, some (p.state, out)⟩ ∧ out.flatten = (emitted fed.outs).flatten := by
  obtain ⟨sameCalls, result⟩ := agrees
  rw [moved] at result
  obtain ⟨out, result, flat⟩ := result
  cases applied with
  | mk applied_calls applied_result =>
      simp only at sameCalls result
      exact ⟨out, by rw [sameCalls, result], flat⟩

theorem agrees_fired (fn : Fn) (bytes : ByteString) (link : Link Fn) (out1 : List ByteString) (applied2 : Applied Fn)
    (fed : Fed (Pending Fn) (Effect Fn)) (agrees : Agrees applied2 fed) :
    Agrees ⟨(fn, bytes) :: applied2.calls, applied2.result.map (fun (state2, out2) => (state2, out1 ++ out2))⟩
      (Fed.andThen ⟨[.call fn bytes, .emit out1], some link.pending⟩ (fun _ => fed)) := by
  cases state : fed.state with
  | none =>
      rw [agrees_completed applied2 fed agrees state]
      simp [Agrees, state]
  | some p =>
      obtain ⟨out2, rfl, flat⟩ := agrees_moved applied2 fed agrees p state
      simp [Agrees, state] at flat ⊢
      exact flat

-- Every stage takes at least one byte, so the nesting is no deeper than the input is long.
theorem apply_agrees (fuel : Nat) (p : Pending Fn) (bs : ByteString) (enough : bs.length + 2 ≤ fuel) :
    ∃ applied, apply (stageFns next) fuel p.state bs = some applied ∧ Agrees applied (feed (stepByte next) p bs) := by
  induction fuel generalizing p bs with
  | zero => omega
  | succ fuel ih =>
      cases p with
      | passing =>
          refine ⟨_, rfl, ?_⟩
          rw [feed_passing]
          exact ⟨(passing_calls bs).symm, [bs], rfl, by rw [passing_emitted]; simp⟩
      | taking missing buffer fn =>
          rcases short_or_taken (missing + 1) bs with short | ⟨taken, left, rfl, full⟩
          · refine ⟨_, apply_short _ fuel _ buffer bs (by omega) _, ?_⟩
            rw [feed_short next missing buffer bs fn (by omega)]
            refine ⟨rfl, [], ?_, rfl⟩
            rw [Pending.state, show ((missing + 1 : Nat) : Int) - bs.length = ((missing - bs.length + 1 : Nat) : Int) by omega]
          · rw [List.length_append] at enough
            obtain ⟨deeper, rfl⟩ : ∃ deeper, fuel = deeper + 1 := ⟨fuel - 1, by omega⟩
            rw [feed_full next missing buffer taken left fn full]
            cases moved : next fn (buffer ++ taken) with
            | none =>
                have fnEnds : stageFns next fn (buffer ++ taken) = none := by
                  simp only [stageFns, moved, Option.map_none]
                refine ⟨_, apply_completes _ deeper buffer fn missing taken left full fnEnds, ?_⟩
                simp [fire, moved, Agrees]
            | some result =>
                obtain ⟨link, out1⟩ := result
                obtain ⟨applied2, later, agrees⟩ := ih link.pending left (by omega)
                have fnMoves : stageFns next fn (buffer ++ taken) = some (link.state, out1) := by
                  simp only [stageFns, moved, Option.map_some]
                rw [← link_state] at later
                refine ⟨_, apply_taken _ deeper buffer fn missing taken left full _ out1 fnMoves applied2 later, ?_⟩
                rw [fire, moved]
                exact agrees_fired fn (buffer ++ taken) link out1 applied2 _ agrees

theorem run_agrees (fuel : Nat) (p : Pending Fn) (chunks : List ByteString) (enough : chunks.flatten.length + 2 ≤ fuel) :
    ∃ ran, stateMachineMapAsyncConcat (stageFns next) fuel p.state chunks = some ran ∧
      ran.calls = calls (feed (stepByte next) p chunks.flatten).outs ∧
      ran.outs.flatten <+: (emitted (feed (stepByte next) p chunks.flatten).outs).flatten ∧
      ((feed (stepByte next) p chunks.flatten).state ≠ none →
        ran.outs.flatten = (emitted (feed (stepByte next) p chunks.flatten).outs).flatten) := by
  induction chunks generalizing p with
  | nil => exact ⟨_, rfl, rfl, List.prefix_rfl, fun _ => rfl⟩
  | cons bs rest ih =>
      rw [List.flatten_cons, List.length_append] at enough
      obtain ⟨applied, first, agrees⟩ := apply_agrees next fuel p bs (by omega)
      rw [List.flatten_cons, feed_append]
      cases state : (feed (stepByte next) p bs).state with
      | none =>
          rw [agrees_completed applied _ agrees state] at first
          refine ⟨_, run_completes _ fuel bs p.state rest _ first, ?_⟩
          simp [Fed.andThen, state]
      | some q =>
          obtain ⟨out, rfl, flat⟩ := agrees_moved applied _ agrees q state
          obtain ⟨later, ran, laterCalls, laterPrefix, laterOuts⟩ := ih q (by omega)
          refine ⟨_, run_moves _ fuel bs p.state q.state rest _ out later first ran, ?_, ?_, ?_⟩
          · simp [Fed.andThen, state, laterCalls]
          · simpa [Fed.andThen, state, flat] using laterPrefix
          · simpa [Fed.andThen, state, flat] using laterOuts

theorem step_byte_completes (p : Pending Fn) (b : Byte) (completed : (stepByte next p b).state = none) :
    emitted (stepByte next p b).outs = [] := by
  cases p with
  | passing => simp [stepByte] at completed
  | taking missing buffer fn =>
      cases missing with
      | succ missing => simp [stepByte] at completed
      | zero =>
          cases moved : next fn (buffer ++ [b]) with
          | none => simp [stepByte, fire, moved]
          | some result => simp [stepByte, fire, moved] at completed

-- Cut into single bytes, a run loses nothing: the byte that completes it puts out nothing.
theorem run_single_bytes (fuel : Nat) (p : Pending Fn) (bytes : ByteString) (enough : 3 ≤ fuel) :
    ∃ ran, stateMachineMapAsyncConcat (stageFns next) fuel p.state (bytes.map (fun b => [b])) = some ran ∧
      ran.outs.flatten = (emitted (feed (stepByte next) p bytes).outs).flatten := by
  induction bytes generalizing p with
  | nil => exact ⟨_, rfl, rfl⟩
  | cons b rest ih =>
      obtain ⟨applied, first, agrees⟩ := apply_agrees next fuel p [b] enough
      have single : feed (stepByte next) p [b] = stepByte next p b := by
        cases state : (stepByte next p b).state <;> simp [feed, Fed.andThen, state]
        rw [← state]
      rw [single] at agrees
      rw [List.map_cons, feed_cons]
      cases state : (stepByte next p b).state with
      | none =>
          rw [agrees_completed applied _ agrees state] at first
          refine ⟨_, run_completes _ fuel [b] p.state _ _ first, ?_⟩
          simp [Fed.andThen, state, step_byte_completes next p b state]
      | some q =>
          obtain ⟨out, rfl, flat⟩ := agrees_moved applied _ agrees q state
          obtain ⟨later, ran, laterOuts⟩ := ih q
          refine ⟨_, run_moves _ fuel [b] p.state q.state _ _ out later first ran, ?_⟩
          simp [Fed.andThen, state, flat, laterOuts]

theorem completes_feed (link : Link Fn) (bytes before : ByteString) (completes : Completes next link bytes before) :
    (feed (stepByte next) link.pending bytes).state = none ∧
      (emitted (feed (stepByte next) link.pending bytes).outs).flatten = before := by
  induction completes with
  | stops n positive fn taken left full ends =>
      rw [Link.pending, feed_full next (n - 1) [] taken left fn (by omega)]
      simp [fire, ends]
  | moves n positive fn taken left full link out before moved later ih =>
      rw [Link.pending, feed_full next (n - 1) [] taken left fn (by omega)]
      simpa [fire, moved] using ih

theorem feed_completes (link : Link Fn) (bytes : ByteString)
    (completed : (feed (stepByte next) link.pending bytes).state = none) :
    Completes next link bytes (emitted (feed (stepByte next) link.pending bytes).outs).flatten := by
  induction size : bytes.length using Nat.strongRecOn generalizing link bytes with
  | ind total ih =>
      cases link with
      | noopSeqState => simp [Link.pending, feed_passing] at completed
      | takeBytes n positive fn =>
          rcases short_or_taken n bytes with short | ⟨taken, left, rfl, full⟩
          · simp [Link.pending, feed_short next (n - 1) [] bytes fn (by omega)] at completed
          · rw [Link.pending, feed_full next (n - 1) [] taken left fn (by omega), List.nil_append] at completed ⊢
            rw [List.length_append] at size
            cases moved : next fn taken with
            | none => simpa [fire, moved] using Completes.stops n positive fn taken left full moved
            | some result =>
                obtain ⟨link, out⟩ := result
                have later := ih left.length (by omega) link left (by simpa [fire, moved] using completed) rfl
                have moves := Completes.moves n positive fn taken left full link out _ moved later
                simpa [fire, moved] using moves

end Chain

-- Both runs end, with the same calls and with the same bytes put out.
def SameRun (next : Fn → ByteString → Option (Link Fn × List ByteString)) (link : Link Fn) (one two : List ByteString) :
    Prop :=
  ∃ enough, ∀ fuel, enough ≤ fuel → ∃ ran1 ran2,
    stateMachineMapAsyncConcat (stageFns next) fuel link.state one = some ran1 ∧
    stateMachineMapAsyncConcat (stageFns next) fuel link.state two = some ran2 ∧
    ran1.outs.flatten = ran2.outs.flatten ∧ ran1.calls = ran2.calls

theorem chunking_independent_iff (next : Fn → ByteString → Option (Link Fn × List ByteString)) (link : Link Fn)
    (bytes : ByteString) :
    (∀ one two : List ByteString, one.flatten = bytes → two.flatten = bytes → SameRun next link one two) ↔
      ∀ before, Completes next link bytes before → before = [] := by
  constructor
  · intro same before completes
    obtain ⟨completed, flat⟩ := completes_feed next link bytes before completes
    have singles : (bytes.map (fun b => [b])).flatten = bytes := by
      rw [← List.flatMap_def, List.flatMap_singleton']
    obtain ⟨enough, runs⟩ := same [bytes] (bytes.map (fun b => [b])) (by simp) singles
    obtain ⟨ran1, ran2, whole, single, outs, _⟩ := runs (max enough (bytes.length + 3)) (Nat.le_max_left _ _)
    obtain ⟨applied, first, agrees⟩ := apply_agrees next (max enough (bytes.length + 3)) link.pending bytes (by omega)
    rw [agrees_completed applied _ agrees completed, ← link_state] at first
    have dropped := whole.symm.trans (run_completes _ _ bytes link.state [] _ first)
    obtain ⟨ran, singleRan, all⟩ := run_single_bytes next (max enough (bytes.length + 3)) link.pending bytes (by omega)
    rw [← link_state] at singleRan
    have same2 : ran = ran2 := Option.some.inj (singleRan.symm.trans single)
    rw [Option.some.inj dropped] at outs
    rw [← flat, ← all, same2, ← outs, List.flatten_nil]
  · intro kept one two oneFlat twoFlat
    refine ⟨bytes.length + 2, fun fuel enough => ?_⟩
    have outcome : ∀ chunks : List ByteString, chunks.flatten = bytes →
        ∃ ran, stateMachineMapAsyncConcat (stageFns next) fuel link.state chunks = some ran ∧
          ran.calls = calls (feed (stepByte next) link.pending bytes).outs ∧
          ran.outs.flatten = (emitted (feed (stepByte next) link.pending bytes).outs).flatten := by
      intro chunks flat
      subst flat
      obtain ⟨ran, runs, sameCalls, before, outs⟩ := run_agrees next fuel link.pending chunks enough
      refine ⟨ran, by rw [link_state]; exact runs, sameCalls, ?_⟩
      by_cases completed : (feed (stepByte next) link.pending chunks.flatten).state = none
      · have nothing := kept _ (feed_completes next link chunks.flatten completed)
        rw [nothing] at before ⊢
        exact List.prefix_nil.mp before
      · exact outs completed
    obtain ⟨ran1, runs1, calls1, outs1⟩ := outcome one oneFlat
    obtain ⟨ran2, runs2, calls2, outs2⟩ := outcome two twoFlat
    exact ⟨ran1, ran2, runs1, runs2, outs1.trans outs2.symm, calls1.trans calls2.symm⟩

-- One byte is put out again and the next one completes the stream.
def echoThenComplete : Bool → ByteString → Option (Link Bool × List ByteString)
  | false, bs => some (.takeBytes 1 (by decide) true, [bs])
  | true, _ => none

theorem completing_chunk_drops_output : ¬ SameRun echoThenComplete (.takeBytes 1 (by decide) false) [[1, 2]] [[1], [2]] := by
  intro same
  obtain ⟨enough, runs⟩ := same
  obtain ⟨ran1, ran2, whole, single, outs, _⟩ := runs (enough + 4) (by omega)
  have first : ran1 = ⟨[(false, [1]), (true, [2])], [], none⟩ := (Option.some.inj whole).symm
  have second : ran2 = ⟨[(false, [1]), (true, [2])], [[1]], none⟩ := (Option.some.inj single).symm
  rw [first, second] at outs
  simp at outs

end Toolbox8.Streams
