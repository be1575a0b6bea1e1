import Toolbox8.Base.Transition
import Toolbox8.ByteStrings

set_option autoImplicit false

namespace Toolbox8.Chunker

open Base

-- The logic of the stage with the state of its two ports. received and emitted record what has been grabbed
-- from in and pushed to out.
structure Stage where
  buffer : ByteString
  pulled : Bool
  isClosed : Bool
  isAvailable : Bool
  completed : Bool
  received : List ByteString
  emitted : List ByteString
deriving DecidableEq, Repr

-- A port call that breaks the rules throws: none.
def Stage.pull (s : Stage) : Option Stage :=
  if s.isClosed || s.pulled then none else some { s with pulled := true }

def Stage.push (s : Stage) (chunk : ByteString) : Option Stage :=
  if s.isAvailable && !s.completed then some { s with isAvailable := false, emitted := s.emitted ++ [chunk] } else none

def Stage.completeStage (s : Stage) : Stage := { s with completed := true }

section Logic

variable (chunkSize : Int)

def emitChunk (s : Stage) : Option Stage :=
  if s.buffer.isEmpty then
    if s.isClosed then some s.completeStage else s.pull
  else
    Stage.push { s with buffer := s.buffer.drop chunkSize.toNat } (s.buffer.take chunkSize.toNat)

def onPull (s : Stage) : Option Stage := if s.isClosed then emitChunk chunkSize s else s.pull

def onPush (s : Stage) (elem : ByteString) : Option Stage :=
  emitChunk chunkSize { s with buffer := s.buffer ++ elem, received := s.received ++ [elem] }

def onUpstreamFinish (s : Stage) : Option Stage :=
  if s.buffer.isEmpty then some s.completeStage
  else if s.isAvailable then emitChunk chunkSize s
  else some s

inductive Event where
  | pull
  | push (elem : ByteString)
  | finish
deriving DecidableEq, Repr

-- What the interpreter does before it calls the handler. Downstream pulls a port that is not available, upstream
-- pushes to a port that has been pulled and completes a port that is open.
def deliver (s : Stage) : Event → Option (Option Stage)
  | .pull => if s.completed || s.isAvailable then none else some (onPull chunkSize { s with isAvailable := true })
  | .push elem =>
      if s.completed || s.isClosed || !s.pulled then none else some (onPush chunkSize { s with pulled := false } elem)
  | .finish =>
      if s.completed || s.isClosed then none
      else some (onUpstreamFinish chunkSize { s with isClosed := true, pulled := false })

-- The state none is a stage that has failed on a port call.
def chunker : Machine (Option Stage) Event where
  initial := some ⟨[], false, false, false, false, [], []⟩
  step := fun s event => s.bind (fun stage => deliver chunkSize stage event)

end Logic

-- Demand for the stage is what lets it pull, so a pulled inlet means an available outlet.
structure Invariant (chunkSize : Int) (s : Stage) : Prop where
  lossless : s.emitted.flatten ++ s.buffer = s.received.flatten
  bounded : ∀ chunk ∈ s.emitted, 0 < chunk.length ∧ (chunk.length : Int) ≤ chunkSize
  demanded : s.pulled = true → s.isAvailable = true ∧ s.isClosed = false
  ended : s.completed = true → s.isClosed = true ∧ s.buffer = []

section Stages

variable (chunkSize : Int)

theorem take_bounded (positive : 1 ≤ chunkSize) (bs : ByteString) (nonempty : bs ≠ []) :
    0 < (bs.take chunkSize.toNat).length ∧ ((bs.take chunkSize.toNat).length : Int) ≤ chunkSize := by
  have some := List.length_pos_iff.mpr nonempty
  rw [List.length_take]
  omega

-- What emitChunk does on a stage that has demand and an inlet that is not waiting.
theorem emit_invariant (positive : 1 ≤ chunkSize) (s : Stage) (inv : Invariant chunkSize s) (demand : s.isAvailable = true)
    (running : s.completed = false) (unpulled : s.pulled = false) :
    ∃ next, emitChunk chunkSize s = some next ∧ Invariant chunkSize next := by
  unfold emitChunk
  cases buffer : s.buffer with
  | nil =>
      cases closed : s.isClosed with
      | true =>
          refine ⟨s.completeStage, by simp, { inv with ended := fun _ => ⟨closed, buffer⟩ }⟩
      | false =>
          refine ⟨{ s with pulled := true }, by simp [Stage.pull, closed, unpulled], ?_⟩
          exact { inv with demanded := fun _ => ⟨demand, closed⟩ }
  | cons b rest =>
      refine ⟨_, by simp only [List.isEmpty_cons, Bool.false_eq_true, if_false, Stage.push, demand, running]; rfl, ?_⟩
      constructor
      · have kept := inv.lossless
        rw [buffer] at kept
        simpa [List.take_append_drop] using kept
      · intro chunk member
        rcases List.mem_append.mp member with before | last
        · exact inv.bounded chunk before
        · rw [List.mem_singleton.mp last]
          exact take_bounded chunkSize positive _ (List.cons_ne_nil b rest)
      · intro pulled
        simp [unpulled] at pulled
      · intro completed
        simp at completed

theorem pull_invariant (positive : 1 ≤ chunkSize) (s : Stage) (inv : Invariant chunkSize s) (running : s.completed = false)
    (unavailable : s.isAvailable = false) :
    ∃ next, onPull chunkSize { s with isAvailable := true } = some next ∧ Invariant chunkSize next := by
  have unpulled : s.pulled = false := by
    by_contra pulled
    simp at pulled
    simp [(inv.demanded pulled).1] at unavailable
  have available : Invariant chunkSize { s with isAvailable := true } :=
    { inv with demanded := fun pulled => by simp [unpulled] at pulled }
  unfold onPull
  cases closed : s.isClosed with
  | true =>
      simp only [if_true]
      exact emit_invariant chunkSize positive { s with isAvailable := true, isClosed := true } (closed ▸ available) rfl running unpulled
  | false =>
      refine ⟨{ s with isAvailable := true, pulled := true }, by simp [Stage.pull, closed, unpulled], ?_⟩
      exact { inv with demanded := fun _ => ⟨rfl, closed⟩ }

theorem push_invariant (positive : 1 ≤ chunkSize) (s : Stage) (inv : Invariant chunkSize s) (elem : ByteString)
    (running : s.completed = false) (pulled : s.pulled = true) :
    ∃ next, onPush chunkSize { s with pulled := false } elem = some next ∧ Invariant chunkSize next := by
  have demand := (inv.demanded pulled).1
  have grabbed : Invariant chunkSize
      { s with pulled := false, buffer := s.buffer ++ elem, received := s.received ++ [elem] } := by
    constructor
    · simp only [List.flatten_append, List.flatten_singleton, ← inv.lossless, List.append_assoc]
    · exact inv.bounded
    · intro waits
      simp at waits
    · intro completed
      simp [running] at completed
  exact emit_invariant chunkSize positive _ grabbed demand running rfl

theorem finish_invariant (positive : 1 ≤ chunkSize) (s : Stage) (inv : Invariant chunkSize s) (running : s.completed = false) :
    ∃ next, onUpstreamFinish chunkSize { s with isClosed := true, pulled := false } = some next ∧
      Invariant chunkSize next := by
  have closed : Invariant chunkSize { s with isClosed := true, pulled := false } := by
    constructor
    · exact inv.lossless
    · exact inv.bounded
    · intro waits
      simp at waits
    · intro completed
      simp [running] at completed
  unfold onUpstreamFinish
  cases buffer : s.buffer with
  | nil =>
      refine ⟨Stage.completeStage { s with isClosed := true, pulled := false }, by simp [buffer], ?_⟩
      exact { closed with ended := fun _ => ⟨rfl, buffer⟩ }
  | cons b rest =>
      cases available : s.isAvailable with
      | true =>
          simp only [List.isEmpty_cons, Bool.false_eq_true, if_false, if_true]
          rw [buffer, available] at closed
          exact emit_invariant chunkSize positive _ closed rfl running rfl
      | false => exact ⟨_, by simp only [List.isEmpty_cons, Bool.false_eq_true, if_false], available ▸ buffer ▸ closed⟩

theorem delivered_pull (s : Stage) (next : Option Stage) : deliver chunkSize s .pull = some next ↔
    (s.completed = false ∧ s.isAvailable = false) ∧ onPull chunkSize { s with isAvailable := true } = next := by
  simp only [deliver, Option.ite_none_left_eq_some, Bool.or_eq_true, not_or, Bool.not_eq_true, Option.some.injEq]

theorem delivered_push (s : Stage) (elem : ByteString) (next : Option Stage) : deliver chunkSize s (.push elem) = some next ↔
    ((s.completed = false ∧ s.isClosed = false) ∧ s.pulled = true) ∧ onPush chunkSize { s with pulled := false } elem = next := by
  simp only [deliver, Option.ite_none_left_eq_some, Bool.or_eq_true, not_or, Bool.not_eq_true, Bool.not_eq_false',
    Option.some.injEq]

theorem delivered_finish (s : Stage) (next : Option Stage) : deliver chunkSize s .finish = some next ↔
    (s.completed = false ∧ s.isClosed = false) ∧
      onUpstreamFinish chunkSize { s with isClosed := true, pulled := false } = next := by
  simp only [deliver, Option.ite_none_left_eq_some, Bool.or_eq_true, not_or, Bool.not_eq_true, Option.some.injEq]

theorem deliver_invariant (positive : 1 ≤ chunkSize) (s : Stage) (event : Event) (next : Option Stage)
    (inv : Invariant chunkSize s) (delivered : deliver chunkSize s event = some next) :
    ∃ stage, next = some stage ∧ Invariant chunkSize stage := by
  cases event with
  | pull =>
      obtain ⟨⟨running, idle⟩, rfl⟩ := (delivered_pull chunkSize s next).mp delivered
      exact pull_invariant chunkSize positive s inv running idle
  | push elem =>
      obtain ⟨⟨⟨running, _⟩, pulled⟩, rfl⟩ := (delivered_push chunkSize s elem next).mp delivered
      exact push_invariant chunkSize positive s inv elem running pulled
  | finish =>
      obtain ⟨⟨running, _⟩, rfl⟩ := (delivered_finish chunkSize s next).mp delivered
      exact finish_invariant chunkSize positive s inv running

def Sound (s : Option Stage) : Prop := ∃ stage, s = some stage ∧ Invariant chunkSize stage

theorem initial_sound : Sound chunkSize (chunker chunkSize).initial := by
  refine ⟨_, rfl, rfl, ?_, ?_, ?_⟩
  · simp
  · simp
  · simp

theorem step_sound (positive : 1 ≤ chunkSize) (s : Option Stage) (event : Event) (next : Option Stage)
    (sound : Sound chunkSize s) (stepped : (chunker chunkSize).step s event = some next) : Sound chunkSize next := by
  obtain ⟨stage, rfl, inv⟩ := sound
  exact deliver_invariant chunkSize positive stage event next inv stepped

theorem chunker_is_lossless (positive : 1 ≤ chunkSize) (s : Option Stage) (reached : (chunker chunkSize).Reachable s) :
    ∃ stage, s = some stage ∧ stage.emitted.flatten ++ stage.buffer = stage.received.flatten ∧
      (∀ chunk ∈ stage.emitted, 1 ≤ chunk.length ∧ (chunk.length : Int) ≤ chunkSize) ∧
      (stage.completed = true → stage.isClosed = true ∧ stage.buffer = []) := by
  obtain ⟨stage, same, inv⟩ := reachable_keeps (chunker chunkSize) (Sound chunkSize) (initial_sound chunkSize)
    (step_sound chunkSize positive) s reached
  exact ⟨stage, same, inv.lossless, inv.bounded, inv.ended⟩

theorem chunker_is_lossless_on_five_bytes :
    ∃ s, ((chunker 2).run (chunker 2).initial [.pull, .push [1, 2, 3, 4, 5], .finish, .pull]) = some s ∧
      ∃ stage, s = some stage ∧ stage.emitted.flatten ++ stage.buffer = stage.received.flatten ∧
        (∀ chunk ∈ stage.emitted, 1 ≤ chunk.length ∧ (chunk.length : Int) ≤ 2) ∧
        (stage.completed = true → stage.isClosed = true ∧ stage.buffer = []) :=
  ⟨_, rfl, chunker_is_lossless 2 (by decide) _ ⟨[.pull, .push [1, 2, 3, 4, 5], .finish, .pull], rfl⟩⟩

-- Nothing is kept back from demand that is outstanding.
def Prompt (s : Option Stage) : Prop :=
  ∀ stage, s = some stage → stage.isAvailable = true → stage.completed = false → stage.buffer = []

-- onPull asks upstream for more while the inlet is open, whatever the buffer holds.
def Drained (s : Option Stage) (event : Event) : Prop :=
  event = .pull → ∀ stage, s = some stage → stage.isClosed = true ∨ stage.buffer = []

theorem emit_prompt (s next : Stage) (emitted : emitChunk chunkSize s = some next) : Prompt (some next) := by
  rintro stage ⟨⟩ available _
  unfold emitChunk at emitted
  split at emitted
  · rename_i empty
    have nothing := List.isEmpty_iff.mp empty
    split at emitted
    · obtain rfl := Option.some.inj emitted
      exact nothing
    · unfold Stage.pull at emitted
      split at emitted
      · simp at emitted
      · obtain rfl := Option.some.inj emitted
        exact nothing
  · unfold Stage.push at emitted
    split at emitted
    · obtain rfl := Option.some.inj emitted
      simp at available
    · simp at emitted

theorem finish_prompt (s next : Stage) (finished : onUpstreamFinish chunkSize s = some next) : Prompt (some next) := by
  unfold onUpstreamFinish at finished
  split at finished
  · rename_i empty
    rintro stage ⟨⟩ _ _
    obtain rfl := Option.some.inj finished
    exact List.isEmpty_iff.mp empty
  · split at finished
    · exact emit_prompt chunkSize s next finished
    · rename_i unavailable
      rintro stage ⟨⟩ available _
      obtain rfl := Option.some.inj finished
      exact absurd available unavailable

theorem pull_prompt (s next : Stage) (running : s.completed = false) (pulled : onPull chunkSize s = some next)
    (available : s.isAvailable = true) : Prompt (some next) ↔ s.isClosed = true ∨ s.buffer = [] := by
  unfold onPull at pulled
  split at pulled
  · rename_i closed
    exact ⟨fun _ => .inl closed, fun _ => emit_prompt chunkSize s next pulled⟩
  · rename_i opened
    unfold Stage.pull at pulled
    split at pulled
    · simp at pulled
    · obtain rfl := Option.some.inj pulled
      constructor
      · intro prompt
        exact .inr (prompt { s with pulled := true } rfl available running)
      · rintro (closed | empty) stage ⟨⟩ _ _
        · exact absurd closed opened
        · exact empty

theorem step_prompt (positive : 1 ≤ chunkSize) (s : Option Stage) (event : Event) (next : Option Stage)
    (sound : Sound chunkSize s) (stepped : (chunker chunkSize).step s event = some next) :
    Prompt next ↔ Drained s event := by
  obtain ⟨after, rfl, _⟩ := step_sound chunkSize positive s event next sound stepped
  obtain ⟨stage, rfl, _⟩ := sound
  have delivered : deliver chunkSize stage event = some (some after) := stepped
  cases event with
  | pull =>
      obtain ⟨⟨running, _⟩, pulled⟩ := (delivered_pull chunkSize stage _).mp delivered
      rw [pull_prompt chunkSize { stage with isAvailable := true } after running pulled rfl]
      simp [Drained]
  | push elem =>
      obtain ⟨_, pushed⟩ := (delivered_push chunkSize stage elem _).mp delivered
      have prompt := emit_prompt chunkSize _ after pushed
      exact ⟨fun _ pull => by simp at pull, fun _ => prompt⟩
  | finish =>
      obtain ⟨_, finished⟩ := (delivered_finish chunkSize stage _).mp delivered
      have prompt := finish_prompt chunkSize _ after finished
      exact ⟨fun _ pull => by simp at pull, fun _ => prompt⟩

theorem initial_prompt : Prompt (chunker chunkSize).initial := by
  rintro stage ⟨⟩ _ _
  rfl

theorem chunker_is_prompt_iff (positive : 1 ≤ chunkSize) (final : Option Stage) (events : List Event)
    (ran : (chunker chunkSize).run (chunker chunkSize).initial events = some final) :
    (chunker chunkSize).Along Prompt (chunker chunkSize).initial events ↔
      (chunker chunkSize).Meets Drained (chunker chunkSize).initial events := by
  rw [along_of_invariant (chunker chunkSize) (Sound chunkSize) Prompt (step_sound chunkSize positive) _ events
    (initial_sound chunkSize)]
  apply along_iff_meets (chunker chunkSize) Drained _ _ final events _ ⟨initial_sound chunkSize, initial_prompt chunkSize⟩ ran
  intro s event _ next holds stepped
  have prompt := step_prompt chunkSize positive s event next holds.1 stepped
  rw [← prompt]
  exact ⟨And.right, fun after => ⟨step_sound chunkSize positive s event next holds.1 stepped, after⟩⟩

theorem chunker_is_prompt_iff_on_small_elements :
    (chunker 2).Along Prompt (chunker 2).initial [.pull, .push [1, 2], .pull, .finish] ↔
      (chunker 2).Meets Drained (chunker 2).initial [.pull, .push [1, 2], .pull, .finish] :=
  chunker_is_prompt_iff 2 (by decide) _ [.pull, .push [1, 2], .pull, .finish] rfl

-- The second byte waits in the buffer while the stage asks upstream for more.
theorem chunker_keeps_data_back :
    ¬ ∀ chunkSize : Int, 1 ≤ chunkSize → ∀ events final,
      (chunker chunkSize).run (chunker chunkSize).initial events = some final →
        (chunker chunkSize).Along Prompt (chunker chunkSize).initial events := by
  intro always
  have along := always 1 (by decide) [.pull, .push [1, 2], .pull] _ rfl
  have last := (((along.2 _ rfl).2 _ rfl).2 _ rfl)
  have empty := last _ rfl rfl rfl
  simp at empty

end Stages

end Toolbox8.Chunker
