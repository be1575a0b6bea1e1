import Mathlib.Data.List.Basic

set_option autoImplicit false

namespace Toolbox8.Base

-- What a machine has put out on some input, and the state it goes on from unless it has completed.
structure Fed (σ β : Type) where
  outs : List β
  state : Option σ
deriving DecidableEq, Repr

variable {σ α β : Type}

def Fed.andThen (fed : Fed σ β) (resume : σ → Fed σ β) : Fed σ β :=
  match fed.state with
  | none => fed
  | some s => ⟨fed.outs ++ (resume s).outs, (resume s).state⟩

-- A machine that takes one element after the other. It takes no more once it has completed.
def feed (step : σ → α → Fed σ β) : σ → List α → Fed σ β
  | s, [] => ⟨[], some s⟩
  | s, x :: rest => (step s x).andThen (fun next => feed step next rest)

@[simp] theorem and_then_none (outs : List β) (resume : σ → Fed σ β) :
    Fed.andThen ⟨outs, none⟩ resume = ⟨outs, none⟩ := rfl

@[simp] theorem and_then_some (outs : List β) (s : σ) (resume : σ → Fed σ β) :
    Fed.andThen ⟨outs, some s⟩ resume = ⟨outs ++ (resume s).outs, (resume s).state⟩ := rfl

theorem and_then_silent (s : σ) (resume : σ → Fed σ β) : Fed.andThen ⟨[], some s⟩ resume = resume s := rfl

theorem and_then_assoc (fed : Fed σ β) (first second : σ → Fed σ β) :
    (fed.andThen first).andThen second = fed.andThen (fun s => (first s).andThen second) := by
  cases fed with
  | mk outs state =>
      cases state with
      | none => rfl
      | some s =>
          cases reached : (first s).state with
          | none => simp [Fed.andThen, reached]
          | some t => simp [Fed.andThen, reached]

theorem feed_cons (step : σ → α → Fed σ β) (s : σ) (x : α) (rest : List α) :
    feed step s (x :: rest) = (step s x).andThen (fun next => feed step next rest) := rfl

theorem feed_append (step : σ → α → Fed σ β) (s : σ) (front back : List α) :
    feed step s (front ++ back) = (feed step s front).andThen (fun next => feed step next back) := by
  induction front generalizing s with
  | nil => rfl
  | cons x rest ih =>
      rw [List.cons_append, feed_cons, feed_cons, and_then_assoc]
      exact congrArg (step s x).andThen (funext ih)

section Pipe

variable {τ γ : Type}

-- A pipeline has ended as soon as one of its stages has.
def Fed.joined (up : Fed σ β) (down : Fed τ γ) : Fed (σ × τ) γ :=
  ⟨down.outs, up.state.bind (fun s => down.state.map (fun t => (s, t)))⟩

-- The second machine is fed with what the first one puts out.
def pipe (first : σ → α → Fed σ β) (second : τ → β → Fed τ γ) (state : σ × τ) (x : α) : Fed (σ × τ) γ :=
  (first state.1 x).joined (feed second state.2 (first state.1 x).outs)

theorem feed_pipe (first : σ → α → Fed σ β) (second : τ → β → Fed τ γ) (s : σ) (t : τ) (xs : List α) :
    feed (pipe first second) (s, t) xs = (feed first s xs).joined (feed second t (feed first s xs).outs) := by
  induction xs generalizing s t with
  | nil => rfl
  | cons x rest ih =>
      rw [feed_cons, feed_cons]
      rcases here : first s x with ⟨outs, _ | next⟩
      · simp [pipe, here, Fed.joined]
      · rcases below : feed second t outs with ⟨passed, _ | after⟩
        · simp [pipe, here, below, Fed.joined, feed_append]
        · simp [pipe, here, below, Fed.joined, feed_append, ih next after]

end Pipe

end Toolbox8.Base
