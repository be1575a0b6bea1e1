import Toolbox8.AkkaTerminal

set_option autoImplicit false

namespace Toolbox8.AkkaStreamCoding

open Base

-- The future fails when the data does.
def concat (data : Data) : Option ByteString :=
  match data.ended with
  | .failed => none
  | .completed => some (data.elems.foldl (fun buffer bs => buffer ++ bs) [])

-- boopickle, of which only the round trip is relied on.
structure Pickler (T : Type) where
  intoBytes : T → ByteString
  fromBytes : ByteString → Option T
  round_trip : ∀ value, fromBytes (intoBytes value) = some value

def unpickle {T : Type} (p : Pickler T) (data : Data) : Option T := (concat data).bind p.fromBytes

def pickle {T : Type} (p : Pickler T) (value : T) : Data := .completed [p.intoBytes value]

theorem concat_pickle {T : Type} (p : Pickler T) (value : T) : concat (pickle p value) = some (p.intoBytes value) := rfl

theorem unpickle_pickled {T : Type} (p : Pickler T) (value : T) (data : Data) (same : concat data = concat (pickle p value)) :
    unpickle p data = some value := by
  rw [unpickle, same, concat_pickle, Option.bind_some, p.round_trip]

namespace StateMachine

-- M is what a flow puts out, Name names its transitions and Step the steps of its sequences.
inductive Transition (M Name Step : Type) where
  | named (name : Name)
  | sequenceIn (head : Step) (tail : List Step) (out : List M) (next : Transition M Name Step)
  | endNext
deriving DecidableEq, Repr

structure State (M Name Step : Type) where
  out : List M
  next : Transition M Name Step
deriving DecidableEq, Repr

variable {M Name Step World : Type}

-- The source of End stays open and puts nothing out.
def State.ended : State M Name Step := ⟨[], .endNext⟩

def sequenceInAndState (out : List M) (steps : List Step) (andThen : State M Name Step) : State M Name Step :=
  match steps with
  | head :: tail => ⟨out, .sequenceIn head tail andThen.out andThen.next⟩
  | [] => { andThen with out := out ++ andThen.out }

-- The state scanAsync goes on with. None is a failed future, which fails the flow.
def Transition.apply (named : Name → M → World → Option (State M Name Step × World))
    (step : Step → M → World → Option World) (t : Transition M Name Step) (m : M) (w : World) :
    Option (State M Name Step × World) :=
  match t with
  | .named name => named name m w
  | .sequenceIn head tail out next => (step head m w).map (fun after => (sequenceInAndState [] tail ⟨out, next⟩, after))
  | .endNext => some (.ended, w)

end StateMachine

end Toolbox8.AkkaStreamCoding
