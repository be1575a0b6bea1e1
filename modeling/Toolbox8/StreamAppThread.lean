import Toolbox8.RootContext

set_option autoImplicit false

namespace Toolbox8.StreamAppThread

open Base StreamApp RootContext

inductive Init where
  | verifyCacheRequest (jars : List JarKey)
  | putCacheRequest (p : PutCacheRequest)
  | runMarked (jars : List JarKey)
  | runRequest (classLoaderConfig : ClassLoaderConfig)
  | finished
deriving DecidableEq, Repr

section Thread

variable {Stream Value Throwable : Type}

inductive Incoming (Value : Type) where
  | init (request : Init)
  | runMarkedRequest (marker input : Value)
  | other (value : Value)

-- readObject gives an object or throws, with what remains of the input.
inductive Read (Stream Value Throwable : Type) where
  | object (incoming : Incoming Value) (rest : Stream)
  | thrown (ex : Throwable) (rest : Stream)

-- What the thread writes to dos.
inductive Response (Value Throwable : Type) where
  | verifyCacheResponse (missing : List JarKey)
  | done
  | result (value : Value)
  | throwable (ex : Throwable)
deriving DecidableEq, Repr

-- Java serialization over the socket. copy reads from a BoundedInputStream of the given size.
structure Runtime (Stream Value Throwable : Type) where
  readObject : ClassLoader → Stream → Read Stream Value Throwable
  copy : Int → Stream → ByteString × Stream
  ownClassLoader : ClassLoader
  parent : ClassLoader
  classCastException : Throwable

-- A Requestable reads from the input and may throw.
abbrev Requestable (Stream Throwable : Type) := Stream → Stream × Except Throwable Unit

-- The root in holder, and what the code that one request calls does.
structure Called (Stream Value Throwable : Type) where
  holder : PluggedConfig
  parentLastUrlClassloader : List FileName → ClassLoader → Except Throwable ClassLoader
  newInstance : ClassLoader → String → Except Throwable (Requestable Stream Throwable)
  marked : Plugged → Value → Value → Except Throwable Value

def Called.classLoader (called : Called Stream Value Throwable) (jars : List JarKey) (parent : ClassLoader) :
    Except Throwable ClassLoader :=
  if jars.isEmpty then .ok parent else called.parentLastUrlClassloader (jars.map cacheFile) parent

def Called.loadInstance (called : Called Stream Value Throwable) (config : ClassLoaderConfig) (parent : ClassLoader) :
    Except Throwable (Requestable Stream Throwable) :=
  (called.classLoader config.jars parent).bind (fun cl => called.newInstance cl config.className)

abbrev Files := FileName → Option ByteString

structure Handled (Stream Value Throwable : Type) where
  input : Stream
  files : Files
  objects : List (Response Value Throwable)

def missing (files : Files) (jars : List JarKey) : List JarKey := jars.filter (fun k => (files (cacheFile k)).isNone)

-- The try of RunMarked with its catch. Where no class loader is made, the RunMarkedRequest stays unread.
def runMarked (runtime : Runtime Stream Value Throwable) (called : Called Stream Value Throwable) (jars : List JarKey)
    (input : Stream) : Stream × Response Value Throwable :=
  match called.classLoader jars called.holder.classLoader with
  | .error ex => (input, .throwable ex)
  | .ok cl =>
      match runtime.readObject cl input with
      | .thrown ex rest => (rest, .throwable ex)
      | .object (.runMarkedRequest marker value) rest =>
          match called.marked called.holder.plugged marker value with
          | .error ex => (rest, .throwable ex)
          | .ok result => (rest, .result result)
      | .object _ rest => (rest, .throwable runtime.classCastException)

-- The try of RunRequest.
def runRequest (runtime : Runtime Stream Value Throwable) (called : Called Stream Value Throwable) (config : ClassLoaderConfig)
    (input : Stream) : Stream × Except Throwable Unit :=
  match called.loadInstance config runtime.parent with
  | .error ex => (input, .error ex)
  | .ok r => r input

-- One pass of the loop over an Init. none is an exception that leaves the loop, or End.
def handle (runtime : Runtime Stream Value Throwable) (called : Called Stream Value Throwable) (files : Files) (input : Stream) :
    Init → Option (Handled Stream Value Throwable)
  | .verifyCacheRequest jars => some ⟨input, files, [.verifyCacheResponse (missing files jars)]⟩
  | .putCacheRequest p =>
      if (files (cacheFile p.jarKey)).isSome then none
      else
        let (bytes, rest) := runtime.copy p.size input
        some ⟨rest, Function.update files (cacheFile p.jarKey) (some bytes), [.done]⟩
  | .runMarked jars =>
      let (rest, result) := runMarked runtime called jars input
      some ⟨rest, files, [result]⟩
  | .runRequest config =>
      match runRequest runtime called config input with
      | (rest, .error ex) => some ⟨rest, files, [.throwable ex, .done]⟩
      | (rest, .ok _) => some ⟨rest, files, [.done]⟩
  | .finished => none

-- The answer that a client waits for.
def outcome (runtime : Runtime Stream Value Throwable) (called : Called Stream Value Throwable) (files : Files) (input : Stream) :
    Init → Response Value Throwable
  | .verifyCacheRequest jars => .verifyCacheResponse (missing files jars)
  | .putCacheRequest _ => .done
  | .runMarked jars => (runMarked runtime called jars input).2
  | .runRequest config =>
      match (runRequest runtime called config input).2 with
      | .error ex => .throwable ex
      | .ok _ => .done
  | .finished => .done

-- objects is what has been written to dos, outcomes what the handled requests have come to.
structure Thread (Stream Value Throwable : Type) where
  input : Stream
  files : Files
  isOpen : Bool
  objects : List (Response Value Throwable)
  outcomes : List (Response Value Throwable)

-- serve is a pass of the loop, elsewhere a change that other threads make to the cache directory.
inductive Event (Stream Value Throwable : Type) where
  | serve (called : Called Stream Value Throwable)
  | elsewhere (files : Files)

def Thread.close (s : Thread Stream Value Throwable) : Thread Stream Value Throwable := { s with isOpen := false }

def Thread.handled (s : Thread Stream Value Throwable) (h : Handled Stream Value Throwable)
    (outcome : Response Value Throwable) : Thread Stream Value Throwable :=
  { s with input := h.input, files := h.files, objects := s.objects ++ h.objects, outcomes := s.outcomes ++ [outcome] }

-- An EOFException ends the loop as End does. Another exception, and an object that is no Init, leave it.
def serve (runtime : Runtime Stream Value Throwable) (called : Called Stream Value Throwable)
    (s : Thread Stream Value Throwable) : Thread Stream Value Throwable :=
  match runtime.readObject runtime.ownClassLoader s.input with
  | .object (.init init) rest =>
      match handle runtime called s.files rest init with
      | none => s.close
      | some h => s.handled h (outcome runtime called s.files rest init)
  | _ => s.close

def step (runtime : Runtime Stream Value Throwable) (s : Thread Stream Value Throwable) :
    Event Stream Value Throwable → Option (Thread Stream Value Throwable)
  | .serve called => if s.isOpen then some (serve runtime called s) else none
  | .elsewhere files => some { s with files := files }

def thread (runtime : Runtime Stream Value Throwable) (input : Stream) (files : Files) :
    Machine (Thread Stream Value Throwable) (Event Stream Value Throwable) where
  initial := ⟨input, files, true, [], []⟩
  step := step runtime

-- The k-th object is the outcome of the k-th request.
def Aligned (s : Thread Stream Value Throwable) : Prop := s.isOpen = true → s.objects = s.outcomes

-- Where the next request is a RunRequest, its instance can be loaded and request does not throw.
def RunsThrough (runtime : Runtime Stream Value Throwable) (s : Thread Stream Value Throwable) :
    Event Stream Value Throwable → Prop
  | .elsewhere _ => True
  | .serve called =>
      ∀ config rest, runtime.readObject runtime.ownClassLoader s.input = .object (.init (.runRequest config)) rest →
        ∃ r, called.loadInstance config runtime.parent = .ok r ∧ (r rest).2 = .ok ()

variable (runtime : Runtime Stream Value Throwable) (called : Called Stream Value Throwable)

theorem run_request_ok_iff (config : ClassLoaderConfig) (input : Stream) :
    (runRequest runtime called config input).2 = .ok () ↔
      ∃ r, called.loadInstance config runtime.parent = .ok r ∧ (r input).2 = .ok () := by
  unfold runRequest
  cases called.loadInstance config runtime.parent with
  | error ex => simp
  | ok r => simp

-- All requests but a RunRequest that fails are answered by one object, which is their outcome.
theorem handle_objects (files : Files) (input : Stream) (init : Init) (h : Handled Stream Value Throwable)
    (handled : handle runtime called files input init = some h) :
    (h.objects = [outcome runtime called files input init] ∧
        ∀ config, init = .runRequest config → (runRequest runtime called config input).2 = .ok ()) ∨
      ∃ config ex, init = .runRequest config ∧ (runRequest runtime called config input).2 = .error ex ∧
        h.objects = [.throwable ex, .done] := by
  cases init with
  | verifyCacheRequest jars =>
      obtain rfl := Option.some.inj handled
      exact .inl ⟨rfl, nofun⟩
  | putCacheRequest p =>
      simp only [handle] at handled
      split at handled
      · cases handled
      · obtain rfl := Option.some.inj handled
        exact .inl ⟨rfl, nofun⟩
  | runMarked jars =>
      obtain rfl := Option.some.inj handled
      exact .inl ⟨rfl, nofun⟩
  | runRequest config =>
      rcases ran : runRequest runtime called config input with ⟨rest, ex | done⟩
      · simp only [handle, ran, Option.some.injEq] at handled
        subst handled
        exact .inr ⟨config, ex, rfl, by rw [ran], rfl⟩
      · simp only [handle, ran, Option.some.injEq] at handled
        subst handled
        refine .inl ⟨by simp [outcome, ran], ?_⟩
        rintro _ ⟨⟩
        rw [ran]
  | finished => cases handled

theorem run_request_handled (files : Files) (input : Stream) (config : ClassLoaderConfig) :
    handle runtime called files input (.runRequest config) ≠ none := by
  rcases ran : runRequest runtime called config input with ⟨rest, ex | done⟩ <;> simp [handle, ran]

variable (s : Thread Stream Value Throwable)

theorem close_aligned : Aligned s.close := nofun

theorem serve_other (unread : ∀ init rest, runtime.readObject runtime.ownClassLoader s.input ≠ .object (.init init) rest) :
    serve runtime called s = s.close := by
  unfold serve
  split
  · exact absurd (by assumption) (unread _ _)
  · rfl

theorem serve_init (init : Init) (rest : Stream)
    (read : runtime.readObject runtime.ownClassLoader s.input = .object (.init init) rest) :
    serve runtime called s = match handle runtime called s.files rest init with
      | none => s.close
      | some h => s.handled h (outcome runtime called s.files rest init) := by
  simp only [serve, read]

theorem serve_aligned (aligned : Aligned s) (isOpen : s.isOpen = true) :
    Aligned (serve runtime called s) ↔ RunsThrough runtime s (.serve called) := by
  by_cases unread : ∀ init rest, runtime.readObject runtime.ownClassLoader s.input ≠ .object (.init init) rest
  · rw [serve_other runtime called s unread]
    exact iff_of_true (close_aligned s) (fun config rest read => absurd read (unread _ rest))
  · simp only [not_forall, ne_eq, not_not] at unread
    obtain ⟨init, rest, read⟩ := unread
    rw [serve_init runtime called s init rest read]
    simp only [RunsThrough, read, Read.object.injEq, Incoming.init.injEq]
    cases handled : handle runtime called s.files rest init with
    | none =>
        refine iff_of_true (close_aligned s) ?_
        rintro config _ ⟨rfl, rfl⟩
        exact absurd handled (run_request_handled runtime called s.files rest config)
    | some h =>
        have before := aligned isOpen
        rcases handle_objects runtime called s.files rest init h handled with ⟨one, ok⟩ | ⟨config, ex, rfl, failed, two⟩
        · refine iff_of_true (fun _ => by simp [Thread.handled, before, one]) ?_
          rintro config _ ⟨same, rfl⟩
          exact (run_request_ok_iff runtime called config rest).mp (ok config same)
        · refine iff_of_false (fun after => ?_) (fun runs => ?_)
          · have shifted := after isOpen
            simp [Thread.handled, before, two] at shifted
          · have ok := (run_request_ok_iff runtime called config rest).mpr (runs config rest ⟨rfl, rfl⟩)
            simp [failed] at ok

theorem step_aligned (event : Event Stream Value Throwable) (next : Thread Stream Value Throwable) (aligned : Aligned s)
    (stepped : step runtime s event = some next) : Aligned next ↔ RunsThrough runtime s event := by
  cases event with
  | serve called =>
      simp only [step] at stepped
      split at stepped
      next isOpen =>
        obtain rfl := Option.some.inj stepped
        exact serve_aligned runtime called s aligned isOpen
      next => cases stepped
  | elsewhere files =>
      obtain rfl := Option.some.inj stepped
      exact iff_of_true aligned trivial

-- In every run, whatever the client sends and the called code does.
theorem aligned_iff (input : Stream) (files : Files) (events : List (Event Stream Value Throwable))
    (final : Thread Stream Value Throwable)
    (ran : (thread runtime input files).run (thread runtime input files).initial events = some final) :
    (thread runtime input files).Along Aligned (thread runtime input files).initial events ↔
      (thread runtime input files).Meets (RunsThrough runtime) (thread runtime input files).initial events := by
  refine along_iff_meets _ (RunsThrough runtime) Aligned _ final events ?_ (fun _ => rfl) ran
  intro s event _ next aligned stepped
  exact step_aligned runtime s event next aligned stepped

end Thread

-- A client that sends objects only, and code of which only the class Present can be loaded.
def objectRuntime : Runtime (List (Incoming Unit)) Unit String where
  readObject _ input :=
    match input with
    | [] => .thrown "EOFException" []
    | incoming :: rest => .object incoming rest
  copy _ input := ([], input)
  ownClassLoader := 0
  parent := 0
  classCastException := "ClassCastException"

def presentOnly : Called (List (Incoming Unit)) Unit String where
  holder := ⟨0, 0, ⟨[], "Root"⟩⟩
  parentLastUrlClassloader _ parent := .ok parent
  newInstance _ className := if className = "Present" then .ok (fun input => (input, .ok ())) else .error "ClassNotFoundException"
  marked _ _ _ := .error "NotImplementedError"

def presentRun : List (Incoming Unit) :=
  [.init (.runRequest ⟨[], "Present"⟩), .init (.runMarked []), .runMarkedRequest () (), .init (.verifyCacheRequest [])]

theorem aligned_iff_present :
    (thread objectRuntime presentRun (fun _ => none)).Along Aligned (thread objectRuntime presentRun (fun _ => none)).initial
      [.serve presentOnly, .serve presentOnly, .serve presentOnly] := by
  refine (aligned_iff objectRuntime presentRun (fun _ => none) _ _ (Option.some_get (by rfl)).symm).mpr ?_
  simp [Machine.Meets, RunsThrough, thread, step, serve, handle, presentRun, objectRuntime, presentOnly, Thread.handled,
    Called.loadInstance, Called.classLoader, runRequest, runMarked, Except.bind]

-- The second object that the client reads is the Done of its first request.
theorem failed_run_shifts :
    ∃ s, (thread objectRuntime [.init (.runRequest ⟨[], "Missing"⟩), .init (.verifyCacheRequest [])] (fun _ => none)).run
        (thread objectRuntime [.init (.runRequest ⟨[], "Missing"⟩), .init (.verifyCacheRequest [])] (fun _ => none)).initial
        [.serve presentOnly, .serve presentOnly] = some s ∧
      s.objects = [.throwable "ClassNotFoundException", .done, .verifyCacheResponse []] ∧
      s.outcomes = [.throwable "ClassNotFoundException", .verifyCacheResponse []] ∧ ¬ Aligned s := by
  refine ⟨_, rfl, rfl, rfl, fun aligned => ?_⟩
  have same := aligned rfl
  revert same
  decide

end Toolbox8.StreamAppThread
