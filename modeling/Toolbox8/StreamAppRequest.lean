import Toolbox8.StreamAppThread

set_option autoImplicit false

namespace Toolbox8.StreamAppRequest

open Base StreamApp RootContext StreamAppThread

section Request

variable {Stream Value Throwable : Type}

-- What the client reads where the thread has written a response. A Throwable is an object like any other.
structure ObjectInput (Value Throwable : Type) where
  object : Response Value Throwable → Value
  result : ∀ value, object (.result value) = value

inductive Call (Value : Type) where
  | waits
  | returns (value : Value)
  | throws
deriving DecidableEq, Repr

-- asInstanceOf[Out] is erased: whatever object comes first is returned. Without one, readObject throws once the thread is
-- gone.
def request (dis : ObjectInput Value Throwable) (s : Thread Stream Value Throwable) : Call Value :=
  match s.objects with
  | response :: _ => .returns (dis.object response)
  | [] => if s.isOpen then .waits else .throws

-- The two objects that the client has written. Reading the second one with some class loader may throw.
structure Sent (runtime : Runtime Stream Value Throwable) (marker inputParam : Value) (stream rest : Stream) : Prop where
  runMarked : runtime.readObject runtime.ownClassLoader stream = .object (.init (.runMarked [])) rest
  request : ∀ cl incoming after, runtime.readObject cl rest = .object incoming after →
    incoming = .runMarkedRequest marker inputParam

variable (runtime : Runtime Stream Value Throwable) (called : Called Stream Value Throwable)
  (marker inputParam : Value) (rest : Stream)

-- The input has been read and plugged.marked has returned the value.
def MarkedReturns (value : Value) : Prop :=
  ∃ cl after, called.classLoader [] called.holder.classLoader = .ok cl ∧
    runtime.readObject cl rest = .object (.runMarkedRequest marker inputParam) after ∧
    called.marked called.holder.plugged marker inputParam = .ok value

inductive ServerThrows : Prop where
  | classLoader (ex : Throwable) (throws : called.classLoader [] called.holder.classLoader = .error ex)
  | reading (cl : ClassLoader) (ex : Throwable) (after : Stream)
      (made : called.classLoader [] called.holder.classLoader = .ok cl)
      (throws : runtime.readObject cl rest = .thrown ex after)
  | marked (cl : ClassLoader) (ex : Throwable) (after : Stream)
      (made : called.classLoader [] called.holder.classLoader = .ok cl)
      (read : runtime.readObject cl rest = .object (.runMarkedRequest marker inputParam) after)
      (throws : called.marked called.holder.plugged marker inputParam = .error ex)

structure TellsApart (call : Call Value) : Prop where
  returned : ∀ value, call = .returns value → MarkedReturns runtime called marker inputParam rest value
  thrown : ServerThrows runtime called marker inputParam rest → call = .throws

theorem run_marked_result (stream : Stream) (sent : Sent runtime marker inputParam stream rest) :
    (∃ value, MarkedReturns runtime called marker inputParam rest value ∧
        (StreamAppThread.runMarked runtime called [] rest).2 = .result value) ∨
      ∃ ex, ServerThrows runtime called marker inputParam rest ∧
        (StreamAppThread.runMarked runtime called [] rest).2 = .throwable ex := by
  unfold StreamAppThread.runMarked
  cases made : called.classLoader [] called.holder.classLoader with
  | error ex => exact .inr ⟨ex, .classLoader ex made, rfl⟩
  | ok cl =>
      cases read : runtime.readObject cl rest with
      | thrown ex after =>
          refine .inr ⟨ex, .reading cl ex after made read, ?_⟩
          simp only [read]
      | object incoming after =>
          obtain rfl := sent.request cl incoming after read
          cases returned : called.marked called.holder.plugged marker inputParam with
          | error ex =>
              refine .inr ⟨ex, .marked cl ex after made read returned, ?_⟩
              simp only [read, returned]
          | ok value =>
              refine .inl ⟨value, ⟨cl, after, made, read, returned⟩, ?_⟩
              simp only [read, returned]

theorem returns_or_throws (value : Value) (returns : MarkedReturns runtime called marker inputParam rest value) :
    ¬ServerThrows runtime called marker inputParam rest := by
  obtain ⟨cl, after, made, read, returned⟩ := returns
  intro throws
  cases throws with
  | classLoader ex throws => simp [made] at throws
  | reading other ex stream same throws =>
      rw [made] at same
      cases same
      simp [read] at throws
  | marked other ex stream same again throws => simp [returned] at throws

theorem elsewhere_kept (stream : Stream) (files : Files) (before : List (StreamAppThread.Event Stream Value Throwable))
    (quiet : ∀ event ∈ before, ∃ files, event = .elsewhere files) (s : Thread Stream Value Throwable)
    (ran : (thread runtime stream files).run (thread runtime stream files).initial before = some s) :
    s.input = stream ∧ s.isOpen = true ∧ s.objects = [] := by
  refine run_keeps_guarded (thread runtime stream files) (fun _ event => ∃ files, event = .elsewhere files)
    (fun s => s.input = stream ∧ s.isOpen = true ∧ s.objects = []) ?_ _ s before ⟨rfl, rfl, rfl⟩
    (meets_all _ _ _ before quiet) ran
  rintro s _ next kept ⟨files, rfl⟩ stepped
  cases stepped
  exact kept

theorem first_object_kept (stream : Stream) (files : Files) (events : List (StreamAppThread.Event Stream Value Throwable))
    (response : Response Value Throwable) (s final : Thread Stream Value Throwable)
    (first : s.objects.head? = some response) (ran : (thread runtime stream files).run s events = some final) :
    final.objects.head? = some response := by
  refine run_keeps (thread runtime stream files) (fun s => s.objects.head? = some response) ?_ s final events first ran
  intro s event next first stepped
  cases event with
  | elsewhere files =>
      cases stepped
      exact first
  | serve called =>
      simp only [thread, StreamAppThread.step] at stepped
      split at stepped
      · obtain rfl := Option.some.inj stepped
        unfold serve
        split
        · split
          · exact first
          · simp [Thread.handled, first]
        · exact first
      · cases stepped

theorem first_object (stream : Stream) (files : Files) (before after : List (StreamAppThread.Event Stream Value Throwable))
    (quiet : ∀ event ∈ before, ∃ files, event = .elsewhere files) (s : Thread Stream Value Throwable)
    (read : runtime.readObject runtime.ownClassLoader stream = .object (.init (.runMarked [])) rest)
    (ran : (thread runtime stream files).run (thread runtime stream files).initial (before ++ .serve called :: after) = some s) :
    s.objects.head? = some (StreamAppThread.runMarked runtime called [] rest).2 := by
  rw [run_append, Option.bind_eq_some_iff] at ran
  obtain ⟨asked, reached, ran⟩ := ran
  obtain ⟨input, isOpen, silent⟩ := elsewhere_kept runtime stream files before quiet asked reached
  have stepped : (thread runtime stream files).step asked (.serve called) = some (serve runtime called asked) := by
    simp only [thread, StreamAppThread.step, isOpen, if_true]
  rw [run_cons_of_step _ _ _ _ _ stepped] at ran
  refine first_object_kept runtime stream files after _ _ s ?_ ran
  rw [← input] at read
  rw [serve_init runtime called asked (.runMarked []) rest read]
  simp [handle, Thread.handled, silent]

-- Whatever happens elsewhere before and on the connection after: the object that the client returns stands for a value of
-- marked exactly when nothing has thrown on the server.
theorem tells_apart_iff (dis : ObjectInput Value Throwable) (stream : Stream) (files : Files)
    (before after : List (StreamAppThread.Event Stream Value Throwable))
    (quiet : ∀ event ∈ before, ∃ files, event = .elsewhere files) (s : Thread Stream Value Throwable)
    (sent : Sent runtime marker inputParam stream rest)
    (ran : (thread runtime stream files).run (thread runtime stream files).initial (before ++ .serve called :: after) = some s) :
    TellsApart runtime called marker inputParam rest (request dis s) ↔
      ∃ value, MarkedReturns runtime called marker inputParam rest value := by
  have first := first_object runtime called rest stream files before after quiet s sent.runMarked ran
  obtain ⟨others, objects⟩ := List.head?_eq_some_iff.mp first
  have call : request dis s = .returns (dis.object (StreamAppThread.runMarked runtime called [] rest).2) := by
    rw [request, objects]
  rcases run_marked_result runtime called marker inputParam rest stream sent with
    ⟨value, returned, result⟩ | ⟨ex, throws, _⟩
  · refine iff_of_true ⟨?_, fun throws => absurd throws (returns_or_throws _ _ _ _ _ value returned)⟩ ⟨value, returned⟩
    intro other same
    rw [call, result, dis.result] at same
    cases same
    exact returned
  · refine iff_of_false (fun apart => ?_) (fun returned => ?_)
    · have thrown := apart.thrown throws
      rw [call] at thrown
      cases thrown
    · obtain ⟨value, returned⟩ := returned
      exact returns_or_throws _ _ _ _ _ value returned throws

end Request

-- The client's two objects on a list of them. One root cannot read the input, another one throws, the third one works.
def textRuntime : Runtime (List (Incoming String)) String String where
  readObject cl input :=
    match input with
    | [] => .thrown "EOFException" []
    | incoming :: rest => if cl = 1 then .thrown "ClassNotFoundException" rest else .object incoming rest
  copy _ input := ([], input)
  ownClassLoader := 0
  parent := 0
  classCastException := "ClassCastException"

def echoRoot (classLoader : ClassLoader) (plugged : Plugged) : Called (List (Incoming String)) String String where
  holder := ⟨plugged, classLoader, ⟨[], "Root"⟩⟩
  parentLastUrlClassloader _ parent := .ok parent
  newInstance _ _ := .error "ClassNotFoundException"
  marked root _ input := if root = 1 then .error "NotImplementedError" else .ok input

def textInput : ObjectInput String String where
  object response :=
    match response with
    | .result value => value
    | .throwable ex => ex
    | .verifyCacheResponse _ => "VerifyCacheResponse"
    | .done => "Done"
  result _ := rfl

def asked : List (Incoming String) := [.init (.runMarked []), .runMarkedRequest "marker" "input"]

theorem asked_sent : Sent textRuntime "marker" "input" asked [.runMarkedRequest "marker" "input"] := by
  refine ⟨rfl, ?_⟩
  intro cl incoming after read
  simp only [textRuntime] at read
  split at read
  · cases read
  · cases read
    rfl

theorem tells_apart_iff_echo :
    TellsApart textRuntime (echoRoot 0 0) "marker" "input" [.runMarkedRequest "marker" "input"] (.returns "input") :=
  (tells_apart_iff textRuntime (echoRoot 0 0) "marker" "input" [.runMarkedRequest "marker" "input"] textInput asked
    (fun _ => none) [] [] nofun ⟨[], fun _ => none, true, [.result "input"], [.result "input"]⟩ asked_sent rfl).mpr
      ⟨"input", 0, [], rfl, rfl, rfl⟩

-- The first root does not know a class of the input, the second one throws; the call returns what was thrown.
theorem throwable_returned :
    (∃ s, (thread textRuntime asked (fun _ => none)).run (thread textRuntime asked (fun _ => none)).initial
        [.serve (echoRoot 1 0)] = some s ∧ request textInput s = .returns "ClassNotFoundException" ∧
      ¬TellsApart textRuntime (echoRoot 1 0) "marker" "input" [.runMarkedRequest "marker" "input"] (request textInput s)) ∧
    ∃ s, (thread textRuntime asked (fun _ => none)).run (thread textRuntime asked (fun _ => none)).initial
        [.serve (echoRoot 0 1)] = some s ∧ request textInput s = .returns "NotImplementedError" ∧
      ¬TellsApart textRuntime (echoRoot 0 1) "marker" "input" [.runMarkedRequest "marker" "input"] (request textInput s) := by
  constructor
  · refine ⟨_, rfl, rfl, fun apart => ?_⟩
    cases apart.thrown (.reading 1 "ClassNotFoundException" [] rfl rfl)
  · refine ⟨_, rfl, rfl, fun apart => ?_⟩
    cases apart.thrown (.marked 0 "NotImplementedError" [] rfl rfl rfl)

end Toolbox8.StreamAppRequest
