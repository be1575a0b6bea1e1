import Toolbox8.Base.Feeding
import Toolbox8.ByteStrings
import Mathlib.Data.List.Forall2

set_option autoImplicit false

namespace Toolbox8.JarServletWsEndpoint

open Base

structure JarCoords where
  groupId : String
  artifactId : String
  version : String
  classifier : Option String := none
  hash : Option String := none
deriving DecidableEq, Repr

inductive ClientToServer where
  | verifyJars (coords : List JarCoords)
  | uploadJarStart (coords : JarCoords)
  | uploadJarPiece (data : ByteString)
  | uploadJarEnd (md5 : ByteString)
  | run (jars : List JarCoords) (className : String)
  | wrapped (data : ByteString)
deriving DecidableEq, Repr

-- A partial message, as onMessage gets it.
structure Frame where
  data : ByteString
  last : Bool
deriving DecidableEq, Repr

-- What the handler does, in order. verified answers JarsVerified with the coords that have no file then,
-- opened is FileIO on the path of the coords, given goes to the flow of the loaded instance.
inductive Effect where
  | verified (coords : List JarCoords)
  | opened (coords : JarCoords)
  | wrote (coords : JarCoords) (data : ByteString)
  | jarUploaded (coords : JarCoords) (success : Bool)
  | loaded (jars : List JarCoords) (className : String)
  | given (data : ByteString)
deriving DecidableEq, Repr

-- MD5, and what loadInstance finds: false is an exception.
structure Provider where
  md5 : ByteString → ByteString
  loads : List JarCoords → String → Bool

-- The substream of the second splitAfter. digest is what has been put into the MessageDigest since its reset.
inductive Handler where
  | waiting
  | uploading (coords : JarCoords) (digest : ByteString)
  | running
deriving DecidableEq, Repr

-- runReduce(_ ++ _) fails on a stream that has no element.
def toStrict : List ByteString → Option ByteString
  | [] => none
  | first :: rest => some (rest.foldl (fun bs next => bs ++ next) first)

-- splitAfter(_._2), BinaryMessage.Streamed and toStrictFlow: a message is strict when its last frame is there.
def assemble (opened : List ByteString) (frame : Frame) : Fed (List ByteString) ByteString :=
  if frame.last then
    match toStrict (opened ++ [frame.data]) with
    | some message => ⟨[message], some []⟩
    | none => ⟨[], none⟩
  else ⟨[], some (opened ++ [frame.data])⟩

def unpickled (unpickle : ByteString → Option ClientToServer) (_ : Unit) (message : ByteString) : Fed Unit ClientToServer :=
  match unpickle message with
  | some m => ⟨[m], some ()⟩
  | none => ⟨[], none⟩

-- digest.digest(data) resets the MessageDigest. A case that is not there fails the stream.
def handle (provider : Provider) : Handler → ClientToServer → Fed Handler Effect
  | .waiting, .verifyJars coords => ⟨[.verified coords], some .waiting⟩
  | .waiting, .uploadJarStart coords => ⟨[.opened coords], some (.uploading coords [])⟩
  | .waiting, .run jars className =>
      if provider.loads jars className then ⟨[.loaded jars className], some .running⟩ else ⟨[], none⟩
  | .uploading coords _, .uploadJarPiece data => ⟨[.wrote coords data], some (.uploading coords [])⟩
  | .uploading coords digest, .uploadJarEnd md5 => ⟨[.jarUploaded coords (md5 = provider.md5 digest)], some .waiting⟩
  | .running, .wrapped data => ⟨[.given data], some .running⟩
  | _, _ => ⟨[], none⟩

abbrev Pipeline := (List ByteString × Unit) × Handler

def start : Pipeline := (([], ()), .waiting)

section Session

variable (provider : Provider) (unpickle : ByteString → Option ClientToServer)

-- One materialised flow.
def flow : Pipeline → Frame → Fed Pipeline Effect := pipe (pipe assemble (unpickled unpickle)) (handle provider)

-- flow is a def, so that every call of onMessage materialises a flow of its own and offers the frame to it.
def onMessage (flows : List (Fed Pipeline Effect)) (frame : Frame) : List (Fed Pipeline Effect) :=
  flows ++ [feed (flow provider unpickle) start [frame]]

def session (frames : List Frame) : List (Fed Pipeline Effect) := frames.foldl (onMessage provider unpickle) []

-- The messages have all been handled by one flow, in order, and by no other.
def SeenByOneFlow (flows : List (Fed Pipeline Effect)) (sent : List ClientToServer) : Prop :=
  flows.length ≤ 1 ∧ flows.flatMap Fed.outs = (feed (handle provider) .waiting sent).outs

end Session

-- A message cut into partial frames, of which the last one is flagged.
def Fragments (message : ByteString) (frames : List Frame) : Prop :=
  ∃ (front : List ByteString) (final : ByteString),
    frames = front.map (fun data => ⟨data, false⟩) ++ [⟨final, true⟩] ∧ front.flatten ++ final = message

theorem to_strict_flatten (pieces : List ByteString) (nonempty : pieces ≠ []) : toStrict pieces = some pieces.flatten := by
  have folded : ∀ (rest : List ByteString) (first : ByteString),
      rest.foldl (fun bs next => bs ++ next) first = first ++ rest.flatten := by
    intro rest
    induction rest with
    | nil => simp
    | cons next rest ih =>
        intro first
        rw [List.foldl_cons, ih, List.flatten_cons, List.append_assoc]
  cases pieces with
  | nil => exact absurd rfl nonempty
  | cons first rest => rw [toStrict, folded, List.flatten_cons]

theorem assemble_open (opened front : List ByteString) :
    feed assemble opened (front.map (fun data => ⟨data, false⟩)) = ⟨[], some (opened ++ front)⟩ := by
  induction front generalizing opened with
  | nil => simp [feed]
  | cons data rest ih =>
      rw [List.map_cons, feed_cons]
      simp [assemble, ih]

theorem assemble_fragments (message : ByteString) (frames : List Frame) (fragments : Fragments message frames) :
    feed assemble [] frames = ⟨[message], some []⟩ := by
  obtain ⟨front, final, rfl, rfl⟩ := fragments
  rw [feed_append, assemble_open, List.nil_append, and_then_silent]
  simp [feed, assemble, to_strict_flatten]

-- The state between two messages is the empty one, so the messages come out one by one.
theorem assemble_messages (messages : List ByteString) (fragmented : List (List Frame))
    (fragments : List.Forall₂ Fragments messages fragmented) :
    feed assemble [] fragmented.flatten = ⟨messages, some []⟩ := by
  induction fragments with
  | nil => rfl
  | cons here _ ih => rw [List.flatten_cons, feed_append, assemble_fragments _ _ here, and_then_some, ih, List.singleton_append]

theorem feed_unpickled (unpickle : ByteString → Option ClientToServer) (pickle : ClientToServer → ByteString)
    (sent : List ClientToServer) (unpickles : ∀ m ∈ sent, unpickle (pickle m) = some m) :
    feed (unpickled unpickle) () (sent.map pickle) = ⟨sent, some ()⟩ := by
  induction sent with
  | nil => rfl
  | cons m rest ih =>
      rw [List.map_cons, feed_cons, unpickled, unpickles m (by simp)]
      rw [and_then_some, ih (fun other member => unpickles other (by simp [member])), List.singleton_append]

section Session

variable (provider : Provider) (unpickle : ByteString → Option ClientToServer)

theorem flow_handles (pickle : ClientToServer → ByteString) (sent : List ClientToServer) (fragmented : List (List Frame))
    (unpickles : ∀ m ∈ sent, unpickle (pickle m) = some m)
    (fragments : List.Forall₂ (fun m frames => Fragments (pickle m) frames) sent fragmented) :
    (feed (flow provider unpickle) start fragmented.flatten).outs = (feed (handle provider) .waiting sent).outs := by
  have strict := assemble_messages (sent.map pickle) fragmented (List.forall₂_map_left_iff.mpr fragments)
  rw [flow, start, feed_pipe, feed_pipe, strict]
  simp only [Fed.joined, feed_unpickled unpickle pickle sent unpickles]

theorem session_flows (frames : List Frame) :
    session provider unpickle frames = frames.map (fun frame => feed (flow provider unpickle) start [frame]) := by
  have grown : ∀ flows, frames.foldl (onMessage provider unpickle) flows =
      flows ++ frames.map (fun frame => feed (flow provider unpickle) start [frame]) := by
    induction frames with
    | nil => simp
    | cons frame rest ih =>
        intro flows
        rw [List.foldl_cons, ih, onMessage, List.append_assoc, List.map_cons, List.singleton_append]
  rw [session, grown, List.nil_append]

theorem flow_one_frame (frame : Frame) :
    (feed (flow provider unpickle) start [frame]).outs =
      if frame.last then ((unpickle frame.data).map (fun m => (handle provider .waiting m).outs)).getD [] else [] := by
  rw [flow, start, feed_pipe, feed_pipe]
  cases last : frame.last with
  | false => simp [feed, assemble, last, Fed.joined]
  | true =>
      cases read : unpickle frame.data with
      | none => simp [feed, assemble, last, toStrict, Fed.joined, unpickled, read]
      | some m =>
          cases after : (handle provider .waiting m).state with
          | none => simp [feed, assemble, last, toStrict, Fed.joined, unpickled, read, Fed.andThen, after]
          | some s => simp [feed, assemble, last, toStrict, Fed.joined, unpickled, read, Fed.andThen, after]

-- No upload is ever answered, since no flow gets to see the end of one that it has seen begin.
theorem uploads_unanswered (frames : List Frame) (coords : JarCoords) (success : Bool) :
    Effect.jarUploaded coords success ∉ (session provider unpickle frames).flatMap Fed.outs := by
  rw [session_flows, List.flatMap_map]
  intro member
  obtain ⟨frame, _, inside⟩ := List.mem_flatMap.mp member
  rw [flow_one_frame] at inside
  cases last : frame.last with
  | false => simp [last] at inside
  | true =>
      cases read : unpickle frame.data with
      | none => simp [last, read] at inside
      | some m =>
          simp only [last, read, if_true, Option.map_some, Option.getD_some] at inside
          cases m with
          | run jars className =>
              simp only [handle] at inside
              split at inside <;> simp at inside
          | _ => simp [handle] at inside

-- Exactly when the session is one frame long at most.
theorem seen_by_one_flow_iff (pickle : ClientToServer → ByteString) (sent : List ClientToServer)
    (fragmented : List (List Frame)) (unpickles : ∀ m ∈ sent, unpickle (pickle m) = some m)
    (fragments : List.Forall₂ (fun m frames => Fragments (pickle m) frames) sent fragmented) :
    SeenByOneFlow provider (session provider unpickle fragmented.flatten) sent ↔ fragmented.flatten.length ≤ 1 := by
  have handles := flow_handles provider unpickle pickle sent fragmented unpickles fragments
  generalize fragmented.flatten = frames at handles ⊢
  rw [session_flows, SeenByOneFlow, List.length_map, ← handles]
  refine ⟨And.left, fun short => ⟨short, ?_⟩⟩
  match frames, short with
  | [], _ => rfl
  | [frame], _ => simp

end Session

-- The messages of one small upload, pickled to one byte each.
def exampleCoords : JarCoords := { groupId := "toolbox8", artifactId := "tomcat", version := "1.0.0" }

def exampleUpload : List ClientToServer := [.uploadJarStart exampleCoords, .uploadJarPiece [7], .uploadJarEnd [0]]

def examplePickle : ClientToServer → ByteString
  | .uploadJarStart _ => [1]
  | .uploadJarPiece _ => [2]
  | _ => [3]

def exampleUnpickle (message : ByteString) : Option ClientToServer :=
  exampleUpload.find? (fun m => examplePickle m = message)

def exampleProvider : Provider where
  md5 _ := [0]
  loads _ _ := false

theorem seen_by_one_flow_iff_start :
    SeenByOneFlow exampleProvider (session exampleProvider exampleUnpickle [⟨[1], true⟩]) [.uploadJarStart exampleCoords] := by
  have fragments : List.Forall₂ (fun m frames => Fragments (examplePickle m) frames) [.uploadJarStart exampleCoords]
      [[⟨[1], true⟩]] := .cons ⟨[], [1], rfl, rfl⟩ .nil
  exact (seen_by_one_flow_iff exampleProvider exampleUnpickle examplePickle _ _ (by decide) fragments).mpr (by decide)

-- Three messages make three flows, of which the second and the third fail, where one flow answers the upload.
theorem upload_seen_by_three_flows :
    (session exampleProvider exampleUnpickle [⟨[1], true⟩, ⟨[2], true⟩, ⟨[3], true⟩]).map Fed.outs =
        [[.opened exampleCoords], [], []] ∧
      (feed (flow exampleProvider exampleUnpickle) start [⟨[1], true⟩, ⟨[2], true⟩, ⟨[3], true⟩]).outs =
        [.opened exampleCoords, .wrote exampleCoords [7], .jarUploaded exampleCoords true] ∧
      ¬ SeenByOneFlow exampleProvider
        (session exampleProvider exampleUnpickle [⟨[1], true⟩, ⟨[2], true⟩, ⟨[3], true⟩]) exampleUpload := by
  refine ⟨by decide, by decide, fun seen => ?_⟩
  exact absurd seen.1 (by decide)

end Toolbox8.JarServletWsEndpoint
