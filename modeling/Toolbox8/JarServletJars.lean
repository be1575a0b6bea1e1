import Mathlib.Logic.Function.Basic
import Toolbox8.Base.Transition
import Toolbox8.JarCache
import Toolbox8.JarServletWsEndpoint

set_option autoImplicit false

namespace Toolbox8.JarServletWsEndpoint

open Base

def fileName (coords : JarCoords) : String :=
  URLEncoder.encode (coords.groupId ++ ":" ++ coords.artifactId ++ ":" ++ coords.version ++ ":" ++
    coords.classifier.getD "" ++ ":" ++ coords.hash.getD "" ++ ".jar")

-- A pipeline between two messages, or looking for the files of left, the rest of coords, where missing are those
-- that it has not found.
inductive Phase where
  | handling (handler : Handler)
  | verifying (coords left missing : List JarCoords)
  | failed
deriving DecidableEq, Repr

-- found is a lookup by jarFileExists that has succeeded; the others are the answers that are sent.
inductive Entry where
  | found (coords : JarCoords)
  | verified (coords missing : List JarCoords)
  | uploaded (coords : JarCoords) (success : Bool)
deriving DecidableEq, Repr

-- Any number of pipelines over one jars directory. The files of opening are still to be created by the sinks that
-- have been materialised for them. ended records the UploadJarEnd messages of the uploads.
structure Jars where
  files : List String
  opening : List JarCoords
  pipelines : Nat → Phase
  ended : List (JarCoords × ByteString)
  log : List Entry

def Jars.become (s : Jars) (i : Nat) (phase : Phase) : Jars := { s with pipelines := Function.update s.pipelines i phase }

def settle : Option Handler → Phase
  | some handler => .handling handler
  | none => .failed

def perform (i : Nat) (s : Jars) : Effect → Jars
  | .verified coords => s.become i (.verifying coords coords [])
  | .opened coords => { s with opening := s.opening ++ [coords] }
  | .jarUploaded coords success => { s with log := s.log ++ [.uploaded coords success] }
  | .wrote _ _ => s
  | .loaded _ _ => s
  | .given _ => s

def endedBy : Handler → ClientToServer → List (JarCoords × ByteString)
  | .uploading coords _, .uploadJarEnd md5 => [(coords, md5)]
  | _, _ => []

section Directory

variable (provider : Provider)

def message (s : Jars) (i : Nat) (handler : Handler) (m : ClientToServer) : Jars :=
  let fed := handle provider handler m
  fed.outs.foldl (perform i) { s.become i (settle fed.state) with ended := s.ended ++ endedBy handler m }

-- filterNot(provider.jarFileExists) looks for one file after the other; the answer is sent after the last one.
def check (s : Jars) (i : Nat) (coords missing : List JarCoords) : List JarCoords → Jars
  | [] => { s.become i (.handling .waiting) with log := s.log ++ [.verified coords missing] }
  | c :: left =>
      if fileName c ∈ s.files then { s.become i (.verifying coords left missing) with log := s.log ++ [.found c] }
      else s.become i (.verifying coords left (missing ++ [c]))

inductive Event where
  | message (i : Nat) (m : ClientToServer)
  | check (i : Nat)
  | opens (k : Nat)
deriving DecidableEq, Repr

def jars : Machine Jars Event where
  initial := ⟨[], [], fun _ => .handling .waiting, [], []⟩
  step := fun s event =>
    match event with
    | .message i m =>
        match s.pipelines i with
        | .handling handler => some (message provider s i handler m)
        | .verifying _ _ _ => none
        | .failed => none
    | .check i =>
        match s.pipelines i with
        | .verifying coords left missing => some (check s i coords missing left)
        | .handling _ => none
        | .failed => none
    | .opens k =>
        (s.opening[k]?).map (fun coords =>
          { s with files := fileName coords :: s.files, opening := s.opening.eraseIdx k })

end Directory

-- An upload for that file name has been answered with success.
def Uploaded (log : List Entry) (c : JarCoords) : Prop :=
  ∃ other, Entry.uploaded other true ∈ log ∧ fileName other = fileName c

def Permitted (before : List Entry) : Entry → Prop
  | .found c => Uploaded before c
  | .verified coords missing => ∀ c ∈ coords, c ∉ missing → Uploaded before c
  | .uploaded _ _ => True

def OnlyUploaded (log : List Entry) : Prop := ∀ before entry after, log = before ++ entry :: after → Permitted before entry

-- A file that has been created is not looked for before an upload for it has ended with the MD5 of no bytes, which is
-- what the digest is compared with.
def AskedAfterEnd (provider : Provider) (s : Jars) (event : Event) : Prop :=
  ∀ i, event = .check i → ∀ coords c left missing, s.pipelines i = .verifying coords (c :: left) missing →
    fileName c ∈ s.files → ∃ other, (other, provider.md5 []) ∈ s.ended ∧ fileName other = fileName c

theorem only_uploaded_last (log : List Entry) (entry : Entry) :
    OnlyUploaded (log ++ [entry]) ↔ OnlyUploaded log ∧ Permitted log entry := by
  constructor
  · intro only
    constructor
    · intro before early after split
      exact only before early (after ++ [entry]) (by rw [split, List.append_assoc, List.cons_append])
    · exact only log entry [] rfl
  · intro both before some after split
    obtain ⟨only, last⟩ := both
    rcases List.eq_nil_or_concat after with rfl | ⟨middle, final, rfl⟩
    · obtain ⟨rfl, same⟩ := List.append_inj' split rfl
      rw [← List.head_eq_of_cons_eq same]
      exact last
    · rw [List.concat_eq_append, ← List.cons_append, ← List.append_assoc] at split
      exact only before some middle (List.append_inj' split rfl).1

-- The digest of an upload is always empty, and what a query has gone past is missing or has been found.
def Honest (log : List Entry) : Phase → Prop
  | .handling .waiting => True
  | .handling (.uploading _ digest) => digest = []
  | .handling .running => True
  | .verifying coords left missing => ∀ c ∈ coords, c ∈ left ∨ c ∈ missing ∨ .found c ∈ log
  | .failed => True

structure Invariant (provider : Provider) (s : Jars) : Prop where
  phases : ∀ i, Honest s.log (s.pipelines i)
  answered : ∀ c, .uploaded c true ∈ s.log ↔ (c, provider.md5 []) ∈ s.ended

theorem honest_later (log later : List Entry) (grows : log ⊆ later) (phase : Phase) (honest : Honest log phase) :
    Honest later phase := by
  cases phase with
  | handling handler =>
      cases handler with
      | waiting => trivial
      | uploading coords digest => exact honest
      | running => trivial
  | verifying coords left missing =>
      intro c member
      rcases honest c member with ahead | absent | found
      · exact .inl ahead
      · exact .inr (.inl absent)
      · exact .inr (.inr (grows found))
  | failed => trivial

theorem become_honest (s : Jars) (i : Nat) (phase : Phase) (later : List Entry) (grows : s.log ⊆ later)
    (phases : ∀ j, Honest s.log (s.pipelines j)) (honest : Honest later phase) (j : Nat) :
    Honest later ((s.become i phase).pipelines j) := by
  by_cases equal : j = i
  · subst equal
    simp only [Jars.become, Function.update_self]
    exact honest
  · simp only [Jars.become, Function.update_of_ne equal]
    exact honest_later s.log later grows _ (phases j)

section Steps

variable (provider : Provider)

theorem message_cases (s : Jars) (i : Nat) (handler : Handler) (m : ClientToServer)
    (honest : Honest s.log (.handling handler)) :
    (∃ coords md5, message provider s i handler m =
      { s.become i (.handling .waiting) with
        ended := s.ended ++ [(coords, md5)]
        log := s.log ++ [.uploaded coords (md5 = provider.md5 [])] }) ∨
    ∃ phase opening, message provider s i handler m = { s.become i phase with opening := opening } ∧ Honest s.log phase := by
  have fails : ∀ handler m, handle provider handler m = ⟨[], none⟩ → endedBy handler m = [] →
      ∃ phase opening, message provider s i handler m = { s.become i phase with opening := opening } ∧ Honest s.log phase := by
    intro handler m failed ended
    refine ⟨.failed, s.opening, ?_, trivial⟩
    simp [message, failed, ended, settle, Jars.become]
  cases handler with
  | waiting =>
      cases m with
      | verifyJars coords =>
          refine .inr ⟨.verifying coords coords [], s.opening, ?_, fun c member => .inl member⟩
          simp [message, handle, endedBy, perform, settle, Jars.become]
      | uploadJarStart coords =>
          refine .inr ⟨.handling (.uploading coords []), s.opening ++ [coords], ?_, rfl⟩
          simp [message, handle, endedBy, perform, settle, Jars.become]
      | run names className =>
          by_cases loads : provider.loads names className
          · refine .inr ⟨.handling .running, s.opening, ?_, trivial⟩
            simp [message, handle, endedBy, perform, settle, Jars.become, loads]
          · exact .inr (fails .waiting (.run names className) (by simp [handle, loads]) rfl)
      | _ => exact .inr (fails .waiting _ rfl rfl)
  | uploading coords digest =>
      obtain rfl : digest = [] := honest
      cases m with
      | uploadJarPiece data =>
          refine .inr ⟨.handling (.uploading coords []), s.opening, ?_, rfl⟩
          simp [message, handle, endedBy, perform, settle, Jars.become]
      | uploadJarEnd md5 =>
          refine .inl ⟨coords, md5, ?_⟩
          simp [message, handle, endedBy, perform, settle, Jars.become]
      | _ => exact .inr (fails (.uploading coords []) _ rfl rfl)
  | running =>
      cases m with
      | wrapped data =>
          refine .inr ⟨.handling .running, s.opening, ?_, trivial⟩
          simp [message, handle, endedBy, perform, settle, Jars.become]
      | _ => exact .inr (fails .running _ rfl rfl)

theorem message_keeps (s : Jars) (i : Nat) (handler : Handler) (m : ClientToServer) (inv : Invariant provider s)
    (here : s.pipelines i = .handling handler) :
    Invariant provider (message provider s i handler m) ∧
      (OnlyUploaded (message provider s i handler m).log ↔ OnlyUploaded s.log) := by
  rcases message_cases provider s i handler m (here ▸ inv.phases i) with ⟨coords, md5, ends⟩ | ⟨phase, opening, moves, honest⟩
  · rw [ends]
    refine ⟨⟨?_, ?_⟩, ?_⟩
    · exact become_honest s i (.handling .waiting) _ (List.subset_append_left _ _) inv.phases trivial
    · intro c
      simp only [List.mem_append, inv.answered c, List.mem_singleton, Entry.uploaded.injEq, Prod.mk.injEq]
      apply or_congr_right
      apply and_congr_right
      intro _
      exact ⟨fun same => (of_decide_eq_true same.symm).symm, fun same => (decide_eq_true same.symm).symm⟩
    · rw [only_uploaded_last]
      exact and_iff_left trivial
  · rw [moves]
    exact ⟨⟨become_honest s i phase s.log (List.Subset.refl _) inv.phases honest, inv.answered⟩, Iff.rfl⟩

theorem check_keeps (s : Jars) (i : Nat) (coords left missing : List JarCoords) (inv : Invariant provider s)
    (here : s.pipelines i = .verifying coords left missing) : Invariant provider (check s i coords missing left) := by
  have honest : ∀ c ∈ coords, c ∈ left ∨ c ∈ missing ∨ .found c ∈ s.log := by
    have all := inv.phases i
    rw [here] at all
    exact all
  cases left with
  | nil =>
      refine ⟨become_honest s i (.handling .waiting) _ (List.subset_append_left _ _) inv.phases trivial, ?_⟩
      intro c
      simp [check, Jars.become, inv.answered c]
  | cons c left =>
      rw [check]
      split
      · refine ⟨become_honest s i _ _ (List.subset_append_left _ _) inv.phases ?_, ?_⟩
        · intro other member
          rcases honest other member with ahead | absent | found
          · rcases List.mem_cons.mp ahead with rfl | later
            · exact .inr (.inr (by simp))
            · exact .inl later
          · exact .inr (.inl absent)
          · exact .inr (.inr (List.mem_append_left _ found))
        · intro other
          simp [Jars.become, inv.answered other]
      · refine ⟨become_honest s i _ s.log (List.Subset.refl _) inv.phases ?_, inv.answered⟩
        intro other member
        rcases honest other member with ahead | absent | found
        · rcases List.mem_cons.mp ahead with rfl | later
          · exact .inr (.inl (by simp))
          · exact .inl later
        · exact .inr (.inl (List.mem_append_left _ absent))
        · exact .inr (.inr found)

theorem uploaded_iff_ended (s : Jars) (inv : Invariant provider s) (c : JarCoords) :
    Uploaded s.log c ↔ ∃ other, (other, provider.md5 []) ∈ s.ended ∧ fileName other = fileName c := by
  constructor
  · intro uploaded
    obtain ⟨other, answered, same⟩ := uploaded
    exact ⟨other, (inv.answered other).mp answered, same⟩
  · intro ended
    obtain ⟨other, answered, same⟩ := ended
    exact ⟨other, (inv.answered other).mpr answered, same⟩

theorem found_uploaded (log : List Entry) (only : OnlyUploaded log) (c : JarCoords) (found : .found c ∈ log) : Uploaded log c := by
  obtain ⟨before, after, rfl⟩ := List.append_of_mem found
  obtain ⟨other, answered, same⟩ := only before (.found c) after rfl
  exact ⟨other, List.mem_append_left _ answered, same⟩

theorem check_only (s : Jars) (i : Nat) (coords left missing : List JarCoords) (inv : Invariant provider s)
    (only : OnlyUploaded s.log) (here : s.pipelines i = .verifying coords left missing) :
    OnlyUploaded (check s i coords missing left).log ↔ AskedAfterEnd provider s (.check i) := by
  have honest := inv.phases i
  rw [here] at honest
  cases left with
  | nil =>
      rw [check, only_uploaded_last]
      have permitted : Permitted s.log (.verified coords missing) := by
        intro c member present
        rcases honest c member with ahead | absent | found
        · simp at ahead
        · exact absurd absent present
        · exact found_uploaded s.log only c found
      constructor
      · intro _ j same others c left lost now
        cases same
        simp [here] at now
      · intro _
        exact ⟨only, permitted⟩
  | cons c left =>
      have asked : AskedAfterEnd provider s (.check i) ↔ (fileName c ∈ s.files → Uploaded s.log c) := by
        rw [uploaded_iff_ended provider s inv c]
        constructor
        · intro asked present
          exact asked i rfl coords c left missing here present
        · intro ended j same others d rest lost now present
          cases same
          simp only [here, Phase.verifying.injEq, List.cons.injEq] at now
          obtain ⟨_, ⟨rfl, _⟩, _⟩ := now
          exact ended present
      rw [asked, check]
      split
      · rename_i present
        rw [only_uploaded_last]
        exact ⟨fun both _ => both.2, fun uploaded => ⟨only, uploaded present⟩⟩
      · rename_i absent
        exact ⟨fun _ present => absurd present absent, fun _ => only⟩

theorem step_exact (s next : Jars) (event : Event) (inv : Invariant provider s)
    (stepped : (jars provider).step s event = some next) :
    Invariant provider next ∧ (OnlyUploaded s.log → (OnlyUploaded next.log ↔ AskedAfterEnd provider s event)) := by
  cases event with
  | message i m =>
      cases here : s.pipelines i with
      | handling handler =>
          simp only [jars, here, Option.some.injEq] at stepped
          obtain ⟨kept, same⟩ := message_keeps provider s i handler m inv here
          rw [← stepped]
          refine ⟨kept, fun only => ?_⟩
          rw [same]
          exact ⟨fun _ j asks => by simp at asks, fun _ => only⟩
      | verifying coords left missing => simp [jars, here] at stepped
      | failed => simp [jars, here] at stepped
  | check i =>
      cases here : s.pipelines i with
      | handling handler => simp [jars, here] at stepped
      | verifying coords left missing =>
          simp only [jars, here, Option.some.injEq] at stepped
          rw [← stepped]
          exact ⟨check_keeps provider s i coords left missing inv here,
            fun only => check_only provider s i coords left missing inv only here⟩
      | failed => simp [jars, here] at stepped
  | opens k =>
      obtain ⟨coords, _, rfl⟩ := Option.map_eq_some_iff.mp stepped
      exact ⟨⟨inv.phases, inv.answered⟩, fun only => ⟨fun _ j asks => by simp at asks, fun _ => only⟩⟩

theorem initial_invariant : Invariant provider (jars provider).initial := by
  constructor
  · intro i
    trivial
  · intro c
    simp [jars]

theorem initial_only : OnlyUploaded (jars provider).initial.log := by
  intro before entry after split
  simp [jars] at split

theorem verified_only_after_upload_iff (events : List Event) (final : Jars)
    (ran : (jars provider).run (jars provider).initial events = some final) :
    (jars provider).Along (fun s => OnlyUploaded s.log) (jars provider).initial events ↔
      (jars provider).Meets (AskedAfterEnd provider) (jars provider).initial events := by
  have keeps := fun s event next inv stepped => (step_exact provider s next event inv stepped).1
  rw [along_of_invariant (jars provider) (Invariant provider) _ keeps _ events (initial_invariant provider)]
  apply along_iff_meets (jars provider) (AskedAfterEnd provider) _ _ final events _
    ⟨initial_invariant provider, initial_only provider⟩ ran
  intro s event _ next holds stepped
  obtain ⟨kept, exactly⟩ := step_exact provider s next event holds.1 stepped
  rw [← exactly holds.2]
  exact ⟨And.right, fun only => ⟨kept, only⟩⟩

end Steps

def uploadedRun : List Event :=
  [.message 0 (.uploadJarStart exampleCoords), .opens 0, .message 0 (.uploadJarEnd [0]), .message 1 (.verifyJars [exampleCoords]),
    .check 1, .check 1]

theorem verified_only_after_upload_iff_uploaded :
    ∃ final, (jars exampleProvider).run (jars exampleProvider).initial uploadedRun = some final ∧
      ((jars exampleProvider).Along (fun s => OnlyUploaded s.log) (jars exampleProvider).initial uploadedRun ↔
        (jars exampleProvider).Meets (AskedAfterEnd exampleProvider) (jars exampleProvider).initial uploadedRun) := by
  have ran : ((jars exampleProvider).run (jars exampleProvider).initial uploadedRun).map (fun s => s.log.length) = some 3 := by
    decide +kernel
  obtain ⟨final, run, _⟩ := Option.map_eq_some_iff.mp ran
  exact ⟨final, run, verified_only_after_upload_iff exampleProvider uploadedRun final run⟩

-- The upload has only begun when the other pipeline is asked for the jar.
def abandonedRun : List Event :=
  [.message 0 (.uploadJarStart exampleCoords), .opens 0, .message 1 (.verifyJars [exampleCoords]), .check 1, .check 1]

theorem abandoned_upload_is_verified :
    ¬ ∀ provider events final, (jars provider).run (jars provider).initial events = some final → OnlyUploaded final.log := by
  intro always
  have ran : ((jars exampleProvider).run (jars exampleProvider).initial abandonedRun).map (fun s => s.log) =
      some [.found exampleCoords, .verified [exampleCoords] []] := by
    decide +kernel
  obtain ⟨final, run, log⟩ := Option.map_eq_some_iff.mp ran
  have only := always exampleProvider abandonedRun final run
  obtain ⟨other, answered, _⟩ := only [.found exampleCoords] (.verified [exampleCoords] []) [] log exampleCoords (by simp) (by simp)
  simp at answered

end Toolbox8.JarServletWsEndpoint
