import Toolbox8.JarServletWsEndpoint

set_option autoImplicit false

namespace Toolbox8.JarServletWsEndpoint

open Base

-- A MessageDigest holds the input that has been put into it since it was last reset.
structure MessageDigest where
  pending : ByteString
deriving DecidableEq, Repr

namespace MessageDigest

variable (md5 : ByteString → ByteString)

def getInstance : MessageDigest := ⟨[]⟩

def update (d : MessageDigest) (input : ByteString) : MessageDigest := ⟨d.pending ++ input⟩

-- digest() of no input, and digest(input): both reset.
def digest (d : MessageDigest) : ByteString × MessageDigest := (md5 d.pending, getInstance)

def digestOf (d : MessageDigest) (input : ByteString) : ByteString × MessageDigest := (d.update input).digest md5

end MessageDigest

def upload (coords : JarCoords) (pieces : List ByteString) (md5 : ByteString) : List ClientToServer :=
  .uploadJarStart coords :: (pieces.map .uploadJarPiece ++ [.uploadJarEnd md5])

section Verdict

variable (provider : Provider)

-- The answer to the upload comes last, and it says whether the pieces have the md5 that it ends with.
def RightVerdict (before : List ClientToServer) (coords : JarCoords) (pieces : List ByteString) (md5 : ByteString) : Prop :=
  ∃ earlier success,
    (feed (handle provider) .waiting (before ++ upload coords pieces md5)).outs = earlier ++ [.jarUploaded coords success] ∧
      (success = true ↔ md5 = provider.md5 pieces.flatten)

theorem handle_start (coords : JarCoords) :
    handle provider .waiting (.uploadJarStart coords) =
      ⟨[.opened coords], some (.uploading coords MessageDigest.getInstance.pending)⟩ := rfl

theorem handle_piece (coords : JarCoords) (d : MessageDigest) (data : ByteString) :
    handle provider (.uploading coords d.pending) (.uploadJarPiece data) =
      ⟨[.wrote coords data], some (.uploading coords (d.digestOf provider.md5 data).2.pending)⟩ := rfl

theorem handle_end (coords : JarCoords) (d : MessageDigest) (md5 : ByteString) :
    handle provider (.uploading coords d.pending) (.uploadJarEnd md5) =
      ⟨[.jarUploaded coords (md5 = (d.digest provider.md5).1)], some .waiting⟩ := rfl

-- However many pieces come in, the digest has been reset after the last one.
theorem pieces_reset (coords : JarCoords) (pieces : List ByteString) :
    feed (handle provider) (.uploading coords MessageDigest.getInstance.pending) (pieces.map .uploadJarPiece) =
      ⟨pieces.map (.wrote coords), some (.uploading coords MessageDigest.getInstance.pending)⟩ := by
  induction pieces with
  | nil => rfl
  | cons data rest ih =>
      have reset : (MessageDigest.getInstance.digestOf provider.md5 data).2 = MessageDigest.getInstance := rfl
      rw [List.map_cons, feed_cons, handle_piece, reset, and_then_some, ih, List.map_cons, List.singleton_append]

theorem upload_verdict (coords : JarCoords) (pieces : List ByteString) (md5 : ByteString) :
    feed (handle provider) .waiting (upload coords pieces md5) =
      ⟨.opened coords :: (pieces.map (.wrote coords) ++ [.jarUploaded coords (md5 = provider.md5 [])]), some .waiting⟩ := by
  rw [upload, feed_cons, handle_start, and_then_some, feed_append, pieces_reset, and_then_some, feed_cons, handle_end]
  rfl

theorem right_verdict_iff (before : List ClientToServer) (coords : JarCoords) (pieces : List ByteString) (md5 : ByteString)
    (settled : (feed (handle provider) .waiting before).state = some .waiting) :
    RightVerdict provider before coords pieces md5 ↔
      provider.md5 pieces.flatten = provider.md5 [] ∨ md5 ≠ provider.md5 [] ∧ md5 ≠ provider.md5 pieces.flatten := by
  have outs : (feed (handle provider) .waiting (before ++ upload coords pieces md5)).outs =
      (feed (handle provider) .waiting before).outs ++ .opened coords :: pieces.map (.wrote coords) ++
        [.jarUploaded coords (md5 = provider.md5 [])] := by
    rw [feed_append, Fed.andThen, settled]
    simp [upload_verdict]
  constructor
  · rintro ⟨earlier, success, answered, exact⟩
    rw [outs] at answered
    obtain ⟨_, same⟩ := List.append_inj' answered rfl
    obtain ⟨_, rfl⟩ := Effect.jarUploaded.inj (List.head_eq_of_cons_eq same)
    rw [decide_eq_true_iff] at exact
    by_cases equal : provider.md5 pieces.flatten = provider.md5 []
    · exact .inl equal
    · refine .inr ⟨fun empty => ?_, fun whole => ?_⟩
      · exact equal ((exact.mp empty).symm.trans empty)
      · exact equal (whole.symm.trans (exact.mpr whole))
  · intro condition
    refine ⟨_, _, outs, ?_⟩
    rw [decide_eq_true_iff]
    rcases condition with equal | ⟨notEmpty, notWhole⟩
    · rw [equal]
    · exact iff_of_false notEmpty notWhole

end Verdict

-- A digest that tells the two inputs apart.
def lengthProvider : Provider where
  md5 input := [BitVec.ofNat 8 input.length]
  loads _ _ := false

-- Two pieces with the md5 of neither them nor nothing.
theorem right_verdict_iff_wrong :
    RightVerdict lengthProvider [.verifyJars [exampleCoords]] exampleCoords [[7], [8]] [9] :=
  (right_verdict_iff lengthProvider [.verifyJars [exampleCoords]] exampleCoords [[7], [8]] [9] rfl).mpr (by decide)

-- One piece of one byte, with its md5.
theorem good_upload_rejected :
    (feed (handle lengthProvider) .waiting (upload exampleCoords [[7]] (lengthProvider.md5 [7]))).outs =
        [.opened exampleCoords, .wrote exampleCoords [7], .jarUploaded exampleCoords false] ∧
      ¬ RightVerdict lengthProvider [] exampleCoords [[7]] (lengthProvider.md5 [7]) := by
  refine ⟨by decide, ?_⟩
  rintro ⟨earlier, success, answered, exact⟩
  have outs : (feed (handle lengthProvider) .waiting ([] ++ upload exampleCoords [[7]] (lengthProvider.md5 [7]))).outs =
      [.opened exampleCoords, .wrote exampleCoords [7]] ++ [.jarUploaded exampleCoords false] := by
    decide
  rw [outs] at answered
  obtain ⟨_, same⟩ := List.append_inj' answered rfl
  obtain ⟨_, rfl⟩ := Effect.jarUploaded.inj (List.head_eq_of_cons_eq same)
  exact absurd (exact.mpr rfl) (by decide)

end Toolbox8.JarServletWsEndpoint
