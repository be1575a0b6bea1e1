import Toolbox8.Base.Words

set_option autoImplicit false

namespace Toolbox8

-- Bytes and Ints are two's complement words; widening a byte to an Int sign-extends it.
abbrev Byte := BitVec 8

abbrev ByteString := List Byte

namespace ByteStrings

-- fn may fail on a prefix that is too short (an index out of bounds); then so does mapPrefix.
def mapPrefix {T : Type} (bs : ByteString) (n : Nat) (fn : ByteString → Option T) : Option (T × ByteString) :=
  (fn bs).map (fun value => (value, bs.drop n))

def getByteHeader (bs : ByteString) : Option (Byte × ByteString) := mapPrefix bs 1 (fun h => h[0]?)

def getIntHeader (bs : ByteString) : Option (BitVec 32 × ByteString) :=
  mapPrefix bs 4 (fun h => do
    let h0 ← h[0]?
    let h1 ← h[1]?
    let h2 ← h[2]?
    let h3 ← h[3]?
    some ((h0.signExtend 32 <<< 24) |||
      ((h1.signExtend 32 &&& 0xff#32) <<< 16) |||
      ((h2.signExtend 32 &&& 0xff#32) <<< 8) |||
      (h3.signExtend 32 &&& 0xff#32)))

-- ByteStringBuilder.putInt under the implicit big-endian byte order.
def putInt (x : BitVec 32) : ByteString := Base.bigEndian x

@[simp] theorem get_byte_header_cons (header : Byte) (data : ByteString) :
    getByteHeader (header :: data) = some (header, data) := rfl

@[simp] theorem get_byte_header_nil : getByteHeader [] = none := rfl

theorem get_byte_header_some (bs data : ByteString) (header : Byte) (split : getByteHeader bs = some (header, data)) :
    bs = header :: data := by
  cases bs with
  | nil => simp at split
  | cons first rest =>
      simp only [get_byte_header_cons, Option.some.injEq, Prod.mk.injEq] at split
      rw [split.1, split.2]

theorem get_int_header_bytes (a b c d : Byte) (data : ByteString) :
    getIntHeader (a :: b :: c :: d :: data) = some (Base.ofBigEndian a b c d, data) := by
  simp [getIntHeader, mapPrefix, Base.masked_widen, Base.top_byte_widen, Base.ofBigEndian]

theorem get_int_header_put_int (x : BitVec 32) (data : ByteString) :
    getIntHeader (putInt x ++ data) = some (x, data) := by
  rw [putInt, Base.bigEndian]
  simp only [List.cons_append, List.nil_append, get_int_header_bytes, Base.of_big_endian_bytes]

theorem fold_append (pieces : List ByteString) (buffer : ByteString) :
    pieces.foldl (fun buffer bs => buffer ++ bs) buffer = buffer ++ pieces.flatten := by
  induction pieces generalizing buffer with
  | nil => simp
  | cons piece rest ih => simp [ih]

end ByteStrings

end Toolbox8
