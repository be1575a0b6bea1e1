import Toolbox8.AkkaTerminal

set_option autoImplicit false

namespace Toolbox8.AkkaStreamCoding

-- A shift of an Int uses the low five bits of its count.
def shiftInt (x : BitVec 32) (count : Nat) : BitVec 32 := x <<< (count % 32)

-- The bytes are widened to Int and the result is an Int, as in getIntHeader.
def getLongHeader (bs : ByteString) : Option (BitVec 32 × ByteString) :=
  ByteStrings.mapPrefix bs 8 (fun h => do
    let h0 ← h[0]?
    let h1 ← h[1]?
    let h2 ← h[2]?
    let h3 ← h[3]?
    let h4 ← h[4]?
    let h5 ← h[5]?
    let h6 ← h[6]?
    let h7 ← h[7]?
    some (shiftInt (h0.signExtend 32) 56 |||
      shiftInt (h1.signExtend 32 &&& 0xff#32) 48 |||
      shiftInt (h2.signExtend 32 &&& 0xff#32) 40 |||
      shiftInt (h3.signExtend 32 &&& 0xff#32) 32 |||
      shiftInt (h4.signExtend 32 &&& 0xff#32) 24 |||
      shiftInt (h5.signExtend 32 &&& 0xff#32) 16 |||
      shiftInt (h6.signExtend 32 &&& 0xff#32) 8 |||
      (h7.signExtend 32 &&& 0xff#32)))

-- The eight bytes of a 64-bit value under the implicit big-endian byte order.
def putLong (x : BitVec 64) : ByteString := Base.bigEndianLong x

-- The decoded Int as the 64-bit number it stands for.
def longHeader (bs : ByteString) : Option (BitVec 64 × ByteString) :=
  (getLongHeader bs).map (fun header => (header.1.signExtend 64, header.2))

-- The counts 56, 48, 40 and 32 act as 24, 16, 8 and 0, so the first four bytes land on the last four.
theorem get_long_header_bytes (a b c d e f g h : Byte) (data : ByteString) :
    getLongHeader (a :: b :: c :: d :: e :: f :: g :: h :: data) =
      some (Base.ofBigEndian a b c d ||| Base.ofBigEndian e f g h, data) := by
  simp [getLongHeader, ByteStrings.mapPrefix, shiftInt, Base.masked_widen, Base.top_byte_widen, Base.ofBigEndian,
    BitVec.or_assoc]

theorem get_long_header_put_long (x : BitVec 64) (data : ByteString) :
    getLongHeader (putLong x ++ data) = some (Base.highHalf 32 x ||| Base.lowHalf 32 x, data) := by
  rw [putLong, Base.big_endian_long_halves, Base.bigEndian, Base.bigEndian]
  simp only [List.cons_append, List.nil_append, get_long_header_bytes, Base.of_big_endian_bytes]

theorem long_header_put_long_iff (x : BitVec 64) (data : ByteString) :
    longHeader (putLong x ++ data) = some (x, data) ↔ -1 ≤ x.toInt ∧ x.toInt < 2 ^ 31 := by
  have folded := @Base.halves_folded_iff 32 64 x (by decide) (by decide)
  rw [longHeader, get_long_header_put_long]
  simp only [Option.map_some, Option.some.injEq, Prod.mk.injEq, and_true, folded]
  omega

theorem headers_decode_iff (x : BitVec 64) (data : ByteString) :
    (∀ word : BitVec 32, getIntHeader (ByteStrings.putInt word ++ data) = some (word, data)) ∧
      (longHeader (putLong x ++ data) = some (x, data) ↔ -1 ≤ x.toInt ∧ x.toInt < 2 ^ 31) := by
  have ints : ∀ word : BitVec 32, getIntHeader (ByteStrings.putInt word ++ data) = some (word, data) := by
    intro word
    exact ByteStrings.get_int_header_put_int word data
  exact ⟨ints, long_header_put_long_iff x data⟩

-- A value whose high half is one and whose low half is zero decodes to one.
theorem long_header_loses_high_half :
    longHeader (putLong 0x100000000#64) = some (1#64, []) ∧
      ¬ ∀ (x : BitVec 64) (data : ByteString), longHeader (putLong x ++ data) = some (x, data) := by
  have folded : longHeader (putLong 0x100000000#64) = some (1#64, []) := by decide
  have wrong : longHeader (putLong 0x100000000#64 ++ []) ≠ some (0x100000000#64, []) := by
    rw [List.append_nil, folded]
    decide
  exact ⟨folded, fun decodes => wrong (decodes 0x100000000#64 [])⟩

end Toolbox8.AkkaStreamCoding
