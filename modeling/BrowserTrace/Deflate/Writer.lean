import BrowserTrace.Bytes

/-! # Writing a deflate stream

The writer uses stored blocks alone: the bytes as they are, in blocks of at most 65535, the last one
marked. No data makes one empty block.

This is no compressor, and no stream of it is shorter than the data. All that is asked of a
compressor in its place is that its streams decode to the data, so what is proved of deflated
members is proved of every stream that does.
-/

namespace BrowserTrace.Deflate

/-- The greatest length of a stored block. -/
def maxStored : Nat := 65535

/-- A stored block that begins at a byte boundary. -/
def storedBlock (last : Bool) (bytes : ByteArray) : ByteArray :=
  let length := UInt16.ofNat bytes.size
  ((if last then 1 else 0) :: Bytes.u16Bytes length ++ Bytes.u16Bytes (65535 - length)).toByteArray
    ++ bytes

/-- The stream of the bytes of `data` from `start` on, after the blocks in `out`. -/
def deflateFrom (data : ByteArray) (start : Nat) (out : ByteArray) : ByteArray :=
  if data.size - start ≤ maxStored then
    out ++ storedBlock true (data.extract start data.size)
  else
    deflateFrom data (start + maxStored)
      (out ++ storedBlock false (data.extract start (start + maxStored)))
termination_by data.size - start
decreasing_by
  simp only [maxStored] at *
  omega

/-- A stream that describes `data` without making it shorter: one of the many that a compressor
could give, and not the one of any particular compressor. -/
def deflate (data : ByteArray) : ByteArray :=
  deflateFrom data 0 ByteArray.empty

end BrowserTrace.Deflate
