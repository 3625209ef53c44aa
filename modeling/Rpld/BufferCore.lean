import Rpld.TypesCore

/-!
The growing send buffer of `buffer.c`. `buffer` holds the `allocated` bytes behind
the pointer; bytes that `realloc` hands out keep what the heap held.
-/

namespace Rpld

/-- `struct safe_buffer`. -/
structure SafeBuffer where
  allocated : Nat
  used : Nat
  buffer : List UInt8
  heap : Nat → UInt8

def safeBufferNew (heap : Nat → UInt8) : SafeBuffer := ⟨0, 0, [], heap⟩

def blocksize : Nat := 1 <<< 6

def safeBufferLimit : Nat := 64 * 1024

/-- `realloc` to `size` bytes, never fewer than there are. -/
def SafeBuffer.realloc (sb : SafeBuffer) (size : Nat) : SafeBuffer :=
  { sb with
    allocated := size
    buffer := sb.buffer ++ (List.range' sb.buffer.length (size - sb.buffer.length)).map sb.heap }

/-- The capacity `safe_buffer_resize` asks for: `n` rounded up to whole blocks. -/
def roundToBlock (n : Nat) : Nat :=
  if n % blocksize > 0 then (n ||| (blocksize - 1)) + 1 else n

def safeBufferResize (sb : SafeBuffer) (n : Nat) : Except Fault SafeBuffer :=
  if sb.allocated < n then
    if roundToBlock n > safeBufferLimit then .error .exit else .ok (sb.realloc (roundToBlock n))
  else .ok sb

/-- The store at `&sb->buffer[sb->used]`, and `sb->used += count`. -/
def SafeBuffer.write (sb : SafeBuffer) (bytes : List UInt8) : SafeBuffer :=
  { sb with
    used := sb.used + bytes.length
    buffer := sb.buffer.take sb.used ++ bytes ++ sb.buffer.drop (sb.used + bytes.length) }

def safeBufferPad (sb : SafeBuffer) (count : Nat) : Except Fault SafeBuffer := do
  let sb ← safeBufferResize sb (sb.used + count)
  return sb.write (List.replicate count 0)

/-- `safe_buffer_append(sb, &object, count)`. The bytes of `object` end before
`count` when the caller asks for more than the object has. -/
def safeBufferAppend (sb : SafeBuffer) (object : List UInt8) (count : Nat) :
    Except Fault SafeBuffer := do
  let sb ← safeBufferResize sb (sb.used + count)
  if object.length < count then throw .overrun
  return sb.write (object.take count)

/-- The bytes `really_send` hands to `sendmsg`. -/
def SafeBuffer.contents (sb : SafeBuffer) : List UInt8 := sb.buffer.take sb.used

end Rpld
