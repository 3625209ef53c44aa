import Rpld.Buffer
import Rpld.Lib.Runs

/-!
The send buffer over whole sequences of calls, with the sizes as the machine has them:
sums of `size_t` wrap around, `realloc` shrinks what it is told to shrink, and a store
behind the allocation is a fault. As long as no sum wraps, the buffer is the
concatenation of what the calls wrote.
-/

namespace Rpld

open Runs

namespace SizeT

section

variable (sizeMax : Nat)

def add (a b : Nat) : Nat := (a + b) % (sizeMax + 1)

/-- `n |= (blocksize - 1)` carries nothing, the `n++` after it may wrap. -/
def roundToBlock (n : Nat) : Nat :=
  if n % blocksize > 0 then add sizeMax (n ||| (blocksize - 1)) 1 else n

/-- `realloc` to `size` bytes, which may be fewer than there are. -/
def realloc (sb : SafeBuffer) (size : Nat) : SafeBuffer :=
  { sb with
    allocated := size
    buffer := sb.buffer.take size ++
      (List.range' sb.buffer.length (size - sb.buffer.length)).map sb.heap }

def safeBufferResize (sb : SafeBuffer) (n : Nat) : Except Fault SafeBuffer :=
  if sb.allocated < n then
    if roundToBlock sizeMax n > safeBufferLimit then .error .exit
    else .ok (realloc sb (roundToBlock sizeMax n))
  else .ok sb

/-- The store at `&sb->buffer[sb->used]`, and `sb->used += count`. -/
def write (sb : SafeBuffer) (bytes : List UInt8) : Except Fault SafeBuffer :=
  if sb.buffer.length < sb.used + bytes.length then .error .overrun
  else .ok { sb.write bytes with used := add sizeMax sb.used bytes.length }

def safeBufferPad (sb : SafeBuffer) (count : Nat) : Except Fault SafeBuffer := do
  let sb ← safeBufferResize sizeMax sb (add sizeMax sb.used count)
  write sizeMax sb (List.replicate count 0)

def safeBufferAppend (sb : SafeBuffer) (object : List UInt8) (count : Nat) :
    Except Fault SafeBuffer := do
  let sb ← safeBufferResize sizeMax sb (add sizeMax sb.used count)
  if object.length < count then throw .overrun
  write sizeMax sb (object.take count)

end

theorem add_eq {sizeMax a b : Nat} (small : a + b ≤ sizeMax) : add sizeMax a b = a + b :=
  Nat.mod_eq_of_lt (Nat.lt_succ_of_le small)

theorem roundToBlock_eq {sizeMax n : Nat} (small : n + 63 ≤ sizeMax) :
    roundToBlock sizeMax n = Rpld.roundToBlock n := by
  unfold roundToBlock Rpld.roundToBlock
  by_cases partly : n % blocksize > 0
  · have fits : (n ||| (blocksize - 1)) + 1 ≤ sizeMax := by
      rw [or_blockMask]
      have rest : 0 < n % 64 := partly
      omega
    rw [add_eq fits]
  · simp [partly]

theorem realloc_eq {sb : SafeBuffer} {size : Nat} (grows : sb.buffer.length ≤ size) :
    realloc sb size = sb.realloc size := by
  simp [realloc, SafeBuffer.realloc, List.take_of_length_le grows]

theorem safeBufferResize_eq {sizeMax : Nat} {sb : SafeBuffer} {bytes : List UInt8}
    (holds : sb.Holds bytes) {n : Nat} (small : n + 63 ≤ sizeMax) :
    safeBufferResize sizeMax sb n = Rpld.safeBufferResize sb n := by
  unfold safeBufferResize Rpld.safeBufferResize
  rw [roundToBlock_eq small]
  by_cases room : sb.allocated < n
  · have grows : sb.buffer.length ≤ Rpld.roundToBlock n := by
      rw [holds.storage, Rpld.roundToBlock_eq]
      omega
    rw [realloc_eq grows]
  · simp [room]

theorem write_eq {sizeMax : Nat} {sb : SafeBuffer} {bytes more : List UInt8} (holds : sb.Holds bytes)
    (room : sb.used + more.length ≤ sb.allocated) (small : sb.used + more.length ≤ sizeMax) :
    write sizeMax sb more = .ok (sb.write more) := by
  have inside : ¬ sb.buffer.length < sb.used + more.length := by
    rw [holds.storage]
    omega
  simp [write, inside, add_eq small, SafeBuffer.write]

/-- Making room for some bytes and writing them is the same with and without
wrapping sums. -/
theorem resize_write_eq {sizeMax : Nat} {sb : SafeBuffer} {bytes : List UInt8} (holds : sb.Holds bytes)
    (more : List UInt8) (small : sb.used + more.length + 63 ≤ sizeMax) :
    (safeBufferResize sizeMax sb (add sizeMax sb.used more.length) >>= fun grown => write sizeMax grown more) =
      (Rpld.safeBufferResize sb (sb.used + more.length) >>= fun grown => pure (grown.write more)) := by
  have sum : add sizeMax sb.used more.length = sb.used + more.length := add_eq (by omega)
  rw [sum, safeBufferResize_eq holds small]
  rcases safeBufferResize_cases holds (sb.used + more.length) with ⟨_, exits⟩ | ⟨_, grown, grows, kept, room⟩
  · rw [exits]
    rfl
  · have same : grown.used = sb.used := by rw [kept.used, holds.used]
    rw [grows]
    exact write_eq kept (by omega) (by omega)

theorem safeBufferPad_eq {sizeMax : Nat} {sb : SafeBuffer} {bytes : List UInt8} (holds : sb.Holds bytes)
    (count : Nat) (small : sb.used + count + 63 ≤ sizeMax) :
    safeBufferPad sizeMax sb count = Rpld.safeBufferPad sb count := by
  have written : (List.replicate count (0 : UInt8)).length = count := List.length_replicate
  have fits : sb.used + (List.replicate count (0 : UInt8)).length + 63 ≤ sizeMax := by
    rw [written]
    exact small
  have same := resize_write_eq holds (List.replicate count 0) fits
  rw [written] at same
  exact same

theorem safeBufferAppend_eq {sizeMax : Nat} {sb : SafeBuffer} {bytes : List UInt8} (holds : sb.Holds bytes)
    (object : List UInt8) (count : Nat) (inside : count ≤ object.length)
    (small : sb.used + count + 63 ≤ sizeMax) :
    safeBufferAppend sizeMax sb object count = Rpld.safeBufferAppend sb object count := by
  have written : (object.take count).length = count := List.length_take_of_le inside
  have notOver : ¬ object.length < count := by omega
  have fits : sb.used + (object.take count).length + 63 ≤ sizeMax := by
    rw [written]
    exact small
  have same := resize_write_eq holds (object.take count) fits
  rw [written] at same
  unfold safeBufferAppend Rpld.safeBufferAppend
  simp only [notOver, if_false]
  exact same

end SizeT

/-- One call on a buffer. What is appended lies in memory for as many bytes as the
caller asks for. -/
inductive BufferCall
  | append (object : List UInt8) (count : Nat) (inside : count ≤ object.length)
  | pad (count : Nat)

namespace BufferCall

def count : BufferCall → Nat
  | append _ count _ => count
  | pad count => count

/-- The bytes a call adds to the contents. -/
def bytes : BufferCall → List UInt8
  | append object count _ => object.take count
  | pad count => List.replicate count 0

def run (sizeMax : Nat) (sb : SafeBuffer) : BufferCall → Except Fault SafeBuffer
  | append object count _ => SizeT.safeBufferAppend sizeMax sb object count
  | pad count => SizeT.safeBufferPad sizeMax sb count

/-- A call after others. A process that has ended makes no more calls. -/
def step (sizeMax : Nat) : Except Fault SafeBuffer → BufferCall → Except Fault SafeBuffer
  | .ok sb, call => call.run sizeMax sb
  | .error fault, _ => .error fault

/-- The size after the call can be rounded up to whole blocks without wrapping. -/
def Fits (sizeMax : Nat) (state : Except Fault SafeBuffer) (call : BufferCall) : Prop :=
  ∀ sb, state = .ok sb → sb.used + call.count + 63 ≤ sizeMax

theorem run_cases {sizeMax : Nat} {sb : SafeBuffer} {contents : List UInt8} (holds : sb.Holds contents)
    (call : BufferCall) (fits : sb.used + call.count + 63 ≤ sizeMax) :
    (safeBufferLimit < sb.used + call.count ∧ call.run sizeMax sb = .error .exit) ∨
      (sb.used + call.count ≤ safeBufferLimit ∧ ∃ next, call.run sizeMax sb = .ok next ∧
        next.Holds (contents ++ call.bytes)) := by
  rw [holds.used]
  cases call with
  | append object count inside =>
      simp only [run, SizeT.safeBufferAppend_eq holds object count inside fits]
      exact safeBufferAppend_cases holds object count inside
  | pad count =>
      simp only [run, SizeT.safeBufferPad_eq holds count fits]
      exact safeBufferPad_cases holds count

theorem run_exits_iff {sizeMax : Nat} {sb : SafeBuffer} {contents : List UInt8} (holds : sb.Holds contents)
    (call : BufferCall) (fits : sb.used + call.count + 63 ≤ sizeMax) :
    call.run sizeMax sb = .error .exit ↔ safeBufferLimit < sb.used + call.count := by
  rcases run_cases holds call fits with ⟨large, exits⟩ | ⟨small, next, returns, _⟩
  · exact iff_of_true exits large
  · rw [returns]
    exact iff_of_false (by simp) (by omega)

/-- Where a sequence of calls may leave a new buffer: it holds what they added, one
after the other, or the process has exited. -/
inductive Concatenated (calls : List BufferCall) : Except Fault SafeBuffer → Prop
  | holding {sb : SafeBuffer} (holds : sb.Holds (calls.flatMap bytes)) : Concatenated calls (.ok sb)
  | exited : Concatenated calls (.error .exit)

theorem new_concatenated (heap : Nat → UInt8) : Concatenated [] (.ok (safeBufferNew heap)) :=
  .holding (safeBufferNew_holds heap)

theorem step_concatenated {sizeMax : Nat} {before : List BufferCall} {state : Except Fault SafeBuffer}
    (reached : Concatenated before state) (call : BufferCall) (fits : call.Fits sizeMax state) :
    Concatenated (before ++ [call]) (step sizeMax state call) := by
  cases reached with
  | exited => exact .exited
  | @holding sb holds =>
      rcases run_cases holds call (fits sb rfl) with ⟨_, exits⟩ | ⟨_, next, returns, after⟩
      · simp only [step, exits]
        exact .exited
      · simp only [step, returns]
        apply Concatenated.holding
        rw [List.flatMap_append, List.flatMap_singleton]
        exact after

theorem foldl_step_concatenated {sizeMax : Nat} {before calls : List BufferCall}
    {state : Except Fault SafeBuffer} (reached : Concatenated before state)
    (fits : AllSteps (step sizeMax) (fun state call => call.Fits sizeMax state) state calls) :
    Concatenated (before ++ calls) (calls.foldl (step sizeMax) state) := by
  induction calls generalizing before state with
  | nil =>
      rw [List.append_nil]
      exact reached
  | cons call rest ih =>
      have next := ih (step_concatenated reached call fits.1) fits.2
      rw [List.append_assoc, List.singleton_append] at next
      exact next

theorem length_bytes (call : BufferCall) : call.bytes.length = call.count := by
  cases call with
  | append object count inside => exact List.length_take_of_le inside
  | pad count => exact List.length_replicate

/-- The bytes that a list of calls asks for. -/
def total : List BufferCall → Nat
  | [] => 0
  | call :: rest => call.count + total rest

/-- Calls that write little enough altogether never come near a wrap. -/
theorem fits_of_total {sizeMax : Nat} {before calls : List BufferCall} {state : Except Fault SafeBuffer}
    (reached : Concatenated before state)
    (small : (before.flatMap bytes).length + total calls + 63 ≤ sizeMax) :
    AllSteps (step sizeMax) (fun state call => call.Fits sizeMax state) state calls := by
  induction calls generalizing before state with
  | nil => trivial
  | cons call rest ih =>
      simp only [total] at small
      have fits : call.Fits sizeMax state := by
        intro sb ok
        rw [ok] at reached
        cases reached with
        | holding holds =>
            rw [holds.used]
            omega
      refine ⟨fits, ih (step_concatenated reached call fits) ?_⟩
      rw [List.flatMap_append, List.flatMap_singleton, List.length_append, length_bytes]
      omega

end BufferCall

/-- Every call on the way keeps the contents a concatenation, within the allocation,
and ends the process exactly when they would pass 64 KiB. -/
theorem safe_buffer_refines_concatenation (sizeMax : Nat) (heap : Nat → UInt8) (calls : List BufferCall)
    (fits : AllSteps (BufferCall.step sizeMax) (fun state call => call.Fits sizeMax state)
      (.ok (safeBufferNew heap)) calls) :
    ∀ before after, calls = before ++ after →
      BufferCall.Concatenated before (before.foldl (BufferCall.step sizeMax) (.ok (safeBufferNew heap))) ∧
      ∀ call rest sb, after = call :: rest →
        before.foldl (BufferCall.step sizeMax) (.ok (safeBufferNew heap)) = .ok sb →
        (call.run sizeMax sb = .error .exit ↔ safeBufferLimit < sb.used + call.count) := by
  intro before after split
  rw [split, allSteps_append] at fits
  have reached := BufferCall.foldl_step_concatenated (BufferCall.new_concatenated heap) fits.1
  refine ⟨reached, ?_⟩
  intro call rest sb next state
  have fitsNext := fits.2
  rw [next, state] at fitsNext
  rw [List.nil_append, state] at reached
  cases reached with
  | holding holds => exact BufferCall.run_exits_iff holds call (fitsNext.1 sb rfl)

def sampleCalls : List BufferCall := [.pad 3, .append [7, 8, 9] 2 (by decide)]

theorem safe_buffer_refines_concatenation_sample :
    ∃ sb, sampleCalls.foldl (BufferCall.step (0xffffffffffffffff)) (.ok (safeBufferNew fun _ => 0)) = .ok sb ∧
      sb.Holds [0, 0, 0, 7, 8] ∧ (BufferCall.pad 65532).run (0xffffffffffffffff) sb = .error .exit := by
  have fits : AllSteps (BufferCall.step (0xffffffffffffffff)) (fun state call => call.Fits (0xffffffffffffffff) state)
      (.ok (safeBufferNew fun _ => 0)) (sampleCalls ++ [.pad 65532]) :=
    BufferCall.fits_of_total (BufferCall.new_concatenated _) (by decide)
  obtain ⟨reached, exits⟩ := safe_buffer_refines_concatenation (0xffffffffffffffff) (fun _ => 0)
    (sampleCalls ++ [.pad 65532]) fits sampleCalls [.pad 65532] rfl
  obtain ⟨sb, state⟩ : ∃ sb, sampleCalls.foldl (BufferCall.step (0xffffffffffffffff))
      (.ok (safeBufferNew fun _ => 0)) = .ok sb := ⟨_, rfl⟩
  rw [state] at reached
  cases reached with
  | holding holds =>
      refine ⟨sb, state, holds, (exits _ [] sb rfl state).mpr ?_⟩
      rw [holds.used]
      decide

end Rpld
