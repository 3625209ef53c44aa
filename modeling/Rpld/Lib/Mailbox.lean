/-!
Requests and replies over one queue. Every request that is sent makes one reply, which waits
behind the others; a caller takes the reply that waits first, whosever it is. Once a caller has
left its reply there, all later ones read the replies of their predecessors.
-/

namespace Mailbox

structure Box (μ ρ : Type) where
  sent : List μ
  waiting : List ρ

def Box.fresh {μ ρ : Type} : Box μ ρ := ⟨[], []⟩

/-- A request, whether it is sent and whether a reply is then taken. -/
structure Call (μ : Type) where
  request : μ
  sends : Bool
  takes : Bool

section

variable {μ ρ : Type} (answer : List μ → μ → ρ)

/-- One call, with the reply it takes. What is answered depends on the requests before. -/
def Box.call (box : Box μ ρ) (call : Call μ) : Box μ ρ × Option ρ :=
  if call.sends then
    let waiting := box.waiting ++ [answer box.sent call.request]
    if call.takes then (⟨box.sent ++ [call.request], waiting.tail⟩, waiting.head?)
    else (⟨box.sent ++ [call.request], waiting⟩, none)
  else (box, none)

def Box.run (box : Box μ ρ) (calls : List (Call μ)) : Box μ ρ :=
  calls.foldl (fun box call => (box.call answer call).1) box

/-- The replies to a sequence of requests. -/
def replies (before : List μ) : List μ → List ρ
  | [] => []
  | request :: rest => answer before request :: replies (before ++ [request]) rest

def Call.leaves (call : Call μ) : Bool := call.sends && !call.takes

/-- How many replies were left by those they were for. -/
def left (calls : List (Call μ)) : Nat := calls.countP Call.leaves

/-- What waits is the last so many replies. -/
structure Box.Lags (box : Box μ ρ) (lag : Nat) : Prop where
  bound : lag ≤ box.sent.length
  waiting : box.waiting = (replies answer [] box.sent).drop (box.sent.length - lag)

variable {answer}

theorem replies_append (before first second : List μ) :
    replies answer before (first ++ second) = replies answer before first ++ replies answer (before ++ first) second := by
  induction first generalizing before with
  | nil => simp [replies]
  | cons request rest ih => simp [replies, ih]

@[simp] theorem replies_length (before requests : List μ) : (replies answer before requests).length = requests.length := by
  induction requests generalizing before with
  | nil => rfl
  | cons request rest ih => simp [replies, ih]

theorem replies_snoc (requests : List μ) (request : μ) :
    replies answer [] (requests ++ [request]) = replies answer [] requests ++ [answer requests request] := by
  rw [replies_append]
  rfl

/-- A request is answered in the light of those before it. -/
theorem reply_at (before : List μ) (request : μ) (after : List μ) :
    (replies answer [] (before ++ request :: after))[before.length]? = some (answer before request) := by
  rw [replies_append, List.getElem?_append_right (by simp)]
  simp [replies]

section

variable {box : Box μ ρ} {lag : Nat} (lags : box.Lags answer lag)
include lags

theorem waiting_snoc (request : μ) :
    box.waiting ++ [answer box.sent request] =
      (replies answer [] (box.sent ++ [request])).drop (box.sent.length - lag) := by
  rw [lags.waiting, replies_snoc, List.drop_append_of_le_length (by simp)]

theorem call_lags (call : Call μ) :
    (box.call answer call).1.Lags answer (lag + if call.leaves then 1 else 0) := by
  have bound := lags.bound
  unfold Box.call
  by_cases sends : call.sends = true
  · simp only [sends, if_true]
    by_cases takes : call.takes = true
    · simp only [takes, if_true, Call.leaves, Bool.not_true, Bool.and_false, Bool.false_eq_true, if_false]
      refine ⟨by simp; omega, ?_⟩
      simp only [waiting_snoc lags, List.tail_drop, List.length_append, List.length_singleton]
      congr 1
      omega
    · simp only [takes, if_false, Call.leaves, sends, Bool.not_false, Bool.and_true, if_true, Bool.false_eq_true]
      refine ⟨by simp; omega, ?_⟩
      simp only [waiting_snoc lags, List.length_append, List.length_singleton]
      congr 1
      omega
  · simp only [sends, Bool.false_eq_true, if_false, Call.leaves, Bool.false_and]
    exact lags

/-- The reply that is taken is the one to the request so many before. -/
theorem call_takes {call : Call μ} (sends : call.sends = true) (takes : call.takes = true) :
    ∃ before request after, box.sent ++ [call.request] = before ++ request :: after ∧ after.length = lag ∧
      (box.call answer call).2 = some (answer before request) := by
  have bound := lags.bound
  obtain ⟨before, after, whole, length⟩ :
      ∃ before after, box.sent ++ [call.request] = before ++ after ∧ before.length = box.sent.length - lag :=
    ⟨_, _, (List.take_append_drop (box.sent.length - lag) _).symm, by simp; omega⟩
  have sizes := congrArg List.length whole
  simp only [List.length_append, List.length_singleton] at sizes
  cases after with
  | nil =>
      rw [List.length_nil] at sizes
      omega
  | cons request rest =>
      rw [List.length_cons] at sizes
      refine ⟨before, request, rest, whole, by omega, ?_⟩
      simp only [Box.call, sends, takes, if_true, waiting_snoc lags, List.head?_drop, whole, ← length]
      exact reply_at before request rest

end

theorem run_lags {box : Box μ ρ} {lag : Nat} (lags : box.Lags answer lag) (calls : List (Call μ)) :
    (box.run answer calls).Lags answer (lag + left calls) := by
  induction calls generalizing box lag with
  | nil => exact lags
  | cons call rest ih =>
      have later := ih (call_lags lags call)
      rw [left, List.countP_cons]
      rw [left] at later
      simpa [Box.run, Nat.add_assoc, Nat.add_comm, Nat.add_left_comm] using later

theorem fresh_lags : (Box.fresh : Box μ ρ).Lags answer 0 := ⟨Nat.le_refl 0, rfl⟩

end

end Mailbox
