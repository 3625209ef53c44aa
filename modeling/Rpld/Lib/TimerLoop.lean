import Mathlib.Data.List.Count
import Rpld.Lib.Runs

/-!
An event loop of repeating timers. A started watcher has an entry in the heap and a flag
that says so. Starting an active watcher does nothing. Initialising a watcher clears its flag
and leaves the heap alone, which is a misuse of the loop where the watcher is active.
-/

namespace TimerLoop

inductive Call (ω : Type)
  | init (watcher : ω)
  | start (watcher : ω)
  | stop (watcher : ω)
deriving DecidableEq

structure Loop (ω : Type) where
  heap : List ω
  active : ω → Bool
  misused : Bool

section

variable {ω : Type} [DecidableEq ω]

def Loop.idle : Loop ω := ⟨[], fun _ => false, false⟩

def Loop.mark (loop : Loop ω) (watcher : ω) (flag : Bool) : ω → Bool :=
  fun other => if other = watcher then flag else loop.active other

def Loop.call (loop : Loop ω) : Call ω → Loop ω
  | .init watcher =>
      { loop with active := loop.mark watcher false, misused := loop.misused || loop.active watcher }
  | .start watcher =>
      if loop.active watcher then loop
      else { loop with heap := loop.heap ++ [watcher], active := loop.mark watcher true }
  | .stop watcher =>
      if loop.active watcher then
        { loop with heap := loop.heap.erase watcher, active := loop.mark watcher false }
      else loop

def Loop.run (loop : Loop ω) (calls : List (Call ω)) : Loop ω := calls.foldl Loop.call loop

theorem Loop.run_append (loop : Loop ω) (first second : List (Call ω)) :
    loop.run (first ++ second) = (loop.run first).run second := List.foldl_append

def launch (watcher : ω) : List (Call ω) := [.init watcher, .start watcher]

/-! Misuse. -/

theorem Loop.call_misused {loop : Loop ω} (misused : loop.misused = true) (call : Call ω) :
    (loop.call call).misused = true := by
  cases call with
  | init watcher => simp [Loop.call, misused]
  | start watcher =>
      simp only [Loop.call]
      split <;> exact misused
  | stop watcher =>
      simp only [Loop.call]
      split <;> exact misused

theorem Loop.run_misused {loop : Loop ω} (misused : loop.misused = true) (calls : List (Call ω)) :
    (loop.run calls).misused = true := by
  refine @Runs.foldl_invariant_always _ _ Loop.call (fun state => state.misused = true) ?_ calls loop misused
  intro state call before
  exact Loop.call_misused before call

theorem Loop.call_active {loop : Loop ω} {watcher : ω} (active : loop.active watcher = true) {call : Call ω}
    (notInit : call ≠ .init watcher) (notStop : call ≠ .stop watcher) : (loop.call call).active watcher = true := by
  cases call with
  | init other =>
      have apart : watcher ≠ other := fun same => notInit (by rw [same])
      simp [Loop.call, Loop.mark, apart, active]
  | start other =>
      simp only [Loop.call]
      split
      · exact active
      · simp [Loop.mark, active]
  | stop other =>
      have apart : watcher ≠ other := fun same => notStop (by rw [same])
      simp only [Loop.call]
      split
      · simp [Loop.mark, apart, active]
      · exact active

theorem Loop.misused_of_active {loop : Loop ω} {watcher : ω} (active : loop.active watcher = true)
    {calls : List (Call ω)} (again : .init watcher ∈ calls) (kept : .stop watcher ∉ calls) :
    (loop.run calls).misused = true := by
  induction calls generalizing loop with
  | nil => simp at again
  | cons call rest ih =>
      rw [List.mem_cons, not_or] at kept
      by_cases here : call = .init watcher
      · subst here
        exact Loop.run_misused (by simp [Loop.call, active]) rest
      · have later : .init watcher ∈ rest := by
          rcases List.mem_cons.mp again with same | later
          · exact absurd same.symm here
          · exact later
        exact ih (Loop.call_active active here (fun same => kept.1 same.symm)) later kept.2

/-- A watcher that was started, was not stopped and is initialised again. -/
theorem Loop.misused_of_restart (loop : Loop ω) {watcher : ω} {first second : List (Call ω)}
    (started : .start watcher ∈ first) (again : .init watcher ∈ second) (kept : .stop watcher ∉ first ++ second) :
    (loop.run (first ++ second)).misused = true := by
  induction first generalizing loop with
  | nil => simp at started
  | cons call rest ih =>
      rw [List.cons_append, List.mem_cons, not_or] at kept
      rcases List.mem_cons.mp started with same | later
      · subst same
        have active : (loop.call (.start watcher)).active watcher = true := by
          simp only [Loop.call]
          split
          · assumption
          · simp [Loop.mark]
        exact Loop.misused_of_active active (List.mem_append_right rest again) kept.2
      · exact ih (loop.call call) later kept.2

/-! Loops in good order. -/

/-- The loop was not misused, and its heap has one entry for each active watcher. -/
structure Loop.Good (loop : Loop ω) : Prop where
  fine : loop.misused = false
  heap : ∀ watcher, loop.heap.count watcher = if loop.active watcher then 1 else 0

theorem Loop.good_idle : (Loop.idle : Loop ω).Good := ⟨rfl, fun _ => rfl⟩

theorem Loop.call_start {loop : Loop ω} {watcher : ω} (inactive : loop.active watcher = false) :
    loop.call (.start watcher) = { loop with heap := loop.heap ++ [watcher], active := loop.mark watcher true } := by
  simp [Loop.call, inactive]

theorem Loop.run_launch (loop : Loop ω) (watcher : ω) :
    loop.run (launch watcher) =
      ⟨loop.heap ++ [watcher], loop.mark watcher true, loop.misused || loop.active watcher⟩ := by
  have marked : (loop.call (.init watcher)).mark watcher true = loop.mark watcher true := by
    funext other
    simp only [Loop.call, Loop.mark]
    split <;> rfl
  have cleared : (loop.call (.init watcher)).active watcher = false := by simp [Loop.call, Loop.mark]
  have started := Loop.call_start cleared
  rw [marked] at started
  exact started

theorem Loop.good_launch {loop : Loop ω} (good : loop.Good) {watcher : ω} (inactive : loop.active watcher = false) :
    (loop.run (launch watcher)).Good := by
  rw [Loop.run_launch]
  refine ⟨by simp [good.fine, inactive], ?_⟩
  intro other
  have before := good.heap other
  simp only [Loop.mark, List.count_append, before]
  by_cases same : other = watcher
  · subst same
    simp [inactive]
  · simp [same, Ne.symm same]

theorem Loop.good_stop {loop : Loop ω} (good : loop.Good) (watcher : ω) : (loop.call (.stop watcher)).Good := by
  simp only [Loop.call]
  split
  · rename_i active
    refine ⟨good.fine, ?_⟩
    intro other
    have before := good.heap other
    simp only [Loop.mark]
    by_cases same : other = watcher
    · subst same
      simp [List.count_erase_self, before, active]
    · simp [List.count_erase_of_ne same, before, same]
  · exact good

theorem Loop.good_launches {watchers : List ω} (distinct : watchers.Nodup) {loop : Loop ω} (good : loop.Good)
    (inactive : ∀ watcher ∈ watchers, loop.active watcher = false) :
    (loop.run (watchers.flatMap launch)).Good ∧
      ∀ other, (loop.run (watchers.flatMap launch)).active other = (decide (other ∈ watchers) || loop.active other) := by
  induction watchers generalizing loop with
  | nil => exact ⟨good, fun other => by simp [Loop.run]⟩
  | cons watcher rest ih =>
      obtain ⟨apart, restDistinct⟩ := List.nodup_cons.mp distinct
      rw [List.forall_mem_cons] at inactive
      have active : (loop.run (launch watcher)).active = loop.mark watcher true := by rw [Loop.run_launch]
      have later : ∀ other ∈ rest, (loop.run (launch watcher)).active other = false := by
        intro other member
        have different : other ≠ watcher := fun same => apart (same ▸ member)
        simp [active, Loop.mark, different, inactive.2 other member]
      obtain ⟨restGood, flags⟩ := ih restDistinct (Loop.good_launch good inactive.1) later
      rw [List.flatMap_cons, Loop.run_append]
      refine ⟨restGood, ?_⟩
      intro other
      rw [flags other, active]
      by_cases same : other = watcher
      · simp [Loop.mark, same]
      · simp [Loop.mark, same]

/-! One watcher among others. -/

def Call.watcher : Call ω → ω
  | .init watcher => watcher
  | .start watcher => watcher
  | .stop watcher => watcher

omit [DecidableEq ω] in
theorem launch_watcher {watcher : ω} {call : Call ω} (member : call ∈ launch watcher) : call.watcher = watcher := by
  simp only [launch, List.mem_cons, List.not_mem_nil, or_false] at member
  rcases member with rfl | rfl <;> rfl

/-- The heap has one entry for the watcher where it is active, and none where it is not. -/
def Loop.Single (loop : Loop ω) (watcher : ω) : Prop :=
  loop.heap.count watcher = if loop.active watcher then 1 else 0

theorem Loop.call_apart {watcher : ω} {call : Call ω} (apart : call.watcher ≠ watcher) (loop : Loop ω) :
    (loop.call call).active watcher = loop.active watcher ∧
      (loop.call call).heap.count watcher = loop.heap.count watcher := by
  have other : watcher ≠ call.watcher := fun same => apart same.symm
  cases call with
  | init called => exact ⟨by simp [Loop.call, Loop.mark, show watcher ≠ called from other], rfl⟩
  | start called =>
      have none : List.count watcher [called] = 0 := List.count_eq_zero.mpr (by simpa [Call.watcher] using other)
      simp only [Loop.call]
      split
      · exact ⟨rfl, rfl⟩
      · refine ⟨by simp [Loop.mark, show watcher ≠ called from other], ?_⟩
        rw [List.count_append, none, Nat.add_zero]
  | stop called =>
      simp only [Loop.call]
      split
      · exact ⟨by simp [Loop.mark, show watcher ≠ called from other], List.count_erase_of_ne other⟩
      · exact ⟨rfl, rfl⟩

theorem Loop.run_apart {watcher : ω} {calls : List (Call ω)} (apart : ∀ call ∈ calls, call.watcher ≠ watcher)
    (loop : Loop ω) :
    (loop.run calls).active watcher = loop.active watcher ∧
      (loop.run calls).heap.count watcher = loop.heap.count watcher := by
  induction calls generalizing loop with
  | nil => exact ⟨rfl, rfl⟩
  | cons call rest ih =>
      rw [List.forall_mem_cons] at apart
      obtain ⟨flag, entries⟩ := Loop.call_apart apart.1 loop
      obtain ⟨later, laterEntries⟩ := ih apart.2 (loop.call call)
      exact ⟨later.trans flag, laterEntries.trans entries⟩

theorem Loop.launch_single {loop : Loop ω} {watcher : ω} (inactive : loop.active watcher = false)
    (single : loop.Single watcher) :
    (loop.run (launch watcher)).active watcher = true ∧ (loop.run (launch watcher)).Single watcher := by
  rw [Loop.run_launch]
  rw [Loop.Single, inactive] at single
  refine ⟨by simp [Loop.mark], ?_⟩
  simp only [Loop.Single, Loop.mark, List.count_append, single]
  simp

theorem Loop.stop_single {loop : Loop ω} {watcher : ω} (single : loop.Single watcher) :
    (loop.call (.stop watcher)).active watcher = false ∧ (loop.call (.stop watcher)).Single watcher := by
  rw [Loop.Single] at single
  simp only [Loop.call]
  split
  · rename_i active
    rw [active] at single
    refine ⟨by simp [Loop.mark], ?_⟩
    simp [Loop.Single, Loop.mark, List.count_erase_self, single]
  · rename_i inactive
    exact ⟨Bool.not_eq_true _ ▸ inactive, single⟩

/-- Watchers that are launched one after another, each followed by calls about none of them. -/
theorem Loop.run_launches {α : Type} {items : List α} {watcher : α → ω} {others : α → List (Call ω)}
    (apart : ∀ item ∈ items, ∀ call ∈ others item, ∀ other ∈ items, call.watcher ≠ watcher other)
    (distinct : (items.map watcher).Nodup) {loop : Loop ω}
    (idle : ∀ item ∈ items, loop.active (watcher item) = false ∧ loop.Single (watcher item)) :
    let final := loop.run (items.flatMap fun item => launch (watcher item) ++ others item)
    ∀ item ∈ items, final.active (watcher item) = true ∧ final.Single (watcher item) := by
  intro final
  induction items generalizing loop with
  | nil => simp
  | cons first rest ih =>
      rw [List.map_cons, List.nodup_cons] at distinct
      have step : final = ((loop.run (launch (watcher first))).run (others first)).run
          (rest.flatMap fun item => launch (watcher item) ++ others item) := by
        simp only [final, List.flatMap_cons, Loop.run_append]
      have kept (item : α) (member : item ∈ first :: rest) (next : Loop ω) :
          (next.run (others first)).active (watcher item) = next.active (watcher item) ∧
            (next.run (others first)).heap.count (watcher item) = next.heap.count (watcher item) :=
        Loop.run_apart (fun call inOthers => apart first (by simp) call inOthers item member) next
      have restApart : ∀ item ∈ rest, ∀ call ∈ others item, ∀ other ∈ first :: rest, call.watcher ≠ watcher other :=
        fun item member => apart item (List.mem_cons_of_mem _ member)
      intro item member
      rw [step]
      rcases List.mem_cons.mp member with rfl | later
      · obtain ⟨active, single⟩ := Loop.launch_single (idle item (by simp)).1 (idle item (by simp)).2
        obtain ⟨flag, entries⟩ := kept item (by simp) (loop.run (launch (watcher item)))
        have unnamed : ∀ call ∈ rest.flatMap fun item => launch (watcher item) ++ others item,
            call.watcher ≠ watcher item := by
          intro call inCalls
          obtain ⟨other, inRest, called⟩ := List.mem_flatMap.mp inCalls
          rcases List.mem_append.mp called with own | more
          · rw [launch_watcher own]
            exact fun equal => distinct.1 (equal ▸ List.mem_map_of_mem inRest)
          · exact restApart other inRest call more item (by simp)
        obtain ⟨laterFlag, laterEntries⟩ := Loop.run_apart unnamed
          ((loop.run (launch (watcher item))).run (others item))
        have nowActive := laterFlag.trans (flag.trans active)
        refine ⟨nowActive, ?_⟩
        rw [Loop.Single, nowActive, laterEntries, entries, single, active]
      · refine ih (fun item member call inOthers other inRest =>
          restApart item member call inOthers other (List.mem_cons_of_mem _ inRest)) distinct.2 ?_ item later
        intro other inRest
        have different : watcher other ≠ watcher first := fun same => distinct.1 (same ▸ List.mem_map_of_mem inRest)
        obtain ⟨inactive, single⟩ := idle other (List.mem_cons_of_mem _ inRest)
        have launched := Loop.run_apart
          (fun call (own : call ∈ launch (watcher first)) => launch_watcher own ▸ Ne.symm different) loop
        obtain ⟨flag, entries⟩ := kept other (List.mem_cons_of_mem _ inRest) (loop.run (launch (watcher first)))
        have still := flag.trans (launched.1.trans inactive)
        refine ⟨still, ?_⟩
        rw [Loop.Single, still, entries, launched.2, single, inactive]

end

end TimerLoop
