import Rpld.DaoDefects
import Rpld.Lib.WhileLoop

/-!
The option loop of `process_dao` with `optlen` as the `int` it is: it is filled from a
`size_t`, compared with one, and lowered by what a wire byte says. The loop ends on every
message, in step with the bytes it has passed, and an option is worth two bytes or more
of the message to it, so it adds no more children than half of them.
-/

namespace Rpld

open Memory WhileLoop

def intMax : Nat := 0x7fffffff

/-- What a number becomes as an `int`. -/
def asInt (x : Int) : Int := x.bmod 0x100000000

/-- What an `int` becomes where the other side of a comparison is a `size_t`. -/
def asSizeT (x : Int) : Nat := (x % 0x10000000000000000).toNat

theorem asInt_eq {x : Int} (low : -(intMax : Int) ≤ x) (high : x ≤ intMax) : asInt x = x := by
  simp only [intMax] at low high
  exact Int.bmod_eq_of_le (by omega) (by omega)

theorem asSizeT_eq {x : Int} (low : 0 ≤ x) (high : x ≤ intMax) : (asSizeT x : Int) = x := by
  simp only [intMax] at high
  rw [asSizeT, Int.emod_eq_of_lt low (by omega), Int.toNat_of_nonneg low]

/-- One turn of the loop body, as `daoOption`, with both tests made in `size_t`. -/
def daoOptionInt (env : Env) (mem : Nat → UInt8) (src : In6Addr) (cursor : DaoCursor) :
    Option DaoCursor :=
  if asSizeT cursor.optlen < sizeofOpt then none
  else
    let advance := 2 + (mem (cursor.p + 1)).toNat
    if mem cursor.p = rplDaoRpltarget then
      if asSizeT cursor.optlen < sizeofOpt then none
      else
        some
          { p := cursor.p + advance
            optlen := asInt (cursor.optlen - advance)
            dag := dagLookupChildOrCreate (env.childAlloc cursor.p) cursor.dag
              (addrAt mem (cursor.p + 4)) src
            reads := cursor.reads ++ [cursor.p] ++ addrReads (cursor.p + 4) ++ [cursor.p + 1] }
    else
      some
        { cursor with
          p := cursor.p + advance
          optlen := asInt (cursor.optlen - advance)
          reads := cursor.reads ++ [cursor.p, cursor.p + 1] }

/-- The executions of `while (optlen > 0)` that end. -/
def DaoLoop (env : Env) (mem : Nat → UInt8) (src : In6Addr) :
    DaoCursor → List DaoCursor → DaoCursor × Bool → Prop :=
  Exec (fun cursor => 0 < cursor.optlen) (daoOptionInt env mem src)

section

variable {env : Env} {mem : Nat → UInt8} {src : In6Addr} {cursor next : DaoCursor}

theorem asSizeT_header (positive : 0 < cursor.optlen) (bound : cursor.optlen ≤ intMax) :
    asSizeT cursor.optlen < sizeofOpt ↔ cursor.optlen < sizeofOpt := by
  have same := asSizeT_eq (Int.le_of_lt positive) bound
  omega

/-- While `optlen` is positive the `int` behaves as a number. -/
theorem daoOptionInt_eq (positive : 0 < cursor.optlen) (bound : cursor.optlen ≤ intMax) :
    daoOptionInt env mem src cursor = daoOption env mem src cursor := by
  have short : (mem (cursor.p + 1)).toNat < 256 := UInt8.toNat_lt _
  have left : asInt (cursor.optlen - (2 + (mem (cursor.p + 1)).toNat : Nat)) =
      cursor.optlen - (2 + (mem (cursor.p + 1)).toNat : Nat) :=
    asInt_eq (by simp only [intMax]; omega) (by omega)
  simp only [daoOptionInt, daoOption, asSizeT_header positive bound, left]

theorem addTargets_length_le (src : In6Addr) (childs : List Child) (allocated : Bool) (addr : In6Addr) :
    (addTargets src childs (if allocated then [addr] else [])).length ≤ childs.length + 1 := by
  cases allocated with
  | false => exact Nat.le_succ _
  | true =>
      simp only [if_true, addTargets, AddNew.addNews_cons, AddNew.addNews_nil]
      exact AddNew.length_addNew_le childs addr

theorem daoOption_length_le (turned : daoOption env mem src cursor = some next) :
    next.dag.childs.length ≤ cursor.dag.childs.length + 1 := by
  obtain ⟨_, ⟨_, rfl⟩ | ⟨_, rfl⟩⟩ := daoOption_cases turned
  · rw [dagLookupChildOrCreate_eq]
    exact addTargets_length_le _ _ _ _
  · exact Nat.le_succ _

/-- The walk through `optionBytes` bytes of options that began with `dag`: what it has
passed and what is left make up the whole, and each child that was added has taken two of
the bytes. -/
structure WalkInStep (optionBytes : Nat) (dag : Dag) (cursor : DaoCursor) : Prop where
  started : 24 ≤ cursor.p
  together : ((cursor.p - 24 : Nat) : Int) + cursor.optlen = optionBytes
  kept : dag.childs <+: cursor.dag.childs
  passed : 2 * cursor.dag.childs.length ≤ 2 * dag.childs.length + (cursor.p - 24)
  half : 2 * cursor.dag.childs.length ≤ 2 * dag.childs.length + optionBytes

variable {optionBytes : Nat} {dag : Dag}

theorem WalkInStep.optlen_le (inStep : WalkInStep optionBytes dag cursor) (bound : optionBytes ≤ intMax) :
    cursor.optlen ≤ intMax := by
  have together := inStep.together
  omega

theorem WalkInStep.turn (inStep : WalkInStep optionBytes dag cursor) (turned : daoOption env mem src cursor = some next) :
    WalkInStep optionBytes dag next ∧ next.optlen < cursor.optlen := by
  have started := inStep.started
  have together := inStep.together
  have passed := inStep.passed
  have half := inStep.half
  obtain ⟨inside, moved, left, _⟩ := @daoOption_reads env mem src (24 + optionBytes) cursor next turned (by omega)
  have more := daoOption_length_le turned
  obtain ⟨targets, registered⟩ := daoOption_registers turned
  have kept : dag.childs <+: next.dag.childs := by
    rw [registered]
    exact inStep.kept.trans (registers_extends cursor.dag src targets)
  -- `inside` pays for the new child: its header takes two bytes even where its body runs
  -- past the end of the message.
  exact ⟨⟨by omega, by omega, kept, by omega, by omega⟩, by omega⟩

theorem WalkInStep.header (inStep : WalkInStep optionBytes dag cursor) (positive : 0 < cursor.optlen)
    (bound : optionBytes ≤ intMax) (long : ¬ asSizeT cursor.optlen < sizeofOpt) :
    cursor.p + 1 < 24 + optionBytes := by
  rw [asSizeT_header positive (inStep.optlen_le bound)] at long
  have started := inStep.started
  have together := inStep.together
  simp only [sizeofOpt] at long
  omega

theorem WalkInStep.turnInt (inStep : WalkInStep optionBytes dag cursor) (bound : optionBytes ≤ intMax)
    (positive : 0 < cursor.optlen) (turned : daoOptionInt env mem src cursor = some next) :
    WalkInStep optionBytes dag next ∧ next.optlen < cursor.optlen := by
  rw [daoOptionInt_eq positive (inStep.optlen_le bound)] at turned
  exact inStep.turn turned

theorem daoLoop_ends (inStep : WalkInStep optionBytes dag cursor) (bound : optionBytes ≤ intMax) :
    ∃ iterations result, DaoLoop env mem src cursor iterations result ∧
      iterations.length ≤ cursor.optlen.toNat := by
  have measured := @exec_of_measure DaoCursor (fun state => 0 < state.optlen) (daoOptionInt env mem src)
    (WalkInStep optionBytes dag) (fun state => state.optlen.toNat)
  refine measured ?_ ?_ ?_ inStep
  · intro state _ more
    omega
  · intro state next before more turned
    exact (before.turnInt bound more turned).1
  · intro state next before more turned
    have lower := (before.turnInt bound more turned).2
    omega

/-- The loop of the model, whose turns are counted out, computes what the executions of
the loop without a count arrive at. -/
theorem daoOptions_of_exec {iterations : List DaoCursor} {result : DaoCursor × Bool} {turns : Nat}
    (exec : Exec (fun state => 0 < state.optlen) (daoOption env mem src) cursor iterations result)
    (enough : iterations.length ≤ turns) : daoOptions env mem src turns cursor = result := by
  induction exec generalizing turns with
  | ends finished =>
      cases turns with
      | zero => rfl
      | succ turns => simp only [daoOptions, finished, if_false]
  | returns more returned =>
      cases turns with
      | zero => simp at enough
      | succ turns => simp only [daoOptions, more, if_true, returned]
  | turns more turned rest ih =>
      cases turns with
      | zero => simp at enough
      | succ turns =>
          simp only [daoOptions, more, if_true, turned]
          exact ih (Nat.le_of_succ_le_succ enough)

theorem daoOptions_of_daoLoop {iterations : List DaoCursor} {result : DaoCursor × Bool} {turns : Nat}
    (inStep : WalkInStep optionBytes dag cursor) (bound : optionBytes ≤ intMax)
    (loop : DaoLoop env mem src cursor iterations result) (enough : iterations.length ≤ turns) :
    daoOptions env mem src turns cursor = result := by
  refine daoOptions_of_exec (exec_congr ?_ ?_ inStep loop) enough
  · intro state next before more turned
    exact (before.turnInt bound more turned).1
  · intro state before more
    exact daoOptionInt_eq more (before.optlen_le bound)

theorem processDao_dag {iface : Iface} (env : Env) (src : In6Addr) (optionBytes : Nat)
    (found : dagLookup iface (mem 4) (addrAt mem 8) = some dag) :
    dagLookup (processDao env iface mem (sizeofDao + optionBytes) src).iface (mem 4) (addrAt mem 8) =
      some (daoOptions env mem src optionBytes ⟨24, optionBytes, dag, 4 :: addrReads 8⟩).1.dag := by
  have base : ¬ sizeofDao + optionBytes < sizeofDao := by omega
  have options : sizeofDao + optionBytes - sizeofDao = optionBytes := by omega
  obtain ⟨targets, registered⟩ := daoOptions_registers env mem src optionBytes
    ⟨24, optionBytes, dag, 4 :: addrReads 8⟩
  have sameKey : (dag.registers src targets).dodagid = dag.dodagid := rfl
  have written := dagLookup_dagWrite_const found
    ((congrArg Dag.dodagid registered).trans (sameKey.trans (dagLookup_dodagid found)))
  simp only [processDao, base, if_false, found, options, sendDaoAck_ok]
  split
  · exact written
  · exact written

end

/-- Whatever bytes follow the base of a DAO for a known dag, the option loop has one
execution and it ends, the offset of `p` and `optlen` always make up the number of those
bytes, a header that is read lies inside the message, and the children that the packet adds
are at most half as many. -/
theorem dao_option_walk_ends_in_step (env : Env) (iface : Iface) (mem : Nat → UInt8) (src : In6Addr)
    (dag : Dag) (optionBytes : Nat) (bound : optionBytes ≤ intMax)
    (found : dagLookup iface (mem 4) (addrAt mem 8) = some dag) :
    let start : DaoCursor := ⟨24, asInt optionBytes, dag, 4 :: addrReads 8⟩
    let out := processDao env iface mem (sizeofDao + optionBytes) src
    ∃ iterations result, DaoLoop env mem src start iterations result ∧
      (∀ others other, DaoLoop env mem src start others other → others = iterations ∧ other = result) ∧
      (∀ cursor ∈ iterations, 24 ≤ cursor.p ∧
        ((cursor.p - 24 : Nat) : Int) + cursor.optlen = optionBytes ∧
        (¬ asSizeT cursor.optlen < sizeofOpt → cursor.p + 1 < 24 + optionBytes)) ∧
      dagLookup out.iface (mem 4) (addrAt mem 8) = some result.1.dag ∧
      dag.childs <+: result.1.dag.childs ∧
      result.1.dag.childs.length - dag.childs.length ≤ optionBytes / 2 := by
  intro start out
  have filled : asInt optionBytes = optionBytes := asInt_eq (by omega) (by omega)
  have inStep : WalkInStep optionBytes dag start :=
    ⟨Nat.le_refl _, by simp only [start, filled]; omega, List.prefix_rfl, Nat.le_add_right _ _, Nat.le_add_right _ _⟩
  obtain ⟨iterations, result, loop, few⟩ := @daoLoop_ends env mem src start optionBytes dag inStep bound
  have enough : iterations.length ≤ optionBytes := by
    simp only [start, filled] at few
    omega
  obtain ⟨during, last⟩ := exec_invariant (fun state next before more turned =>
    (before.turnInt bound more turned).1) inStep loop
  have computed := daoOptions_of_daoLoop inStep bound loop enough
  refine ⟨iterations, result, loop, fun others other again => exec_unique loop again, ?_, ?_, last.kept, ?_⟩
  · intro cursor member
    obtain ⟨here, more⟩ := during cursor member
    exact ⟨here.started, here.together, here.header more bound⟩
  · have stored := processDao_dag env src optionBytes found
    simp only [start, filled] at computed
    rw [computed] at stored
    exact stored
  · have half := last.half
    omega

theorem dao_option_walk_ends_in_step_cutTarget :
    2 ≤ intMax ∧ dagLookup (rootIface 1) (cutTargetPacket.mem 4) (addrAt cutTargetPacket.mem 8) = some (rootDag 1) ∧
      ∃ iterations result,
        DaoLoop .granting cutTargetPacket.mem (linkLocal 2)
          ⟨24, asInt (2 : Nat), rootDag 1, 4 :: addrReads 8⟩ iterations result ∧
        result.1.dag.childs.length - (rootDag 1).childs.length ≤ 1 := by
  have known : dagLookup (rootIface 1) (cutTargetPacket.mem 4) (addrAt cutTargetPacket.mem 8) =
      some (rootDag 1) := by decide
  obtain ⟨iterations, result, loop, _, _, _, _, few⟩ := dao_option_walk_ends_in_step .granting (rootIface 1)
    cutTargetPacket.mem (linkLocal 2) (rootDag 1) 2 (by decide) known
  exact ⟨by decide, known, iterations, result, loop, few⟩

end Rpld
