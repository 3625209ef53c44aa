import Rpld.Lib.AddNew
import Rpld.Messages
import Rpld.Tables
import Rpld.ProcessCore

/-!
The option loop of `process_dao`. On a message that is a sequence of whole options it
visits each of them once and offers every target to the child table; on any message
the bytes it reads are those of the options it visits.
-/

namespace Rpld

open Memory AddNew

/-! Well-formed option lists. -/

/-- An option as it lies on the wire: a type, a length byte and that many bytes. -/
structure RplOption where
  type : UInt8
  body : List UInt8
  bound : body.length < 256

def RplOption.bytes (option : RplOption) : List UInt8 :=
  option.type :: UInt8.ofNat option.body.length :: option.body

@[simp] theorem RplOption.bytes_length (option : RplOption) :
    option.bytes.length = 2 + option.body.length := by
  simp [RplOption.bytes]
  omega

def RplOption.WellFormed (option : RplOption) : Prop :=
  option.type = rplDaoRpltarget → 18 ≤ option.body.length

def RplOption.target (option : RplOption) : Option In6Addr :=
  if long : option.type = rplDaoRpltarget ∧ 18 ≤ option.body.length then
    some ⟨(option.body.drop 2).take 16, by simp; omega⟩
  else none

def addTargets (src : In6Addr) (childs : List Child) (targets : List In6Addr) : List Child :=
  addNews Child.addr (⟨·, src⟩) childs targets

def Dag.registers (dag : Dag) (src : In6Addr) (targets : List In6Addr) : Dag :=
  { dag with childs := addTargets src dag.childs targets }

/-- The targets of a list of options that begins at offset `p` for which
`dag_child_create` gets memory. -/
def grantedTargets (env : Env) : Nat → List RplOption → List In6Addr
  | _, [] => []
  | p, option :: rest =>
      (if env.childAlloc p then option.target.toList else []) ++
        grantedTargets env (p + (2 + option.body.length)) rest

theorem grantedTargets_of_allocs {env : Env} (granted : ∀ offset, env.childAlloc offset = true) (p : Nat)
    (options : List RplOption) : grantedTargets env p options = options.filterMap RplOption.target := by
  induction options generalizing p with
  | nil => rfl
  | cons option rest ih =>
      rw [grantedTargets, ih, granted, if_pos rfl]
      cases named : option.target <;> simp [named]

theorem grantedTargets_subset (env : Env) (p : Nat) (options : List RplOption) :
    ∀ addr ∈ grantedTargets env p options, addr ∈ options.filterMap RplOption.target := by
  induction options generalizing p with
  | nil => simp [grantedTargets]
  | cons option rest ih =>
      intro addr member
      rw [List.filterMap_cons]
      rcases List.mem_append.mp member with here | later
      · split at here
        · rw [Option.mem_toList] at here
          simp [Option.mem_def.mp here]
        · simp at here
      · have tail := ih _ addr later
        cases option.target with
        | none => exact tail
        | some first => exact List.mem_cons_of_mem _ tail

theorem dagLookupChildOrCreate_eq (allocated : Bool) (dag : Dag) (addr src : In6Addr) :
    dagLookupChildOrCreate allocated dag addr src =
      { dag with childs := addTargets src dag.childs (if allocated then [addr] else []) } := by
  unfold dagLookupChildOrCreate dagLookupChild
  cases found : dag.childs.find? (·.addr == addr) with
  | some child =>
      have member := List.mem_of_find?_eq_some found
      have named := List.find?_some found
      simp only [beq_iff_eq] at named
      have known : addr ∈ dag.childs.map (·.addr) := by
        rw [← named]
        exact List.mem_map_of_mem member
      cases allocated with
      | false => rfl
      | true => simp only [addTargets, if_true, addNews_cons, addNews_nil, addNew, if_pos known]
  | none =>
      have unknown : ¬ addr ∈ dag.childs.map (·.addr) := by
        simpa [List.find?_eq_none] using found
      cases allocated with
      | false => rfl
      | true => simp only [addTargets, if_true, addNews_cons, addNews_nil, addNew, if_neg unknown]

section

variable {env : Env} {mem : Nat → UInt8} {src : In6Addr}

/-! Any message. -/

theorem registers_trans (dag : Dag) (src : In6Addr) (first second : List In6Addr) :
    (dag.registers src first).registers src second = dag.registers src (first ++ second) := by
  simp only [Dag.registers, addTargets, addNews, List.foldl_append]

theorem daoOption_none_iff {cursor : DaoCursor} :
    daoOption env mem src cursor = none ↔ cursor.optlen < sizeofOpt := by
  by_cases short : cursor.optlen < sizeofOpt
  · simp [daoOption, short]
  · by_cases target : mem cursor.p = rplDaoRpltarget <;> simp [daoOption, short, target]

/-- What a turn of the loop that does not return does. -/
theorem daoOption_cases {cursor next : DaoCursor} (turned : daoOption env mem src cursor = some next) :
    let advance := 2 + (mem (cursor.p + 1)).toNat
    ¬ cursor.optlen < sizeofOpt ∧
      ((mem cursor.p = rplDaoRpltarget ∧ next = ⟨cursor.p + advance, cursor.optlen - advance,
          dagLookupChildOrCreate (env.childAlloc cursor.p) cursor.dag (addrAt mem (cursor.p + 4)) src,
          cursor.reads ++ [cursor.p] ++ addrReads (cursor.p + 4) ++ [cursor.p + 1]⟩) ∨
        (mem cursor.p ≠ rplDaoRpltarget ∧ next = ⟨cursor.p + advance, cursor.optlen - advance, cursor.dag,
          cursor.reads ++ [cursor.p, cursor.p + 1]⟩)) := by
  unfold daoOption at turned
  split at turned
  · simp at turned
  · rename_i header
    refine ⟨header, ?_⟩
    by_cases target : mem cursor.p = rplDaoRpltarget
    · rw [if_pos target, Option.some.injEq] at turned
      exact Or.inl ⟨target, turned.symm⟩
    · rw [if_neg target, Option.some.injEq] at turned
      exact Or.inr ⟨target, turned.symm⟩

theorem daoOption_registers {cursor next : DaoCursor} (turned : daoOption env mem src cursor = some next) :
    ∃ targets, next.dag = cursor.dag.registers src targets := by
  obtain ⟨_, ⟨_, rfl⟩ | ⟨_, rfl⟩⟩ := daoOption_cases turned
  · exact ⟨_, dagLookupChildOrCreate_eq _ _ _ _⟩
  · exact ⟨[], rfl⟩

theorem daoOptions_registers (env : Env) (mem : Nat → UInt8) (src : In6Addr) (turns : Nat) (cursor : DaoCursor) :
    ∃ targets, (daoOptions env mem src turns cursor).1.dag = cursor.dag.registers src targets := by
  induction turns generalizing cursor with
  | zero => exact ⟨[], rfl⟩
  | succ turns ih =>
      simp only [daoOptions]
      split
      · cases turned : daoOption env mem src cursor with
        | none => exact ⟨[], rfl⟩
        | some next =>
            obtain ⟨first, moved⟩ := daoOption_registers turned
            obtain ⟨others, walked⟩ := ih next
            simp only
            rw [walked, moved, registers_trans]
            exact ⟨first ++ others, rfl⟩
      · exact ⟨[], rfl⟩

/-! Messages that are a sequence of whole options. -/

theorem daoOption_wellFormed (env : Env) (src : In6Addr) {option : RplOption}
    (wellFormed : option.WellFormed) {cursor : DaoCursor}
    (here : slice mem cursor.p (2 + option.body.length) = option.bytes)
    (room : (2 + option.body.length : Nat) ≤ cursor.optlen) :
    ∃ reads, daoOption env mem src cursor =
      some ⟨cursor.p + (2 + option.body.length), cursor.optlen - (2 + option.body.length : Nat),
        { cursor.dag with
          childs := addTargets src cursor.dag.childs
            (if env.childAlloc cursor.p then option.target.toList else []) }, reads⟩ := by
  have header : ¬ cursor.optlen < sizeofOpt := by simp only [sizeofOpt]; omega
  obtain ⟨type, rest⟩ := slice_eq_cons mem here
  obtain ⟨length, body⟩ := slice_eq_cons mem rest
  have count : (mem (cursor.p + 1)).toNat = option.body.length := by
    rw [length, UInt8.toNat_ofNat']
    exact Nat.mod_eq_of_lt option.bound
  by_cases target : option.type = rplDaoRpltarget
  · have long := wellFormed target
    have address : addrAt mem (cursor.p + 4) = ⟨(option.body.drop 2).take 16, by simp; omega⟩ := by
      apply In6Addr.ext
      have window := slice_drop_take mem (cursor.p + 1 + 1) option.body.length 2 16 (by omega)
      rw [body] at window
      exact window.symm
    have named : option.target = some (addrAt mem (cursor.p + 4)) := by
      simp [RplOption.target, target, long, address]
    refine ⟨cursor.reads ++ [cursor.p] ++ addrReads (cursor.p + 4) ++ [cursor.p + 1], ?_⟩
    simp only [daoOption, header, if_false, type, target, if_true, count,
      dagLookupChildOrCreate_eq, named, Option.toList_some]
  · have named : option.target = none := by simp [RplOption.target, target]
    refine ⟨cursor.reads ++ [cursor.p, cursor.p + 1], ?_⟩
    simp only [daoOption, header, if_false, type, target, count, named, Option.toList_none,
      ite_self, addTargets, addNews_nil]

theorem daoOptions_wellFormed (env : Env) (src : In6Addr) (options : List RplOption)
    (wellFormed : ∀ option ∈ options, option.WellFormed) {turns : Nat} {cursor : DaoCursor}
    (here : slice mem cursor.p (options.flatMap RplOption.bytes).length =
      options.flatMap RplOption.bytes)
    (remaining : cursor.optlen = (options.flatMap RplOption.bytes).length)
    (enough : (options.flatMap RplOption.bytes).length ≤ turns) :
    ∃ p reads, daoOptions env mem src turns cursor =
      (⟨p, 0, { cursor.dag with
        childs := addTargets src cursor.dag.childs (grantedTargets env cursor.p options) }, reads⟩,
        true) := by
  induction options generalizing turns cursor with
  | nil =>
      obtain ⟨p, optlen, dag, reads⟩ := cursor
      simp only [List.flatMap_nil, List.length_nil] at remaining
      subst remaining
      exact ⟨p, reads, by cases turns <;> simp [daoOptions, addTargets, grantedTargets]⟩
  | cons option rest ih =>
      simp only [List.flatMap_cons, List.length_append, RplOption.bytes_length] at here remaining enough
      cases turns with
      | zero => omega
      | succ turns =>
          obtain ⟨first, later⟩ := slice_eq_append mem here
          rw [RplOption.bytes_length] at first later
          obtain ⟨reads, turned⟩ := daoOption_wellFormed env src
            (wellFormed option (by simp)) first (by omega)
          have positive : 0 < cursor.optlen := by omega
          simp only [daoOptions, positive, if_true, turned]
          have tailFormed : ∀ other ∈ rest, other.WellFormed :=
            fun other member => wellFormed other (by simp [member])
          have tailLength : cursor.optlen - (2 + option.body.length : Nat) =
              (rest.flatMap RplOption.bytes).length := by omega
          obtain ⟨p, lastReads, walked⟩ := @ih tailFormed turns
            ⟨_, _, { cursor.dag with
              childs := addTargets src cursor.dag.childs
                (if env.childAlloc cursor.p then option.target.toList else []) }, reads⟩
            later tailLength (by omega)
          refine ⟨p, lastReads, ?_⟩
          rw [walked]
          simp only [addTargets, addNews, grantedTargets, List.foldl_append]

end

end Rpld
