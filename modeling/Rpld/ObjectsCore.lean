import Rpld.DagCore
import Rpld.UtlistCore

/-!
The lookups of `dag.c`, `dag_create`, `dag_lookup_child_or_create` and `dag_daoack_insert`
on the objects they allocate, link and free. `none` is an access to an object that is not
allocated. What `mzalloc` returns is an argument, `none` where it fails.
-/

namespace Rpld

/-- The list heads of one interface: its own, those in its instances and those in its dags. -/
inductive ListHead
  | rpls
  | dags (rpl : Nat)
  | childs (dag : Nat)
  | pendingAcks (dag : Nat)
deriving DecidableEq

/-- The object a list head lies in, apart from the interface. -/
def ListHead.owner : ListHead → Option Nat
  | .rpls => none
  | .dags rpl => some rpl
  | .childs dag => some dag
  | .pendingAcks dag => some dag

/-- The members of the objects. The two lists of a dag are in `head`. -/
structure Objects where
  store : Store
  head : ListHead → Option Nat
  rpl : Nat → RplHead
  dag : Nat → Dag
  child : Nat → Child
  dsn : Nat → UInt8

/-! Memory. -/

def setAt {α : Type} (members : Nat → α) (ptr : Nat) (value : α) : Nat → α :=
  fun other => if other = ptr then value else members other

/-- `mzalloc` clears the object, the list heads in it included. -/
def Objects.mzalloc (objects : Objects) (ptr : Nat) : Objects :=
  { objects with
    store := objects.store.put ptr (some ⟨none, none⟩)
    head := fun list => if list.owner = some ptr then none else objects.head list }

def Objects.free (objects : Objects) (ptr : Nat) : Objects :=
  { objects with store := objects.store.put ptr none }

def Objects.append (objects : Objects) (list : ListHead) (ptr : Nat) : Option Objects := do
  let (store, value) ← dlAppend objects.store (objects.head list) ptr
  return { objects with store := store, head := setHead objects.head list value }

/-! Lookup. -/

/-- `DL_FOREACH` with a body that returns the first object it accepts. -/
def dlSearch (store : Store) (accept : Nat → Bool) : Nat → Option Nat → Option (Option Nat)
  | _, none => some none
  | 0, some _ => none
  | fuel + 1, some el => do
      let links ← store el
      if accept el then return some el else dlSearch store accept fuel links.next

def Objects.lookupRpl (objects : Objects) (fuel : Nat) (instanceId : UInt8) : Option (Option Nat) :=
  dlSearch objects.store (fun ptr => (objects.rpl ptr).instanceId == instanceId) fuel (objects.head .rpls)

def Objects.lookupDodag (objects : Objects) (fuel : Nat) (rpl : Nat) (dodagid : In6Addr) : Option (Option Nat) :=
  dlSearch objects.store (fun ptr => (objects.dag ptr).dodagid == dodagid) fuel (objects.head (.dags rpl))

def Objects.lookup (objects : Objects) (fuel : Nat) (instanceId : UInt8) (dodagid : In6Addr) : Option (Option Nat) := do
  match ← objects.lookupRpl fuel instanceId with
  | none => return none
  | some rpl => objects.lookupDodag fuel rpl dodagid

def Objects.lookupChild (objects : Objects) (fuel : Nat) (dag : Nat) (addr : In6Addr) : Option (Option Nat) :=
  dlSearch objects.store (fun ptr => (objects.child ptr).addr == addr) fuel (objects.head (.childs dag))

/-! Creation. -/

def Objects.rplCreate (objects : Objects) (ptr : Nat) (instanceId : UInt8) : Objects :=
  { objects.mzalloc ptr with rpl := setAt objects.rpl ptr ⟨instanceId⟩ }

/-- The dag that `dag_create` allocates, after `dag_init`. -/
def Objects.dagMake (objects : Objects) (ptr : Nat) (dag : Dag) : Objects :=
  { objects.mzalloc ptr with dag := setAt objects.dag ptr dag }

def Objects.childCreate (objects : Objects) (ptr : Nat) (addr fromAddr : In6Addr) : Objects :=
  { objects.mzalloc ptr with child := setAt objects.child ptr ⟨addr, fromAddr⟩ }

/-- The sequence number is left at zero. -/
def Objects.daoackCreate (objects : Objects) (ptr : Nat) : Objects :=
  { objects.mzalloc ptr with dsn := setAt objects.dsn ptr 0 }

/-- `rplPtr` and `dagPtr` are what `mzalloc` returns for the instance and for the dag. -/
def Objects.dagCreate (objects : Objects) (fuel : Nat) (iface : IfaceHead) (instanceId : UInt8) (dodagid : In6Addr)
    (trickleT : EvTstamp) (myRank : UInt16) (version : UInt8) (dest : In6Prefix) (rplPtr dagPtr : Option Nat) :
    Option Objects := do
  match ← objects.lookupRpl fuel instanceId with
  | some rpl =>
      match ← objects.lookupDodag fuel rpl dodagid with
      | some _ => return objects.free rpl
      | none =>
          match dagPtr with
          | none => return objects.free rpl
          | some dag =>
              let made := dagInit iface (objects.rpl rpl) dodagid trickleT myRank version dest
              (objects.dagMake dag made).append (.dags rpl) dag
  | none =>
      match rplPtr with
      | none => return objects
      | some rpl =>
          let objects := objects.rplCreate rpl instanceId
          match dagPtr with
          | none => return objects.free rpl
          | some dag =>
              let made := dagInit iface (objects.rpl rpl) dodagid trickleT myRank version dest
              let objects ← (objects.dagMake dag made).append .rpls rpl
              objects.append (.dags rpl) dag

def Objects.lookupChildOrCreate (objects : Objects) (fuel : Nat) (dag : Nat) (addr fromAddr : In6Addr)
    (ptr : Option Nat) : Option Objects := do
  match ← objects.lookupChild fuel dag addr with
  | some _ => return objects
  | none =>
      match ptr with
      | none => return objects
      | some child => (objects.childCreate child addr fromAddr).append (.childs dag) child

def Objects.daoackInsert (objects : Objects) (dag : Nat) (ptr : Option Nat) : Option Objects :=
  match ptr with
  | none => some objects
  | some daoack => (objects.daoackCreate daoack).append (.pendingAcks dag) daoack

/-! The calls the handlers make. Each one looks its dag up first. -/

inductive TableCall
  | create (instanceId : UInt8) (dodagid : In6Addr) (trickleT : EvTstamp) (myRank : UInt16) (version : UInt8)
      (dest : In6Prefix) (rplPtr dagPtr : Option Nat)
  | child (instanceId : UInt8) (dodagid addr fromAddr : In6Addr) (ptr : Option Nat)
  | daoack (instanceId : UInt8) (dodagid : In6Addr) (ptr : Option Nat)

def Objects.call (fuel : Nat) (iface : IfaceHead) (objects : Objects) : TableCall → Option Objects
  | .create instanceId dodagid trickleT myRank version dest rplPtr dagPtr =>
      objects.dagCreate fuel iface instanceId dodagid trickleT myRank version dest rplPtr dagPtr
  | .child instanceId dodagid addr fromAddr ptr => do
      match ← objects.lookup fuel instanceId dodagid with
      | none => return objects
      | some dag => objects.lookupChildOrCreate fuel dag addr fromAddr ptr
  | .daoack instanceId dodagid ptr => do
      match ← objects.lookup fuel instanceId dodagid with
      | none => return objects
      | some dag => objects.daoackInsert dag ptr

/-! Reading the tables back, as the nested loops of `rpld_setup` go through them. -/

def Objects.readDag (objects : Objects) (fuel : Nat) (dag : Nat) : Option Dag := do
  let childs ← dlForeach objects.store fuel (objects.head (.childs dag))
  let acks ← dlForeach objects.store fuel (objects.head (.pendingAcks dag))
  return { objects.dag dag with childs := childs.map objects.child, pendingAcks := acks.map objects.dsn }

def Objects.readRpl (objects : Objects) (fuel : Nat) (rpl : Nat) : Option Rpl := do
  let dags ← dlForeach objects.store fuel (objects.head (.dags rpl))
  let read ← dags.mapM (objects.readDag fuel)
  return ⟨objects.rpl rpl, read⟩

def Objects.read (objects : Objects) (fuel : Nat) : Option (List Rpl) := do
  let rpls ← dlForeach objects.store fuel (objects.head .rpls)
  rpls.mapM (objects.readRpl fuel)

end Rpld
