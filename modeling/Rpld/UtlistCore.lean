/-!
The list macros of `utlist.h` on the `prev` and `next` members of `struct list`, and
`config_free` of `config.c`, which uses them. `none` is an access through a null pointer or
to an object that is not allocated, or a failed assertion.
-/

namespace Rpld

structure Links where
  prev : Option Nat
  next : Option Nat
deriving DecidableEq

/-- The objects that are allocated, with what their `struct list` holds. -/
abbrev Store := Nat → Option Links

def Store.put (store : Store) (ptr : Nat) (links : Option Links) : Store :=
  fun other => if other = ptr then links else store other

def Store.setPrev (store : Store) (ptr value : Option Nat) : Option Store := do
  let object ← ptr
  let links ← store object
  return store.put object (some { links with prev := value })

def Store.setNext (store : Store) (ptr value : Option Nat) : Option Store := do
  let object ← ptr
  let links ← store object
  return store.put object (some { links with next := value })

/-- Every assignment reads the members it names again. -/
def dlAppend (store : Store) (head : Option Nat) (add : Nat) : Option (Store × Option Nat) :=
  match head with
  | some first => do
      let links ← store first
      let store ← store.setPrev (some add) links.prev
      let links ← store first
      let store ← store.setNext links.prev (some add)
      let store ← store.setPrev (some first) (some add)
      let store ← store.setNext (some add) none
      return (store, some first)
  | none => do
      let store ← store.setPrev (some add) (some add)
      let store ← store.setNext (some add) none
      return (store, some add)

def dlDelete (store : Store) (head : Option Nat) (del : Nat) : Option (Store × Option Nat) := do
  let first ← head
  let links ← store del
  let prev ← links.prev
  if prev = del then return (store, none)
  else if del = first then
    let store ← store.setPrev links.next links.prev
    let links ← store del
    return (store, links.next)
  else
    let store ← store.setNext links.prev links.next
    let links ← store del
    match links.next with
    | some next => do
        let store ← store.setPrev (some next) links.prev
        return (store, some first)
    | none => do
        let store ← store.setPrev (some first) links.prev
        return (store, some first)

/-- The objects that `DL_FOREACH` visits, with a body that leaves the list alone. -/
def dlForeach (store : Store) : Nat → Option Nat → Option (List Nat)
  | _, none => some []
  | 0, some _ => none
  | fuel + 1, some el => do
      let links ← store el
      let rest ← dlForeach store fuel links.next
      return el :: rest

/-- The loop of `config_free`: `tmp` is read first, then the interface is freed, and then
its list member is taken out of the list. -/
def configFreeFrom : Nat → Store → Option Nat → Option Nat → Option (Store × Option Nat)
  | _, store, head, none => some (store, head)
  | 0, _, _, some _ => none
  | fuel + 1, store, head, some el => do
      let links ← store el
      let tmp := links.next
      let store := store.put el none
      let (store, head) ← dlDelete store head el
      configFreeFrom fuel store head tmp

def configFree (fuel : Nat) (store : Store) (head : Option Nat) : Option (Store × Option Nat) :=
  configFreeFrom fuel store head head

/-! Any number of lists in one memory. -/

structure Linked (κ : Type) where
  store : Store
  head : κ → Option Nat

inductive ListCall (κ : Type)
  | alloc (ptr : Nat)
  | append (list : κ) (ptr : Nat)
  | delete (list : κ) (ptr : Nat)
  | free (ptr : Nat)

section

variable {κ : Type} [DecidableEq κ]

def setHead (head : κ → Option Nat) (list : κ) (value : Option Nat) : κ → Option Nat :=
  fun other => if other = list then value else head other

/-- `alloc` is `mzalloc` with the object it returned, `free` the library call. -/
def Linked.call (memory : Linked κ) : ListCall κ → Option (Linked κ)
  | .alloc ptr => some { memory with store := memory.store.put ptr (some ⟨none, none⟩) }
  | .append list ptr => do
      let (store, value) ← dlAppend memory.store (memory.head list) ptr
      return ⟨store, setHead memory.head list value⟩
  | .delete list ptr => do
      let (store, value) ← dlDelete memory.store (memory.head list) ptr
      return ⟨store, setHead memory.head list value⟩
  | .free ptr => some { memory with store := memory.store.put ptr none }

end

end Rpld
