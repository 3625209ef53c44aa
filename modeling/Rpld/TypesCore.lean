/-!
Data model of the daemon: addresses and prefixes (`helpers.h`), the interface,
instance and dag tables (`config.h`, `dag.h`), what a handler asks of the system,
and what the system answers. Lists stand for the `utlist` chains, in chain order.
-/

namespace Rpld

/-- `struct in6_addr`: sixteen bytes in network order. -/
@[ext] structure In6Addr where
  s6Addr : List UInt8
  size : s6Addr.length = 16
deriving DecidableEq

/-- The all-zero address `::`, which is what `mzalloc` and `memset` leave in an
address field. -/
def In6Addr.unspecified : In6Addr := ⟨List.replicate 16 0, by simp⟩

/-- ff02::1a, the destination of every DIO and DIS. -/
def allRplAddr : In6Addr := ⟨[0xff, 0x02, 0, 0, 0, 0, 0, 0, 0, 0, 0, 0, 0, 0, 0, 0x1a], rfl⟩

/-- The test `get_iface_addrs` makes for a link-local address: fe80::/64. -/
def In6Addr.isLinkLocal (addr : In6Addr) : Bool :=
  addr.s6Addr.take 8 = [0xfe, 0x80, 0, 0, 0, 0, 0, 0]

def bitsToBytes (bits : UInt8) : UInt8 :=
  let o := bits >>> 3
  let b := bits &&& 0x7
  if b ≠ 0 then o + 1 else o

structure In6Prefix where
  pfx : In6Addr
  len : UInt8
deriving DecidableEq

/-- `struct iface_llinfo`: the link-layer address, `addr_len` (a `uint8_t`) bytes
of it. -/
structure LlInfo where
  addr : List UInt8
  bound : addr.length < 256
deriving DecidableEq

def LlInfo.addrLen (llinfo : LlInfo) : Nat := llinfo.addr.length

/-- The stateless address of an interface under a prefix; `none` is the `-1` for
everything but a 64-bit prefix and an 8-byte link-layer address. The loop writes
the link-layer address behind the prefix bytes, then bit U/L is flipped. -/
def genStatelessAddr (dest : In6Prefix) (llinfo : LlInfo) : Option In6Addr :=
  if supported : dest.len = 64 ∧ llinfo.addrLen = 8 then
    some ⟨(dest.pfx.s6Addr.take (bitsToBytes dest.len).toNat ++ llinfo.addr).modify 8 (· ^^^ 0x02), by
      have prefixBytes : (bitsToBytes dest.len).toNat = 8 := by rw [supported.1]; rfl
      have linkBytes : llinfo.addr.length = 8 := supported.2
      simp [prefixBytes, linkBytes, dest.pfx.size]⟩
  else none

abbrev EvTstamp := Rat

def defaultTickleT : EvTstamp := 5

structure Peer where
  addr : In6Addr
  rank : UInt16
deriving DecidableEq

/-- `struct child`: a routable address below us and the neighbour that named it. -/
structure Child where
  addr : In6Addr
  fromAddr : In6Addr
deriving DecidableEq

/-- The part of `struct rpl` that a `dag->rpl` pointer is followed for. It is
written before the instance is linked and never again. -/
structure RplHead where
  instanceId : UInt8
deriving DecidableEq

/-- The part of `struct iface` that a `dag->iface` pointer is followed for, all of
it written before the first dag is created. `ptr` tells interface objects apart. -/
structure IfaceHead where
  ptr : Nat
  ifindex : UInt32
  llinfo : LlInfo
  ifaddr : In6Addr
  dodagRoot : Bool
deriving DecidableEq

/-- `struct dag`. `pendingAcks` lists the `dsn` fields of the `dag_daoack` chain. -/
structure Dag where
  version : UInt8
  dtsn : UInt8
  dsn : UInt8
  dodagid : In6Addr
  dest : In6Prefix
  myRank : UInt16
  parent : Option Peer
  self : In6Addr
  childs : List Child
  trickleT : EvTstamp
  iface : IfaceHead
  rpl : RplHead
  pendingAcks : List UInt8
deriving DecidableEq

structure Rpl extends RplHead where
  dags : List Dag
deriving DecidableEq

structure Iface extends IfaceHead where
  rpls : List Rpl
deriving DecidableEq

structure WatcherRef where
  iface : Nat
  instanceId : UInt8
  dodagid : In6Addr
deriving DecidableEq

/-- What a handler asks of the kernel and of the event loop, in program order. -/
inductive Effect
  | sendmsg (ifindex : UInt32) (src dst : In6Addr) (bytes : List UInt8)
  | nlAddAddr (ifindex : UInt32) (addr : In6Addr)
  | nlAddRouteVia (ifindex : UInt32) (dst via : In6Addr)
  | nlAddRouteDefault (ifindex : UInt32) (via : In6Addr)
  | nlDelRouteVia (ifindex : UInt32) (dst : In6Prefix) (via : Option In6Addr)
  | evTimerInit (watcher : WatcherRef) (period : EvTstamp)
  | evTimerStart (watcher : WatcherRef)
deriving DecidableEq

/-- The answer to a netlink request: success, or `-1` with an `errno`. -/
inductive NlResult
  | ok
  | error (errno : Nat)
deriving DecidableEq

def eexist : Nat := 17

/-- What the system answers while one handler runs. `childAlloc` is asked with the
offset of the option a child is allocated for, `heap` is the content of memory that
`realloc` hands out, `stack` what any code before the handler, other handlers too, left
where the local `pfx` of `process_dio` lies. -/
structure Env where
  rplAlloc : Bool
  dagAlloc : Bool
  peerAlloc : Bool
  daoackAlloc : Bool
  childAlloc : Nat → Bool
  heap : Nat → UInt8
  stack : In6Addr
  addAddr : NlResult
  delRoute : NlResult

structure Env.AllocsSucceed (env : Env) : Prop where
  rpl : env.rplAlloc = true
  dag : env.dagAlloc = true
  peer : env.peerAlloc = true
  daoack : env.daoackAlloc = true
  child : ∀ offset, env.childAlloc offset = true

/-- The ways a handler does not return: `exit(1)`, a copy past the end of the object
it reads or writes, and an instance that is freed while the table still links it.
After the last two the behaviour of the program is undefined. -/
inductive Fault
  | exit
  | overrun
  | dangling
deriving DecidableEq

end Rpld
