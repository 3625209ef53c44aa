import Rpld.DagCore

/-!
`config_load` of `config.c` on the tables a configuration script has built. A field
is `none` where the Lua type test on it fails; numbers are already converted to the
C type they are stored in. Each entry comes with what the system answers while it is
loaded.
-/

namespace Rpld

inductive LoadError
  | rejected
  | undefined
deriving DecidableEq

/-- One entry of `dags`. `random` are the values `random()` returns for it. -/
structure DagConf where
  destPrefix : Option (List Char)
  trickleT : Option EvTstamp
  dodagid : Option (List Char)
  version : Option UInt8
  random : Nat → UInt8
  env : Env

structure RplConf where
  instanceId : Option UInt8
  dags : Option (List DagConf)

/-- One entry of `ifaces`, with the outcome of the calls made for it: the allocation,
`set_interface_var`, `if_nametoindex`, `nl_get_llinfo` and `get_iface_addrs`. -/
structure IfaceConf where
  ifname : Option (List Char)
  dodagRoot : Option Bool
  rpls : Option (List RplConf)
  allocated : Bool
  forwarding : Bool
  ifindex : List Char → UInt32
  llinfo : UInt32 → LlInfo
  linkLocal : List Char → Option In6Addr

def defaultDagVersion : UInt8 := 1

def inet6Addrstrlen : Nat := 46

def ulongMax : Nat := 0xffffffffffffffff

def isspace (c : Char) : Bool := c = ' ' ∨ (9 ≤ c.toNat ∧ c.toNat ≤ 13)

def decimalFrom (value : Nat) : List Char → Nat
  | [] => value
  | c :: rest => if c.isDigit then decimalFrom (10 * value + (c.toNat - 48)) rest else value

/-- `strtoul` to base 10: white space, a sign, digits; the rest is ignored. -/
def strtoul (text : List Char) : Nat :=
  let clamp := fun value => if ulongMax < value then ulongMax else value
  match text.dropWhile isspace with
  | '-' :: digits =>
      let value := decimalFrom 0 digits
      if ulongMax < value then ulongMax else (ulongMax + 1 - value) % (ulongMax + 1)
  | '+' :: digits => clamp (decimalFrom 0 digits)
  | digits => clamp (decimalFrom 0 digits)

/-- The address part is copied into a zeroed buffer of 46 bytes without a bound; at 46
bytes and more it runs over its end or is left without a terminator. -/
def parseIpv6Prefix (inetPton : List Char → Option In6Addr) (str : List Char) :
    Except LoadError In6Prefix :=
  match str.dropWhile (· ≠ '/') with
  | [] => .error .rejected
  | _ :: tail =>
      if '/' ∈ tail then .error .rejected
      else
        let ip := str.takeWhile (· ≠ '/')
        if inet6Addrstrlen ≤ ip.length then .error .undefined
        else
          match inetPton ip with
          | none => .error .rejected
          | some addr =>
              let p := strtoul tail
              if p = ulongMax ∨ 255 < p then .error .rejected else .ok ⟨addr, UInt8.ofNat p⟩

def genRandomPrivateUlaPfx (random : Nat → UInt8) : In6Prefix :=
  ⟨⟨0xfd :: (List.range 5).map random ++ List.replicate 10 0, by simp⟩, 64⟩

section

variable (inetPton : List Char → Option In6Addr)

def configDest (conf : DagConf) : Except LoadError In6Prefix :=
  match conf.destPrefix with
  | some text => parseIpv6Prefix inetPton text
  | none => .ok (genRandomPrivateUlaPfx conf.random)

def configDodagid (iface : Iface) (conf : DagConf) (dest : In6Prefix) : Except LoadError In6Addr :=
  match (match conf.dodagid with
    | some text => inetPton text
    | none => genStatelessAddr dest iface.llinfo) with
  | some dodagid => .ok dodagid
  | none => .error .rejected

/-- One turn of the loop of `config_load_dags`: a dag of rank 1 whose self address is
its dodagid. -/
def configLoadDag (iface : Iface) (instanceId : UInt8) (conf : DagConf) :
    Except LoadError (Iface × List Effect) := do
  let dest ← configDest inetPton conf
  let trickleT := conf.trickleT.getD defaultTickleT
  let dodagid ← configDodagid inetPton iface conf dest
  let version := conf.version.getD defaultDagVersion
  let created := dagCreate conf.env iface instanceId dodagid trickleT 1 version dest
  match created.dag with
  | none => .error .rejected
  | some _ =>
      return (dagWrite created.iface instanceId dodagid fun dag => { dag with self := dodagid },
        created.effects)

def configLoadDags (iface : Iface) (instanceId : UInt8) :
    List DagConf → Except LoadError (Iface × List Effect)
  | [] => .ok (iface, [])
  | conf :: rest => do
      let (iface, effects) ← configLoadDag inetPton iface instanceId conf
      let (iface, more) ← configLoadDags iface instanceId rest
      return (iface, effects ++ more)

def configLoadInstances (iface : Iface) : List RplConf → Except LoadError (Iface × List Effect)
  | [] => .ok (iface, [])
  | conf :: rest =>
      match conf.instanceId, conf.dags with
      | some instanceId, some dags => do
          let (iface, effects) ← configLoadDags inetPton iface instanceId dags
          let (iface, more) ← configLoadInstances iface rest
          return (iface, effects ++ more)
      | _, _ => .error .rejected

/-- One turn of the loop of `config_load`; `ptr` counts the interfaces made before. -/
def configLoadIface (ptr : Nat) (conf : IfaceConf) : Except LoadError (Iface × List Effect) :=
  match conf.allocated, conf.ifname, conf.forwarding with
  | true, some ifname, true =>
      let ifname := ifname.take 16
      let ifindex := conf.ifindex ifname
      if ifindex = 0 then .error .rejected
      else
        match conf.linkLocal ifname, conf.dodagRoot with
        | some ifaddr, some dodagRoot =>
            let iface : Iface := ⟨⟨ptr, ifindex, conf.llinfo ifindex, ifaddr, dodagRoot⟩, []⟩
            if dodagRoot then
              match conf.rpls with
              | none => .error .rejected
              | some rpls => configLoadInstances inetPton iface rpls
            else .ok (iface, [])
        | _, _ => .error .rejected
  | _, _, _ => .error .rejected

def configLoadIfaces (ptr : Nat) : List IfaceConf → Except LoadError (List Iface × List Effect)
  | [] => .ok ([], [])
  | conf :: rest => do
      let (iface, effects) ← configLoadIface inetPton ptr conf
      let (ifaces, more) ← configLoadIfaces (ptr + 1) rest
      return (iface :: ifaces, effects ++ more)

def configLoad (confs : List IfaceConf) : Except LoadError (List Iface × List Effect) :=
  configLoadIfaces inetPton 0 confs

end

end Rpld
