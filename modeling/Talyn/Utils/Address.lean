import Talyn.Dns.Names

/-!
# Socket addresses

The addresses of `utils/address.zig`, and the two texts of an address that its parsers read. A parser of
`Talyn.Dns.Names` yields the bytes; here they come with the port and, for IPv6, the flow info and the
scope.
-/

namespace Talyn

/-- `Address`, by its family; `any` is an address of a family the code does not know. -/
inductive SockAddr
  | in4 (addr : Fin 4 → UInt8) (port : UInt16)
  | in6 (addr : Fin 16 → UInt8) (port : UInt16) (flowinfo scopeId : UInt32)
  | un (path : Fin 108 → UInt8)
  | any
  deriving DecidableEq

/-- What holds of 256 numbers holds of every byte. -/
theorem byte_forall {P : UInt8 → Prop} (h : ∀ n : Fin 256, P (UInt8.ofNat n)) (c : UInt8) : P c := by
  have hc := h ⟨c.toNat, c.toNat_lt⟩
  rwa [UInt8.ofNat_toNat] at hc

namespace SockAddr

/-- The family is `AF.INET`. -/
def isIp4 : SockAddr → Bool
  | in4 .. => true
  | _ => false

/-- The family is `AF.INET6`. -/
def isIp6 : SockAddr → Bool
  | in6 .. => true
  | _ => false

/-- `initIp4`, and the family of its result. -/
def initIp4 (ip : List UInt8) (port : UInt16) : SockAddr := .in4 (fun i => ip.getD i 0) port

/-- `initIp6`. -/
def initIp6 (ip : List UInt8) (port : UInt16) (flowinfo scopeId : UInt32) : SockAddr :=
  .in6 (fun i => ip.getD i 0) port flowinfo scopeId

/-- `parseIp4`. -/
def parseIp4 (host : Dns.Datagram) (port : UInt16) : Option SockAddr :=
  (Dns.parseIp4From host.length host []).map fun bytes => initIp4 bytes port

/-- `parseIp6`. -/
def parseIp6 (host : Dns.Datagram) (port : UInt16) : Option SockAddr :=
  match Dns.parseIp6 host with
  | some (.ip6 bytes) => some (initIp6 bytes port 0 0)
  | _ => none

/-- `parseIp`. -/
def parseIp (host : Dns.Datagram) (port : UInt16) : Option SockAddr :=
  match parseIp4 host port with
  | some address => some address
  | none => parseIp6 host port

@[simp] theorem isIp4_in4 (addr : Fin 4 → UInt8) (port : UInt16) : (in4 addr port).isIp4 = true := rfl

@[simp] theorem isIp6_in4 (addr : Fin 4 → UInt8) (port : UInt16) : (in4 addr port).isIp6 = false := rfl

@[simp] theorem isIp4_in6 (addr : Fin 16 → UInt8) (port : UInt16) (flowinfo scopeId : UInt32) :
    (in6 addr port flowinfo scopeId).isIp4 = false := rfl

@[simp] theorem isIp6_in6 (addr : Fin 16 → UInt8) (port : UInt16) (flowinfo scopeId : UInt32) :
    (in6 addr port flowinfo scopeId).isIp6 = true := rfl

theorem isIp6_eq_false {a : SockAddr} (h : a.isIp4 = true) : a.isIp6 = false := by
  cases a <;> first | rfl | exact nomatch h

theorem isIp4_eq_false {a : SockAddr} (h : a.isIp6 = true) : a.isIp4 = false := by
  cases a <;> first | rfl | exact nomatch h

end SockAddr

end Talyn
