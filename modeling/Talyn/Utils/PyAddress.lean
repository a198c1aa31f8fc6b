import Talyn.Utils.ColonHex

/-!
# Addresses as Python objects

`toPyAddr` and `fromPyAddr` go between a socket address and what Python code sees: a tuple for an IP
address, a string for a UNIX path. The host of a tuple is printed by `inet_ntop` of the C library, which is
a parameter here; it is read by `parseIp4` and `parseIp6`.
-/

namespace Talyn

open Dns

/-! ### Strings -/

/-- `PyUnicode_AsUTF8AndSize`. -/
def encodeUtf8 (s : String) : Datagram := s.toUTF8.data.toList

/-- `PyUnicode_FromStringAndSize`; it fails on bytes that are not UTF-8. -/
def decodeUtf8 (bytes : Datagram) : Option String := String.fromUTF8? bytes.toByteArray

theorem decodeUtf8_encodeUtf8 (s : String) : decodeUtf8 (encodeUtf8 s) = some s := by
  have hbytes : (encodeUtf8 s).toByteArray = s.toUTF8 := by
    refine ByteArray.ext ?_
    rw [List.data_toByteArray, encodeUtf8]
  rw [decodeUtf8, hbytes, String.fromUTF8?, String.toUTF8_eq_toByteArray, dif_pos s.isValidUTF8]
  rfl

theorem encodeUtf8_of_decodeUtf8 {bytes : Datagram} {s : String} (h : decodeUtf8 bytes = some s) :
    encodeUtf8 s = bytes := by
  rw [decodeUtf8, String.fromUTF8?] at h
  split at h
  next hvalid =>
    obtain rfl := Option.some.inj h
    show bytes.toByteArray.data.toList = bytes
    rw [List.data_toByteArray]
  · exact nomatch h

theorem encodeUtf8_injective : Function.Injective encodeUtf8 := by
  intro s t h
  have hs := decodeUtf8_encodeUtf8 s
  rw [h, decodeUtf8_encodeUtf8] at hs
  exact (Option.some.inj hs).symm

/-- Bytes below 128 are a string. -/
theorem decodeUtf8_ascii {bytes : Datagram} (h : ∀ c ∈ bytes, c < 128) : ∃ s, decodeUtf8 bytes = some s := by
  have hvalid : bytes.toByteArray.IsValidUTF8 := by
    refine .intro (bytes.map fun c => Char.ofNat c.toNat) ?_
    have hbyte : ∀ c : UInt8, c < 128 → String.utf8EncodeChar (Char.ofNat c.toNat) = [c] :=
      byte_forall (by decide +kernel)
    rw [List.utf8Encode, List.toByteArray_inj, List.flatMap_map]
    induction bytes with
    | nil => rfl
    | cons c cs ih =>
      rw [List.flatMap_cons, hbyte c (h c List.mem_cons_self),
        ← ih fun d hd => h d (List.mem_cons_of_mem _ hd)]
      rfl
  exact ⟨_, dif_pos hvalid⟩

/-! ### Objects -/

/-- What can stand in a tuple; a string with lone surrogates has no encoding. -/
inductive PyItem
  | str (s : String)
  | surrogates
  | int (n : ℤ)
  | other

/-- What can be given as an address. -/
inductive PyAddr
  | str (s : String)
  | surrogates
  | tuple (items : List PyItem)
  | other

/-- The errors of `toPyAddr` and `fromPyAddr`; `pythonError` stands for an exception that is set. -/
inductive AddressError
  | pythonError
  | systemResources
  | unsupportedAddressFamily
  | nameTooLong
  | invalidAddress
  | invalidHost
  deriving DecidableEq

/-- `inet_ntop` of the C library, for buffers that are long enough. -/
structure InetNtop where
  ip4 : (Fin 4 → UInt8) → Option Datagram
  ip6 : (Fin 16 → UInt8) → Option Datagram

/-- `PyUnicode_AsUTF8AndSize` of an item. -/
def PyItem.asUtf8 : PyItem → Option Datagram
  | .str s => some (encodeUtf8 s)
  | _ => none

/-- `PyLong_AsInt`. -/
def PyItem.asInt : PyItem → Option ℤ
  | .int n => if -2 ^ 31 ≤ n ∧ n < 2 ^ 31 then some n else none
  | _ => none

/-- `PyLong_AsUnsignedLong`. -/
def PyItem.asUnsignedLong : PyItem → Option ℕ
  | .int n => if 0 ≤ n ∧ n < 2 ^ 64 then some n.toNat else none
  | _ => none

/-- `std.math.cast` to 32 bits. -/
def castU32 (n : ℕ) : Option UInt32 := if n < 2 ^ 32 then some (UInt32.ofNat n) else none

/-- The position of the first zero byte, or the length of the buffer. -/
def zeroLen (path : Fin 108 → UInt8) : ℕ := (List.ofFn path).idxOf 0

/-- The position behind the last byte that is not zero. -/
def nonZeroLen (path : Fin 108 → UInt8) : ℕ := 108 - (List.ofFn path).reverse.findIdx (· ≠ 0)

/-- The offset of `path` in `sockaddr_un`. -/
def unPathOffset : ℕ := 2

/-- `getOsSockLen`, with the sizes of `sockaddr_in`, `sockaddr_in6` and `sockaddr_storage`. -/
def SockAddr.getOsSockLen : SockAddr → ℕ
  | in4 .. => 16
  | in6 .. => 28
  | un path =>
    if path 0 = 0 then unPathOffset + max (nonZeroLen path) 1 else unPathOffset + (zeroLen path + 1)
  | any => 128

/-- `toPyAddr`. -/
def SockAddr.toPyAddr (inetNtop : InetNtop) : SockAddr → Except AddressError PyAddr
  | in4 addr port =>
    match inetNtop.ip4 addr with
    | none => .error .systemResources
    | some host =>
      match decodeUtf8 host with
      | none => .error .pythonError
      | some pyHost => .ok (.tuple [.str pyHost, .int port.toNat])
  | in6 addr port flowinfo scopeId =>
    match inetNtop.ip6 addr with
    | none => .error .systemResources
    | some host =>
      match decodeUtf8 host with
      | none => .error .pythonError
      | some pyHost =>
        .ok (.tuple [.str pyHost, .int port.toNat, .int flowinfo.toNat, .int scopeId.toNat])
  | un path =>
    -- an abstract name keeps its leading zero byte, a path stops at the first one
    let name := (List.ofFn path).take (if path 0 = 0 then max (nonZeroLen path) 1 else zeroLen path)
    match decodeUtf8 name with
    | none => .error .pythonError
    | some s => .ok (.str s)
  | any => .error .unsupportedAddressFamily

/-- Where `toPyAddr` ends the name. -/
def nameLen (path : Fin 108 → UInt8) : ℕ := if path 0 = 0 then max (nonZeroLen path) 1 else zeroLen path

/-- `AF.INET6`. -/
def afInet6 : ℤ := 10

/-- The tail of `fromPyAddr`, for a tuple whose host and port are read. -/
def fromPyTuple (family : Option ℤ) (host : Datagram) (port : UInt16) (items : List PyItem) :
    Except AddressError SockAddr :=
  if items.length = 2 then
    match if family = some afInet6 ∨ colon ∈ host then SockAddr.parseIp6 host port
      else SockAddr.parseIp4 host port with
    | none => .error .invalidHost
    | some address => .ok address
  else if items.length = 4 then
    match (items[2]?.bind PyItem.asUnsignedLong) with
    | none => .error .pythonError
    | some flowinfoVal =>
      match castU32 flowinfoVal with
      | none => .error .invalidAddress
      | some flowinfo =>
        match (items[3]?.bind PyItem.asUnsignedLong) with
        | none => .error .pythonError
        | some scopeIdVal =>
          match castU32 scopeIdVal with
          | none => .error .invalidAddress
          | some scopeId =>
            match SockAddr.parseIp6 host port with
            | some (.in6 addr port _ _) => .ok (.in6 addr port flowinfo scopeId)
            | _ => .error .invalidHost
  else .error .invalidAddress

/-- `fromPyAddr`. -/
def fromPyAddr (family : Option ℤ) : PyAddr → Except AddressError SockAddr
  | .str s =>
    let path := encodeUtf8 s
    if path.length ≥ 108 then .error .nameTooLong else .ok (.un fun i => path.getD i 0)
  | .surrogates => .error .pythonError
  | .tuple items =>
    match items[0]?, items[1]? with
    | some pyHost, some pyPort =>
      match pyHost.asUtf8, pyPort.asInt with
      | some host, some portVal =>
        if portVal < 0 ∨ 65535 < portVal then .error .pythonError
        else fromPyTuple family host (UInt16.ofNat portVal.toNat) items
      | _, _ => .error .pythonError
    | _, _ => .error .pythonError
  | .other => .error .pythonError

end Talyn
