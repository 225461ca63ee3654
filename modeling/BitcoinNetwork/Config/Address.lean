import BitcoinNetwork.Net.Hosts

/-!
# The text of addresses (config/address.cpp, config/authority.cpp)

Tor and i2p addresses are named, all other networks are ip addresses, which print
as an authority. The functions of libbitcoin-system are parameters.
-/

namespace BitcoinNetwork.Config
open Peer (Address AddressItem)
open Net (networkOf)

abbrev Bytes := List UInt8
abbrev Text := List Char

/-! ### libbitcoin-system -/

/-- The functions of libbitcoin-system: base32, sha3, the split of a line into its trimmed
tokens, the number of a text that some bits hold, and the text of an ip address (mapped, if
it is of version 4) with a port, which is not printed if it is zero. -/
structure System where
  encodeBase32 (data : Bytes) : Text
  decodeBase32 (text : Text) : Option Bytes
  sha3 (data : Bytes) : Bytes
  split (line : Text) : List Text
  deserialize (bits : ℕ) (text : Text) : Option ℕ
  authority (ip : Bytes) (port : UInt16) : Text
  parseAuthority (text : Text) : Option (Bytes × UInt16)

/-- The decimal text of a number. -/
def decimal (value : ℕ) : Text := Nat.toDigits 10 value

/-- White space, at which the reading of a word from a stream ends. -/
def isSpace (c : Char) : Bool :=
  c = ' ' || c = '\t' || c = '\n' || c = '\x0b' || c = '\x0c' || c = '\r'

/-- The word that is read from a stream. -/
def word (input : Text) : Text := (input.dropWhile isSpace).takeWhile fun c => !isSpace c

/-- `ascii_to_lower`. -/
def asciiToLower (text : Text) : Text := text.map Char.toLower

/-- `rfind`, of a character. -/
def rfind (c : Char) : Text → Option ℕ
  | [] => none
  | first :: text =>
    match rfind c text with
    | some index => some (index + 1)
    | none => if first = c then some 0 else none

/-! ### Host names -/

def onionSuffix : Text := ".onion".toList
def i2pSuffix : Text := ".b32.i2p".toList
def onionVersion : UInt8 := 3
def onionPrefix : Bytes := ".onion checksum".toList.map fun c => UInt8.ofNat c.toNat
def onionSize : ℕ := 56
def i2pSize : ℕ := 52

namespace System
variable (sys : System)

/-- `to_checksum`. -/
def toChecksum (value : Bytes) : Bytes := (sys.sha3 (onionPrefix ++ value ++ [onionVersion])).take 2

/-- `to_onion`. -/
def toOnion (value : Bytes) : Text :=
  asciiToLower (sys.encodeBase32 (value ++ sys.toChecksum value ++ [onionVersion])) ++ onionSuffix

/-- `to_i2p`. -/
def toI2p (value : Bytes) : Text :=
  asciiToLower ((sys.encodeBase32 value).take i2pSize) ++ i2pSuffix

/-- `from_onion`. -/
def fromOnion (name : Text) : Option Address :=
  if name.length ≠ onionSize then none
  else
    match sys.decodeBase32 name with
    | none => none
    | some payload =>
      if payload.length ≠ 35 ∨ payload.getLast? ≠ some onionVersion then none
      else if (payload.drop 32).take 2 ≠ sys.toChecksum (payload.take 32) then none
      else some (.of .torv3 (payload.take 32))

/-- `from_i2p`. -/
def fromI2p (name : Text) : Option Address :=
  if name.length ≠ i2pSize then none
  else
    match sys.decodeBase32 name with
    | none => none
    | some payload => if payload.length ≠ 32 then none else some (.of .i2p payload)

/-- The address of a host, in `from_name`. -/
def fromHost (host : Text) : Option Address :=
  if onionSuffix <:+ host then sys.fromOnion (host.take (host.length - onionSuffix.length))
  else if i2pSuffix <:+ host then sys.fromI2p (host.take (host.length - i2pSuffix.length))
  else none

/-- `from_name`, of a token that may still be an authority. -/
def fromName (token : Text) : Option AddressItem :=
  let colon := rfind ':' token
  let host := match colon with
    | none => token
    | some index => token.take index
  match sys.fromHost host with
  | none => none
  | some address =>
    match colon with
    | none => some ⟨0, 0, address, 0⟩
    | some index =>
      (sys.deserialize 16 (token.drop (index + 1))).map fun port => ⟨0, 0, address, UInt16.ofNat port⟩

/-- `authority::to_address_item`, of an authority that parses. -/
def fromAuthority (token : Text) : Option AddressItem :=
  (sys.parseAuthority token).map fun authority =>
    ⟨0, 0, Peer.toAddress authority.1, authority.2⟩

/-- The item of the first token, which is a name or else an authority. -/
def fromToken (token : Text) : Option AddressItem :=
  match sys.fromName token with
  | some item => some item
  | none => sys.fromAuthority token

/-! ### Operators -/

/-- `is_ip`. -/
def isIp (address : Address) : Bool :=
  networkOf address ≠ some .torv3 && networkOf address ≠ some .i2p

/-- `to_host` of an address that is named. -/
def toHost : Address → Text
  | .of .torv3 value => sys.toOnion value
  | .of .i2p value => sys.toI2p value
  | _ => []

/-- `operator<<`. -/
def print (item : AddressItem) : Text :=
  let host :=
    if isIp item.address then sys.authority (Peer.toIpAddress item.address) item.port
    else sys.toHost item.address ++ if item.port ≠ 0 then ':' :: decimal item.port.toNat else []
  host ++ '/' :: decimal item.timestamp.toNat ++ '/' :: decimal item.services.toNat

/-- The timestamp of a token, if there is one. -/
def readTimestamp (tokens : List Text) (item : AddressItem) : Option AddressItem :=
  match tokens[1]? with
  | none => some item
  | some token =>
    (sys.deserialize 32 token).map fun value => { item with timestamp := UInt32.ofNat value }

/-- The services of a token, if there is one. -/
def readServices (tokens : List Text) (item : AddressItem) : Option AddressItem :=
  match tokens[2]? with
  | none => some item
  | some token =>
    (sys.deserialize 64 token).map fun value => { item with services := UInt64.ofNat value }

/-- `operator>>`, which throws where there is no address. -/
def read (input : Text) : Option AddressItem :=
  match sys.split (word input) with
  | [] => none
  | token :: tokens =>
    if 3 < (token :: tokens).length then none
    else
      ((sys.fromToken token).bind (sys.readTimestamp (token :: tokens))).bind
        (sys.readServices (token :: tokens))

end System
end BitcoinNetwork.Config
