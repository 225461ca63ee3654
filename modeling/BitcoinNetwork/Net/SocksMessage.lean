import BitcoinNetwork.Binary.Bytes
import Mathlib.Tactic.NormNum

/-!
# The messages of a connect (rfc1928 4 to 6)

A request and its reply have one layout, of a code, an address by its type, and
a port.
-/

namespace BitcoinNetwork.Net.Socks
open Binary

abbrev Bytes := List UInt8

/-- An address, or the name of a host. -/
inductive Target where
  | ipv4 (octets : Bytes)
  | name (octets : Bytes)
  | ipv6 (octets : Bytes)
  deriving DecidableEq

namespace Target

/-- ATYP. -/
def type : Target → UInt8
  | ipv4 _ => 1
  | name _ => 3
  | ipv6 _ => 4

/-- The octets are as many as the type has, or as can be counted. -/
def Fits : Target → Prop
  | ipv4 octets => octets.length = 4
  | name octets => octets.length ≤ 255
  | ipv6 octets => octets.length = 16

/-- The address field, in which a name is behind its length. -/
def encode : Target → Bytes
  | ipv4 octets => octets
  | name octets => UInt8.ofNat octets.length :: octets
  | ipv6 octets => octets

/-- The octets that are read of an address field of some size. -/
def readOctets (size : ℕ) (make : Bytes → Target) (bytes : Bytes) : Option (Target × Bytes) :=
  if size ≤ bytes.length then some (make (bytes.take size), bytes.drop size) else none

/-- The address field of a type, and what is behind it. -/
def decode (type : UInt8) (bytes : Bytes) : Option (Target × Bytes) :=
  if type = 1 then readOctets 4 .ipv4 bytes
  else if type = 3 then
    match bytes with
    | [] => none
    | length :: bytes => readOctets length.toNat .name bytes
  else if type = 4 then readOctets 16 .ipv6 bytes
  else none

end Target

/-- A request, or a reply. -/
structure Message where
  version : UInt8
  code : UInt8
  reserved : UInt8
  target : Target
  port : UInt16
  deriving DecidableEq

namespace Message

def header (message : Message) : Bytes :=
  [message.version, message.code, message.reserved, message.target.type]

def encode (message : Message) : Bytes :=
  message.header ++ (message.target.encode ++ toBytes 2 message.port.toNat)

/-- A message, and what is behind it. -/
def decode : Bytes → Option (Message × Bytes)
  | version :: code :: reserved :: type :: bytes =>
    match Target.decode type bytes with
    | some (target, high :: low :: rest) =>
      some (⟨version, code, reserved, target, UInt16.ofNat (ofBytes [high, low])⟩, rest)
    | _ => none
  | _ => none

end Message

/-! ### Round trips -/

theorem Target.readOctets_iff {size : ℕ} {make : Bytes → Target} {bytes rest : Bytes}
    {target : Target} :
    readOctets size make bytes = some (target, rest) ↔
      ∃ octets, octets.length = size ∧ target = make octets ∧ bytes = octets ++ rest := by
  unfold readOctets
  constructor
  · intro hread
    split at hread
    · rename_i hsize
      cases hread
      exact ⟨bytes.take size, List.length_take_of_le hsize, rfl, (List.take_append_drop _ _).symm⟩
    · cases hread
  · rintro ⟨octets, rfl, rfl, rfl⟩
    rw [if_pos (by rw [List.length_append]; exact Nat.le_add_right _ _), List.take_left,
      List.drop_left]

theorem Target.decode_iff {type : UInt8} {bytes rest : Bytes} {target : Target} :
    Target.decode type bytes = some (target, rest) ↔
      target.type = type ∧ target.Fits ∧ bytes = target.encode ++ rest := by
  unfold Target.decode
  constructor
  · intro hread
    split_ifs at hread with hv4 hname hv6
    · obtain ⟨octets, hsize, rfl, rfl⟩ := readOctets_iff.mp hread
      exact ⟨hv4.symm, hsize, rfl⟩
    · cases bytes with
      | nil => cases hread
      | cons length bytes =>
        obtain ⟨octets, hsize, rfl, rfl⟩ := readOctets_iff.mp hread
        refine ⟨hname.symm, ?_, ?_⟩
        · show octets.length ≤ 255
          rw [hsize]
          exact Nat.le_of_lt_succ length.toNat_lt
        · show length :: (octets ++ rest) = UInt8.ofNat octets.length :: octets ++ rest
          rw [hsize, UInt8.ofNat_toNat]
          rfl
    · obtain ⟨octets, hsize, rfl, rfl⟩ := readOctets_iff.mp hread
      exact ⟨hv6.symm, hsize, rfl⟩
  · rintro ⟨rfl, hfits, rfl⟩
    cases target with
    | ipv4 octets => exact readOctets_iff.mpr ⟨octets, hfits, rfl, rfl⟩
    | name octets =>
      refine readOctets_iff.mpr ⟨octets, ?_, rfl, rfl⟩
      exact (UInt8.toNat_ofNat_of_lt' (Nat.lt_succ_of_le hfits)).symm
    | ipv6 octets => exact readOctets_iff.mpr ⟨octets, hfits, rfl, rfl⟩

/-- What is decoded is what was encoded. -/
theorem Message.decode_iff {bytes rest : Bytes} {message : Message} :
    Message.decode bytes = some (message, rest) ↔
      message.target.Fits ∧ bytes = message.encode ++ rest := by
  constructor
  · intro hread
    unfold Message.decode at hread
    split at hread
    · rename_i version code reserved type bytes
      split at hread
      · rename_i target high low rest' htarget
        cases hread
        obtain ⟨rfl, hfits, rfl⟩ := Target.decode_iff.mp htarget
        refine ⟨hfits, ?_⟩
        have hport : toBytes 2 (UInt16.ofNat (ofBytes [high, low])).toNat = [high, low] := by
          have hlt : ofBytes [high, low] < 2 ^ 16 :=
            lt_of_lt_of_eq (ofBytes_lt [high, low]) (by norm_num)
          rw [UInt16.toNat_ofNat_of_lt' hlt]
          exact toBytes_ofBytes [high, low]
        rw [Message.encode, Message.header, hport, List.append_assoc, List.append_assoc]
        rfl
      · cases hread
    · cases hread
  · rintro ⟨hfits, rfl⟩
    have htarget : Target.decode message.target.type
        (message.target.encode ++ (toBytes 2 message.port.toNat ++ rest))
          = some (message.target, toBytes 2 message.port.toNat ++ rest) :=
      Target.decode_iff.mpr ⟨rfl, hfits, rfl⟩
    obtain ⟨high, low, hport⟩ : ∃ high low, toBytes 2 message.port.toNat = [high, low] :=
      List.length_eq_two.mp (toBytes_length 2 _)
    have hnumber : UInt16.ofNat (ofBytes [high, low]) = message.port := by
      rw [← hport, ofBytes_toBytes message.port.toNat_lt, UInt16.ofNat_toNat]
    rw [Message.encode, Message.header, List.append_assoc, List.append_assoc]
    simp only [List.cons_append, List.nil_append, Message.decode]
    rw [htarget, hport]
    simp only [List.cons_append, List.nil_append]
    rw [hnumber]

/-- Messages that stand ahead of the same bytes are the same. -/
theorem Message.encode_append_inj {message message' : Message} {rest rest' : Bytes}
    (hfits : message.target.Fits) (hfits' : message'.target.Fits)
    (heq : message.encode ++ rest = message'.encode ++ rest') :
    message = message' ∧ rest = rest' := by
  have hread : Message.decode (message.encode ++ rest) = some (message, rest) :=
    Message.decode_iff.mpr ⟨hfits, rfl⟩
  rw [heq, Message.decode_iff.mpr ⟨hfits', rfl⟩] at hread
  cases hread
  exact ⟨rfl, rfl⟩

example : Message.decode [5, 0, 0, 3, 2, 0x61, 0x62, 0, 42, 7]
    = some (⟨5, 0, 0, .name [0x61, 0x62], 42⟩, [7]) := by decide

end BitcoinNetwork.Net.Socks
