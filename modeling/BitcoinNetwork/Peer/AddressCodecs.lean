import BitcoinNetwork.Peer.AddressItem

/-!
# The codecs of address items agree (messages/peer/detail/address_item.cpp)

A canonical item is what is read of its encoding, in either protocol, and what is read
of any bytes is canonical or has no address.
-/

namespace BitcoinNetwork.Peer
open Binary
namespace AddressItem

/-! ### What is read, as decoders -/

def decodeItem (withTimestamp : Bool) : Decoder AddressItem := do
  let timestamp ← (if withTimestamp then .little32 else pure 0)
  let services ← .little64
  let ip ← .bytes ipAddressSize
  let port ← .big16
  let _ ← (if isTorv2 ip then .fail else pure ())
  let address := if isDocumentation ip then .unset else toAddress ip
  pure { timestamp, services, address, port }

/-- The address of bytes that are stored for a network, if it may be of it. -/
def classify : Network → List UInt8 → Option Address
  | .ipv4, out => if isDocumentation out then some .unset else some (.of .ipv4 out)
  | .ipv6, out =>
    if isDocumentation out then some .unset
    else if isV4 out then some (.of .ipv4 out)
    else if isTorv2 out then none
    else some (.of .ipv6 out)
  | .cjdns, out => if isCjdns out then some (.of .cjdns out) else none
  | network, out => some (.of network out)

theorem classify_ipv4 (out : List UInt8) : classify .ipv4 out =
    if isDocumentation out then some .unset else some (.of .ipv4 out) := rfl

theorem classify_ipv6 (out : List UInt8) : classify .ipv6 out =
    if isDocumentation out then some .unset
    else if isV4 out then some (.of .ipv4 out)
    else if isTorv2 out then none
    else some (.of .ipv6 out) := rfl

theorem classify_cjdns (out : List UInt8) : classify .cjdns out =
    if isCjdns out then some (.of .cjdns out) else none := rfl

/-- The bytes that are stored for those that are sent. -/
def stored (network : Network) (value : List UInt8) : List UInt8 :=
  mappedPrefix.take (network.size - network.wire) ++ value

def decodeNetwork (network : Network) (size : ℕ) : Decoder Address :=
  if size ≠ network.wire then .fail
  else do
    let value ← .bytes network.wire
    .ofOption (classify network (stored network value))

/-- What is behind the identifier and the size of an address. -/
def decodeBody (id : UInt8) (size : ℕ) : Decoder Address :=
  match Network.ofId? id with
  | some .torv2 => .fail
  | some known => decodeNetwork known size
  | none => do
    let _ ← .skip size
    pure .unset

def decodeAddress : Decoder Address := do
  let id ← .byte
  let size ← .size maxAddressBytes
  decodeBody id size

def decodeItemV2 : Decoder AddressItem := do
  let timestamp ← .little32
  let services ← .varint
  let address ← decodeAddress
  let port ← .big16
  pure { timestamp, services, address, port }

section
variable {source : Reader}

/-- A source that is invalidated, whatever is returned. -/
theorem reads_invalidate {α : Type} (a : α) :
    Reads source.ahead (do let _ ← source.invalidate; pure a) .fail :=
  source.reads_invalidate.bind fun _ => reads_pure a

theorem reads_deserialize (withTimestamp : Bool) :
    Reads source.ahead (deserialize source withTimestamp) (decodeItem withTimestamp) := by
  unfold deserialize decodeItem
  refine Reads.bind ?_ fun timestamp => source.reads_little64.bind fun services =>
    (source.reads_bytes ipAddressSize).bind fun ip => source.reads_big16.bind fun port =>
      Reads.bind ?_ fun _ => reads_pure _
  · exact reads_ite source.reads_little32 (reads_pure 0)
  · exact reads_ite source.reads_invalidate (reads_pure ())

theorem reads_network (known : Network) (size : ℕ) :
    Reads source.ahead (readNetwork source known size) (decodeNetwork known size) := by
  unfold readNetwork decodeNetwork
  apply reads_ite (reads_invalidate _)
  apply (source.reads_bytes _).bind
  intro value
  cases known with
  | ipv4 =>
    rw [classify_ipv4]
    show Reads _ (pure (if isDocumentation (stored .ipv4 value) then _ else _)) _
    split
    · exact reads_pure _
    · exact reads_pure _
  | ipv6 =>
    rw [classify_ipv6]
    show Reads _ (if isDocumentation (stored .ipv6 value) then _ else
      if isV4 (stored .ipv6 value) then _ else if isTorv2 (stored .ipv6 value) then _ else _) _
    split_ifs
    · exact reads_pure _
    · exact reads_pure _
    · exact reads_invalidate _
    · exact reads_pure _
  | cjdns =>
    rw [classify_cjdns]
    show Reads _ (if isCjdns (stored .cjdns value) then _ else _) _
    split
    · exact reads_pure _
    · exact reads_invalidate _
  | torv2 => exact reads_pure _
  | torv3 => exact reads_pure _
  | i2p => exact reads_pure _

theorem reads_address : Reads source.ahead (readAddress source) decodeAddress := by
  apply source.reads_byte.bind
  intro id
  apply (source.reads_size maxAddressBytes).bind
  intro size
  unfold decodeBody
  cases Network.ofId? id with
  | none => exact (source.reads_skip size).bind fun _ => reads_pure _
  | some known =>
    cases known with
    | torv2 => exact reads_invalidate _
    | ipv4 => exact reads_network _ _
    | ipv6 => exact reads_network _ _
    | torv3 => exact reads_network _ _
    | i2p => exact reads_network _ _
    | cjdns => exact reads_network _ _

theorem reads_deserializeV2 : Reads source.ahead (deserializeV2 source) decodeItemV2 :=
  source.reads_little32.bind fun _ => source.reads_varint.bind fun _ =>
    reads_address.bind fun _ => source.reads_big16.bind fun _ => reads_pure _

end

/-! ### What is written, as bytes -/

def encode (item : AddressItem) (withTimestamp : Bool) : List UInt8 :=
  (if withTimestamp then toLittle 4 item.timestamp.toNat else []) ++
    (toLittle 8 item.services.toNat ++ (toIpAddress item.address ++ toBytes 2 item.port.toNat))

def encodeAddress : Address → List UInt8
  | .unset => [0] ++ toVariable 0
  | .of network value =>
    [network.id] ++ (toVariable network.wire ++
      (value.drop (network.size - network.wire)).take network.wire)

def encodeV2 (item : AddressItem) : List UInt8 :=
  toLittle 4 item.timestamp.toNat ++ (toVariable item.services.toNat ++
    (encodeAddress item.address ++ toBytes 2 item.port.toNat))

section
variable {sink : Writer} (item : AddressItem)

theorem writes_serialize (withTimestamp : Bool) :
    Writes sink.view (item.serialize sink withTimestamp) (item.encode withTimestamp) := by
  unfold serialize encode
  refine Writes.bind ?_ ((sink.writes_little64 _).bind
    ((sink.writes_bytes _).bind (sink.writes_big16 _)))
  exact writes_ite (sink.writes_little32 _) writes_pure

theorem writes_address (address : Address) :
    Writes sink.view (writeAddress sink address) (encodeAddress address) := by
  cases address with
  | unset => exact (sink.writes_byte _).bind (sink.writes_varint _)
  | of network value =>
    exact (sink.writes_byte _).bind ((sink.writes_varint _).bind (sink.writes_bytes _))

theorem writes_serializeV2 : Writes sink.view (item.serializeV2 sink) item.encodeV2 :=
  (sink.writes_little32 _).bind
    ((sink.writes_varint _).bind ((writes_address _).bind (sink.writes_big16 _)))

end

/-! ### Canonical addresses -/

/-- The bytes of the address have the length of its network, which is not that of tor
addresses that are operational no more, and are in no range that is for documentation
or for another network. -/
def Canonical : Address → Prop
  | .unset => False
  | .of network value =>
    value.length = network.size ∧
      match network with
      | .ipv4 => isV4 value = true ∧ isDocumentation value = false
      | .ipv6 => isV4 value = false ∧ isTorv2 value = false ∧ isDocumentation value = false
      | .torv2 => False
      | .torv3 => True
      | .i2p => True
      | .cjdns => isCjdns value = true ∧ isDocumentation value = false

instance : DecidablePred Canonical
  | .unset => inferInstanceAs (Decidable False)
  | .of .ipv4 _ => inferInstanceAs (Decidable (_ ∧ _ ∧ _))
  | .of .ipv6 _ => inferInstanceAs (Decidable (_ ∧ _ ∧ _ ∧ _))
  | .of .torv2 _ => inferInstanceAs (Decidable (_ ∧ False))
  | .of .torv3 _ => inferInstanceAs (Decidable (_ ∧ True))
  | .of .i2p _ => inferInstanceAs (Decidable (_ ∧ True))
  | .of .cjdns _ => inferInstanceAs (Decidable (_ ∧ _ ∧ _))

/-- Bytes within a range are in none that begins in another way. -/
theorem isDocumentation_of_head {value : List UInt8} {first : UInt8} (h : value.head? = some first)
    (hzero : first ≠ 0) (hnarrow : first ≠ 0x20) (hwide : first ≠ 0x3f) :
    isDocumentation value = false := by
  obtain ⟨rest, rfl⟩ : ∃ rest, value = first :: rest := by
    cases value with
    | nil => cases h
    | cons byte rest => exact ⟨rest, by rw [Option.some.inj h]⟩
  unfold isDocumentation isV4 mappedPrefix documentationPrefix documentationWidePrefix
  simp [List.replicate_succ, List.isPrefixOf, hzero.symm, hnarrow.symm, hwide.symm]

theorem isDocumentation_cjdns {value : List UInt8} (h : isCjdns value = true) :
    isDocumentation value = false :=
  isDocumentation_of_head (beq_iff_eq.mp h) (by decide) (by decide) (by decide)

theorem head?_torv2 {value : List UInt8} (h : isTorv2 value = true) : value.head? = some 0xfd := by
  obtain ⟨rest, rfl⟩ := List.isPrefixOf_iff_prefix.mp h
  rfl

theorem isDocumentation_torv2 {value : List UInt8} (h : isTorv2 value = true) :
    isDocumentation value = false :=
  isDocumentation_of_head (head?_torv2 h) (by decide) (by decide) (by decide)

theorem isV4_torv2 {value : List UInt8} (h : isTorv2 value = true) : isV4 value = false := by
  obtain ⟨rest, rfl⟩ := List.isPrefixOf_iff_prefix.mp h
  rfl

/-- A canonical address is of its network by its bytes, and those that are sent of it are
stored as they were. -/
theorem Canonical.sent {network : Network} {value : List UInt8} (h : Canonical (.of network value)) :
    classify network value = some (.of network value) ∧
      ∃ part, (value.drop (network.size - network.wire)).take network.wire = part ∧
        part.length = network.wire ∧ stored network part = value := by
  obtain ⟨hlength, h⟩ := h
  have hwhole : network.wire = network.size → stored network value = value := by
    intro heq
    unfold stored
    rw [heq, Nat.sub_self]
    rfl
  have htake : network.wire = network.size →
      (value.drop (network.size - network.wire)).take network.wire = value := by
    intro heq
    rw [heq, Nat.sub_self, List.drop_zero, ← hlength, List.take_length]
  cases network with
  | ipv4 =>
    refine ⟨if_neg (by rw [h.2]; exact Bool.false_ne_true), _, rfl, ?_, ?_⟩
    · rw [List.length_take, List.length_drop, hlength]
      rfl
    · obtain ⟨rest, rfl⟩ := List.isPrefixOf_iff_prefix.mp h.1
      have hrest : rest.length = 4 := by
        rw [List.length_append] at hlength
        exact Nat.add_left_cancel hlength
      show mappedPrefix.take 12 ++ ((mappedPrefix ++ rest).drop mappedPrefix.length).take 4 = _
      rw [List.drop_left, ← hrest, List.take_length]
      rfl
  | ipv6 =>
    refine ⟨?_, _, htake rfl, hlength, hwhole rfl⟩
    rw [classify_ipv6, h.1, h.2.1, h.2.2]
    rfl
  | torv2 => exact h.elim
  | torv3 => exact ⟨rfl, _, htake rfl, hlength, hwhole rfl⟩
  | i2p => exact ⟨rfl, _, htake rfl, hlength, hwhole rfl⟩
  | cjdns => exact ⟨if_pos h.1, _, htake rfl, hlength, hwhole rfl⟩

/-- What is classified is canonical, or is unset. -/
theorem canonical_of_classify {network : Network} {out : List UInt8} {address : Address}
    (htor : network ≠ .torv2) (hlength : out.length = network.size)
    (hmapped : network = .ipv4 → isV4 out = true) (h : classify network out = some address) :
    address = .unset ∨ Canonical address := by
  cases network with
  | ipv4 =>
    rw [classify_ipv4] at h
    split_ifs at h with hdocumentation
    · exact .inl (Option.some.inj h).symm
    · rw [← Option.some.inj h]
      exact .inr ⟨hlength, hmapped rfl, Bool.eq_false_of_not_eq_true hdocumentation⟩
  | ipv6 =>
    rw [classify_ipv6] at h
    split_ifs at h with hdocumentation hv4 htorv2
    · exact .inl (Option.some.inj h).symm
    · rw [← Option.some.inj h]
      exact .inr ⟨hlength, hv4, Bool.eq_false_of_not_eq_true hdocumentation⟩
    · rw [← Option.some.inj h]
      exact .inr ⟨hlength, Bool.eq_false_of_not_eq_true hv4, Bool.eq_false_of_not_eq_true htorv2,
        Bool.eq_false_of_not_eq_true hdocumentation⟩
  | torv2 => exact absurd rfl htor
  | torv3 =>
    rw [← Option.some.inj h]
    exact .inr ⟨hlength, trivial⟩
  | i2p =>
    rw [← Option.some.inj h]
    exact .inr ⟨hlength, trivial⟩
  | cjdns =>
    rw [classify_cjdns] at h
    split_ifs at h with hcjdns
    rw [← Option.some.inj h]
    exact .inr ⟨hlength, hcjdns, isDocumentation_cjdns hcjdns⟩

/-! ### Round trips -/

theorem ofId?_id (network : Network) : Network.ofId? network.id = some network := by
  cases network <;> rfl

theorem wire_le (network : Network) : network.wire ≤ 32 := by
  cases network <;> decide

theorem decodeBody_of {id : UInt8} {network : Network} (hid : Network.ofId? id = some network)
    (htor : network ≠ .torv2) (size : ℕ) : decodeBody id size = decodeNetwork network size := by
  unfold decodeBody
  rw [hid]
  cases network with
  | torv2 => exact absurd rfl htor
  | ipv4 => rfl
  | ipv6 => rfl
  | torv3 => rfl
  | i2p => rfl
  | cjdns => rfl

theorem decodeBody_unknown {id : UInt8} (hid : Network.ofId? id = none) (size : ℕ) :
    decodeBody id size = (do
      let _ ← Decoder.skip size
      pure .unset) := by
  unfold decodeBody
  rw [hid]

theorem decodes_address {address : Address} (h : Canonical address) :
    Decoder.Decodes decodeAddress (encodeAddress address) address := by
  cases address with
  | unset => exact h.elim
  | of network value =>
    obtain ⟨hclassify, part, hpart, hlength, hstored⟩ := h.sent
    have htor : network ≠ .torv2 := by
      rintro rfl
      exact h.2
    have hwire := wire_le network
    rw [encodeAddress, hpart]
    apply (Decoder.decodes_byte network.id).bind
    apply (Decoder.decodes_size maxAddressBytes (by unfold maxAddressBytes; omega)
      (by omega)).bind
    rw [decodeBody_of (ofId?_id network) htor]
    intro behind
    have hbytes := Decoder.decodes_bytes part
    rw [hlength] at hbytes
    unfold decodeNetwork
    rw [if_neg (not_not.mpr rfl), Decoder.bind_some (hbytes behind), hstored, hclassify]
    rfl

theorem decodes_itemV2 {item : AddressItem} (h : Canonical item.address) :
    Decoder.Decodes decodeItemV2 item.encodeV2 item :=
  (Decoder.decodes_little32 _).bind ((Decoder.decodes_varint _).bind ((decodes_address h).bind
    (Decoder.decodes_big16 item.port).bind_pure))

theorem encodeAddress_length {address : Address} (h : Canonical address) :
    (encodeAddress address).length = 1 + addressSize address := by
  cases address with
  | unset => exact h.elim
  | of network value =>
    obtain ⟨-, part, hpart, hlength, -⟩ := h.sent
    rw [encodeAddress, addressSize, hpart]
    simp only [List.length_append, List.length_singleton, toVariable_length, hlength]

theorem encodeV2_length {item : AddressItem} (h : Canonical item.address) :
    item.encodeV2.length = item.sizeV2 := by
  unfold encodeV2 sizeV2
  simp only [List.length_append, toLittle_length, toVariable_length, toBytes_length,
    encodeAddress_length h]
  omega

/-- An address that is an ip address in the first protocol. -/
def isV1 : Address → Bool
  | .of .ipv4 _ => true
  | .of .ipv6 _ => true
  | _ => false

/-- A canonical address of the first protocol is that of its ip address. -/
theorem Canonical.ip {address : Address} (h : Canonical address) (hv1 : isV1 address = true) :
    (toIpAddress address).length = ipAddressSize ∧ isTorv2 (toIpAddress address) = false ∧
      isDocumentation (toIpAddress address) = false ∧ toAddress (toIpAddress address) = address := by
  cases address with
  | unset => exact h.elim
  | of network value =>
    obtain ⟨hlength, h⟩ := h
    cases network with
    | ipv4 =>
      refine ⟨hlength, ?_, h.2, if_pos h.1⟩
      by_contra htor
      have hv4 := isV4_torv2 (Bool.eq_true_of_not_eq_false htor)
      exact Bool.false_ne_true (hv4.symm.trans h.1)
    | ipv6 =>
      refine ⟨hlength, h.2.1, h.2.2, ?_⟩
      show toAddress value = _
      unfold toAddress
      rw [h.1, h.2.1]
      rfl
    | torv2 => cases hv1
    | torv3 => cases hv1
    | i2p => cases hv1
    | cjdns => cases hv1

theorem decodes_item {item : AddressItem} (h : Canonical item.address)
    (hv1 : isV1 item.address = true) (withTimestamp : Bool) :
    Decoder.Decodes (decodeItem withTimestamp) (item.encode withTimestamp)
      { item with timestamp := if withTimestamp then item.timestamp else 0 } := by
  obtain ⟨hlength, htor, hdocumentation, haddress⟩ := h.ip hv1
  have htimestamp : Decoder.Decodes (if withTimestamp then Decoder.little32 else pure 0)
      (if withTimestamp then toLittle 4 item.timestamp.toNat else [])
        (if withTimestamp then item.timestamp else 0) := by
    cases withTimestamp
    · exact Decoder.decodes_pure 0
    · exact Decoder.decodes_little32 item.timestamp
  have hip := Decoder.decodes_bytes (toIpAddress item.address)
  rw [hlength] at hip
  unfold decodeItem encode
  apply htimestamp.bind
  apply (Decoder.decodes_little64 item.services).bind
  apply hip.bind
  intro behind
  rw [Decoder.bind_some (Decoder.decodes_big16 item.port behind)]
  simp only [htor, hdocumentation, haddress, Bool.false_eq_true, if_false]
  rfl

theorem encode_length {item : AddressItem} (h : Canonical item.address)
    (hv1 : isV1 item.address = true) (withTimestamp : Bool) :
    (item.encode withTimestamp).length = size withTimestamp := by
  unfold encode size
  simp only [List.length_append, toLittle_length, toBytes_length, (h.ip hv1).1]
  cases withTimestamp <;> rfl

/-! ### What is read of any bytes -/

theorem yields_network {network : Network} (htor : network ≠ .torv2) (size : ℕ) :
    (decodeNetwork network size).Yields fun address => address = .unset ∨ Canonical address := by
  unfold decodeNetwork
  split
  · exact Decoder.yields_fail
  · refine (Decoder.yields_bytes network.wire).bind fun value hvalue => ?_
    cases hclassify : classify network (stored network value) with
    | none => exact Decoder.yields_fail
    | some address =>
      refine Decoder.yields_pure (canonical_of_classify htor ?_ ?_ hclassify)
      · unfold stored
        rw [List.length_append, hvalue, List.length_take]
        cases network <;> rfl
      · rintro rfl
        exact List.isPrefixOf_iff_prefix.mpr (List.prefix_append _ _)

theorem yields_address : decodeAddress.Yields fun address => address = .unset ∨ Canonical address := by
  refine (Decoder.Yields.trivial _).bind fun id _ => (Decoder.Yields.trivial _).bind fun size _ => ?_
  cases hid : Network.ofId? id with
  | none =>
    rw [decodeBody_unknown hid]
    exact (Decoder.Yields.trivial _).bind fun _ _ => Decoder.yields_pure (.inl rfl)
  | some network =>
    by_cases htor : network = .torv2
    · unfold decodeBody
      rw [hid, htor]
      exact Decoder.yields_fail
    · rw [decodeBody_of hid htor]
      exact yields_network htor size

theorem yields_itemV2 :
    decodeItemV2.Yields fun item => item.address = .unset ∨ Canonical item.address :=
  (Decoder.Yields.trivial _).bind fun _ _ => (Decoder.Yields.trivial _).bind fun _ _ =>
    yields_address.bind fun _ haddress => (Decoder.Yields.trivial _).bind fun _ _ =>
      Decoder.yields_pure haddress

/-- What is in front of the bytes of an address. -/
structure Entry where
  timestamp : UInt32
  services : UInt64
  id : UInt8
  length : UInt64

def decodeEntry : Decoder Entry := do
  let timestamp ← .little32
  let services ← .varint
  let id ← .byte
  let length ← .varint
  pure { timestamp, services, id, length }

/-- An entry up to its address, and then the address and the port. -/
theorem decodeItemV2_entry {ahead rest : List UInt8} {entry : Entry}
    (h : decodeEntry ahead = some (entry, rest)) :
    decodeItemV2 ahead =
      if entry.length.toNat > maxAddressBytes then none
      else (do
        let address ← decodeBody entry.id entry.length.toNat
        let port ← Decoder.big16
        pure ⟨entry.timestamp, entry.services, address, port⟩ : Decoder AddressItem) rest := by
  obtain ⟨timestamp, _, htimestamp, h⟩ := Decoder.bind_eq_some.mp h
  obtain ⟨services, _, hservices, h⟩ := Decoder.bind_eq_some.mp h
  obtain ⟨id, _, hid, h⟩ := Decoder.bind_eq_some.mp h
  obtain ⟨length, _, hlength, h⟩ := Decoder.bind_eq_some.mp h
  cases h
  unfold decodeItemV2
  rw [Decoder.bind_some htimestamp, Decoder.bind_some hservices]
  unfold decodeAddress Decoder.size
  rw [Decoder.bind_apply, Decoder.bind_some hid, Decoder.bind_apply, Decoder.bind_some hlength]
  by_cases hlimit : length.toNat > maxAddressBytes
  · rw [if_pos hlimit, if_pos hlimit]
    rfl
  · rw [if_neg hlimit, if_neg hlimit]
    rfl

section
variable {source : Reader} {s : source.Source} {ahead rest : List UInt8} {entry : Entry}

/-- An entry that invalidates the stream, by its size or by its bytes. -/
theorem invalid_of_body (hs : source.ahead s = some ahead)
    (h : decodeEntry ahead = some (entry, rest))
    (hbody : entry.length.toNat > maxAddressBytes ∨
      decodeBody entry.id entry.length.toNat rest = none) :
    source.ahead (deserializeV2 source s).2 = none := by
  apply reads_deserializeV2.failed
  rw [hs, Decoder.at?_some, decodeItemV2_entry h]
  by_cases hlimit : entry.length.toNat > maxAddressBytes
  · exact if_pos hlimit
  · rw [if_neg hlimit]
    exact Decoder.bind_none (hbody.resolve_left hlimit)

/-- An entry with the bytes of an address and those of a port. -/
theorem address_of_body {address : Address} {size : ℕ} (hs : source.ahead s = some ahead)
    (h : decodeEntry ahead = some (entry, rest)) (hlimit : entry.length.toNat ≤ maxAddressBytes)
    (hbody : decodeBody entry.id entry.length.toNat rest = some (address, rest.drop size))
    (hport : size + 2 ≤ rest.length) :
    (deserializeV2 source s).1.address = address ∧
      source.ahead (deserializeV2 source s).2 = some (rest.drop (size + 2)) := by
  have hbytes : Decoder.bytes 2 (rest.drop size) =
      some ((rest.drop size).take 2, (rest.drop size).drop 2) := by
    unfold Decoder.bytes
    rw [if_neg (by rw [List.length_drop]; omega)]
  have hitem : decodeItemV2 ahead = some (⟨entry.timestamp, entry.services, address,
      .ofNat (ofBytes ((rest.drop size).take 2))⟩, rest.drop (size + 2)) := by
    rw [decodeItemV2_entry h, if_neg (Nat.not_lt.mpr hlimit), Decoder.bind_some hbody]
    unfold Decoder.big16 Decoder.big
    rw [Decoder.bind_apply, Decoder.bind_apply, Decoder.bind_some hbytes, List.drop_drop]
    rfl
  obtain ⟨hvalue, hbehind⟩ := reads_deserializeV2.decoded hs hitem
  exact ⟨congrArg AddressItem.address hvalue, hbehind⟩

/-- The bytes of a network, as they are classified. -/
theorem decodeBody_classified {network : Network} (hid : Network.ofId? entry.id = some network)
    (htor : network ≠ .torv2) (hlength : entry.length.toNat = network.wire)
    (hrest : network.wire ≤ rest.length) :
    decodeBody entry.id entry.length.toNat rest =
      (classify network (stored network (rest.take network.wire))).map
        fun address => (address, rest.drop network.wire) := by
  have hbytes : Decoder.bytes network.wire rest =
      some (rest.take network.wire, rest.drop network.wire) := if_neg (Nat.not_lt.mpr hrest)
  rw [decodeBody_of hid htor, hlength]
  unfold decodeNetwork
  rw [if_neg (not_not.mpr rfl), Decoder.bind_some hbytes]
  cases classify network (stored network (rest.take network.wire)) <;> rfl

end

/-- The codecs of address items are consistent: what canonical items are written as and
read from, in either protocol, what is read of any bytes, and which entries are refused,
skipped or read as another address. -/
structure Consistent (source : Reader) (sink : Writer) : Prop where
  second : ∀ item : AddressItem, Canonical item.address →
    item.encodeV2.length = item.sizeV2 ∧
    Writes sink.view (item.serializeV2 sink) item.encodeV2 ∧
    ∀ s behind, source.ahead s = some (item.encodeV2 ++ behind) →
      (deserializeV2 source s).1 = item ∧ source.ahead (deserializeV2 source s).2 = some behind
  first : ∀ item : AddressItem, Canonical item.address → isV1 item.address = true →
    ∀ withTimestamp, (item.encode withTimestamp).length = size withTimestamp ∧
    Writes sink.view (item.serialize sink withTimestamp) (item.encode withTimestamp) ∧
    ∀ s behind, source.ahead s = some (item.encode withTimestamp ++ behind) →
      (deserialize source withTimestamp s).1 =
        { item with timestamp := if withTimestamp then item.timestamp else 0 } ∧
      source.ahead (deserialize source withTimestamp s).2 = some behind
  same : ∀ item : AddressItem, Canonical item.address → isV1 item.address = true →
    ∀ s behind s' behind', source.ahead s = some (item.encode true ++ behind) →
      source.ahead s' = some (item.encodeV2 ++ behind') →
        (deserialize source true s).1 = (deserializeV2 source s').1
  canonical : ∀ s behind, source.ahead (deserializeV2 source s).2 = some behind →
    (deserializeV2 source s).1.address = .unset ∨ Canonical (deserializeV2 source s).1.address
  refused : ∀ s ahead entry rest, source.ahead s = some ahead →
    decodeEntry ahead = some (entry, rest) →
      (entry.length.toNat > maxAddressBytes ∨ Network.ofId? entry.id = some .torv2 ∨
        ∃ network, Network.ofId? entry.id = some network ∧ entry.length.toNat ≠ network.wire) →
          source.ahead (deserializeV2 source s).2 = none
  skipped : ∀ s ahead entry rest, source.ahead s = some ahead →
    decodeEntry ahead = some (entry, rest) → entry.length.toNat ≤ maxAddressBytes →
      Network.ofId? entry.id = none → entry.length.toNat + 2 ≤ rest.length →
        (deserializeV2 source s).1.address = .unset ∧
          source.ahead (deserializeV2 source s).2 = some (rest.drop (entry.length.toNat + 2))
  misplaced : ∀ s ahead entry rest network, source.ahead s = some ahead →
    decodeEntry ahead = some (entry, rest) → Network.ofId? entry.id = some network →
      entry.length.toNat = network.wire → network.wire ≤ rest.length →
        (network = .ipv6 ∧ isTorv2 (rest.take network.wire) = true ∨
          network = .cjdns ∧ isCjdns (rest.take network.wire) = false) →
            source.ahead (deserializeV2 source s).2 = none
  discarded : ∀ s ahead entry rest network, source.ahead s = some ahead →
    decodeEntry ahead = some (entry, rest) → Network.ofId? entry.id = some network →
      entry.length.toNat = network.wire → network.wire + 2 ≤ rest.length →
        (network = .ipv4 ∨ network = .ipv6) →
          isDocumentation (stored network (rest.take network.wire)) = true →
            (deserializeV2 source s).1.address = .unset ∧
              source.ahead (deserializeV2 source s).2 = some (rest.drop (network.wire + 2))
  mapped : ∀ s ahead entry rest, source.ahead s = some ahead →
    decodeEntry ahead = some (entry, rest) → Network.ofId? entry.id = some .ipv6 →
      entry.length.toNat = Network.ipv6.wire → Network.ipv6.wire + 2 ≤ rest.length →
        isV4 (rest.take Network.ipv6.wire) = true →
          isDocumentation (rest.take Network.ipv6.wire) = false →
            (deserializeV2 source s).1.address = .of .ipv4 (rest.take Network.ipv6.wire) ∧
              source.ahead (deserializeV2 source s).2 =
                some (rest.drop (Network.ipv6.wire + 2))

theorem address_codecs_consistent (source : Reader) (sink : Writer) : Consistent source sink where
  second item h := ⟨encodeV2_length h, writes_serializeV2 item, fun _ _ hs =>
    reads_deserializeV2.decoded hs (decodes_itemV2 h _)⟩
  first item h hv1 withTimestamp := ⟨encode_length h hv1 withTimestamp,
    writes_serialize item withTimestamp, fun _ _ hs =>
      (reads_deserialize withTimestamp).decoded hs (decodes_item h hv1 withTimestamp _)⟩
  same item h hv1 s behind s' behind' hs hs' := by
    rw [((reads_deserialize true).decoded hs (decodes_item h hv1 true _)).1,
      (reads_deserializeV2.decoded hs' (decodes_itemV2 h _)).1]
    rfl
  canonical s behind hbehind := by
    obtain ⟨ahead, -, hitem⟩ := reads_deserializeV2.valid hbehind
    exact yields_itemV2 _ _ _ hitem
  refused s ahead entry rest hs h hentry := by
    apply invalid_of_body hs h
    rcases hentry with hlimit | htor | ⟨network, hid, hlength⟩
    · exact .inl hlimit
    · refine .inr ?_
      unfold decodeBody
      rw [htor]
      rfl
    · refine .inr ?_
      by_cases htor : network = .torv2
      · unfold decodeBody
        rw [hid, htor]
        rfl
      · rw [decodeBody_of hid htor]
        unfold decodeNetwork
        rw [if_pos hlength]
        rfl
  skipped s ahead entry rest hs h hlimit hid hrest := by
    refine address_of_body hs h hlimit ?_ hrest
    have hbytes : Decoder.bytes entry.length.toNat rest =
        some (rest.take entry.length.toNat, rest.drop entry.length.toNat) :=
      if_neg (by omega)
    rw [decodeBody_unknown hid]
    unfold Decoder.skip
    rw [Decoder.bind_apply, Decoder.bind_some hbytes]
    rfl
  misplaced s ahead entry rest network hs h hid hlength hrest hplace := by
    apply invalid_of_body hs h
    refine .inr ?_
    rcases hplace with ⟨rfl, htor⟩ | ⟨rfl, hcjdns⟩
    · rw [decodeBody_classified hid (by decide) hlength hrest,
        show stored .ipv6 (rest.take Network.ipv6.wire) = rest.take Network.ipv6.wire from rfl,
        classify_ipv6, isDocumentation_torv2 htor, isV4_torv2 htor, htor]
      rfl
    · rw [decodeBody_classified hid (by decide) hlength hrest,
        show stored .cjdns (rest.take Network.cjdns.wire) = rest.take Network.cjdns.wire from rfl,
        classify_cjdns, hcjdns]
      rfl
  discarded s ahead entry rest network hs h hid hlength hrest hip hdocumentation := by
    have hwire := wire_le network
    refine address_of_body hs h (by unfold maxAddressBytes; omega) ?_ hrest
    have htor : network ≠ .torv2 := by
      rintro rfl
      rcases hip with hip | hip <;> cases hip
    rw [decodeBody_classified hid htor hlength (by omega)]
    rcases hip with rfl | rfl
    · rw [classify_ipv4, if_pos hdocumentation]
      rfl
    · rw [classify_ipv6, if_pos hdocumentation]
      rfl
  mapped s ahead entry rest hs h hid hlength hrest hv4 hdocumentation := by
    refine address_of_body hs h (by rw [hlength]; decide) ?_ hrest
    rw [decodeBody_classified hid (by decide) hlength (by omega),
      show stored .ipv6 (rest.take Network.ipv6.wire) = rest.take Network.ipv6.wire from rfl,
      classify_ipv6, hdocumentation, hv4]
    rfl

theorem address_codecs_consistent_list : Consistent .list .list :=
  address_codecs_consistent .list .list

end AddressItem

end BitcoinNetwork.Peer
