import BitcoinNetwork.Config.Address

/-!
# Addresses are read as they are printed

A name is told from an authority by its suffix, as an authority has no letter that both
suffixes end in. What is printed of a cjdns address is an authority, and an authority is
an address of the first protocol, which has no cjdns addresses.
-/

namespace BitcoinNetwork.Config
open Peer (Address AddressItem Network)
open Net (networkOf)

/-! ### Texts -/

/-- A character that does not end a token. -/
def isToken (c : Char) : Bool := c ≠ '/' && !isSpace c

/-- A property of the characters of a text. -/
theorem forall_char {text : Text} {P : Char → Prop} [DecidablePred P]
    (h : text.all (fun c => decide (P c)) = true) : ∀ c ∈ text, P c := fun c hc =>
  of_decide_eq_true (List.all_eq_true.mp h c hc)

theorem decimal_digit {value : ℕ} {c : Char} (h : c ∈ decimal value) : c.isDigit = true :=
  Nat.isDigit_of_mem_toDigits (by decide) (by decide) h

theorem isToken_of_isDigit {c : Char} (h : c.isDigit = true) : isToken c = true ∧ c ≠ ':' := by
  unfold isToken isSpace
  refine ⟨?_, ?_⟩
  · by_contra hn
    simp only [ne_eq, decide_not, Bool.not_or, Bool.and_eq_true, Bool.not_eq_eq_eq_not, Bool.not_true,
      decide_eq_false_iff_not, not_and_or, not_not] at hn
    rcases hn with rfl | (((((rfl | rfl) | rfl) | rfl) | rfl) | rfl) <;> exact absurd h (by decide)
  · rintro rfl
    exact absurd h (by decide)

theorem rfind_eq_none {c : Char} {text : Text} (h : c ∉ text) : rfind c text = none := by
  induction text with
  | nil => rfl
  | cons first text ih =>
    rw [List.mem_cons, not_or] at h
    unfold rfind
    rw [ih h.2]
    exact if_neg (Ne.symm h.1)

theorem rfind_append {c : Char} (before : Text) {after : Text} (h : c ∉ after) :
    rfind c (before ++ c :: after) = some before.length := by
  induction before with
  | nil =>
    show rfind c (c :: after) = some 0
    unfold rfind
    rw [rfind_eq_none h]
    exact if_pos rfl
  | cons first before ih =>
    show rfind c (first :: (before ++ c :: after)) = _
    unfold rfind
    rw [ih]
    rfl

/-- A text that has no space is one word. -/
theorem word_of_isToken {text : Text} (h : ∀ c ∈ text, isSpace c = false) : word text = text := by
  unfold word
  have hdrop : text.dropWhile isSpace = text := by
    cases text with
    | nil => rfl
    | cons first text =>
      rw [List.dropWhile_cons, if_neg]
      rw [h first List.mem_cons_self]
      exact Bool.false_ne_true
  rw [hdrop]
  refine List.takeWhile_eq_self_iff.mpr fun c hc => ?_
  rw [h c hc]
  rfl

/-- The suffixes end in different letters. -/
theorem not_onionSuffix (name : Text) : ¬onionSuffix <:+ name ++ i2pSuffix := by
  rintro ⟨before, h⟩
  have hlast := congrArg List.getLast? h
  rw [List.getLast?_append, List.getLast?_append] at hlast
  exact absurd (Option.some.inj hlast) (by decide)

/-! ### Addresses -/

/-- The addresses that a pool has. -/
inductive Poolable : Address → Prop
  | ipv4 (value : Bytes) (hsize : value.length = 16) (hmapped : Peer.isV4 value = true) :
    Poolable (.of .ipv4 value)
  | ipv6 (value : Bytes) (hsize : value.length = 16) (hspecified : ∃ b ∈ value, b ≠ 0)
    (hmapped : Peer.isV4 value = false) (htor : Peer.isTorv2 value = false) :
    Poolable (.of .ipv6 value)
  | torv3 (value : Bytes) (hsize : value.length = 32) : Poolable (.of .torv3 value)
  | i2p (value : Bytes) (hsize : value.length = 32) : Poolable (.of .i2p value)
  | cjdns (value : Bytes) (hsize : value.length = 16) (hrange : Peer.isCjdns value = true) :
    Poolable (.of .cjdns value)

/-- The characters of base32, and of the texts of ip addresses. -/
def base32Chars : Text := "ABCDEFGHIJKLMNOPQRSTUVWXYZ234567=".toList

def authorityChars : Text := "0123456789abcdef:.[]".toList

namespace System
variable (sys : System)

/-- What is relied on: each text is read back as what it was written of. The text of an ip
address is that of its bits, if it is not unspecified. -/
structure Inverse : Prop where
  base32 (data : Bytes) : sys.decodeBase32
    (asciiToLower ((sys.encodeBase32 data).take ((8 * data.length + 4) / 5))) = some data
  base32_length (data : Bytes) : (sys.encodeBase32 data).length = 8 * ((data.length + 4) / 5)
  base32_chars (data : Bytes) : ∀ c ∈ sys.encodeBase32 data, c ∈ base32Chars
  sha3_length (data : Bytes) : (sys.sha3 data).length = 32
  split (tokens : List Text) (hne : tokens ≠ [])
    (htokens : ∀ token ∈ tokens, ∀ c ∈ token, isToken c = true) :
    sys.split (['/'].intercalate tokens) = tokens
  deserialize (bits value : ℕ) (hlt : value < 2 ^ bits) :
    sys.deserialize bits (decimal value) = some value
  authority (ip : Bytes) (port : UInt16) (hsize : ip.length = 16) (hspecified : ∃ b ∈ ip, b ≠ 0) :
    sys.parseAuthority (sys.authority ip port) = some (ip, port)
  authority_chars (ip : Bytes) (port : UInt16) : ∀ c ∈ sys.authority ip port, c ∈ authorityChars

variable {sys} (hinverse : sys.Inverse)
include hinverse

/-! ### Names -/

theorem Inverse.lowered (data : Bytes) (size : ℕ) :
    ∀ c ∈ asciiToLower ((sys.encodeBase32 data).take size), isToken c = true ∧ c ≠ ':' := by
  have hchars : ∀ c ∈ base32Chars, isToken c.toLower = true ∧ c.toLower ≠ ':' :=
    forall_char (by decide)
  intro c hc
  obtain ⟨upper, hupper, rfl⟩ := List.mem_map.mp hc
  exact hchars upper (hinverse.base32_chars data upper (List.mem_of_mem_take hupper))

theorem Inverse.toChecksum_length (value : Bytes) : (sys.toChecksum value).length = 2 := by
  unfold toChecksum
  rw [List.length_take, hinverse.sha3_length]
  rfl

theorem Inverse.fromOnion_lowered (value : Bytes) (hsize : value.length = 32) :
    sys.fromOnion (asciiToLower (sys.encodeBase32 (value ++ sys.toChecksum value ++ [onionVersion]))) =
      some (.of .torv3 value) := by
  have hchecksum := hinverse.toChecksum_length value
  generalize hpayload : value ++ sys.toChecksum value ++ [onionVersion] = payload
  have hlength : payload.length = 35 := by
    rw [← hpayload, List.length_append, List.length_append, hsize, hchecksum]
    rfl
  have hencoded : (sys.encodeBase32 payload).length = onionSize := by
    rw [hinverse.base32_length, hlength]
    rfl
  have hdecoded := hinverse.base32 payload
  rw [hlength] at hdecoded
  rw [show (8 * 35 + 4) / 5 = onionSize from rfl, ← hencoded, List.take_length] at hdecoded
  have hvalue : payload.take 32 = value := by
    rw [← hpayload, List.append_assoc, ← hsize]
    exact List.take_left
  have hrest : (payload.drop 32).take 2 = sys.toChecksum value := by
    rw [← hpayload, List.append_assoc, ← hsize, List.drop_left, ← hchecksum]
    exact List.take_left
  have hlast : payload.getLast? = some onionVersion := by
    rw [← hpayload]
    exact List.getLast?_concat ..
  unfold fromOnion
  rw [if_neg, hdecoded]
  · dsimp only
    rw [if_neg, hvalue, hrest, if_neg (not_not.mpr rfl)]
    exact not_or.mpr ⟨not_not.mpr hlength, not_not.mpr hlast⟩
  · unfold asciiToLower
    rw [List.length_map]
    exact not_not.mpr hencoded

theorem Inverse.fromI2p_lowered (value : Bytes) (hsize : value.length = 32) :
    sys.fromI2p (asciiToLower ((sys.encodeBase32 value).take i2pSize)) = some (.of .i2p value) := by
  have hdecoded := hinverse.base32 value
  rw [hsize] at hdecoded
  have hlength : (asciiToLower ((sys.encodeBase32 value).take i2pSize)).length = i2pSize := by
    unfold asciiToLower
    rw [List.length_map, List.length_take, hinverse.base32_length, hsize]
    rfl
  unfold fromI2p
  rw [if_neg (not_not.mpr hlength)]
  rw [show i2pSize = (8 * 32 + 4) / 5 from rfl, hdecoded]
  exact if_neg (not_not.mpr hsize)

omit hinverse in
theorem take_suffix (name suffix : Text) :
    (name ++ suffix).take ((name ++ suffix).length - suffix.length) = name := by
  rw [List.length_append, Nat.add_sub_cancel]
  exact List.take_left

omit hinverse in
theorem fromHost_onion (name : Text) : sys.fromHost (name ++ onionSuffix) = sys.fromOnion name := by
  unfold fromHost
  rw [if_pos (List.suffix_append ..), take_suffix]

omit hinverse in
theorem fromHost_i2p (name : Text) : sys.fromHost (name ++ i2pSuffix) = sys.fromI2p name := by
  unfold fromHost
  rw [if_neg (not_onionSuffix name), if_pos (List.suffix_append ..), take_suffix]

/-- The text of a named address, and what its suffix tells of it. -/
theorem Inverse.toHost_chars (address : Address) :
    ∀ c ∈ sys.toHost address, isToken c = true ∧ c ≠ ':' := by
  have hsuffixes : ∀ c ∈ onionSuffix ++ i2pSuffix, isToken c = true ∧ c ≠ ':' :=
    forall_char (by decide)
  intro c hc
  match address with
  | .of .torv3 value =>
    rcases List.mem_append.mp hc with hc | hc
    · rw [← List.take_length (l := sys.encodeBase32 _)] at hc
      exact hinverse.lowered _ _ c hc
    · exact hsuffixes c (List.mem_append_left _ hc)
  | .of .i2p value =>
    rcases List.mem_append.mp hc with hc | hc
    · exact hinverse.lowered _ _ c hc
    · exact hsuffixes c (List.mem_append_right _ hc)
  | .unset | .of .ipv4 _ | .of .ipv6 _ | .of .torv2 _ | .of .cjdns _ => exact absurd hc List.not_mem_nil

theorem Inverse.fromHost_toHost {address : Address} (h : Poolable address)
    (hnamed : isIp address = false) : sys.fromHost (sys.toHost address) = some address := by
  cases h with
  | torv3 value hsize => exact (fromHost_onion _).trans (hinverse.fromOnion_lowered value hsize)
  | i2p value hsize => exact (fromHost_i2p _).trans (hinverse.fromI2p_lowered value hsize)
  | ipv4 | ipv6 | cjdns => exact absurd hnamed (Bool.true_eq_false ▸ id)

theorem Inverse.fromName_toHost {address : Address} (h : Poolable address)
    (hnamed : isIp address = false) (port : UInt16) :
    sys.fromName (sys.toHost address ++ if port ≠ 0 then ':' :: decimal port.toNat else []) =
      some ⟨0, 0, address, port⟩ := by
  have hhost := hinverse.fromHost_toHost h hnamed
  have hcolon : ':' ∉ sys.toHost address := fun hc => (hinverse.toHost_chars address _ hc).2 rfl
  unfold fromName
  by_cases hport : port = 0
  · rw [if_neg (not_not.mpr hport), List.append_nil, rfind_eq_none hcolon]
    dsimp only
    rw [hhost, hport]
  · have hdecimal : ':' ∉ decimal port.toNat := fun hc =>
      (isToken_of_isDigit (decimal_digit hc)).2 rfl
    rw [if_pos hport, rfind_append _ hdecimal]
    dsimp only
    have hdrop : (sys.toHost address ++ ':' :: decimal port.toNat).drop
        ((sys.toHost address).length + 1) = decimal port.toNat := by
      rw [List.drop_length_add_append]
      rfl
    rw [List.take_left, hhost, hdrop, hinverse.deserialize 16 _ port.toNat_lt]
    dsimp only [Option.map_some]
    rw [UInt16.ofNat_toNat]

/-! ### Authorities -/

omit hinverse in
/-- A host that has no letter but those of base16 has no suffix of a name. -/
theorem fromHost_eq_none {host : Text} (h : ∀ c ∈ host, c ∈ authorityChars) :
    sys.fromHost host = none := by
  have hn : 'n' ∉ authorityChars := by decide
  have hp : 'p' ∉ authorityChars := by decide
  unfold fromHost
  rw [if_neg, if_neg]
  · exact fun hsuffix => hp (h 'p' (hsuffix.subset (by decide)))
  · exact fun hsuffix => hn (h 'n' (hsuffix.subset (by decide)))

theorem Inverse.fromName_authority (ip : Bytes) (port : UInt16) :
    sys.fromName (sys.authority ip port) = none := by
  have hchars := hinverse.authority_chars ip port
  unfold fromName
  cases hcolon : rfind ':' (sys.authority ip port) with
  | none =>
    dsimp only
    rw [fromHost_eq_none hchars]
  | some index =>
    dsimp only
    rw [fromHost_eq_none fun c hc => hchars c (List.mem_of_mem_take hc)]

/-! ### Lines -/

/-- The first token of the text of an item. -/
def host (sys : System) (item : AddressItem) : Text :=
  if isIp item.address then sys.authority (Peer.toIpAddress item.address) item.port
  else sys.toHost item.address ++ if item.port ≠ 0 then ':' :: decimal item.port.toNat else []

/-- The tokens of the text of an item. -/
def tokens (sys : System) (item : AddressItem) : List Text :=
  [sys.host item, decimal item.timestamp.toNat, decimal item.services.toNat]

omit hinverse in
theorem print_host (item : AddressItem) : sys.print item =
    sys.host item ++ '/' :: decimal item.timestamp.toNat ++ '/' :: decimal item.services.toNat := rfl

omit hinverse in
theorem print_tokens (item : AddressItem) : sys.print item = ['/'].intercalate (sys.tokens item) := by
  unfold tokens
  rw [List.intercalate_cons_cons, List.intercalate_cons_cons, List.intercalate_singleton,
    print_host, List.append_assoc, List.append_assoc, List.append_assoc]
  rfl

theorem Inverse.host_chars (item : AddressItem) : ∀ c ∈ sys.host item, isToken c = true := by
  have hauthority : ∀ c ∈ authorityChars, isToken c = true := forall_char (by decide)
  intro c hc
  unfold host at hc
  split at hc
  · exact hauthority c (hinverse.authority_chars _ _ c hc)
  · rcases List.mem_append.mp hc with hc | hc
    · exact (hinverse.toHost_chars _ c hc).1
    · split at hc
      · rcases List.mem_cons.mp hc with rfl | hc
        · rfl
        · exact (isToken_of_isDigit (decimal_digit hc)).1
      · exact absurd hc List.not_mem_nil

theorem Inverse.tokens_chars (item : AddressItem) :
    ∀ token ∈ sys.tokens item, ∀ c ∈ token, isToken c = true := by
  intro token htoken
  unfold tokens at htoken
  simp only [List.mem_cons, List.not_mem_nil, or_false] at htoken
  rcases htoken with rfl | rfl | rfl
  · exact hinverse.host_chars item
  · exact fun c hc => (isToken_of_isDigit (decimal_digit hc)).1
  · exact fun c hc => (isToken_of_isDigit (decimal_digit hc)).1

/-- The text of an item has no space, and no end of a line. -/
theorem Inverse.print_chars (item : AddressItem) : ∀ c ∈ sys.print item, isSpace c = false := by
  have hspace {c : Char} (h : isToken c = true) : isSpace c = false :=
    (Bool.not_eq_eq_eq_not ..).mp (Bool.and_eq_true_iff.mp h).2
  have htokens := hinverse.tokens_chars item
  intro c hc
  rw [print_host, List.mem_append, List.mem_append, List.mem_cons, List.mem_cons] at hc
  rcases hc with (hc | rfl | hc) | rfl | hc
  · exact hspace (htokens _ List.mem_cons_self c hc)
  · rfl
  · exact hspace (htokens _ (List.mem_cons_of_mem _ List.mem_cons_self) c hc)
  · rfl
  · exact hspace (isToken_of_isDigit (decimal_digit hc)).1

/-! ### The round trip -/

/-- The address that is read of the text of an address. -/
def recovered : Address → Address
  | .of .cjdns value => .of .ipv6 value
  | address => address

omit hinverse in
theorem toAddress_cjdns {value : Bytes} (h : Peer.isCjdns value = true) :
    Peer.toAddress value = .of .ipv6 value := by
  unfold Peer.isCjdns at h
  cases value with
  | nil => exact absurd h (by decide)
  | cons first rest =>
    have hfirst : first = Peer.cjdnsPrefix := Option.some.inj (eq_of_beq h)
    rw [hfirst]
    rfl

theorem Inverse.fromToken_authority {ip : Bytes} (hsize : ip.length = 16)
    (hspecified : ∃ b ∈ ip, b ≠ 0) (port : UInt16) :
    sys.fromToken (sys.authority ip port) = some ⟨0, 0, Peer.toAddress ip, port⟩ := by
  unfold fromToken fromAuthority
  rw [hinverse.fromName_authority, hinverse.authority ip port hsize hspecified]
  rfl

theorem Inverse.fromToken_toHost {address : Address} (h : Poolable address)
    (hnamed : isIp address = false) (port : UInt16) :
    sys.fromToken (sys.toHost address ++ if port ≠ 0 then ':' :: decimal port.toNat else []) =
      some ⟨0, 0, address, port⟩ := by
  unfold fromToken
  rw [hinverse.fromName_toHost h hnamed]

theorem Inverse.fromToken_host (item : AddressItem) (h : Poolable item.address) :
    sys.fromToken (sys.host item) = some ⟨0, 0, recovered item.address, item.port⟩ := by
  obtain ⟨timestamp, services, address, port⟩ := item
  cases h with
  | ipv4 value hsize hmapped =>
    have hprefix := List.isPrefixOf_iff_prefix.mp hmapped
    have hspecified : ∃ b ∈ value, b ≠ 0 := ⟨0xff, hprefix.subset (by decide), by decide⟩
    refine (hinverse.fromToken_authority hsize hspecified port).trans ?_
    unfold Peer.toAddress
    rw [if_pos hmapped]
    rfl
  | ipv6 value hsize hspecified hmapped htor =>
    refine (hinverse.fromToken_authority hsize hspecified port).trans ?_
    unfold Peer.toAddress
    rw [hmapped, htor]
    rfl
  | cjdns value hsize hrange =>
    have hspecified : ∃ b ∈ value, b ≠ 0 :=
      ⟨Peer.cjdnsPrefix, List.mem_of_mem_head? (eq_of_beq hrange), by decide⟩
    refine (hinverse.fromToken_authority hsize hspecified port).trans ?_
    rw [toAddress_cjdns hrange]
    rfl
  | torv3 value hsize =>
    exact hinverse.fromToken_toHost (.torv3 value hsize) rfl port
  | i2p value hsize =>
    exact hinverse.fromToken_toHost (.i2p value hsize) rfl port

/-- What is read of the text of an item: the item, unless it is of cjdns. -/
theorem Inverse.read_print (item : AddressItem) (h : Poolable item.address) :
    sys.read (sys.print item) = some { item with address := recovered item.address } := by
  have hword : word (sys.print item) = sys.print item := word_of_isToken (hinverse.print_chars item)
  have hsplit := hinverse.split (sys.tokens item) (List.cons_ne_nil _ _) (hinverse.tokens_chars item)
  unfold read
  rw [hword, print_tokens, hsplit]
  unfold tokens
  dsimp only
  rw [if_neg (by simp only [List.length_cons, List.length_nil]; decide), hinverse.fromToken_host item h,
    Option.bind_some]
  unfold readTimestamp readServices
  dsimp only [List.getElem?_cons_succ, List.getElem?_cons_zero]
  rw [hinverse.deserialize 32 _ item.timestamp.toNat_lt, hinverse.deserialize 64 _ item.services.toNat_lt]
  dsimp only [Option.map_some, Option.bind_some]
  rw [UInt32.ofNat_toNat, UInt64.ofNat_toNat]

omit hinverse in
theorem recovered_eq_iff (address : Address) :
    recovered address = address ↔ networkOf address ≠ some .cjdns := by
  unfold recovered networkOf
  split
  · exact ⟨nofun, fun h => absurd rfl h⟩
  · next hnot =>
    refine ⟨fun _ hcjdns => ?_, fun _ => rfl⟩
    cases address with
    | unset => exact nomatch hcjdns
    | of network value =>
      cases Option.some.inj hcjdns
      exact hnot value rfl

/-- Of the addresses of a pool, those of cjdns are not read as they are printed. -/
theorem Inverse.read_print_iff (item : AddressItem) (h : Poolable item.address) :
    sys.read (sys.print item) = some item ↔ networkOf item.address ≠ some .cjdns := by
  rw [hinverse.read_print item h, ← recovered_eq_iff]
  exact ⟨fun heq => congrArg AddressItem.address (Option.some.inj heq), fun heq => by rw [heq]⟩

/-! ### What is read is not of cjdns -/

omit hinverse in
theorem fromHost_network {host : Text} {address : Address} (h : sys.fromHost host = some address) :
    networkOf address ≠ some .cjdns := by
  have honion {name : Text} (h : sys.fromOnion name = some address) :
      networkOf address ≠ some .cjdns := by
    unfold fromOnion at h
    grind [networkOf]
  have hi2p {name : Text} (h : sys.fromI2p name = some address) :
      networkOf address ≠ some .cjdns := by
    unfold fromI2p at h
    grind [networkOf]
  unfold fromHost at h
  split at h
  · exact honion h
  split at h
  · exact hi2p h
  · exact nomatch h

omit hinverse in
theorem fromName_network {token : Text} {item : AddressItem} (h : sys.fromName token = some item) :
    networkOf item.address ≠ some .cjdns := by
  unfold fromName at h
  dsimp only at h
  split at h
  · exact nomatch h
  next address haddress =>
  split at h
  · cases h
    exact fromHost_network haddress
  · obtain ⟨port, _, rfl⟩ := Option.map_eq_some_iff.mp h
    exact fromHost_network haddress

omit hinverse in
theorem fromAuthority_network {token : Text} {item : AddressItem}
    (h : sys.fromAuthority token = some item) : networkOf item.address ≠ some .cjdns := by
  obtain ⟨⟨ip, port⟩, _, rfl⟩ := Option.map_eq_some_iff.mp h
  show networkOf (Peer.toAddress ip) ≠ _
  unfold Peer.toAddress
  split
  · exact nofun
  split
  · exact nofun
  · exact nofun

omit hinverse in
theorem fromToken_network {token : Text} {item : AddressItem} (h : sys.fromToken token = some item) :
    networkOf item.address ≠ some .cjdns := by
  unfold fromToken at h
  split at h
  · next hname => exact fromName_network (hname.trans h)
  · exact fromAuthority_network h

omit hinverse in
theorem read_network {text : Text} {item : AddressItem} (h : sys.read text = some item) :
    networkOf item.address ≠ some .cjdns := by
  unfold read at h
  split at h
  · exact nomatch h
  split at h
  · exact nomatch h
  obtain ⟨stamped, hstamped, hservices⟩ := Option.bind_eq_some_iff.mp h
  obtain ⟨first, hfirst, htimestamp⟩ := Option.bind_eq_some_iff.mp hstamped
  have hstamp : stamped.address = first.address := by
    unfold readTimestamp at htimestamp
    split at htimestamp
    · cases htimestamp
      rfl
    · obtain ⟨value, _, rfl⟩ := Option.map_eq_some_iff.mp htimestamp
      rfl
  have hservice : item.address = stamped.address := by
    unfold readServices at hservices
    split at hservices
    · cases hservices
      rfl
    · obtain ⟨value, _, rfl⟩ := Option.map_eq_some_iff.mp hservices
      rfl
  rw [hservice, hstamp]
  exact fromToken_network hfirst

end System
end BitcoinNetwork.Config
