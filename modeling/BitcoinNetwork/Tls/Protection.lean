import BitcoinNetwork.Tls.SendKeys

/-!
# Records sealed by one end and opened by the other (tls/record.cpp)

Both ends have the secret of one direction. What the cipher is relied on for is a
hypothesis about the records of the run, and a part of a record in the place of the whole.
-/

namespace BitcoinNetwork.Tls
open Binary

/-! ### Records in order -/

/-- The type and the content of a record to be sealed. -/
structure Content where
  type : UInt8
  bytes : Bytes
  typed : type ≠ 0
  fits : bytes.length ≤ maximumPlaintext

section Run
variable {Certificate : Type} (crypto : Crypto Certificate)

/-- The records of the contents, sealed one behind the other. -/
def sealAll : Record → List Content → List Bytes
  | _, [] => []
  | record, content :: contents =>
    let next := record.sealContent crypto content.type content.bytes
    next.1 :: sealAll next.2 contents

/-- How many bytes the header of a record states to be behind it. -/
def statedSize (bytes : Bytes) : ℕ := ofBytes ((bytes.take recordHeaderSize).drop 3)

/-- What is opened of a record, and the state behind it. -/
def openRecord (record : Record) (bytes : Bytes) : Option (UInt8 × Bytes) × Record :=
  record.openFragment crypto (bytes.take recordHeaderSize) (bytes.drop recordHeaderSize)

/-- The state once all of these were opened, or refused. -/
def opens (record : Record) (records : List Bytes) : Record :=
  records.foldl (fun record bytes => (openRecord crypto record bytes).2) record

/-- What is opened of bytes, of which each record is as long as its header states. -/
def openLoop : ℕ → Record → Bytes → List (Option (UInt8 × Bytes))
  | 0, _, _ => []
  | turns + 1, record, bytes =>
    if bytes = [] then []
    else
      let size := recordHeaderSize + statedSize bytes
      let opened := openRecord crypto record (bytes.take size)
      opened.1 :: openLoop turns opened.2 (bytes.drop size)

def openAll (record : Record) (bytes : Bytes) : List (Option (UInt8 × Bytes)) :=
  openLoop crypto bytes.length record bytes

end Run

/-! ### The cipher -/

section Cipher
variable {Certificate : Type} (crypto : Crypto Certificate) (suite : UInt16) (traffic : Bytes)

/-- Either end once so many records are sealed or opened under the secret. -/
def recordAt (count : ℕ) : Record :=
  { Record.setSecret crypto suite traffic with sequence := count }

/-- What the cipher is given for a record, and what it makes of it. -/
structure Ciphertext where
  nonce : Bytes
  header : Bytes
  fragment : Bytes

def headerOf (size : ℕ) : Bytes := contentApplicationData :: write16 legacyVersion ++ toBytes 2 size

/-- The record of the number. -/
def ciphertextAt (number : ℕ) (content : Content) : Ciphertext :=
  let nonce := (recordAt crypto suite traffic number).nonce
  let header := headerOf (content.bytes.length + 1 + tagSize)
  { nonce, header,
    fragment := crypto.encrypt (cipherOf suite) (trafficKey crypto suite traffic) nonce header
      (content.bytes ++ [content.type]) }

/-- The records of the contents, of which the first has the number. -/
def ciphertextsFrom (number : ℕ) (contents : List Content) : List Ciphertext :=
  (contents.zipIdx number).map fun entry => ciphertextAt crypto suite traffic entry.2 entry.1

def ciphertexts (contents : List Content) : List Ciphertext :=
  ciphertextsFrom crypto suite traffic 0 contents

/-- The cipher opens what it sealed, with a tag behind it, and nothing that was not sealed:
neither a fragment of the run nor a part of one opens under a nonce and a header with which
it was not sealed, and none was sealed under two nonces. -/
structure Authentic (contents : List Content) : Prop where
  correct : ∀ nonce data text,
    crypto.decrypt (cipherOf suite) (trafficKey crypto suite traffic) nonce data
      (crypto.encrypt (cipherOf suite) (trafficKey crypto suite traffic) nonce data text) = some text
  tagged : ∀ nonce data text,
    (crypto.encrypt (cipherOf suite) (trafficKey crypto suite traffic) nonce data text).length =
      text.length + tagSize
  unforgeable : ∀ number, ∀ presented ∈ ciphertexts crypto suite traffic contents,
    ∀ part, part <+: presented.fragment →
      (crypto.decrypt (cipherOf suite) (trafficKey crypto suite traffic)
        (recordAt crypto suite traffic number).nonce presented.header part).isSome →
      ∃ genuine ∈ ciphertexts crypto suite traffic contents,
        genuine.nonce = (recordAt crypto suite traffic number).nonce ∧
          genuine.header = presented.header ∧ genuine.fragment = part
  single : ∀ first ∈ ciphertexts crypto suite traffic contents,
    ∀ second ∈ ciphertexts crypto suite traffic contents,
      first.fragment = second.fragment → first.nonce = second.nonce

end Cipher

variable {Certificate : Type} {crypto : Crypto Certificate} {suite : UInt16} {traffic : Bytes}

/-! ### One record -/

def Ciphertext.bytes (record : Ciphertext) : Bytes := record.header ++ record.fragment

theorem headerOf_length (size : ℕ) : (headerOf size).length = recordHeaderSize := by
  unfold headerOf
  rw [List.length_append, List.length_cons, write16_length, toBytes_length]
  rfl

theorem sealAll_recordAt (contents : List Content) (number : ℕ) :
    sealAll crypto (recordAt crypto suite traffic number) contents =
      (ciphertextsFrom crypto suite traffic number contents).map Ciphertext.bytes := by
  induction contents generalizing number with
  | nil => rfl
  | cons content contents ih => exact congrArg (_ :: ·) (ih (number + 1))

theorem sealAll_eq (contents : List Content) :
    sealAll crypto (Record.setSecret crypto suite traffic) contents =
      (ciphertexts crypto suite traffic contents).map Ciphertext.bytes :=
  sealAll_recordAt contents 0

/-- The type is the last byte that is not zero, whatever the content ends in. -/
theorem innerPlaintext_append {type : UInt8} (h : type ≠ 0) (content : Bytes) :
    Record.innerPlaintext (content ++ [type]) = (type, content) := by
  unfold Record.innerPlaintext
  rw [List.reverse_append, List.reverse_singleton, List.singleton_append,
    List.dropWhile_cons_of_neg (by simpa using h)]
  dsimp only
  rw [List.reverse_reverse]

theorem nonce_mod (number : ℕ) :
    (recordAt crypto suite traffic number).nonce =
      (recordAt crypto suite traffic (number % 2 ^ 64)).nonce := by
  have hbytes : toBytes 8 number = toBytes 8 (number % 2 ^ 64) := by
    conv_lhs => rw [← Nat.div_add_mod' number (2 ^ 64)]
    exact toBytes_add 8 _ _
  unfold Record.nonce
  rw [show (recordAt crypto suite traffic number).sequence = number from rfl, hbytes]
  rfl

theorem nonce_eq_iff (number number' : ℕ) :
    (recordAt crypto suite traffic number).nonce = (recordAt crypto suite traffic number').nonce ↔
      number % 2 ^ 64 = number' % 2 ^ 64 := by
  constructor
  · intro hnonce
    rw [nonce_mod number, nonce_mod number'] at hnonce
    have hlt (n : ℕ) : n % 2 ^ 64 < 2 ^ 64 := Nat.mod_lt n (by decide)
    exact @nonce_injective (recordAt crypto suite traffic (number % 2 ^ 64))
      (recordAt crypto suite traffic (number' % 2 ^ 64)) (trafficIv_length crypto suite traffic) rfl
      (hlt number) (hlt number') hnonce
  · intro hmod
    rw [nonce_mod number, nonce_mod number', hmod]

theorem headerOf_injective {size size' : ℕ} (h : size < 256 ^ 2) (h' : size' < 256 ^ 2)
    (heq : headerOf size = headerOf size') : size = size' := by
  have hbytes := congrArg ofBytes (List.append_cancel_left heq)
  rwa [ofBytes_toBytes h, ofBytes_toBytes h'] at hbytes

theorem mem_ciphertexts {contents : List Content} {record : Ciphertext}
    (h : record ∈ ciphertexts crypto suite traffic contents) :
    ∃ number content, record = ciphertextAt crypto suite traffic number content := by
  obtain ⟨⟨content, number⟩, -, hrecord⟩ := List.mem_map.mp h
  exact ⟨number, content, hrecord.symm⟩

theorem ciphertexts_getElem? (contents : List Content) (number : ℕ) :
    (ciphertexts crypto suite traffic contents)[number]? =
      contents[number]?.map (ciphertextAt crypto suite traffic number) := by
  unfold ciphertexts ciphertextsFrom
  rw [List.getElem?_map, List.getElem?_zipIdx, Nat.zero_add]
  cases contents[number]? with
  | none => rfl
  | some content => rfl

theorem ciphertextAt_mem {contents : List Content} {number : ℕ} {content : Content}
    (h : contents[number]? = some content) :
    ciphertextAt crypto suite traffic number content ∈ ciphertexts crypto suite traffic contents := by
  apply List.mem_of_getElem?
  rw [ciphertexts_getElem?, h]
  rfl

theorem Content.size_lt (content : Content) : content.bytes.length + 1 + tagSize < 256 ^ 2 := by
  have hfits := content.fits
  unfold maximumPlaintext at hfits
  unfold tagSize
  omega

namespace Ciphertext

variable {record : Ciphertext}

theorem bytes_take (h : record.header.length = recordHeaderSize) (behind : Bytes) :
    (record.bytes ++ behind).take recordHeaderSize = record.header := by
  rw [bytes, List.append_assoc, List.take_left' h]

theorem bytes_drop (h : record.header.length = recordHeaderSize) :
    record.bytes.drop recordHeaderSize = record.fragment := List.drop_left' h

end Ciphertext

theorem ciphertextAt_length (number : ℕ) (content : Content) :
    (ciphertextAt crypto suite traffic number content).bytes.length =
      recordHeaderSize + (ciphertextAt crypto suite traffic number content).fragment.length := by
  unfold Ciphertext.bytes
  rw [List.length_append]
  exact congrArg (· + _) (headerOf_length _)

namespace Authentic
variable {contents : List Content}

theorem fragment_length (h : Authentic crypto suite traffic contents) (number : ℕ)
    (content : Content) :
    (ciphertextAt crypto suite traffic number content).fragment.length =
      content.bytes.length + 1 + tagSize := by
  show (crypto.encrypt _ _ _ _ _).length = _
  rw [h.tagged, List.length_append, List.length_singleton]

/-- The header states how long the fragment is. -/
theorem statedSize_eq (h : Authentic crypto suite traffic contents) (number : ℕ)
    (content : Content) (behind : Bytes) :
    statedSize ((ciphertextAt crypto suite traffic number content).bytes ++ behind) =
      (ciphertextAt crypto suite traffic number content).fragment.length := by
  unfold statedSize
  rw [Ciphertext.bytes_take (headerOf_length _), h.fragment_length]
  exact ofBytes_toBytes content.size_lt

/-- The record of a number is tried with the nonce of the other number. -/
theorem openRecord_eq (h : Authentic crypto suite traffic contents) (number number' : ℕ)
    (content : Content) :
    openRecord crypto (recordAt crypto suite traffic number')
        (ciphertextAt crypto suite traffic number content).bytes =
      ((crypto.decrypt (cipherOf suite) (trafficKey crypto suite traffic)
          (recordAt crypto suite traffic number').nonce
          (ciphertextAt crypto suite traffic number content).header
          (ciphertextAt crypto suite traffic number content).fragment).map Record.innerPlaintext,
        recordAt crypto suite traffic (number' + 1)) := by
  have hlength := h.fragment_length number content
  have hheader : (ciphertextAt crypto suite traffic number content).header.length =
      recordHeaderSize := headerOf_length _
  have htake := Ciphertext.bytes_take hheader []
  rw [List.append_nil] at htake
  unfold openRecord Record.openFragment
  rw [htake, Ciphertext.bytes_drop hheader, if_neg (by omega)]
  rfl

theorem openRecord_same (h : Authentic crypto suite traffic contents) {number number' : ℕ}
    (hnonce : (recordAt crypto suite traffic number').nonce =
      (recordAt crypto suite traffic number).nonce) (content : Content) :
    openRecord crypto (recordAt crypto suite traffic number')
        (ciphertextAt crypto suite traffic number content).bytes =
      (some (content.type, content.bytes), recordAt crypto suite traffic (number' + 1)) := by
  have hcorrect : crypto.decrypt (cipherOf suite) (trafficKey crypto suite traffic)
      (recordAt crypto suite traffic number).nonce
      (ciphertextAt crypto suite traffic number content).header
      (ciphertextAt crypto suite traffic number content).fragment =
        some (content.bytes ++ [content.type]) := h.correct _ _ _
  rw [h.openRecord_eq, hnonce, hcorrect, Option.map_some, innerPlaintext_append content.typed]

theorem openLoop_eq (h : Authentic crypto suite traffic contents) (ahead : List Content)
    (number : ℕ) {turns : ℕ} (hturns : ahead.length ≤ turns) :
    openLoop crypto turns (recordAt crypto suite traffic number)
        ((ciphertextsFrom crypto suite traffic number ahead).map Ciphertext.bytes).flatten =
      ahead.map fun content => some (content.type, content.bytes) := by
  induction ahead generalizing number turns with
  | nil => cases turns <;> rfl
  | cons content ahead ih =>
    obtain ⟨turns, rfl⟩ : ∃ less, turns = less + 1 := ⟨turns - 1, by rw [List.length_cons] at hturns; omega⟩
    have hlength := @ciphertextAt_length _ crypto suite traffic number content
    have hown := @Authentic.openRecord_same _ crypto suite traffic contents h number number rfl content
    have hrest := ih (number + 1) (Nat.le_of_succ_le_succ hturns)
    generalize hbehind : ((ciphertextsFrom crypto suite traffic (number + 1) ahead).map
      Ciphertext.bytes).flatten = behind at hrest
    have hstated := h.statedSize_eq number content behind
    have hne : (ciphertextAt crypto suite traffic number content).bytes ++ behind ≠ [] := by
      intro hnil
      rw [List.append_eq_nil_iff.mp hnil |>.1] at hlength
      exact absurd hlength (by unfold recordHeaderSize; rw [List.length_nil]; omega)
    rw [show ciphertextsFrom crypto suite traffic number (content :: ahead) =
      ciphertextAt crypto suite traffic number content ::
        ciphertextsFrom crypto suite traffic (number + 1) ahead from rfl, List.map_cons,
      List.flatten_cons, hbehind]
    unfold openLoop
    rw [if_neg hne, hstated, ← hlength]
    dsimp only
    rw [List.take_left, List.drop_left, hown, hrest, List.map_cons]

/-- No part of a record opens with a nonce that is not its own, and only the whole of it
does with its own. -/
theorem decrypt_eq_none (h : Authentic crypto suite traffic contents) {record : Ciphertext}
    (hmem : record ∈ ciphertexts crypto suite traffic contents) (number : ℕ) {part : Bytes}
    (hpart : part <+: record.fragment)
    (hother : part = record.fragment → (recordAt crypto suite traffic number).nonce ≠ record.nonce) :
    crypto.decrypt (cipherOf suite) (trafficKey crypto suite traffic)
      (recordAt crypto suite traffic number).nonce record.header part = none := by
  rw [← Option.not_isSome_iff_eq_none]
  intro hopened
  obtain ⟨genuine, hgenuine, hnonce, hheader, rfl⟩ := h.unforgeable number record hmem part hpart hopened
  have hwhole : genuine.fragment = record.fragment := by
    obtain ⟨number, content, rfl⟩ := mem_ciphertexts hmem
    obtain ⟨number', content', rfl⟩ := mem_ciphertexts hgenuine
    have hsize := headerOf_injective content'.size_lt content.size_lt hheader
    rw [← h.fragment_length number' content', ← h.fragment_length number content] at hsize
    exact hpart.eq_of_length hsize
  exact hother hwhole (hnonce.symm.trans (h.single genuine hgenuine record hmem hwhole))

/-- A record opens in the place of its number, and in no other. -/
theorem openRecord_iff (h : Authentic crypto suite traffic contents) {number : ℕ}
    {content : Content} (hcontent : contents[number]? = some content) (number' : ℕ) :
    (openRecord crypto (recordAt crypto suite traffic number')
      (ciphertextAt crypto suite traffic number content).bytes).1 =
        if number' % 2 ^ 64 = number % 2 ^ 64 then some (content.type, content.bytes) else none := by
  split_ifs with hmod
  · rw [h.openRecord_same ((nonce_eq_iff number' number).mpr hmod)]
  · rw [h.openRecord_eq, h.decrypt_eq_none (ciphertextAt_mem hcontent) number' (List.prefix_refl _)
      fun _ hnonce => hmod ((nonce_eq_iff number' number).mp hnonce), Option.map_none]

theorem openRecord_part (h : Authentic crypto suite traffic contents) {record : Ciphertext}
    (hmem : record ∈ ciphertexts crypto suite traffic contents) (number : ℕ) {size : ℕ}
    (hheader : recordHeaderSize ≤ size) (hpart : size < record.bytes.length) :
    (openRecord crypto (recordAt crypto suite traffic number) (record.bytes.take size)).1 = none := by
  have hlength : record.header.length = recordHeaderSize := by
    obtain ⟨number', content, rfl⟩ := mem_ciphertexts hmem
    exact headerOf_length _
  have htake : (record.bytes.take size).take recordHeaderSize = record.header := by
    have hwhole := Ciphertext.bytes_take hlength []
    rw [List.append_nil] at hwhole
    rw [List.take_take, Nat.min_eq_left hheader, hwhole]
  have hdrop : (record.bytes.take size).drop recordHeaderSize =
      record.fragment.take (size - recordHeaderSize) := by
    rw [List.drop_take, Ciphertext.bytes_drop hlength]
  have hshort : record.fragment.take (size - recordHeaderSize) ≠ record.fragment := by
    intro hwhole
    have htaken := congrArg List.length hwhole
    unfold Ciphertext.bytes at hpart
    rw [List.length_append, hlength] at hpart
    rw [List.length_take] at htaken
    omega
  unfold openRecord Record.openFragment
  rw [htake, hdrop]
  split_ifs
  · rfl
  · exact congrArg (Option.map _) (h.decrypt_eq_none hmem number (List.take_prefix _ _)
      fun hwhole => absurd hwhole hshort)

theorem opens_recordAt (h : Authentic crypto suite traffic contents) {before : List Bytes}
    (hbefore : ∀ bytes ∈ before, bytes ∈ sealAll crypto (Record.setSecret crypto suite traffic) contents)
    (number : ℕ) :
    opens crypto (recordAt crypto suite traffic number) before =
      recordAt crypto suite traffic (number + before.length) := by
  induction before generalizing number with
  | nil => rfl
  | cons bytes before ih =>
    have hmem := hbefore bytes List.mem_cons_self
    rw [sealAll_eq] at hmem
    obtain ⟨record, hrecord, rfl⟩ := List.mem_map.mp hmem
    obtain ⟨number', content, rfl⟩ := mem_ciphertexts hrecord
    have hnext := ih (fun other hother => hbefore other (List.mem_cons_of_mem _ hother)) (number + 1)
    rw [Nat.add_assoc, Nat.add_comm 1] at hnext
    unfold opens
    rw [List.foldl_cons, h.openRecord_eq]
    exact hnext

end Authentic

/-! ### Runs -/

theorem length_le_flatten {records : List Bytes} (h : ∀ bytes ∈ records, 0 < bytes.length) :
    records.length ≤ records.flatten.length := by
  induction records with
  | nil => exact Nat.zero_le _
  | cons bytes records ih =>
    have hfirst := h bytes List.mem_cons_self
    have hrest := ih fun other hother => h other (List.mem_cons_of_mem _ hother)
    rw [List.flatten_cons, List.length_append, List.length_cons]
    omega

/-- What is sealed in order is opened in order. A record is opened where as many records were
tried before as were sealed before it, or where these numbers differ by the 64 bits of the
sequence, and nowhere else, and a part of a record is opened nowhere. -/
theorem records_protected (crypto : Crypto Certificate) (suite : UInt16) (traffic : Bytes)
    (contents : List Content) (h : Authentic crypto suite traffic contents) :
    let keyed := Record.setSecret crypto suite traffic
    let records := sealAll crypto keyed contents
    openAll crypto keyed records.flatten =
        contents.map (fun content => some (content.type, content.bytes)) ∧
      (∀ bytes ∈ records, bytes.length = recordHeaderSize + statedSize bytes) ∧
      ∀ before : List Bytes, (∀ bytes ∈ before, bytes ∈ records) →
        ∀ number content bytes, contents[number]? = some content → records[number]? = some bytes →
          (openRecord crypto (opens crypto keyed before) bytes).1 =
              (if before.length % 2 ^ 64 = number % 2 ^ 64 then some (content.type, content.bytes)
              else none) ∧
            ∀ size, recordHeaderSize ≤ size → size < bytes.length →
              (openRecord crypto (opens crypto keyed before) (bytes.take size)).1 = none := by
  intro keyed records
  have hrecords : records = (ciphertexts crypto suite traffic contents).map Ciphertext.bytes :=
    sealAll_eq contents
  have hstates : ∀ bytes ∈ records, bytes.length = recordHeaderSize + statedSize bytes := by
    intro bytes hbytes
    rw [hrecords] at hbytes
    obtain ⟨record, hrecord, rfl⟩ := List.mem_map.mp hbytes
    obtain ⟨number, content, rfl⟩ := mem_ciphertexts hrecord
    have hstated := h.statedSize_eq number content []
    rw [List.append_nil] at hstated
    rw [hstated, ciphertextAt_length]
  refine ⟨?_, hstates, ?_⟩
  · have hturns : contents.length ≤ records.flatten.length := by
      have hlength : records.length = contents.length := by
        rw [hrecords, List.length_map, ciphertexts, ciphertextsFrom, List.length_map,
          List.length_zipIdx]
      rw [← hlength]
      refine length_le_flatten ?_
      intro bytes hbytes
      rw [hstates bytes hbytes]
      exact Nat.add_pos_left (by decide) _
    unfold openAll
    generalize records.flatten.length = turns at hturns
    rw [hrecords]
    exact h.openLoop_eq contents 0 hturns
  · intro before hbefore number content bytes hcontent hbytes
    have hreceiver : opens crypto keyed before = recordAt crypto suite traffic before.length := by
      rw [show keyed = recordAt crypto suite traffic 0 from rfl, h.opens_recordAt hbefore 0,
        Nat.zero_add]
    rw [hrecords, List.getElem?_map, ciphertexts_getElem?, hcontent] at hbytes
    cases hbytes
    rw [hreceiver]
    exact ⟨h.openRecord_iff hcontent before.length,
      fun size hheader hpart => h.openRecord_part (ciphertextAt_mem hcontent) _ hheader hpart⟩

/-! ### A run -/

/-- A tag of the nonce and of the header behind its type. -/
def tagOf (nonce header : Bytes) : Bytes :=
  (nonce ++ List.replicate 12 0).take 12 ++ (header.drop 1 ++ List.replicate 4 0).take 4

theorem tagOf_length (nonce header : Bytes) : (tagOf nonce header).length = tagSize := by
  unfold tagOf
  rw [List.length_append, List.length_take, List.length_take, List.length_append,
    List.length_append, List.length_replicate, List.length_replicate]
  unfold tagSize
  omega

/-- What is in front of the tag. -/
def untag (nonce header text : Bytes) : Option Bytes :=
  if tagSize ≤ text.length ∧ text.drop (text.length - tagSize) = tagOf nonce header then
    some (text.take (text.length - tagSize))
  else none

theorem untag_append (nonce header text : Bytes) :
    untag nonce header (text ++ tagOf nonce header) = some text := by
  have hsize : (text ++ tagOf nonce header).length - tagSize = text.length := by
    rw [List.length_append, tagOf_length, Nat.add_sub_cancel]
  have htagged : tagSize ≤ (text ++ tagOf nonce header).length := by
    rw [List.length_append, tagOf_length]
    exact Nat.le_add_left _ _
  unfold untag
  rw [hsize, List.drop_left, List.take_left, if_pos ⟨htagged, rfl⟩]

theorem untag_isSome {nonce header text : Bytes} (h : (untag nonce header text).isSome) :
    ∃ front, text = front ++ tagOf nonce header := by
  unfold untag at h
  split_ifs at h with htag
  · refine ⟨text.take (text.length - tagSize), ?_⟩
    rw [← htag.2, List.take_append_drop]
  · cases h

/-- A cipher that only tags. -/
def taggedCrypto : Crypto Bytes where
  __ := plainCrypto
  encrypt _ _ nonce header text := text ++ tagOf nonce header
  decrypt _ _ nonce header text := untag nonce header text

/-- A content that ends in a zero. -/
def zeroContent : Content := ⟨contentApplicationData, [0], by decide, by decide⟩

theorem nonce_length (number : ℕ) : (recordAt crypto suite traffic number).nonce.length = 12 := by
  have hiv : (recordAt crypto suite traffic number).iv.length = 12 :=
    trafficIv_length crypto suite traffic
  unfold Record.nonce
  rw [List.length_append, List.length_take, List.length_zipWith, List.length_drop, toBytes_length, hiv]
  rfl

theorem tagOf_nonce (number : ℕ) :
    tagOf (recordAt crypto suite traffic number).nonce (headerOf 18) =
      (recordAt crypto suite traffic number).nonce ++ [3, 3, 0, 18] := by
  unfold tagOf
  rw [List.take_left' (nonce_length number)]
  rfl

theorem zeroContent_fragment (number : ℕ) :
    (ciphertextAt taggedCrypto aes128GcmSha256 [] number zeroContent).fragment =
      [0, 23] ++ (recordAt taggedCrypto aes128GcmSha256 [] number).nonce ++ [3, 3, 0, 18] := by
  rw [List.append_assoc, ← tagOf_nonce]
  rfl

theorem mem_replicate {count : ℕ} {content : Content} {record : Ciphertext}
    (h : record ∈ ciphertexts crypto suite traffic (List.replicate count content)) :
    ∃ number, record = ciphertextAt crypto suite traffic number content := by
  obtain ⟨⟨other, number⟩, hmem, rfl⟩ := List.mem_map.mp h
  obtain rfl := List.eq_of_mem_replicate (List.fst_mem_of_mem_zipIdx hmem)
  exact ⟨number, rfl⟩

/-- A part that ends as the whole does is the whole. -/
theorem part_eq {front nonce nonce' part : Bytes} (hnonce : nonce.length = 12)
    (hnonce' : nonce'.length = 12) (hpart : part <+: [0, 23] ++ nonce ++ [3, 3, 0, 18])
    (hlast : part = front ++ (nonce' ++ [3, 3, 0, 18])) :
    nonce = nonce' ∧ part = [0, 23] ++ nonce ++ [3, 3, 0, 18] := by
  obtain ⟨behind, hwhole⟩ := hpart
  have hsize := congrArg List.length hwhole
  have hlength := congrArg List.length hlast
  have hend : part.getLast? = some 18 := by
    rw [hlast, show [3, 3, 0, 18] = [3, 3, 0] ++ [(18 : UInt8)] from rfl, ← List.append_assoc,
      ← List.append_assoc, List.getLast?_concat]
  simp only [List.length_append, List.length_cons, List.length_nil, hnonce] at hsize
  simp only [List.length_append, List.length_cons, List.length_nil, hnonce'] at hlength
  obtain hnone | hone | htwo : behind.length = 0 ∨ behind.length = 1 ∨ behind.length = 2 := by omega
  · rw [List.length_eq_zero_iff.mp hnone, List.append_nil] at hwhole
    have hboth := hwhole.symm.trans hlast
    rw [← List.append_assoc] at hboth
    have hnonces := (List.append_inj' hboth rfl).1
    exact ⟨(List.append_inj' hnonces (hnonce.trans hnonce'.symm)).2, hwhole⟩
  · rw [show [3, 3, 0, 18] = [3, 3, 0] ++ [(18 : UInt8)] from rfl, ← List.append_assoc] at hwhole
    rw [(List.append_inj' hwhole hone).1, show [3, 3, 0] = [3, 3] ++ [(0 : UInt8)] from rfl,
      ← List.append_assoc, List.getLast?_concat] at hend
    cases hend
  · rw [show [3, 3, 0, 18] = [3, 3] ++ [(0 : UInt8), 18] from rfl, ← List.append_assoc] at hwhole
    rw [(List.append_inj' hwhole htwo).1, show [3, 3] = [3] ++ [(3 : UInt8)] from rfl,
      ← List.append_assoc, List.getLast?_concat] at hend
    cases hend

theorem authentic_zeroContent (count : ℕ) :
    Authentic taggedCrypto aes128GcmSha256 [] (List.replicate count zeroContent) where
  correct nonce header text := untag_append nonce header text
  tagged nonce header text := by
    show (text ++ tagOf nonce header).length = _
    rw [List.length_append, tagOf_length]
  unforgeable := by
    intro number presented hpresented part hpart hopened
    obtain ⟨number', rfl⟩ := mem_replicate hpresented
    obtain ⟨front, hfront⟩ := untag_isSome hopened
    rw [zeroContent_fragment] at hpart
    change part = front ++ tagOf _ (headerOf 18) at hfront
    rw [tagOf_nonce] at hfront
    obtain ⟨hnonce, hwhole⟩ := part_eq (nonce_length number') (nonce_length number) hpart hfront
    exact ⟨_, hpresented, hnonce, rfl, (zeroContent_fragment number').trans hwhole.symm⟩
  single := by
    intro first hfirst second hsecond heq
    obtain ⟨number, rfl⟩ := mem_replicate hfirst
    obtain ⟨number', rfl⟩ := mem_replicate hsecond
    rw [zeroContent_fragment, zeroContent_fragment] at heq
    exact List.append_cancel_left (List.append_cancel_right heq)

theorem records_protected_zeros :
    openAll taggedCrypto (Record.setSecret taggedCrypto aes128GcmSha256 [])
        (sealAll taggedCrypto (Record.setSecret taggedCrypto aes128GcmSha256 [])
          (List.replicate 3 zeroContent)).flatten =
      List.replicate 3 (some (contentApplicationData, [0])) :=
  (records_protected taggedCrypto aes128GcmSha256 [] (List.replicate 3 zeroContent)
    (authentic_zeroContent 3)).1

/-- The record behind 2^64 others opens in the place of the first. -/
theorem not_records_protected :
    let keyed := Record.setSecret taggedCrypto aes128GcmSha256 []
    let contents := List.replicate (2 ^ 64 + 1) zeroContent
    Authentic taggedCrypto aes128GcmSha256 [] contents ∧
      ∃ bytes, (sealAll taggedCrypto keyed contents)[2 ^ 64]? = some bytes ∧
        (openRecord taggedCrypto keyed bytes).1 = some (contentApplicationData, [0]) := by
  intro keyed contents
  have hauthentic := authentic_zeroContent (2 ^ 64 + 1)
  have hcontent : contents[2 ^ 64]? = some zeroContent :=
    List.getElem?_replicate_of_lt (Nat.lt_succ_self _)
  refine ⟨hauthentic, (ciphertextAt taggedCrypto aes128GcmSha256 [] (2 ^ 64) zeroContent).bytes, ?_, ?_⟩
  · rw [sealAll_eq, List.getElem?_map, ciphertexts_getElem?, hcontent]
    rfl
  · have hopened := hauthentic.openRecord_iff hcontent 0
    rw [if_pos (by decide)] at hopened
    exact hopened

end BitcoinNetwork.Tls
