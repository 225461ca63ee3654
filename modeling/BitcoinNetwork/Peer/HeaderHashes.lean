import BitcoinNetwork.Peer.Messages

/-!
# The hashes of headers (messages/peer/detail/headers.cpp)

Headers are read off a payload, and a pointer is walked over it behind the reader, from
which the hash of each header is cached.
-/

namespace BitcoinNetwork.Peer
open Binary

/-- A header with the hash that is cached in it. -/
structure HashedHeader (chain : Chain) where
  header : chain.Header
  hash : Hash

/-- What the chain says of its headers: one is read off the 80 bytes that are written of
it. -/
structure Chain.FixesHeader (chain : Chain) : Prop where
  size : chain.headerSize = 80
  reads : ∀ ahead header behind, chain.header ahead = some (header, behind) →
    ahead = chain.headerData header ++ behind ∧ chain.CarriesHeader header

namespace Headers

variable {chain : Chain} {version : UInt32}

/-- The pointer is advanced by a header and its trail. -/
def setHashes (chain : Chain) : List chain.Header → Bytes → List (HashedHeader chain)
  | [], _ => []
  | header :: headers, hash =>
    { header, hash := chain.bitcoinHash (hash.take chain.headerSize) } ::
      setHashes chain headers (hash.drop (chain.headerSize + 1))

/-- What is behind the headers is not looked at. -/
def deserializeData (chain : Chain) (version : UInt32) (data : Bytes) :
    Option (List (HashedHeader chain)) :=
  (deserialize chain version data).map fun read =>
    setHashes chain read.1.headers (data.drop (sizeVariable (data.headD 0)))

/-- The message without the hashes. -/
def ofHashed (headers : List (HashedHeader chain)) : Headers chain :=
  { headers := headers.map HashedHeader.header }

/-- What is read ahead of a header: the number of them, and so many of them. -/
def readAhead (chain : Chain) (version : UInt32) (count : ℕ) : Decoder (List chain.Header) := do
  let _ ← Kind.headers.checkVersion version
  let _ ← .size maxGetHeaders
  Decoder.times (readHeader chain) count

/-- The reader takes the header at the index off these bytes, and the hash is theirs. -/
def Cached (version : UInt32) (data : Bytes) (index : ℕ) (hashed : HashedHeader chain) : Prop :=
  ∃ headers bytes behind, readAhead chain version index data = some (headers, bytes ++ behind) ∧
    chain.header (bytes ++ behind) = some (hashed.header, behind) ∧
    bytes.length = 80 ∧ hashed.hash = chain.bitcoinHash bytes

/-! ### The reader -/

/-- The bytes of a header, and its trail. -/
def encode (chain : Chain) (header : chain.Header) : Bytes := chain.headerData header ++ [trail]

/-- A header with the hash of its bytes. -/
def hashed (chain : Chain) (header : chain.Header) : HashedHeader chain :=
  { header, hash := chain.bitcoinHash (chain.headerData header) }

theorem decodes_header {header : chain.Header} (h : chain.CarriesHeader header) :
    (readHeader chain).Decodes (encode chain header) header := by
  refine Decoder.Decodes.bind h.2 ?_
  intro behind
  rw [Decoder.bind_some (Decoder.decodes_byte trail behind), if_pos rfl]
  rfl

theorem readHeader_eq_some (hchain : chain.FixesHeader) {ahead behind : Bytes}
    {header : chain.Header} (h : readHeader chain ahead = some (header, behind)) :
    ahead = encode chain header ++ behind ∧ chain.CarriesHeader header := by
  obtain ⟨header', between, hheader, hrest⟩ := Decoder.bind_eq_some.mp h
  obtain ⟨last, between', hbyte, hlast⟩ := Decoder.bind_eq_some.mp hrest
  obtain ⟨rfl, hcarries⟩ := hchain.reads ahead header' between hheader
  cases between with
  | nil => cases hbyte
  | cons front between =>
    cases hbyte
    split at hlast
    · next htrail =>
      cases hlast
      refine ⟨?_, hcarries⟩
      rw [encode, List.append_assoc, htrail]
      rfl
    · cases hlast

theorem times_eq_some (hchain : chain.FixesHeader) {count : ℕ} {ahead behind : Bytes}
    {headers : List chain.Header}
    (h : Decoder.times (readHeader chain) count ahead = some (headers, behind)) :
    headers.length = count ∧ ahead = headers.flatMap (encode chain) ++ behind ∧
      ∀ header ∈ headers, chain.CarriesHeader header := by
  induction count generalizing ahead headers with
  | zero =>
    cases h
    exact ⟨rfl, rfl, nofun⟩
  | succ count ih =>
    obtain ⟨header, between, hheader, hrest⟩ := Decoder.bind_eq_some.mp h
    obtain ⟨headers', between', htimes, hpure⟩ := Decoder.bind_eq_some.mp hrest
    cases hpure
    obtain ⟨rfl, hcarries⟩ := readHeader_eq_some hchain hheader
    obtain ⟨rfl, rfl, hall⟩ := ih htimes
    refine ⟨rfl, ?_, ?_⟩
    · rw [List.flatMap_cons, List.append_assoc]
    · intro header' hmem
      rcases List.mem_cons.mp hmem with rfl | hmem
      · exact hcarries
      · exact hall header' hmem

theorem decodes_headers {headers : List chain.Header}
    (h : ∀ header ∈ headers, chain.CarriesHeader header) :
    (Decoder.times (readHeader chain) headers.length).Decodes (headers.flatMap (encode chain))
      headers :=
  Decoder.decodes_times fun header hmem => decodes_header (h header hmem)

/-- The number is behind the check of the version, and the headers are behind it. -/
theorem deserialize_eq_some (hchain : chain.FixesHeader) {data behind : Bytes}
    {message : Headers chain} (h : deserialize chain version data = some (message, behind)) :
    Kind.headers.Supports version ∧ message.Representable ∧
      (∀ count, readAhead chain version count data =
        Decoder.times (readHeader chain) count (data.drop (sizeVariable (data.headD 0)))) ∧
      data.drop (sizeVariable (data.headD 0)) = message.headers.flatMap (encode chain) ++ behind := by
  obtain ⟨_, data', hversion, hrest⟩ := Decoder.bind_eq_some.mp h
  unfold Kind.checkVersion at hversion
  split at hversion
  · cases hversion
  · next hin =>
    cases hversion
    rw [not_or, UInt32.not_lt, UInt32.not_lt] at hin
    obtain ⟨count, ahead, hsize, hrest⟩ := Decoder.bind_eq_some.mp hrest
    obtain ⟨headers, behind', htimes, hpure⟩ := Decoder.bind_eq_some.mp hrest
    cases hpure
    obtain ⟨hlimit, hahead⟩ := Decoder.size_drop hsize
    obtain ⟨rfl, hbytes, hall⟩ := times_eq_some hchain htimes
    refine ⟨hin, ⟨hlimit, hall⟩, ?_, ?_⟩
    · intro count
      unfold readAhead
      rw [Kind.checkVersion_eq hin, ← hahead, Decoder.bind_some (Decoder.pure_apply () data),
        Decoder.bind_some hsize]
    · rw [← hahead]
      exact hbytes

/-! ### The pointer -/

theorem setHashes_eq {headers : List chain.Header}
    (h : ∀ header ∈ headers, chain.CarriesHeader header) (behind : Bytes) :
    setHashes chain headers (headers.flatMap (encode chain) ++ behind) = headers.map (hashed chain) := by
  induction headers with
  | nil => rfl
  | cons header headers ih =>
    have hlength := (h header List.mem_cons_self).1
    have hencode : (encode chain header).length = chain.headerSize + 1 := by
      rw [encode, List.length_append, hlength]
      rfl
    rw [List.flatMap_cons, List.append_assoc]
    unfold setHashes
    rw [List.drop_left' hencode, ih fun other hmem => h other (List.mem_cons_of_mem _ hmem)]
    rw [encode, List.append_assoc, List.take_left' hlength]
    rfl

theorem deserializeData_eq (hchain : chain.FixesHeader) {data behind : Bytes}
    {message : Headers chain} (h : deserialize chain version data = some (message, behind)) :
    deserializeData chain version data = some (message.headers.map (hashed chain)) := by
  obtain ⟨-, hrepresentable, -, hbytes⟩ := deserialize_eq_some hchain h
  unfold deserializeData
  rw [h, Option.map_some, hbytes, setHashes_eq hrepresentable.carries]

theorem ofHashed_hashed (message : Headers chain) :
    ofHashed (message.headers.map (hashed chain)) = message := by
  unfold ofHashed
  rw [List.map_map]
  exact congrArg Headers.mk (List.map_id _)

/-- The reader is at the bytes of the header once those ahead of it are read. -/
theorem cached_hashed (hchain : chain.FixesHeader) {data behind : Bytes} {message : Headers chain}
    (h : deserialize chain version data = some (message, behind)) (index : ℕ)
    (hindex : index < message.headers.length) :
    Cached version data index (hashed chain message.headers[index]) := by
  obtain ⟨-, hrepresentable, hreads, hbytes⟩ := deserialize_eq_some hchain h
  have hsplit : message.headers =
      message.headers.take index ++ message.headers[index] :: message.headers.drop (index + 1) := by
    rw [List.getElem_cons_drop, List.take_append_drop]
  have hcarries := hrepresentable.carries _ (List.getElem_mem hindex)
  have htaken := @decodes_headers chain (message.headers.take index) fun header hmem =>
    hrepresentable.carries header (List.mem_of_mem_take hmem)
  rw [List.length_take_of_le (Nat.le_of_lt hindex)] at htaken
  refine ⟨message.headers.take index, chain.headerData message.headers[index],
    [trail] ++ ((message.headers.drop (index + 1)).flatMap (encode chain) ++ behind), ?_,
    hcarries.2 _, hcarries.1.trans hchain.size, rfl⟩
  rw [hreads, hbytes, ← htaken]
  congr 1
  conv_lhs => rw [hsplit]
  simp only [List.flatMap_append, List.flatMap_cons, encode, List.append_assoc]

/-- Each header has the hash of the bytes it is read off cached, and the headers are carried
in the size that is told. -/
theorem hashes_cached (hchain : chain.FixesHeader) (data : Bytes)
    (headers : List (HashedHeader chain)) (h : deserializeData chain version data = some headers) :
    (∀ index (hindex : index < headers.length), Cached version data index headers[index]) ∧
      ∃ bytes : Bytes, bytes.length = (ofHashed headers).size version ∧
        (∀ sink : Writer, Writes sink.view ((ofHashed headers).serialize version sink) bytes) ∧
        deserializeData chain version bytes = some headers := by
  obtain ⟨⟨message, behind⟩, hread, -⟩ := Option.map_eq_some_iff.mp h
  obtain ⟨hsupports, hrepresentable, -, -⟩ := deserialize_eq_some hchain hread
  rw [deserializeData_eq hchain hread] at h
  cases h
  constructor
  · intro index hindex
    rw [List.length_map] at hindex
    rw [List.getElem_map]
    exact cached_hashed hchain hread index hindex
  · obtain ⟨bytes, hsize, hwrites, hdecodes⟩ := coded hsupports hrepresentable
    have hwhole := hdecodes []
    rw [List.append_nil] at hwhole
    rw [ofHashed_hashed]
    exact ⟨bytes, hsize, hwrites, deserializeData_eq hchain hwhole⟩

theorem plainChain_carriesHeader (header : Vector UInt8 80) :
    Kind.plainChain.CarriesHeader header :=
  ⟨header.length_toList, Decoder.decodes_vector header⟩

theorem plainChain_fixesHeader : Kind.plainChain.FixesHeader where
  size := rfl
  reads := by
    intro ahead header behind h
    change Decoder.vector 80 ahead = some (header, behind) at h
    unfold Decoder.vector at h
    split at h
    · cases h
      exact ⟨(List.take_append_drop 80 ahead).symm, plainChain_carriesHeader _⟩
    · cases h

/-- One header behind a number of three bytes. -/
def longCount : Bytes := [0xfd, 1, 0] ++ List.replicate 80 7 ++ [trail]

theorem hashes_cached_long :
    deserializeData Kind.plainChain 70016 longCount =
        some [hashed Kind.plainChain (Vector.replicate 80 7)] ∧
      (∀ index (hindex : index < 1), Cached 70016 longCount index
        ([hashed Kind.plainChain (Vector.replicate 80 7)].get ⟨index, hindex⟩)) := by
  have hread : deserializeData Kind.plainChain 70016 longCount =
      some [hashed Kind.plainChain (Vector.replicate 80 7)] := rfl
  exact ⟨hread, (hashes_cached plainChain_fixesHeader longCount _ hread).1⟩

end Headers

end BitcoinNetwork.Peer
