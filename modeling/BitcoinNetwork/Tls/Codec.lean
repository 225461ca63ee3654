import BitcoinNetwork.Binary.Bytes

/-!
# The presentation language of TLS (tls/codec.cpp)

A reader of length-prefixed vectors, which stays invalid once a read has failed,
and what the writer appends. A length that its prefix cannot hold is truncated
as it is narrowed, which the source asserts not to happen.
-/

namespace BitcoinNetwork.Tls
open Binary

abbrev Bytes := List UInt8

/-! ### Reader -/

/-- `reader`. -/
structure Reader where
  data : Bytes
  valid : Bool := true

namespace Reader

/-- `is_complete`. -/
def isComplete (reader : Reader) : Bool := reader.valid && reader.data.isEmpty

/-- `invalidate`. -/
def invalid : Reader := { data := [], valid := false }

/-- `read_bytes`. -/
def readBytes (reader : Reader) (size : ℕ) : Bytes × Reader :=
  if ¬reader.valid ∨ reader.data.length < size then ([], invalid)
  else (reader.data.take size, { reader with data := reader.data.drop size })

/-- `read_8`. -/
def read8 (reader : Reader) : UInt8 × Reader :=
  let read := reader.readBytes 1
  (read.1.headD 0, read.2)

/-- `read_16`. -/
def read16 (reader : Reader) : UInt16 × Reader :=
  let read := reader.readBytes 2
  (UInt16.ofNat (ofBytes read.1), read.2)

/-- `read_24`. -/
def read24 (reader : Reader) : ℕ × Reader :=
  let read := reader.readBytes 3
  (ofBytes read.1, read.2)

/-- `read_vector_8`. -/
def readVector8 (reader : Reader) : Bytes × Reader :=
  let size := reader.read8
  if size.2.valid then size.2.readBytes size.1.toNat else ([], size.2)

/-- `read_vector_16`. -/
def readVector16 (reader : Reader) : Bytes × Reader :=
  let size := reader.read16
  if size.2.valid then size.2.readBytes size.1.toNat else ([], size.2)

/-- `read_vector_24`. -/
def readVector24 (reader : Reader) : Bytes × Reader :=
  let size := reader.read24
  if size.2.valid then size.2.readBytes size.1 else ([], size.2)

/-- The loop of `read_list` over the bytes of the list. -/
def listLoop : ℕ → Reader → List UInt16 × Reader
  | 0, list => ([], list)
  | turns + 1, list =>
    if ¬list.valid ∨ list.isComplete then ([], list)
    else
      let value := list.read16
      let next := listLoop turns value.2
      (value.1 :: next.1, next.2)

/-- `read_list`, of the bytes that were read and the reader behind them. -/
def readList (read : Bytes × Reader) : List UInt16 × Reader :=
  if ¬read.2.valid then ([], read.2)
  else
    let list := listLoop (read.1.length + 1) { data := read.1 }
    if ¬list.2.valid then ([], invalid) else (list.1, read.2)

/-- `read_list_8`. -/
def readList8 (reader : Reader) : List UInt16 × Reader := readList reader.readVector8

/-- `read_list_16`. -/
def readList16 (reader : Reader) : List UInt16 × Reader := readList reader.readVector16

end Reader

/-! ### Writer -/

/-- `write_16`. -/
def write16 (value : UInt16) : Bytes := toBytes 2 value.toNat

/-- `write_vector_8`. -/
def writeVector8 (bytes : Bytes) : Bytes := toBytes 1 bytes.length ++ bytes

/-- `write_vector_16`. -/
def writeVector16 (bytes : Bytes) : Bytes := toBytes 2 bytes.length ++ bytes

/-- `write_vector_24`. -/
def writeVector24 (bytes : Bytes) : Bytes := toBytes 3 bytes.length ++ bytes

@[simp] theorem write16_length (value : UInt16) : (write16 value).length = 2 :=
  toBytes_length 2 _

@[simp] theorem writeVector8_length (bytes : Bytes) :
    (writeVector8 bytes).length = 1 + bytes.length := by
  rw [writeVector8, List.length_append, toBytes_length]

@[simp] theorem writeVector16_length (bytes : Bytes) :
    (writeVector16 bytes).length = 2 + bytes.length := by
  rw [writeVector16, List.length_append, toBytes_length]

@[simp] theorem writeVector24_length (bytes : Bytes) :
    (writeVector24 bytes).length = 3 + bytes.length := by
  rw [writeVector24, List.length_append, toBytes_length]

example : (Reader.readList8 { data := [4, 0x13, 0x01, 0x13, 0x03, 7] }).1 = [0x1301, 0x1303] := by
  decide

end BitcoinNetwork.Tls
