import BitcoinNetwork.Tls.Codec

/-!
# Readings and encodings (tls/codec.cpp)

A reading takes the bytes that an encoding writes of a value, and no other bytes. The rules
are for numbers, vectors behind their size, and the loops that read a vector to its end.
-/

namespace BitcoinNetwork.Tls
open Binary

/-! ### Encodings -/

/-- A list of two byte values behind a size of one byte. -/
def writeList8 (values : List UInt16) : Bytes := writeVector8 (values.flatMap write16)

/-- A list of two byte values behind a size of two bytes. -/
def writeList16 (values : List UInt16) : Bytes := writeVector16 (values.flatMap write16)

/-- A vector behind its type, as an extension or the share of a group. -/
def writeEntry (entry : UInt16 × Bytes) : Bytes := write16 entry.1 ++ writeVector16 entry.2

theorem flatMap_write16_length (values : List UInt16) :
    (values.flatMap write16).length = 2 * values.length := by
  induction values with
  | nil => rfl
  | cons value values ih =>
    rw [List.flatMap_cons, List.length_append, ih, write16_length, List.length_cons]
    omega

theorem write16_ne_nil (value : UInt16) : write16 value ≠ [] :=
  List.ne_nil_of_length_pos (by rw [write16_length]; exact Nat.two_pos)

theorem writeEntry_ne_nil (entry : UInt16 × Bytes) : writeEntry entry ≠ [] :=
  List.append_ne_nil_of_left_ne_nil (write16_ne_nil entry.1) _

theorem writeEntry_length (entry : UInt16 × Bytes) :
    (writeEntry entry).length = 4 + entry.2.length := by
  rw [writeEntry, List.length_append, write16_length, writeVector16_length]
  omega

/-! ### Readings -/

/-- A reading of the values that fit their encoding. -/
structure Reads {α : Type} (read : Reader → α × Reader) (encode : α → Bytes) (Fits : α → Prop) :
    Prop where
  complete (value : α) (rest : Bytes) (fits : Fits value) :
    read { data := encode value ++ rest } = (value, { data := rest })
  sound (reader : Reader) (valid : (read reader).2.valid = true) :
    Fits (read reader).1 ∧
      reader = { data := encode (read reader).1 ++ (read reader).2.data }

namespace Reads
variable {α β : Type} {read : Reader → α × Reader} {encode : α → Bytes} {Fits : α → Prop}

/-- A reader stays invalid. -/
theorem valid (h : Reads read encode Fits) {reader : Reader}
    (hvalid : (read reader).2.valid = true) : reader.valid = true := by
  rw [(h.sound reader hvalid).2]

/-- What is read to the end is the encoding. -/
theorem complete_end (h : Reads read encode Fits) {value : α} (fits : Fits value) :
    read { data := encode value } = (value, { data := [] }) := by
  have hread := h.complete value [] fits
  rwa [List.append_nil] at hread

theorem sound_end (h : Reads read encode Fits) {data : Bytes}
    (hcomplete : (read { data }).2.isComplete = true) :
    Fits (read { data }).1 ∧ data = encode (read { data }).1 := by
  obtain ⟨hvalid, hempty⟩ := Bool.and_eq_true_iff.mp hcomplete
  obtain ⟨hfits, hdata⟩ := h.sound _ hvalid
  rw [List.isEmpty_iff.mp hempty, List.append_nil] at hdata
  exact ⟨hfits, congrArg Reader.data hdata⟩

/-- A reading of values that stand for others. -/
theorem map (h : Reads read encode Fits) (f : α → β) {encode' : β → Bytes} {Fits' : β → Prop}
    (hencode : ∀ value, Fits value → Fits' (f value) ∧ encode' (f value) = encode value)
    (hfits : ∀ value', Fits' value' → ∃ value, Fits value ∧ f value = value') :
    Reads (fun reader => (f (read reader).1, (read reader).2)) encode' Fits' where
  complete value' rest fits := by
    obtain ⟨value, hvalue, rfl⟩ := hfits value' fits
    rw [(hencode value hvalue).2, h.complete value rest hvalue]
  sound reader valid := by
    obtain ⟨hvalue, hreader⟩ := h.sound reader valid
    refine ⟨(hencode _ hvalue).1, ?_⟩
    rw [(hencode _ hvalue).2]
    exact hreader

/-- One reading behind another. -/
theorem pair {read' : Reader → β × Reader} {encode' : β → Bytes} {Fits' : β → Prop}
    (h : Reads read encode Fits) (h' : Reads read' encode' Fits') :
    Reads (fun reader => (((read reader).1, (read' (read reader).2).1), (read' (read reader).2).2))
      (fun value => encode value.1 ++ encode' value.2)
      (fun value => Fits value.1 ∧ Fits' value.2) where
  complete value rest fits := by
    rw [List.append_assoc, h.complete value.1 _ fits.1, h'.complete value.2 rest fits.2]
  sound reader valid := by
    obtain ⟨hfits', hsecond⟩ := h'.sound _ valid
    obtain ⟨hfits, hfirst⟩ := h.sound reader (h'.valid valid)
    refine ⟨⟨hfits, hfits'⟩, ?_⟩
    rw [List.append_assoc]
    exact hfirst.trans (congrArg (fun data : Bytes =>
      ({ data := encode (read reader).1 ++ data } : Reader)) (congrArg Reader.data hsecond))

end Reads

/-- A reader of some bytes is read from. -/
theorem reader_open {bytes : Bytes} (h : bytes ≠ []) (rest : Bytes) :
    ¬(¬true = true ∨ ({ data := bytes ++ rest } : Reader).isComplete = true) := by
  rintro (hinvalid | hcomplete)
  · exact hinvalid rfl
  · exact List.append_ne_nil_of_left_ne_nil h rest (List.isEmpty_iff.mp hcomplete)

/-! ### Numbers and vectors -/

theorem reads_bytes (size : ℕ) : Reads (·.readBytes size) id (·.length = size) where
  complete value rest fits := by
    subst fits
    have hlong : ¬(value ++ rest).length < value.length := by
      rw [List.length_append]
      exact Nat.not_lt.mpr (Nat.le_add_right _ _)
    simp only [Reader.readBytes, id_eq, not_true_eq_false, false_or, if_neg hlong, List.take_left,
      List.drop_left]
  sound reader valid := by
    unfold Reader.readBytes at valid ⊢
    split at valid
    · cases valid
    · rename_i hlong
      rw [if_neg hlong]
      obtain ⟨hvalid, hlength⟩ := not_or.mp hlong
      refine ⟨List.length_take_of_le (not_lt.mp hlength), ?_⟩
      rw [id_eq, List.take_append_drop]
      exact congrArg (Reader.mk reader.data) (not_not.mp hvalid)

/-- A number of some bytes. -/
def readNumber (size : ℕ) (reader : Reader) : ℕ × Reader :=
  (ofBytes (reader.readBytes size).1, (reader.readBytes size).2)

theorem reads_number (size : ℕ) : Reads (readNumber size) (toBytes size) (· < 256 ^ size) := by
  refine (reads_bytes size).map ofBytes (fun value hsize => ?_) (fun number hfits => ?_)
  · subst hsize
    exact ⟨ofBytes_lt value, toBytes_ofBytes value⟩
  · exact ⟨toBytes size number, toBytes_length size number, ofBytes_toBytes hfits⟩

theorem reads_read16 : Reads Reader.read16 write16 fun _ => True := by
  refine (reads_number 2).map UInt16.ofNat (fun number hfits => ⟨trivial, ?_⟩)
    (fun value _ => ⟨value.toNat, value.toNat_lt, UInt16.ofNat_toNat⟩)
  rw [write16, UInt16.toNat_ofNat_of_lt' hfits]

/-- The bytes behind their number. -/
theorem reads_vector {read : Reader → ℕ × Reader} {encode : ℕ → Bytes} {Fits : ℕ → Prop}
    (h : Reads read encode Fits) :
    Reads (fun reader => if (read reader).2.valid then (read reader).2.readBytes (read reader).1
      else ([], (read reader).2)) (fun bytes => encode bytes.length ++ bytes)
      (fun bytes => Fits bytes.length) where
  complete bytes rest fits := by
    rw [List.append_assoc, h.complete _ _ fits]
    exact (reads_bytes bytes.length).complete bytes rest rfl
  sound reader valid := by
    by_cases hsize : (read reader).2.valid = true
    · simp only [hsize, reduceIte] at valid ⊢
      obtain ⟨hfits, hfirst⟩ := h.sound reader hsize
      obtain ⟨hlength, hsecond⟩ := (reads_bytes _).sound _ valid
      rw [hlength]
      refine ⟨hfits, hfirst.trans ?_⟩
      rw [List.append_assoc]
      exact congrArg (fun data : Bytes => ({ data := encode (read reader).1 ++ data } : Reader))
        (congrArg Reader.data hsecond)
    · simp only [hsize, Bool.false_eq_true, reduceIte] at valid

theorem read8_toNat (reader : Reader) :
    (reader.read8.1.toNat, reader.read8.2) = readNumber 1 reader := by
  unfold Reader.read8 readNumber Reader.readBytes
  split
  · rfl
  · cases reader.data with
    | nil => rfl
    | cons byte data =>
      simp only [List.take_succ_cons, List.take_zero, List.headD_cons]
      rw [ofBytes, List.foldl_cons, List.foldl_nil, Nat.zero_mul, Nat.zero_add]

theorem read16_toNat (reader : Reader) :
    (reader.read16.1.toNat, reader.read16.2) = readNumber 2 reader := by
  refine Prod.ext ?_ rfl
  refine UInt16.toNat_ofNat_of_lt' ?_
  have hlt := ofBytes_lt (reader.readBytes 2).1
  have hlength : (reader.readBytes 2).1.length ≤ 2 := by
    unfold Reader.readBytes
    split
    · exact Nat.zero_le 2
    · exact List.length_take_le 2 _
  exact hlt.trans_le (Nat.pow_le_pow_right (by decide) hlength)

theorem reads_vector8 : Reads Reader.readVector8 writeVector8 (·.length < 256) := by
  have heq : Reader.readVector8 = fun reader =>
      if (readNumber 1 reader).2.valid then (readNumber 1 reader).2.readBytes (readNumber 1 reader).1
      else ([], (readNumber 1 reader).2) := by
    funext reader
    rw [← read8_toNat]
    rfl
  rw [heq]
  exact reads_vector (reads_number 1)

theorem reads_vector16 : Reads Reader.readVector16 writeVector16 (·.length < 65536) := by
  have heq : Reader.readVector16 = fun reader =>
      if (readNumber 2 reader).2.valid then (readNumber 2 reader).2.readBytes (readNumber 2 reader).1
      else ([], (readNumber 2 reader).2) := by
    funext reader
    rw [← read16_toNat]
    rfl
  rw [heq]
  exact reads_vector (reads_number 2)

/-- A type and a vector. -/
def readEntry (reader : Reader) : (UInt16 × Bytes) × Reader :=
  ((reader.read16.1, reader.read16.2.readVector16.1), reader.read16.2.readVector16.2)

theorem reads_entry : Reads readEntry writeEntry (True ∧ ·.2.length < 65536) :=
  reads_read16.pair reads_vector16

/-! ### Loops to the end -/

section Loops
variable {α : Type} {read : Reader → α × Reader} {encode : α → Bytes} {Fits : α → Prop}

/-- The loop of a reading to the end. -/
def readAll (read : Reader → α × Reader) : ℕ → Reader → List α × Reader
  | 0, list => ([], list)
  | turns + 1, list =>
    if ¬list.valid ∨ list.isComplete then ([], list)
    else
      let value := read list
      let next := readAll read turns value.2
      (value.1 :: next.1, next.2)

theorem readAll_complete (h : Reads read encode Fits) (hencode : ∀ value, encode value ≠ [])
    {values : List α} (hfits : ∀ value ∈ values, Fits value) {turns : ℕ}
    (hturns : (values.flatMap encode).length < turns) :
    readAll read turns { data := values.flatMap encode } = (values, { data := [] }) := by
  induction values generalizing turns with
  | nil =>
    cases turns with
    | zero => exact absurd hturns (Nat.not_lt_zero _)
    | succ turns => rfl
  | cons value values ih =>
    cases turns with
    | zero => exact absurd hturns (Nat.not_lt_zero _)
    | succ turns =>
      have hnonempty := List.length_pos_of_ne_nil (hencode value)
      rw [List.flatMap_cons] at hturns ⊢
      rw [List.length_append] at hturns
      rw [readAll, if_neg (reader_open (hencode value) _), h.complete value _ (hfits value List.mem_cons_self)]
      dsimp only
      rw [ih (fun later hlater => hfits later (List.mem_cons_of_mem _ hlater)) (by omega)]

theorem readAll_sound (h : Reads read encode Fits) (hencode : ∀ value, encode value ≠ []) {turns : ℕ}
    {reader : Reader} (hturns : reader.data.length < turns)
    (hvalid : (readAll read turns reader).2.valid = true) :
    (∀ value ∈ (readAll read turns reader).1, Fits value) ∧
      reader = { data := (readAll read turns reader).1.flatMap encode } := by
  induction turns generalizing reader with
  | zero => exact absurd hturns (Nat.not_lt_zero _)
  | succ turns ih =>
    rw [readAll] at hvalid ⊢
    split at hvalid
    · rename_i hended
      rw [if_pos hended]
      refine ⟨nofun, ?_⟩
      have hcomplete := hended.resolve_left (not_not.mpr hvalid)
      obtain ⟨-, hempty⟩ := Bool.and_eq_true_iff.mp hcomplete
      obtain ⟨data, valid⟩ := reader
      obtain rfl : valid = true := hvalid
      obtain rfl : data = [] := List.isEmpty_iff.mp hempty
      rfl
    · rename_i hopen
      rw [if_neg hopen]
      have hread : (read reader).2.valid = true := by
        by_contra hinvalid
        cases turns with
        | zero => exact hinvalid hvalid
        | succ turns =>
          dsimp only at hvalid
          rw [readAll, if_pos (.inl hinvalid)] at hvalid
          exact hinvalid hvalid
      obtain ⟨hfits, hreader⟩ := h.sound reader hread
      have hshorter : (read reader).2.data.length < turns := by
        have hnonempty := List.length_pos_of_ne_nil (hencode (read reader).1)
        rw [hreader] at hturns
        dsimp only at hturns
        rw [List.length_append] at hturns
        omega
      obtain ⟨hrest, hdata⟩ := ih hshorter hvalid
      refine ⟨List.forall_mem_cons.mpr ⟨hfits, hrest⟩, hreader.trans ?_⟩
      rw [List.flatMap_cons]
      exact congrArg (fun data : Bytes => ({ data := encode (read reader).1 ++ data } : Reader))
        (congrArg Reader.data hdata)

end Loops

theorem listLoop_eq (turns : ℕ) (list : Reader) :
    Reader.listLoop turns list = readAll Reader.read16 turns list := by
  induction turns generalizing list with
  | zero => rfl
  | succ turns ih =>
    rw [Reader.listLoop, readAll]
    split
    · rfl
    · dsimp only
      rw [ih]

/-- The list of a vector is read to the end of the vector. -/
theorem reads_list {read : Reader → Bytes × Reader} {encode : Bytes → Bytes} {bound : ℕ}
    (h : Reads read encode (·.length < bound)) :
    Reads (fun reader => Reader.readList (read reader)) (fun values => encode (values.flatMap write16))
      (2 * ·.length < bound) where
  complete values rest fits := by
    have hlength := flatMap_write16_length values
    rw [h.complete _ rest (by rw [hlength]; exact fits)]
    unfold Reader.readList
    rw [listLoop_eq, readAll_complete reads_read16 write16_ne_nil (fun _ _ => trivial)
      (Nat.lt_succ_self _)]
    rfl
  sound reader valid := by
    unfold Reader.readList at valid ⊢
    split at valid
    · rename_i hinvalid
      exact absurd valid hinvalid
    · rename_i hread
      rw [if_neg hread]
      dsimp only at valid ⊢
      split at valid
      · cases valid
      · rename_i hlist
        rw [if_neg hlist]
        obtain ⟨hfits, hreader⟩ := h.sound reader (not_not.mp hread)
        rw [listLoop_eq] at hlist ⊢
        obtain ⟨-, hdata⟩ := readAll_sound reads_read16 write16_ne_nil (Nat.lt_succ_self _)
          (not_not.mp hlist)
        have hbytes := congrArg Reader.data hdata
        dsimp only at hbytes ⊢
        rw [← hbytes]
        refine ⟨?_, hreader⟩
        rwa [← flatMap_write16_length, ← hbytes]

theorem reads_list8 : Reads Reader.readList8 writeList8 (2 * ·.length < 256) :=
  reads_list reads_vector8

theorem reads_list16 : Reads Reader.readList16 writeList16 (2 * ·.length < 65536) :=
  reads_list reads_vector16

end BitcoinNetwork.Tls
