import BitcoinNetwork.Http.Parser

/-!
# Accepted framing is unambiguous (messages/http/parser.cpp:301-545)

The fields of a message, and the trailer fields of a chunked one, are folded by
`frame_field` in the order of their lines. A fold without error leaves at most
one framing: the single number of every Content-Length, or that of the one
Transfer-Encoding, which is chunked when chunked is its last coding and occurs
in it once.
-/

namespace BitcoinNetwork.Http
open Incremental

/-- `frame_field` over fields, in the order of their lines. -/
def frameFields (split : Text → List Text) (frame : Framing) (fields : List (Text × Text)) :
    Except HttpError Framing :=
  fields.foldlM (fun frame field => frameField split frame (framingField field.1) field.2) frame

/-- `parse_field` of one field line after another. -/
inductive ParsesFields (split : Text → List Text) :
    Framing → Text → List (Text × Text) → Framing → Text → Prop where
  | nil {frame text} : ParsesFields split frame text [] frame text
  | cons {frame text name value mid rest fields frame' rest'}
      (field : parseField split frame text = .done (some (name, value), mid) rest)
      (tail : ParsesFields split mid rest fields frame' rest') :
      ParsesFields split frame text ((name, value) :: fields) frame' rest'

theorem ParsesFields.frameFields {split : Text → List Text} {frame frame' : Framing}
    {text rest : Text} {fields : List (Text × Text)}
    (h : ParsesFields split frame text fields frame' rest) :
    frameFields split frame fields = .ok frame' := by
  induction h with
  | nil => rfl
  | @cons frame text name value mid rest fields frame' rest' field _ ih =>
    obtain ⟨line, behind, -, hline⟩ := Element.bind_eq_done field
    have hframe : frameField split frame (framingField name) value = .ok mid := by
      match line with
      | none => cases hline
      | some (name', value') =>
        simp only at hline
        cases hf : frameField split frame (framingField name') value' with
        | error e => simp only [hf] at hline; cases hline
        | ok next =>
          simp only [hf, Element.pure_apply, Outcome.done.injEq, Prod.mk.injEq, Option.some.injEq]
            at hline
          obtain ⟨⟨⟨rfl, rfl⟩, rfl⟩, -⟩ := hline
          exact hf
    unfold Http.frameFields at ih ⊢
    rw [List.foldlM_cons, hframe]
    exact ih

/-! ### What the fields say -/

/-- A Content-Length field. -/
def IsLength (field : Text × Text) : Prop := iequals field.1 Field.contentLength.toString = true

/-- A Transfer-Encoding field. -/
def IsEncoding (field : Text × Text) : Prop :=
  iequals field.1 Field.transferEncoding.toString = true

instance : DecidablePred IsLength := fun _ => inferInstanceAs (Decidable (_ = _))
instance : DecidablePred IsEncoding := fun _ => inferInstanceAs (Decidable (_ = _))

/-- The codings contain chunked once and last. -/
def ChunkedLast (codings : List Text) : Prop :=
  ∃ front last, codings = front ++ [last] ∧ iequals last chunkedToken = true ∧
    ∀ coding ∈ front, iequals coding chunkedToken = false

/-- A number that a run of digits denotes, within 64 bits. -/
def Denotes (item : Text) (n : ℕ) : Prop :=
  item ≠ [] ∧ (∀ c ∈ item, isDigit c = true) ∧ decimal item = n ∧ n < 2 ^ 64

/-- The framing is the one that the fields of the message allow. -/
structure Unambiguous (fields : List (Text × Text)) (frame : Framing) : Prop where
  exclusive : ¬(frame.chunked = true ∧ frame.encoded = true) ∧
    (frame.length.isSome = true → frame.chunked = false ∧ frame.encoded = false)
  length : ∀ field ∈ fields, IsLength field → ∀ item ∈ listItems field.2,
    ∃ n, Denotes item n ∧ frame.length = some n
  length_of : ∀ n, frame.length = some n → ∃ field ∈ fields, IsLength field ∧
    ∃ item ∈ listItems field.2, Denotes item n
  encodings : (fields.filter (IsEncoding ·)).length ≤ 1
  chunked : frame.chunked = true ↔
    ∃ field ∈ fields, IsEncoding field ∧ ChunkedLast (listItems field.2)
  encoded : frame.encoded = true ↔
    ∃ field ∈ fields, IsEncoding field ∧ ¬ChunkedLast (listItems field.2)

/-- A framing field but Connection is told by its name alone. -/
theorem framingField_eq_iff {f : Field} (hf : f ≠ .unknown) (hc : f ≠ .connection)
    (hp : iequals (ascii "Proxy-Connection") f.toString = false) (name : Text) :
    framingField name = f ↔ iequals name f.toString = true := by
  unfold framingField
  split
  · rename_i hproxy
    rw [iequals_congr_left hproxy, hp]
    exact ⟨fun h => absurd h.symm hc, nofun⟩
  · exact toField_eq_iff hf

theorem framingField_length {field : Text × Text} :
    framingField field.1 = .contentLength ↔ IsLength field :=
  framingField_eq_iff (f := .contentLength) nofun nofun (by decide) field.1

theorem framingField_encoding {field : Text × Text} :
    framingField field.1 = .transferEncoding ↔ IsEncoding field :=
  framingField_eq_iff (f := .transferEncoding) nofun nofun (by decide) field.1

theorem Unambiguous.empty : Unambiguous [] {} where
  exclusive := ⟨nofun, nofun⟩
  length := nofun
  length_of := nofun
  encodings := Nat.zero_le _
  chunked := ⟨nofun, nofun⟩
  encoded := ⟨nofun, nofun⟩

/-! ### One field -/

theorem fromChars_whole {item : Text} {n : ℕ} (h : fromChars item = some (n, [])) :
    Denotes item n := by
  unfold fromChars at h
  simp only at h
  split at h
  · cases h
  rename_i hne
  split at h
  · cases h
  rename_i hlt
  simp only [Option.some.injEq, Prod.mk.injEq] at h
  have hall : item.takeWhile isDigit = item := by
    have hsplit := List.takeWhile_append_dropWhile (p := isDigit) (l := item)
    rwa [h.2, List.append_nil] at hsplit
  rw [hall] at h hne hlt
  refine ⟨hne, fun c hc => ?_, h.1, by omega⟩
  rw [← hall] at hc
  exact List.mem_takeWhile_imp hc

theorem frameLength_ok {frame frame' : Framing} {item : Text}
    (h : frameLength frame item = .ok frame') :
    ∃ n, Denotes item n ∧ (frame.length = none ∨ frame.length = some n) ∧
      frame' = { frame with length := some n } := by
  unfold frameLength at h
  split at h
  · rename_i c tail number next hchars
    split at h
    · cases h
    rename_i hdigits
    have hnext : next = [] := by
      by_contra hne
      exact hdigits (by simp [hne])
    rw [hnext] at hchars
    refine ⟨number, fromChars_whole hchars, ?_⟩
    split at h
    · rename_i length hlength
      split at h
      · cases h
      rename_i heq
      cases h
      exact ⟨.inr (by rw [hlength, not_not.mp heq]), rfl⟩
    · rename_i hlength
      cases h
      exact ⟨.inl hlength, rfl⟩
  · cases h

/-- The items of a Content-Length agree with each other and with those before. -/
theorem frameLengths_ok {items : List Text} {frame frame' : Framing}
    (h : items.foldlM frameLength frame = .ok frame') :
    frame'.chunked = frame.chunked ∧ frame'.encoded = frame.encoded ∧
      (∀ n, frame.length = some n → frame'.length = some n) ∧
      (∀ item ∈ items, ∃ n, Denotes item n ∧ frame'.length = some n) ∧
      (∀ n, frame'.length = some n → frame.length = some n ∨ ∃ item ∈ items, Denotes item n) := by
  induction items generalizing frame with
  | nil =>
    cases h
    exact ⟨rfl, rfl, fun _ h => h, nofun, fun _ h => .inl h⟩
  | cons item items ih =>
    rw [List.foldlM_cons] at h
    cases hitem : frameLength frame item with
    | error e => rw [hitem] at h; cases h
    | ok mid =>
      rw [hitem] at h
      obtain ⟨n, hdenotes, hbefore, rfl⟩ := frameLength_ok hitem
      obtain ⟨hchunked, hencoded, hkept, hitems, hof⟩ := ih h
      have hlength : frame'.length = some n := hkept n rfl
      refine ⟨hchunked, hencoded, fun m hm => ?_, fun i hi => ?_, fun m hm => ?_⟩
      · rcases hbefore with hb | hb
        · rw [hb] at hm
          cases hm
        · rw [hlength, ← hb, hm]
      · rcases List.mem_cons.mp hi with rfl | hi
        · exact ⟨n, hdenotes, hlength⟩
        · exact hitems i hi
      · rw [hlength, Option.some.injEq] at hm
        subst hm
        exact .inr ⟨item, List.mem_cons_self, hdenotes⟩

/-- The source finds the first chunked coding and asks whether it is the last. -/
theorem chunkedLast_iff (codings : List Text) :
    (match codings.dropWhile fun coding => !iequals coding chunkedToken with
      | [_] => true
      | _ => false) = true ↔ ChunkedLast codings := by
  constructor
  · intro h
    split at h
    · rename_i last hdrop
      refine ⟨codings.takeWhile fun coding => !iequals coding chunkedToken, last, ?_, ?_,
        fun coding hc => ?_⟩
      · rw [← hdrop]
        exact List.takeWhile_append_dropWhile.symm
      · have hhead := List.head?_dropWhile_not (fun coding => !iequals coding chunkedToken) codings
        rw [hdrop] at hhead
        simpa using hhead
      · simpa using List.mem_takeWhile_imp hc
    · cases h
  · rintro ⟨front, last, rfl, hlast, hfront⟩
    rw [List.dropWhile_append_of_pos fun coding hc => by simp [hfront coding hc],
      List.dropWhile_cons_of_neg (by simp [hlast])]

theorem exists_mem_concat {p : Text × Text → Prop} {fields : List (Text × Text)}
    {field : Text × Text} :
    (∃ f ∈ fields ++ [field], p f) ↔ (∃ f ∈ fields, p f) ∨ p field := by
  simp only [List.mem_append, List.mem_singleton, or_and_right, exists_or, exists_eq_left]

/-- A field that does not frame leaves what the fields say. -/
theorem Unambiguous.other {fields : List (Text × Text)} {frame : Framing}
    (h : Unambiguous fields frame) {field : Text × Text} (hl : ¬IsLength field)
    (he : ¬IsEncoding field) : Unambiguous (fields ++ [field]) frame where
  exclusive := h.exclusive
  length f hf hlen := by
    rcases List.mem_append.mp hf with hf | hf
    · exact h.length f hf hlen
    · rw [List.mem_singleton.mp hf] at hlen
      exact absurd hlen hl
  length_of n hn := by
    obtain ⟨f, hf, hrest⟩ := h.length_of n hn
    exact ⟨f, List.mem_append_left _ hf, hrest⟩
  encodings := by
    rw [List.filter_append, List.filter_singleton]
    simpa [he] using h.encodings
  chunked := by
    rw [exists_mem_concat, h.chunked]
    simp [he]
  encoded := by
    rw [exists_mem_concat, h.encoded]
    simp [he]

theorem not_isEncoding_of_isLength {field : Text × Text} (h : IsLength field) :
    ¬IsEncoding field := fun he => by
  have hname := (framingField_encoding.mpr he).symm.trans (framingField_length.mpr h)
  cases hname

/-- A Content-Length field that is folded. -/
theorem Unambiguous.contentLength {split : Text → List Text} (hs : SplitsLists split)
    {fields : List (Text × Text)} {frame frame' : Framing} (h : Unambiguous fields frame)
    {field : Text × Text} (hl : IsLength field) (hc : frame.chunked = false)
    (he : frame.encoded = false) (hf : (split field.2).foldlM frameLength frame = .ok frame') :
    Unambiguous (fields ++ [field]) frame' := by
  have hnot := not_isEncoding_of_isLength hl
  obtain ⟨hchunked, hencoded, hkept, hitems, hof⟩ := frameLengths_ok hf
  refine ⟨⟨fun hb => ?_, fun _ => ⟨hchunked.trans hc, hencoded.trans he⟩⟩, ?_, ?_, ?_, ?_, ?_⟩
  · rw [hchunked, hc] at hb
    cases hb.1
  · intro f hmem hlen item hitem
    rcases List.mem_append.mp hmem with hmem | hmem
    · obtain ⟨n, hn, hlength⟩ := h.length f hmem hlen item hitem
      exact ⟨n, hn, hkept n hlength⟩
    · rw [List.mem_singleton.mp hmem] at hitem
      exact hitems item (hs.mem_items hitem)
  · intro n hn
    rcases hof n hn with hbefore | ⟨item, hitem, hdenotes⟩
    · obtain ⟨f, hmem, hrest⟩ := h.length_of n hbefore
      exact ⟨f, List.mem_append_left _ hmem, hrest⟩
    · exact ⟨field, by simp, hl, item, hs.items_of_mem hitem hdenotes.1, hdenotes⟩
  · rw [List.filter_append, List.filter_singleton]
    simpa [hnot] using h.encodings
  · rw [exists_mem_concat, hchunked, h.chunked]
    simp [hnot]
  · rw [exists_mem_concat, hencoded, h.encoded]
    simp [hnot]

/-- A Transfer-Encoding field that is folded is the only one, and the only framing. -/
theorem Unambiguous.transferEncoding {fields : List (Text × Text)} {frame : Framing}
    (h : Unambiguous fields frame) {field : Text × Text} (he : IsEncoding field)
    (hc : frame.chunked = false) (hencoded : frame.encoded = false) (hl : frame.length = none)
    {chunked : Bool} (hlast : chunked = true ↔ ChunkedLast (listItems field.2)) :
    Unambiguous (fields ++ [field]) { frame with chunked := chunked, encoded := !chunked } := by
  have hnone : ∀ f ∈ fields, ¬IsEncoding f := fun f hmem hf => by
    by_cases hlast : ChunkedLast (listItems f.2)
    · have := h.chunked.mpr ⟨f, hmem, hf, hlast⟩
      rw [hc] at this
      cases this
    · have := h.encoded.mpr ⟨f, hmem, hf, hlast⟩
      rw [hencoded] at this
      cases this
  refine ⟨⟨fun hb => ?_, fun hsome => ?_⟩, ?_, ?_, ?_, ?_, ?_⟩
  · simp at hb
  · simp [hl] at hsome
  · intro f hmem hlen item hitem
    rcases List.mem_append.mp hmem with hmem | hmem
    · obtain ⟨n, -, hlength⟩ := h.length f hmem hlen item hitem
      rw [hl] at hlength
      cases hlength
    · rw [List.mem_singleton.mp hmem] at hlen
      exact absurd he (not_isEncoding_of_isLength hlen)
  · intro n hn
    rw [hl] at hn
    cases hn
  · have hfilter : fields.filter (IsEncoding ·) = [] :=
      List.filter_eq_nil_iff.mpr fun f hmem => by simpa using hnone f hmem
    rw [List.filter_append, hfilter]
    exact List.length_filter_le _ _
  · rw [exists_mem_concat]
    constructor
    · exact fun hchunked => .inr ⟨he, hlast.mp hchunked⟩
    · rintro (⟨f, hmem, hf, -⟩ | ⟨-, hl⟩)
      · exact absurd hf (hnone f hmem)
      · exact hlast.mpr hl
  · rw [exists_mem_concat]
    constructor
    · intro hnot
      refine .inr ⟨he, fun hl => ?_⟩
      rw [hlast.mpr hl] at hnot
      cases hnot
    · rintro (⟨f, hmem, hf, -⟩ | ⟨-, hl⟩)
      · exact absurd hf (hnone f hmem)
      · have hfalse : chunked = false := by
          by_contra hne
          exact hl (hlast.mp (by simpa using hne))
        simp [hfalse]

/-- A field that is folded without error keeps the framing unambiguous. -/
theorem Unambiguous.field {split : Text → List Text} (hs : SplitsLists split)
    {fields : List (Text × Text)} {frame frame' : Framing} (h : Unambiguous fields frame)
    {field : Text × Text}
    (hf : frameField split frame (framingField field.1) field.2 = .ok frame') :
    Unambiguous (fields ++ [field]) frame' := by
  unfold frameField at hf
  split at hf
  · rename_i hname
    split at hf
    · cases hf
      refine h.other (fun hl => ?_) fun he => ?_
      · rw [framingField_length.mpr hl] at hname
        cases hname
      · rw [framingField_encoding.mpr he] at hname
        cases hname
    · cases hf
  split at hf
  · rename_i hname
    split at hf
    · cases hf
    rename_i hfree
    simp only [Bool.or_eq_true, not_or, Bool.not_eq_true] at hfree
    exact h.contentLength hs (framingField_length.mp hname) hfree.1.1 hfree.1.2 hf
  split at hf
  · rename_i hname
    split at hf
    · cases hf
    rename_i hfree
    simp only [Bool.or_eq_true, not_or, Bool.not_eq_true, Option.isSome_eq_false_iff,
      Option.isNone_iff_eq_none] at hfree
    simp only at hf
    split at hf
    · cases hf
    rename_i hvalid
    simp only [Bool.or_eq_true, not_or, Bool.not_eq_true, Bool.not_eq_false'] at hvalid
    cases hf
    refine h.transferEncoding (framingField_encoding.mp hname) hfree.1.1 hfree.1.2 hfree.2 ?_
    rw [← (tokenList_items (by simpa using hvalid.1)).1]
    exact chunkedLast_iff _
  · rename_i hconnection hlength hencoding
    cases hf
    exact h.other (fun hl => hlength (framingField_length.mpr hl))
      fun he => hencoding (framingField_encoding.mpr he)

/-- A fold without error keeps the framing unambiguous. -/
theorem Unambiguous.fold {split : Text → List Text} (hs : SplitsLists split)
    {before fields : List (Text × Text)} {frame frame' : Framing} (h : Unambiguous before frame)
    (hf : frameFields split frame fields = .ok frame') : Unambiguous (before ++ fields) frame' := by
  induction fields generalizing before frame with
  | nil =>
    cases hf
    rwa [List.append_nil]
  | cons field fields ih =>
    unfold frameFields at hf ih
    rw [List.foldlM_cons] at hf
    cases hfield : frameField split frame (framingField field.1) field.2 with
    | error e => rw [hfield] at hf; cases hf
    | ok mid =>
      rw [hfield] at hf
      have hrest := ih (h.field hs hfield) hf
      rwa [List.append_assoc, List.singleton_append] at hrest

/-- A request with an encoding other than chunked is rejected. -/
theorem Unambiguous.finishHeader {fields : List (Text × Text)} {parser : Parser true}
    {config : ParserConfig} (h : Unambiguous fields parser.frame) (hskip : config.skip = false)
    {field : Text × Text} (hmem : field ∈ fields) (he : IsEncoding field)
    (hl : ¬ChunkedLast (listItems field.2)) :
    parser.finishHeader config = (parser, some .badTransferEncoding) := by
  have hencoded := h.encoded.mpr ⟨field, hmem, he, hl⟩
  have hchunked : parser.frame.chunked = false := by
    by_contra hc
    exact h.exclusive.1 ⟨by simpa using hc, hencoded⟩
  have hlength : parser.frame.length = none := by
    by_contra hc
    have := (h.exclusive.2 (Option.isSome_iff_ne_none.mpr hc)).2
    rw [hencoded] at this
    cases this
  have hbodiless : (config.skip || parser.message.header.bodiless) = false := by
    rw [hskip]
    rfl
  unfold Parser.finishHeader
  rw [hbodiless, hlength]
  simp only [Bool.false_eq_true, reduceIte, hchunked, hencoded]

/-- The header fields of a message, and the trailer fields of a chunked one, that are
parsed without error allow one framing of its body, which is the framing of the parse. A
request with a Transfer-Encoding that does not end with chunked is rejected. -/
theorem parsesFields_unambiguous {split : Text → List Text} (hs : SplitsLists split)
    {header trailer headerRest trailerRest : Text} {fields trailers : List (Text × Text)}
    {mid frame : Framing} (hfields : ParsesFields split {} header fields mid headerRest)
    (htrailers : mid.chunked = true ∧ ParsesFields split mid trailer trailers frame trailerRest ∨
      trailers = [] ∧ frame = mid) :
    Unambiguous (fields ++ trailers) frame ∧
      ∀ (config : ParserConfig) (parser : Parser true), config.skip = false →
        parser.frame = mid → (∃ field ∈ fields, IsEncoding field ∧
          ¬ChunkedLast (listItems field.2)) →
        parser.finishHeader config = (parser, some .badTransferEncoding) := by
  have hheader : Unambiguous fields mid := .fold hs .empty hfields.frameFields
  constructor
  · rcases htrailers with ⟨-, htrailers⟩ | ⟨rfl, rfl⟩
    · exact hheader.fold hs htrailers.frameFields
    · rwa [List.append_nil]
  · rintro config parser hskip rfl ⟨field, hmem, he, hl⟩
    exact hheader.finishHeader hskip hmem he hl

theorem parsesFields_unambiguous_chunked :
    Unambiguous ([(ascii "Transfer-Encoding", ascii "gzip, chunked")] ++ [(ascii "Digest", ascii "1")])
      { chunked := true } :=
  (@parsesFields_unambiguous _ listItems_splits
    (ascii "Transfer-Encoding: gzip, chunked\r\n\r\n") (ascii "Digest: 1\r\n\r\n") lineEnd lineEnd
    _ _ { chunked := true } _
    (.cons (by decide +kernel) .nil) (.inl ⟨rfl, .cons (by decide +kernel) .nil⟩)).1

end BitcoinNetwork.Http
