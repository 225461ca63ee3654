import BitcoinNetwork.Binary.Bytes
import Mathlib.Data.List.Basic
import Mathlib.Data.List.TakeWhile

/-!
# Text of an http message (messages/http/parser.cpp, fields.cpp)

Characters are bytes. This module has the codes of `http_error_t` that parsing
sets, the character classes of the parser, the case insensitive comparison of
`fields.cpp`, and what is assumed of `system::split` for comma lists.
-/

namespace BitcoinNetwork.Http

abbrev Text := List UInt8

/-- The bytes of a source literal. -/
def ascii (s : String) : Text := s.toList.map fun c => c.toNat.toUInt8

/-- Codes set by the parser and by the contiguous body reader (`http_error_t`). -/
inductive HttpError where
  | endOfStream
  | partialMessage
  | needMore
  | bufferOverflow
  | headerLimit
  | bodyLimit
  | badLineEnding
  | badMethod
  | badTarget
  | badVersion
  | badStatus
  | badReason
  | badField
  | badValue
  | badContentLength
  | badTransferEncoding
  | badChunk
  | badChunkExtension
  | multipleContentLength
  deriving DecidableEq, Repr

/-! ### Character classes -/

def htab : UInt8 := 9
def lf : UInt8 := 10
def cr : UInt8 := 13
def sp : UInt8 := 32
def comma : UInt8 := 44
def colon : UInt8 := 58

/-- `line_end`. -/
def lineEnd : Text := [cr, lf]

def isDigit (c : UInt8) : Bool := 48 ≤ c && c ≤ 57

/-- `tchar` of rfc9110: digits, letters and ``!#$%&'*+-.^_`|~``. -/
def isTchar (c : UInt8) : Bool :=
  isDigit c || (97 ≤ c && c ≤ 122) || (65 ≤ c && c ≤ 90) ||
    [33, 35, 36, 37, 38, 39, 42, 43, 45, 46, 94, 95, 96, 124, 126].contains c

/-- Visible characters and obs-text. -/
def isTargetChar (c : UInt8) : Bool := 32 < c && c != 127

/-- Control characters other than horizontal tab. -/
def isControl (c : UInt8) : Bool := (c < 32 && c != htab) || c == 127

def isWhitespace (c : UInt8) : Bool := c == sp || c == htab

/-- `to_nibble`, where none is its negative result. -/
def toNibble (c : UInt8) : Option ℕ :=
  if isDigit c then some (c.toNat - 48)
  else if 97 ≤ c && c ≤ 102 then some (10 + (c.toNat - 97))
  else if 65 ≤ c && c ≤ 70 then some (10 + (c.toNat - 65))
  else none

theorem isTchar_not_whitespace {c : UInt8} : isTchar c = true → isWhitespace c = false :=
  Binary.forall_byte (P := fun c => isTchar c = true → isWhitespace c = false) (by decide +kernel) c

theorem isTchar_not_control {c : UInt8} : isTchar c = true → isControl c = false :=
  Binary.forall_byte (P := fun c => isTchar c = true → isControl c = false) (by decide +kernel) c

theorem isWhitespace_not_control {c : UInt8} : isWhitespace c = true → isControl c = false :=
  Binary.forall_byte (P := fun c => isWhitespace c = true → isControl c = false) (by decide +kernel) c

theorem isDigit_isTchar {c : UInt8} (h : isDigit c = true) : isTchar c = true := by
  simp only [isTchar, h, Bool.true_or]

/-! ### Comparison ignoring case -/

/-- `lower`. -/
def lower (c : UInt8) : UInt8 := if 65 ≤ c && c ≤ 90 then c + 32 else c

/-- Equal sizes and, character by character, equal in lower case. -/
def iequals (left right : Text) : Bool := left.map lower == right.map lower

theorem iequals_iff {left right : Text} :
    iequals left right = true ↔ left.map lower = right.map lower := by
  simp only [iequals, beq_iff_eq]

theorem iequals_refl (t : Text) : iequals t t = true := iequals_iff.mpr rfl

theorem iequals_comm (left right : Text) : iequals left right = iequals right left := by
  simp only [iequals, Bool.beq_comm]

theorem iequals_trans {a b c : Text} (hab : iequals a b = true) (hbc : iequals b c = true) :
    iequals a c = true := by
  rw [iequals_iff] at *
  exact hab.trans hbc

theorem iequals_congr_left {a b : Text} (h : iequals a b = true) (c : Text) :
    iequals a c = iequals b c := by
  rw [iequals_iff] at h
  simp only [iequals, h]

/-! ### Comma lists -/

/-- `value` without leading and trailing spaces and tabs. -/
def trim (value : Text) : Text :=
  ((value.dropWhile isWhitespace).reverse.dropWhile isWhitespace).reverse

/-- The text between commas, of which there is one more than of commas. -/
def commaPieces : Text → List Text
  | [] => [[]]
  | c :: rest =>
    if c = comma then [] :: commaPieces rest
    else match commaPieces rest with
      | [] => [[c]]
      | piece :: pieces => (c :: piece) :: pieces

/-- The items of a comma list (rfc9110 5.6.1, where empty elements do not count). -/
def listItems (value : Text) : List Text :=
  ((commaPieces value).map trim).filter (· ≠ [])

/-- What is assumed of `system::split(value, { "," }, http_whitespace)`: the
pieces between commas, trimmed of spaces and tabs, with the empty ones kept or
dropped. -/
def SplitsLists (split : Text → List Text) : Prop :=
  ∀ value, split value = (commaPieces value).map trim ∨ split value = listItems value

/-- A split that drops empty pieces. -/
theorem listItems_splits : SplitsLists listItems := fun _ => .inr rfl

theorem SplitsLists.mem_items {split : Text → List Text} (h : SplitsLists split)
    {value item : Text} (hm : item ∈ listItems value) : item ∈ split value := by
  rcases h value with hs | hs <;> rw [hs]
  · exact (List.mem_filter.mp hm).1
  · exact hm

theorem SplitsLists.items_of_mem {split : Text → List Text} (h : SplitsLists split)
    {value item : Text} (hm : item ∈ split value) (hne : item ≠ []) : item ∈ listItems value := by
  rcases h value with hs | hs <;> rw [hs] at hm
  · exact List.mem_filter.mpr ⟨hm, by simpa using hne⟩
  · exact hm

end BitcoinNetwork.Http
