import BitcoinNetwork.Http.Text
import Mathlib.Data.List.Sublists

/-!
# Header fields (messages/http/fields.cpp, enums/field.cpp)

Fields are kept in serialization order with the values of one name adjacent,
names being compared ignoring case. Both facts the constructors rely on are
fields of the structure, so that every list of fields built here has them.
-/

namespace BitcoinNetwork.Http

/-- Header field names, those not enumerated are unknown. -/
inductive Field where
  | unknown
  | accept
  | accessControlAllowHeaders
  | accessControlAllowMethods
  | accessControlAllowOrigin
  | accessControlMaxAge
  | accessControlRequestHeaders
  | accessControlRequestMethod
  | authorization
  | connection
  | contentDisposition
  | contentLength
  | contentType
  | date
  | host
  | keepAlive
  | location
  | origin
  | secWebsocketAccept
  | secWebsocketExtensions
  | secWebsocketKey
  | secWebsocketProtocol
  | secWebsocketVersion
  | server
  | transferEncoding
  | upgrade
  | userAgent
  | vary
  deriving DecidableEq, Repr

/-- `field_names`. -/
def fieldNames : List (Field × Text) := [
  (.accept, ascii "Accept"),
  (.accessControlAllowHeaders, ascii "Access-Control-Allow-Headers"),
  (.accessControlAllowMethods, ascii "Access-Control-Allow-Methods"),
  (.accessControlAllowOrigin, ascii "Access-Control-Allow-Origin"),
  (.accessControlMaxAge, ascii "Access-Control-Max-Age"),
  (.accessControlRequestHeaders, ascii "Access-Control-Request-Headers"),
  (.accessControlRequestMethod, ascii "Access-Control-Request-Method"),
  (.authorization, ascii "Authorization"),
  (.connection, ascii "Connection"),
  (.contentDisposition, ascii "Content-Disposition"),
  (.contentLength, ascii "Content-Length"),
  (.contentType, ascii "Content-Type"),
  (.date, ascii "Date"),
  (.host, ascii "Host"),
  (.keepAlive, ascii "Keep-Alive"),
  (.location, ascii "Location"),
  (.origin, ascii "Origin"),
  (.secWebsocketAccept, ascii "Sec-WebSocket-Accept"),
  (.secWebsocketExtensions, ascii "Sec-WebSocket-Extensions"),
  (.secWebsocketKey, ascii "Sec-WebSocket-Key"),
  (.secWebsocketProtocol, ascii "Sec-WebSocket-Protocol"),
  (.secWebsocketVersion, ascii "Sec-WebSocket-Version"),
  (.server, ascii "Server"),
  (.transferEncoding, ascii "Transfer-Encoding"),
  (.upgrade, ascii "Upgrade"),
  (.userAgent, ascii "User-Agent"),
  (.vary, ascii "Vary")]

/-- `to_field`: the field of the name, or unknown. -/
def toField (name : Text) : Field :=
  match fieldNames.find? fun item => iequals item.2 name with
  | some item => item.1
  | none => .unknown

/-- `to_string`: the canonical name of the field, empty for unknown. -/
def Field.toString (name : Field) : Text :=
  match fieldNames.find? fun item => item.1 == name with
  | some item => item.2
  | none => []

theorem toField_toString (name : Field) : toField name.toString = name := by
  cases name <;> decide

theorem toField_congr {a b : Text} (h : iequals a b = true) : toField a = toField b := by
  have hf : (fun item : Field × Text => iequals item.2 a)
      = fun item => iequals item.2 b := by
    funext item
    rw [iequals_comm item.2 a, iequals_comm item.2 b, iequals_congr_left h]
  simp only [toField, hf]

/-- A name has an enumerated field exactly when it is its canonical name, ignoring case. -/
theorem toField_eq_iff {name : Text} {f : Field} (hf : f ≠ .unknown) :
    toField name = f ↔ iequals name f.toString = true := by
  constructor
  · intro h
    unfold toField at h
    split at h
    · rename_i item hitem
      have hmem := List.mem_of_find?_eq_some hitem
      have hname := List.find?_some hitem
      have hstr : ∀ x ∈ fieldNames, x.1.toString = x.2 := by decide
      rw [← h, hstr item hmem, iequals_comm]
      exact hname
    · exact absurd h.symm hf
  · intro h
    rw [toField_congr h, toField_toString]

/-! ### Entries -/

/-- `fields::entry`. -/
structure Entry where
  id : Field
  name : Text
  value : Text
  deriving DecidableEq, Repr

def Same (a b : Entry) : Prop := iequals a.name b.name = true

instance (a b : Entry) : Decidable (Same a b) := inferInstanceAs (Decidable (_ = true))

theorem Same.refl (a : Entry) : Same a a := iequals_refl _

theorem Same.symm {a b : Entry} (h : Same a b) : Same b a := by
  unfold Same at *
  rwa [iequals_comm]

theorem Same.trans {a b c : Entry} (hab : Same a b) (hbc : Same b c) : Same a c :=
  iequals_trans hab hbc

/-- What stands between two values of one name is a value of that name. -/
def Grouped (entries : List Entry) : Prop :=
  ∀ a b c, [a, b, c].Sublist entries → Same a c → Same a b

theorem Grouped.sublist {xs ys : List Entry} (h : Grouped ys) (hs : xs.Sublist ys) :
    Grouped xs := fun a b c hsub => h a b c (hsub.trans hs)

/-- The entries behind the last one of the name. -/
def behind (entries : List Entry) (e : Entry) : List Entry :=
  (entries.reverse.takeWhile fun x => !iequals x.name e.name).reverse

/-- `fields::add`: behind the last value of the name, or at the end. -/
def addEntry (entries : List Entry) (e : Entry) : List Entry :=
  if entries.any fun x => iequals x.name e.name then
    entries.take (entries.length - (behind entries e).length) ++ e :: behind entries e
  else entries ++ [e]

/-- Either the name is new, or the entries end in a value of it and others. -/
theorem addEntry_cases (entries : List Entry) (e : Entry) :
    ((∀ x ∈ entries, ¬Same x e) ∧ addEntry entries e = entries ++ [e]) ∨
    ∃ front x back, entries = front ++ x :: back ∧ Same x e ∧ (∀ y ∈ back, ¬Same y e) ∧
      addEntry entries e = front ++ x :: e :: back := by
  by_cases hany : (entries.any fun x => iequals x.name e.name) = true
  · right
    have hsplit := List.takeWhile_append_dropWhile
      (p := fun x : Entry => !iequals x.name e.name) (l := entries.reverse)
    have hne : entries.reverse.dropWhile (fun x => !iequals x.name e.name) ≠ [] := by
      intro hnil
      rw [List.dropWhile_eq_nil_iff] at hnil
      obtain ⟨x, hx, hs⟩ := List.any_eq_true.mp hany
      have := hnil x (List.mem_reverse.mpr hx)
      simp [hs] at this
    obtain ⟨x, t, hxt⟩ := List.exists_cons_of_ne_nil hne
    have hx : Same x e := by
      have hhead := List.head?_dropWhile_not (fun x : Entry => !iequals x.name e.name)
        entries.reverse
      rw [hxt] at hhead
      simpa [Same] using hhead
    have hentries : entries = t.reverse ++ x :: behind entries e := by
      have := congrArg List.reverse hsplit
      rw [hxt, List.reverse_append, List.reverse_reverse, List.reverse_cons,
        List.append_assoc] at this
      exact this.symm
    refine ⟨t.reverse, x, behind entries e, hentries, hx, ?_, ?_⟩
    · intro y hy hs
      rw [behind, List.mem_reverse] at hy
      have := List.mem_takeWhile_imp hy
      simp [show iequals y.name e.name = true from hs] at this
    · have hlen := congrArg List.length hentries
      simp only [List.length_append, List.length_cons] at hlen
      have htake : entries.take (entries.length - (behind entries e).length)
          = t.reverse ++ [x] := by
        have hk : entries.length - (behind entries e).length = (t.reverse ++ [x]).length := by
          simp only [List.length_append, List.length_singleton]
          omega
        have happ : t.reverse ++ x :: behind entries e
            = (t.reverse ++ [x]) ++ behind entries e := by
          rw [List.append_assoc, List.singleton_append]
        rw [hk]
        conv => lhs; rw [hentries, happ]
        exact List.take_left' rfl
      rw [addEntry, if_pos hany, htake, List.append_assoc, List.singleton_append]
  · left
    refine ⟨fun x hx hs => hany (List.any_eq_true.mpr ⟨x, hx, hs⟩), ?_⟩
    rw [addEntry, if_neg hany]

theorem mem_addEntry {entries : List Entry} {e x : Entry} :
    x ∈ addEntry entries e ↔ x = e ∨ x ∈ entries := by
  rcases addEntry_cases entries e with ⟨_, h⟩ | ⟨front, y, back, hentries, _, _, h⟩
  · rw [h, List.mem_append, List.mem_singleton, or_comm]
  · rw [h, hentries]
    simp only [List.mem_append, List.mem_cons]
    tauto

/-- An entry put behind one of its name keeps the groups. -/
theorem grouped_insert {front back : List Entry} {x e : Entry}
    (h : Grouped (front ++ x :: back)) (hx : Same x e) : Grouped (front ++ x :: e :: back) := by
  intro a b c hsub hac
  have hsplit : front ++ x :: e :: back = (front ++ [x]) ++ (e :: back) := by simp
  have hold : front ++ x :: back = (front ++ [x]) ++ back := by simp
  rw [hsplit, List.sublist_append_iff] at hsub
  obtain ⟨l, r, habc, hl, hr⟩ := hsub
  rcases List.sublist_cons_iff.mp hr with hr | ⟨n, rfl, hn⟩
  · -- the triple does not use the new entry
    exact h a b c (by rw [habc, hold]; exact hl.append hr) hac
  · match l, habc with
    | [], habc =>
      simp only [List.nil_append, List.cons.injEq] at habc
      obtain ⟨rfl, rfl⟩ := habc
      have hxb : Same x b := h x b c
        ((hn.cons_cons x).trans (List.sublist_append_right front (x :: back))) (hx.trans hac)
      exact hx.symm.trans hxb
    | [y], habc =>
      simp only [List.cons_append, List.nil_append, List.cons.injEq] at habc
      obtain ⟨rfl, rfl, rfl⟩ := habc
      rcases List.mem_append.mp (List.singleton_sublist.mp hl) with hy | hy
      · have hay : Same a x := h a x c
          ((List.singleton_sublist.mpr hy).append (hn.cons_cons x)) hac
        exact hay.trans hx
      · rw [List.mem_singleton.mp hy]
        exact hx
    | [y, z], habc =>
      simp only [List.cons_append, List.nil_append, List.cons.injEq] at habc
      obtain ⟨rfl, rfl, rfl, _⟩ := habc
      have hax : Same a x := hac.trans hx.symm
      rcases List.sublist_append_iff.mp hl with ⟨u, v, huv, hu, hv⟩
      rcases List.sublist_singleton.mp hv with rfl | rfl
      · rw [List.append_nil] at huv
        have htriple : ([a, b] ++ [x]).Sublist (front ++ x :: back) := by
          rw [hold, huv]
          exact (hu.append (List.Sublist.refl [x])).trans (List.sublist_append_left _ _)
        exact h a b x htriple hax
      · have hb : b = x := by
          have := congrArg List.getLast? huv
          simpa using this
        rw [hb]
        exact hax
    | y :: z :: w :: t, habc =>
      have := congrArg List.length habc
      simp only [List.length_append, List.length_cons, List.length_nil] at this
      omega

theorem grouped_append {entries : List Entry} {e : Entry} (h : Grouped entries)
    (hnew : ∀ x ∈ entries, ¬Same x e) : Grouped (entries ++ [e]) := by
  intro a b c hsub hac
  rcases List.sublist_append_iff.mp hsub with ⟨l, r, habc, hl, hr⟩
  rcases List.sublist_singleton.mp hr with rfl | rfl
  · exact h a b c (by rw [habc, List.append_nil]; exact hl) hac
  · have hc : c = e := by
      have := congrArg List.getLast? habc
      simpa using this
    have hl2 : l = [a, b] := by
      have := congrArg List.dropLast habc
      simpa using this.symm
    have ha : a ∈ entries := hl.subset (by rw [hl2]; exact List.mem_cons_self)
    exact absurd (hc ▸ hac) (hnew a ha)

theorem Grouped.add {entries : List Entry} (h : Grouped entries) (e : Entry) :
    Grouped (addEntry entries e) := by
  rcases addEntry_cases entries e with ⟨hnew, heq⟩ | ⟨front, x, back, hentries, hx, _, heq⟩
  · rw [heq]
    exact grouped_append h hnew
  · rw [heq]
    exact grouped_insert (hentries ▸ h) hx

/-- Adding the next entry of a grouped list to those in front of it appends it. -/
theorem addEntry_of_grouped {entries : List Entry} {e : Entry} (h : Grouped (entries ++ [e])) :
    addEntry entries e = entries ++ [e] := by
  rcases addEntry_cases entries e with ⟨_, heq⟩ | ⟨front, x, back, hentries, hx, hback, heq⟩
  · exact heq
  · have hnil : back = [] := by
      cases back with
      | nil => rfl
      | cons y t =>
        have hsub : [x, y, e].Sublist (entries ++ [e]) := by
          rw [hentries, List.append_assoc, List.cons_append, List.cons_append]
          exact ((List.singleton_sublist.mpr (List.mem_append_right t
            (List.mem_singleton_self e))).cons_cons y |>.cons_cons x).trans
              (List.sublist_append_right front _)
        exact absurd ((h x y e hsub hx).symm.trans hx) (hback y List.mem_cons_self)
    rw [heq, hentries, hnil]
    simp

/-! ### Fields -/

/-- `fields`. -/
structure Fields where
  entries : List Entry
  grouped : Grouped entries
  ids : ∀ e ∈ entries, e.id = toField e.name
  deriving DecidableEq

namespace Fields

theorem ext_entries {a b : Fields} (h : a.entries = b.entries) : a = b := by
  cases a
  cases b
  cases h
  rfl

def empty : Fields where
  entries := []
  grouped _ _ _ h _ := by cases h
  ids _ h := by cases h

/-- `insert(name, value)`: add a value behind any of the name. -/
def insert (fields : Fields) (name value : Text) : Fields where
  entries := addEntry fields.entries ⟨toField name, name, value⟩
  grouped := fields.grouped.add _
  ids e he := by
    rcases mem_addEntry.mp he with rfl | he
    · rfl
    · exact fields.ids e he

/-- `erase(name)`. -/
def erase (fields : Fields) (name : Text) : Fields where
  entries := fields.entries.filter fun x => !iequals x.name name
  grouped := fields.grouped.sublist List.filter_sublist
  ids e he := fields.ids e (List.mem_filter.mp he).1

/-- `set(name, value)`: replace all of the name with one value. -/
def set (fields : Fields) (name value : Text) : Fields := (fields.erase name).insert name value

/-- `insert(field, value)`, whose entry has the field itself for id. -/
def insertField (fields : Fields) (name : Field) (value : Text) : Fields where
  entries := addEntry fields.entries ⟨name, name.toString, value⟩
  grouped := fields.grouped.add _
  ids e he := by
    rcases mem_addEntry.mp he with rfl | he
    · exact (toField_toString name).symm
    · exact fields.ids e he

def eraseField (fields : Fields) (name : Field) : Fields := fields.erase name.toString

/-- `set(field, value)`. -/
def setField (fields : Fields) (name : Field) (value : Text) : Fields :=
  (fields.eraseField name).insertField name value

/-- `find(name)`: the first of the name. -/
def find (fields : Fields) (name : Text) : Option Entry :=
  fields.entries.find? fun x => iequals x.name name

/-- `operator[](field)`: the first value of the field, empty if none. -/
def get (fields : Fields) (name : Field) : Text :=
  match fields.find name.toString with
  | some entry => entry.value
  | none => []

theorem find_erase (fields : Fields) (name : Text) : (fields.erase name).find name = none := by
  simp only [find, erase, List.find?_eq_none, List.mem_filter]
  rintro x ⟨_, hx⟩
  simpa using hx

/-- A value added where its name was absent is at the end. -/
theorem insertField_of_absent {fields : Fields} {name : Field} (value : Text)
    (h : fields.find name.toString = none) :
    (fields.insertField name value).entries
      = fields.entries ++ [⟨name, name.toString, value⟩] := by
  rcases addEntry_cases fields.entries ⟨name, name.toString, value⟩ with
    ⟨_, heq⟩ | ⟨front, x, back, hentries, hx, _, _⟩
  · exact heq
  · simp only [find, List.find?_eq_none] at h
    exact absurd hx (h x (by rw [hentries]; simp))

end Fields
end BitcoinNetwork.Http
