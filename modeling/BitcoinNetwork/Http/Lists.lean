import BitcoinNetwork.Http.Framing

/-!
# Comma lists that are written

What `filter_tokens` and `append_token` (messages/http/header.cpp) make of a comma list is
read back as the items that it is made of.
-/

namespace BitcoinNetwork.Http

/-- An item of a list: text without commas that has no whitespace at its ends. -/
structure IsItem (item : Text) : Prop where
  ne_nil : item ≠ []
  commas : ∀ c ∈ item, c ≠ comma
  first : ∀ c ∈ item.head?, isWhitespace c = false
  last : ∀ c ∈ item.getLast?, isWhitespace c = false

/-- Items with a comma and a space between them. -/
def joinItems : List Text → Text
  | [] => []
  | [item] => item
  | item :: items => item ++ comma :: sp :: joinItems items

/-! ### The items of a list -/

theorem trim_sublist (value : Text) : (trim value).Sublist value := by
  have hback := List.dropWhile_sublist isWhitespace
    (l := (value.dropWhile isWhitespace).reverse)
  have hfront := List.dropWhile_sublist isWhitespace (l := value)
  rw [trim]
  exact (List.reverse_sublist.mpr hback).trans (by rwa [List.reverse_reverse])

theorem trim_last (value : Text) : ∀ c ∈ (trim value).getLast?, isWhitespace c = false := by
  intro c hc
  have hhead := List.head?_dropWhile_not isWhitespace (value.dropWhile isWhitespace).reverse
  rw [trim, List.getLast?_reverse] at hc
  rw [Option.mem_def.mp hc] at hhead
  simpa using hhead

theorem trim_first (value : Text) : ∀ c ∈ (trim value).head?, isWhitespace c = false := by
  intro c hc
  have hhead := List.head?_dropWhile_not isWhitespace value
  -- Trimming the back of what begins with another character leaves that character.
  have hfront : (trim value) <+: value.dropWhile isWhitespace := by
    rw [trim, ← List.reverse_suffix, List.reverse_reverse]
    exact List.dropWhile_suffix _
  obtain ⟨rest, heq⟩ := hfront
  cases htrim : trim value with
  | nil =>
    rw [htrim] at hc
    cases hc
  | cons b t =>
    rw [htrim] at hc heq
    cases hc
    rw [← heq] at hhead
    simpa using hhead

theorem mem_commaPieces {value piece : Text} (h : piece ∈ commaPieces value) :
    ∀ c ∈ piece, c ≠ comma := by
  induction value generalizing piece with
  | nil =>
    rw [List.mem_singleton.mp h]
    exact fun _ hc => absurd hc List.not_mem_nil
  | cons b rest ih =>
    obtain ⟨first, others, hrest⟩ := commaPieces_cons_exists rest
    rw [hrest] at ih
    rw [commaPieces, hrest] at h
    by_cases hb : b = comma
    · rw [if_pos hb] at h
      rcases List.mem_cons.mp h with rfl | h
      · exact fun _ hc => absurd hc List.not_mem_nil
      · exact ih h
    · rw [if_neg hb] at h
      rcases List.mem_cons.mp h with rfl | h
      · exact List.forall_mem_cons.mpr ⟨hb, ih List.mem_cons_self⟩
      · exact ih (List.mem_cons_of_mem first h)

theorem isItem_of_mem {value item : Text} (h : item ∈ listItems value) : IsItem item := by
  obtain ⟨hmem, hne⟩ := List.mem_filter.mp h
  obtain ⟨piece, hpiece, rfl⟩ := List.mem_map.mp hmem
  exact ⟨by simpa using hne, fun c hc => mem_commaPieces hpiece c ((trim_sublist piece).subset hc),
    trim_first piece, trim_last piece⟩

/-! ### The list of items -/

theorem trim_item {item : Text} (h : IsItem item) : trim item = item := by
  have htrim := @trim_append_whitespace item [] (fun _ hc => absurd hc List.not_mem_nil)
    h.first h.last h.ne_nil
  rwa [List.append_nil] at htrim

theorem listItems_singleton {item : Text} (h : IsItem item) : listItems item = [item] := by
  have hpieces := @commaPieces_append item h.commas [] [] [] rfl
  rw [List.append_nil] at hpieces
  simp [listItems, hpieces, trim_item h, h.ne_nil]

theorem listItems_sp (value : Text) : listItems (sp :: value) = listItems value := by
  obtain ⟨first, others, hvalue⟩ := commaPieces_cons_exists value
  have hsp : commaPieces (sp :: value) = (sp :: first) :: others := by
    rw [commaPieces, if_neg (by decide), hvalue]
  have htrim : trim (sp :: first) = trim first :=
    @trim_whitespace_append [sp] (List.forall_mem_singleton.mpr rfl) first
  simp only [listItems, hsp, hvalue, List.map_cons, htrim]

theorem listItems_cons {item : Text} (h : IsItem item) (value : Text) :
    listItems (item ++ comma :: value) = item :: listItems value := by
  have hpieces := @commaPieces_append item h.commas (comma :: value) [] (commaPieces value)
    (by rw [commaPieces, if_pos rfl])
  rw [List.append_nil] at hpieces
  simp [listItems, hpieces, trim_item h, h.ne_nil]

/-- A list that is written has the items that it was written of. -/
theorem listItems_joinItems {items : List Text} (h : ∀ item ∈ items, IsItem item) :
    listItems (joinItems items) = items := by
  induction items with
  | nil => rfl
  | cons item items ih =>
    obtain ⟨hitem, hitems⟩ := List.forall_mem_cons.mp h
    cases items with
    | nil => exact listItems_singleton hitem
    | cons next items =>
      rw [joinItems, listItems_cons hitem, listItems_sp, ih hitems]
      exact List.cons_ne_nil next items

theorem joinItems_concat (items : List Text) (hitems : items ≠ []) (item : Text) :
    joinItems (items ++ [item]) = joinItems items ++ comma :: sp :: item := by
  induction items with
  | nil => exact absurd rfl hitems
  | cons first items ih =>
    cases items with
    | nil => rfl
    | cons next items =>
      have hrest := ih (List.cons_ne_nil next items)
      show first ++ comma :: sp :: joinItems (next :: items ++ [item]) = _
      rw [hrest]
      show _ = (first ++ comma :: sp :: joinItems (next :: items)) ++ comma :: sp :: item
      rw [List.append_assoc]
      rfl

theorem joinItems_eq_nil_iff {items : List Text} (h : ∀ item ∈ items, IsItem item) :
    joinItems items = [] ↔ items = [] := by
  constructor
  · intro hnil
    have hitems := listItems_joinItems h
    rw [hnil] at hitems
    exact hitems.symm
  · rintro rfl
    rfl

end BitcoinNetwork.Http
