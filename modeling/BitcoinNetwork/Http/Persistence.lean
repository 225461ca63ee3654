import BitcoinNetwork.Http.Lists

/-!
# Connection persistence (messages/http/header.cpp)

Whether a connection persists is read from the first Connection field and written to one
that replaces all of them.
-/

namespace BitcoinNetwork.Http

/-- `close_token`. -/
def closeToken : Text := ascii "close"

/-- `keep_alive_token`. -/
def keepAliveToken : Text := ascii "keep-alive"

section split
variable (split : Text → List Text)

/-- `has_token`. -/
def hasToken (list token : Text) : Bool := (split list).any fun item => iequals item token

/-- `append_token`. -/
def appendToken (list token : Text) : Text :=
  if hasToken split list token then list
  else if list.isEmpty then token else list ++ ascii ", " ++ token

variable {isRequest : Bool}

/-- `keep_alive()`. -/
def Header.keepAlive (header : Header isRequest) : Bool :=
  match header.fields.find Field.connection.toString with
  | some entry =>
    if header.version < version11 then hasToken split entry.value keepAliveToken
    else !hasToken split entry.value closeToken
  | none => !decide (header.version < version11)

/-- `keep_alive(value)`. -/
def Header.setKeepAlive (header : Header isRequest) (value : Bool) : Header isRequest :=
  let list := header.fields.get .connection
  let either := fun item => iequals item closeToken || iequals item keepAliveToken
  let out :=
    if header.version < version11 then
      if value then
        appendToken split (filterTokens split list fun item => iequals item closeToken)
          keepAliveToken
      else filterTokens split list either
    else
      if value then filterTokens split list either
      else
        appendToken split (filterTokens split list fun item => iequals item keepAliveToken)
          closeToken
  if out.isEmpty then { header with fields := header.fields.eraseField .connection }
  else { header with fields := header.fields.setField .connection out }

end split

variable {split : Text → List Text} {isRequest : Bool}

/-! ### Lists -/

theorem SplitsLists.filter (h : SplitsLists split) (value : Text) :
    (split value).filter (· ≠ []) = listItems value := by
  rcases h value with hs | hs
  · rw [hs]
    rfl
  · rw [hs]
    unfold listItems
    rw [List.filter_filter]
    simp only [Bool.and_self]

theorem foldl_filterTokens (matching : Text → Bool) (tokens done : List Text)
    (hdone : ∀ item ∈ done, IsItem item) (htokens : ∀ item ∈ tokens, item ≠ [] → IsItem item) :
    tokens.foldl (fun out token =>
      if token.isEmpty || matching token then out
      else if out.isEmpty then token else out ++ ascii ", " ++ token) (joinItems done) =
    joinItems (done ++ (tokens.filter (· ≠ [])).filter fun item => !matching item) := by
  induction tokens generalizing done with
  | nil => simp
  | cons token tokens ih =>
    obtain ⟨htoken, hrest⟩ := List.forall_mem_cons.mp htokens
    rw [List.foldl_cons]
    by_cases hskip : (token.isEmpty || matching token) = true
    · rw [if_pos hskip, ih done hdone hrest]
      by_cases hnil : token = []
      · simp [hnil]
      · have hmatching : matching token = true := by simpa [hnil] using hskip
        simp [hnil, hmatching]
    · rw [if_neg hskip]
      simp only [Bool.or_eq_true, not_or, Bool.not_eq_true, List.isEmpty_eq_false_iff] at hskip
      have hitem := htoken hskip.1
      have hall : ∀ item ∈ done ++ [token], IsItem item :=
        List.forall_mem_append.mpr ⟨hdone, List.forall_mem_singleton.mpr hitem⟩
      have hjoin : (if (joinItems done).isEmpty then token
          else joinItems done ++ ascii ", " ++ token) = joinItems (done ++ [token]) := by
        by_cases hnil : done = []
        · rw [hnil]
          rfl
        · have hne := fun h => hnil ((joinItems_eq_nil_iff hdone).mp h)
          rw [if_neg (by simpa using hne), joinItems_concat done hnil, List.append_assoc]
          rfl
      rw [hjoin, ih _ hall hrest]
      simp [hskip.1, hskip.2]

/-- The tokens that are left of a list. -/
theorem filterTokens_eq (h : SplitsLists split) (list : Text) (matching : Text → Bool) :
    filterTokens split list matching =
      joinItems ((listItems list).filter fun item => !matching item) := by
  unfold filterTokens
  have hfold := foldl_filterTokens matching (split list) []
    (fun _ hitem => absurd hitem List.not_mem_nil)
    (fun item hitem hne => isItem_of_mem (h.items_of_mem hitem hne))
  rw [h.filter] at hfold
  exact hfold

theorem hasToken_iff (h : SplitsLists split) {list token : Text} (htoken : token ≠ []) :
    hasToken split list token = true ↔ ∃ item ∈ listItems list, iequals item token = true := by
  unfold hasToken
  rw [List.any_eq_true]
  constructor
  · rintro ⟨item, hitem, heq⟩
    have hne : item ≠ [] := by
      rintro rfl
      rw [iequals_iff] at heq
      exact htoken (List.map_eq_nil_iff.mp heq.symm)
    exact ⟨item, h.items_of_mem hitem hne, heq⟩
  · rintro ⟨item, hitem, heq⟩
    exact ⟨item, h.mem_items hitem, heq⟩

/-- Items of which one is the token, ignoring case. -/
def Has (items : List Text) (token : Text) : Prop := ∃ item ∈ items, iequals item token = true

theorem has_append {items more : List Text} {token : Text} :
    Has (items ++ more) token ↔ Has items token ∨ Has more token := by
  simp only [Has, List.mem_append, or_and_right, exists_or]

theorem has_singleton {item token : Text} : Has [item] token ↔ iequals item token = true := by
  simp [Has]

/-- Items other than a token are those that are left without it. -/
theorem has_filter {items : List Text} {token other : Text} (h : iequals token other = false) :
    Has (items.filter fun item => !iequals item other) token ↔ Has items token := by
  constructor
  · rintro ⟨item, hitem, heq⟩
    exact ⟨item, (List.mem_filter.mp hitem).1, heq⟩
  · rintro ⟨item, hitem, heq⟩
    refine ⟨item, List.mem_filter.mpr ⟨hitem, ?_⟩, heq⟩
    rw [iequals_congr_left heq, h]
    rfl

theorem not_has_filter (items : List Text) (token : Text) :
    ¬Has (items.filter fun item => !iequals item token) token := by
  rintro ⟨item, hitem, heq⟩
  have hkept := (List.mem_filter.mp hitem).2
  rw [heq] at hkept
  cases hkept

theorem filter_either (items : List Text) (token other : Text) :
    (items.filter fun item => !(iequals item token || iequals item other)) =
      (items.filter fun item => !iequals item other).filter fun item => !iequals item token := by
  rw [List.filter_filter]
  simp only [Bool.not_or]

/-- A token is appended to items that do not have it. -/
theorem appendToken_eq (h : SplitsLists split) {items : List Text}
    (hitems : ∀ item ∈ items, IsItem item) {token : Text} (htoken : IsItem token) :
    ∃ more, appendToken split (joinItems items) token = joinItems (items ++ more) ∧
      (more = [] ∧ Has items token ∨ more = [token]) := by
  have hlist := listItems_joinItems hitems
  have hhas := @hasToken_iff split h (joinItems items) token htoken.ne_nil
  rw [hlist] at hhas
  unfold appendToken
  by_cases hany : hasToken split (joinItems items) token = true
  · rw [if_pos hany]
    exact ⟨[], by rw [List.append_nil], .inl ⟨rfl, hhas.mp hany⟩⟩
  · rw [if_neg hany]
    refine ⟨[token], ?_, .inr rfl⟩
    by_cases hnil : items = []
    · rw [hnil]
      rfl
    · have hne := fun h => hnil ((joinItems_eq_nil_iff hitems).mp h)
      rw [if_neg (by simpa using hne), joinItems_concat items hnil, List.append_assoc]
      rfl

/-! ### The Connection fields -/

/-- The items of the first Connection field. -/
def Header.connection (header : Header isRequest) : List Text :=
  listItems (header.fields.get .connection)

/-- Some Connection field lists the token. -/
def Header.Lists (header : Header isRequest) (token : Text) : Prop :=
  ∃ entry ∈ header.fields.entries, iequals entry.name Field.connection.toString = true ∧
    Has (listItems entry.value) token

theorem closeToken_item : IsItem closeToken := by
  refine ⟨?_, ?_, ?_, ?_⟩ <;> decide +kernel

theorem keepAliveToken_item : IsItem keepAliveToken := by
  refine ⟨?_, ?_, ?_, ?_⟩ <;> decide +kernel

theorem close_ne_keepAlive : iequals closeToken keepAliveToken = false := by decide

/-- The first Connection field decides, of which 1.0 has to ask for persistence. -/
theorem Header.keepAlive_iff (h : SplitsLists split) (header : Header isRequest) :
    header.keepAlive split = true ↔
      if header.version < version11 then Has header.connection keepAliveToken
      else ¬Has header.connection closeToken := by
  unfold Header.keepAlive Header.connection Fields.get
  cases hfind : header.fields.find Field.connection.toString with
  | none =>
    have hnone (token : Text) : ¬Has (listItems []) token := by
      rintro ⟨item, hitem, _⟩
      cases hitem
    dsimp only
    by_cases hversion : header.version < version11
    · simp [hversion, hnone]
    · simp [hversion, hnone]
  | some entry =>
    dsimp only
    split
    · exact hasToken_iff h keepAliveToken_item.ne_nil
    · rw [Bool.not_eq_true', ← Bool.not_eq_true, hasToken_iff h closeToken_item.ne_nil]
      rfl

theorem Header.lists_of_connection {header : Header isRequest} {token : Text}
    (h : Has header.connection token) : header.Lists token := by
  unfold Header.connection Fields.get at h
  cases hfind : header.fields.find Field.connection.toString with
  | none =>
    rw [hfind] at h
    obtain ⟨item, hitem, _⟩ := h
    cases hitem
  | some entry =>
    rw [hfind] at h
    exact ⟨entry, List.mem_of_find?_eq_some hfind, by simpa using List.find?_some hfind, h⟩

/-- What is appended is not another token. -/
theorem not_has_more {items more : List Text} {added token : Text}
    (hmore : more = [] ∧ Has items added ∨ more = [added]) (h : iequals token added = false) :
    ¬Has more token := by
  rcases hmore with ⟨rfl, _⟩ | rfl
  · rintro ⟨item, hitem, _⟩
    cases hitem
  · rw [has_singleton, iequals_comm, h]
    exact Bool.noConfusion

theorem has_added {items more : List Text} {added : Text}
    (hmore : more = [] ∧ Has items added ∨ more = [added]) : Has (items ++ more) added := by
  rw [has_append]
  rcases hmore with ⟨_, hhas⟩ | rfl
  · exact .inl hhas
  · exact .inr (has_singleton.mpr (iequals_refl added))

/-- The tokens that are written are those of the first field without the one or both, and
the one that the version needs. -/
theorem Header.setKeepAlive_eq (h : SplitsLists split) (header : Header isRequest)
    (value : Bool) : ∃ out, (∀ item ∈ out, IsItem item) ∧
      header.setKeepAlive split value =
        (if joinItems out = [] then { header with fields := header.fields.eraseField .connection }
        else { header with fields := header.fields.setField .connection (joinItems out) }) ∧
      (∀ token, iequals token closeToken = false → iequals token keepAliveToken = false →
        (Has out token ↔ Has header.connection token)) ∧
      (if header.version < version11 then (Has out keepAliveToken ↔ value = true)
      else (Has out closeToken ↔ value = false)) := by
  have hitems (matching : Text → Bool) :
      ∀ item ∈ header.connection.filter fun item => !matching item, IsItem item :=
    fun item hitem => isItem_of_mem (List.mem_filter.mp hitem).1
  have hfilter (matching : Text → Bool) :
      filterTokens split (header.fields.get .connection) matching =
        joinItems (header.connection.filter fun item => !matching item) := filterTokens_eq h _ _
  have happended (removed added : Text) (hadded : IsItem added) : ∃ more,
      appendToken split (filterTokens split (header.fields.get .connection)
        fun item => iequals item removed) added =
        joinItems ((header.connection.filter fun item => !iequals item removed) ++ more) ∧
      (more = [] ∧ Has (header.connection.filter fun item => !iequals item removed) added ∨
        more = [added]) ∧
      ∀ item ∈ (header.connection.filter fun item => !iequals item removed) ++ more,
        IsItem item := by
    rw [hfilter fun item => iequals item removed]
    obtain ⟨more, heq, hmore⟩ := appendToken_eq h (hitems fun item => iequals item removed) hadded
    refine ⟨more, heq, hmore, List.forall_mem_append.mpr ⟨hitems _, ?_⟩⟩
    rcases hmore with ⟨rfl, _⟩ | rfl
    · exact fun _ hitem => absurd hitem List.not_mem_nil
    · exact List.forall_mem_singleton.mpr hadded
  unfold Header.setKeepAlive
  by_cases hversion : header.version < version11
  · cases value with
    | true =>
      obtain ⟨more, heq, hmore, hall⟩ := happended closeToken keepAliveToken keepAliveToken_item
      refine ⟨_, hall, by simp [hversion, heq], fun token hclose hkeep => ?_, ?_⟩
      · rw [has_append, has_filter hclose]
        exact or_iff_left (not_has_more hmore hkeep)
      · rw [if_pos hversion]
        exact iff_of_true (has_added hmore) rfl
    | false =>
      refine ⟨_, hitems fun item => iequals item closeToken || iequals item keepAliveToken,
        by simp [hversion, hfilter], fun token hclose hkeep => ?_, ?_⟩
      · rw [filter_either, has_filter hclose, has_filter hkeep]
      · rw [if_pos hversion, filter_either, has_filter (by rw [iequals_comm]; exact close_ne_keepAlive)]
        exact iff_of_false (not_has_filter _ _) Bool.noConfusion
  · cases value with
    | true =>
      refine ⟨_, hitems fun item => iequals item closeToken || iequals item keepAliveToken,
        by simp [hversion, hfilter], fun token hclose hkeep => ?_, ?_⟩
      · rw [filter_either, has_filter hclose, has_filter hkeep]
      · rw [if_neg hversion, filter_either]
        exact iff_of_false (not_has_filter _ _) Bool.noConfusion
    | false =>
      obtain ⟨more, heq, hmore, hall⟩ := happended keepAliveToken closeToken closeToken_item
      refine ⟨_, hall, by simp [hversion, heq], fun token hclose hkeep => ?_, ?_⟩
      · rw [has_append, has_filter hkeep]
        exact or_iff_left (not_has_more hmore hclose)
      · rw [if_neg hversion]
        exact iff_of_true (has_added hmore) rfl

/-- The one Connection field that is written, if there is a token to write. -/
theorem Header.written_connection (header : Header isRequest) {out : List Text}
    (hout : ∀ item ∈ out, IsItem item) :
    let written :=
      if joinItems out = [] then { header with fields := header.fields.eraseField .connection }
      else { header with fields := header.fields.setField .connection (joinItems out) }
    written.version = header.version ∧ written.connection = out ∧
      ∀ token, written.Lists token → Has out token := by
  have herased : (header.fields.eraseField .connection).find Field.connection.toString = none :=
    Fields.find_erase header.fields _
  have hnone : ∀ entry ∈ (header.fields.eraseField .connection).entries,
      ¬iequals entry.name Field.connection.toString = true := by
    intro entry hentry
    have hkept := (List.mem_filter.mp hentry).2
    simpa using hkept
  dsimp only
  split
  · next hnil =>
    rw [joinItems_eq_nil_iff hout] at hnil
    refine ⟨rfl, ?_, ?_⟩
    · unfold Header.connection Fields.get
      dsimp only
      rw [herased, hnil]
      rfl
    · rintro token ⟨entry, hentry, hname, _⟩
      exact absurd hname (hnone entry hentry)
  · have hentries : (header.fields.setField .connection (joinItems out)).entries =
        (header.fields.eraseField .connection).entries ++
          [⟨.connection, Field.connection.toString, joinItems out⟩] :=
      Fields.insertField_of_absent _ herased
    have hitems := listItems_joinItems hout
    refine ⟨rfl, ?_, ?_⟩
    · have hfind : (header.fields.setField .connection (joinItems out)).find
          Field.connection.toString =
            some ⟨.connection, Field.connection.toString, joinItems out⟩ := by
        unfold Fields.find at herased ⊢
        rw [hentries, List.find?_append, herased, List.find?_singleton, iequals_refl]
        rfl
      unfold Header.connection Fields.get
      dsimp only
      rw [hfind]
      exact hitems
    · rintro token ⟨entry, hentry, hname, hhas⟩
      rw [hentries] at hentry
      rcases List.mem_append.mp hentry with hentry | hentry
      · exact absurd hname (hnone entry hentry)
      · rw [List.mem_singleton.mp hentry, hitems] at hhas
        exact hhas

/-- Persistence is read of all Connection fields, and what is written is read, without loss
of another token. -/
structure Persistent (split : Text → List Text) (header : Header isRequest) : Prop where
  closed : header.Lists closeToken → header.keepAlive split = false
  kept : header.version < version11 → header.keepAlive split = true →
    header.Lists keepAliveToken ∧ ¬header.Lists closeToken
  written : ∀ value, (header.setKeepAlive split value).keepAlive split = value
  retained : ∀ value token, iequals token closeToken = false →
    iequals token keepAliveToken = false → header.Lists token →
    (header.setKeepAlive split value).Lists token

/-- The first Connection field lists the other tokens of all, and decides as all do. -/
structure Gathered (header : Header isRequest) : Prop where
  tokens : ∀ token, iequals token closeToken = false → iequals token keepAliveToken = false →
    header.Lists token → Has header.connection token
  decides : header.Lists closeToken →
    if header.version < version11 then ¬Has header.connection keepAliveToken
    else Has header.connection closeToken

theorem Header.setKeepAlive_keepAlive (h : SplitsLists split) (header : Header isRequest)
    (value : Bool) : (header.setKeepAlive split value).keepAlive split = value := by
  obtain ⟨out, hout, heq, _, hvalue⟩ := header.setKeepAlive_eq h value
  obtain ⟨hversion, hconnection, _⟩ := header.written_connection hout
  rw [← heq] at hversion hconnection
  have hread := (header.setKeepAlive split value).keepAlive_iff h
  rw [hversion, hconnection] at hread
  by_cases hold : header.version < version11
  · rw [if_pos hold] at hread hvalue
    rw [Bool.eq_iff_iff, hread, hvalue]
  · rw [if_neg hold] at hread hvalue
    rw [Bool.eq_iff_iff, hread, hvalue, Bool.not_eq_false]

theorem Header.setKeepAlive_lists (h : SplitsLists split) (header : Header isRequest)
    (value : Bool) {token : Text} (hclose : iequals token closeToken = false)
    (hkeep : iequals token keepAliveToken = false) :
    (header.setKeepAlive split value).Lists token ↔ Has header.connection token := by
  obtain ⟨out, hout, heq, htokens, _⟩ := header.setKeepAlive_eq h value
  obtain ⟨_, hconnection, hlists⟩ := header.written_connection hout
  rw [← heq] at hconnection hlists
  rw [← htokens token hclose hkeep]
  refine ⟨hlists token, fun hhas => Header.lists_of_connection ?_⟩
  rwa [hconnection]

/-- All of it is so exactly if the first Connection field is enough of them. -/
theorem persistent_iff (hsplit : SplitsLists split) (header : Header isRequest) :
    Persistent split header ↔ Gathered header := by
  have hread := header.keepAlive_iff hsplit
  constructor
  · intro h
    refine ⟨fun token hclose hkeep hlists => ?_, fun hlists => ?_⟩
    · exact (header.setKeepAlive_lists hsplit true hclose hkeep).mp
        (h.retained true token hclose hkeep hlists)
    · have hclosed := h.closed hlists
      rw [← Bool.not_eq_true, hread] at hclosed
      by_cases hversion : header.version < version11
      · rwa [if_pos hversion] at hclosed ⊢
      · rw [if_neg hversion, not_not] at hclosed
        rwa [if_neg hversion]
  · intro h
    have hclosed : header.Lists closeToken → header.keepAlive split = false := by
      intro hlists
      have hdecides := h.decides hlists
      rw [← Bool.not_eq_true, hread]
      by_cases hversion : header.version < version11
      · rwa [if_pos hversion] at hdecides ⊢
      · rw [if_neg hversion] at hdecides ⊢
        exact not_not_intro hdecides
    refine ⟨hclosed, fun hversion hkept => ?_, header.setKeepAlive_keepAlive hsplit, ?_⟩
    · refine ⟨?_, fun hlists => ?_⟩
      · rw [hread, if_pos hversion] at hkept
        exact Header.lists_of_connection hkept
      · rw [hclosed hlists] at hkept
        cases hkept
    · intro value token hclose hkeep hlists
      exact (header.setKeepAlive_lists hsplit value hclose hkeep).mpr
        (h.tokens token hclose hkeep hlists)

/-- A response with Connection fields of these values. -/
def connectionHeader (version : ℕ) (values : List Text) : Header false where
  version := version
  start := ⟨200, []⟩
  fields := values.foldl (fun fields value => fields.insertField .connection value) Fields.empty

theorem persistent_upgrade :
    Persistent listItems (connectionHeader version11 [ascii "upgrade, close"]) ↔
      Gathered (connectionHeader version11 [ascii "upgrade, close"]) :=
  persistent_iff listItems_splits _

/-- A second field asks to close a connection that is kept. -/
theorem not_persistent : ¬ ∀ (split : Text → List Text) (isRequest : Bool)
    (header : Header isRequest), SplitsLists split → Persistent split header := by
  intro h
  have hclosed := (h listItems false (connectionHeader version11 [ascii "upgrade", ascii "close"])
    listItems_splits).closed
  have hkept : (connectionHeader version11 [ascii "upgrade", ascii "close"]).keepAlive listItems =
      true := by decide
  refine absurd (hclosed ⟨⟨.connection, Field.connection.toString, ascii "close"⟩, ?_, ?_, ?_⟩)
    (by rw [hkept]; exact Bool.noConfusion)
  · decide
  · decide
  · exact ⟨ascii "close", by decide, by decide⟩

end BitcoinNetwork.Http
