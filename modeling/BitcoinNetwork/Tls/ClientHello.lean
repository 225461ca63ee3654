import BitcoinNetwork.Tls.Authentication
import BitcoinNetwork.Tls.Presentation

/-!
# ClientHello (rfc8446 4.1.2)

A ClientHello by its fields, with the lists of the extensions that a server of
TLS 1.3 has to interpret, and the bytes of it that `handle_client_hello` reads.
-/

namespace BitcoinNetwork.Tls
open Binary

/-- A well formed ClientHello of TLS 1.3. A share may be empty, by which the client has none. -/
structure ClientHello where
  version : UInt16
  random : Bytes
  session : Bytes
  suites : List UInt16
  extensions : List (UInt16 × Bytes)
  versions : List UInt16
  groups : List UInt16
  algorithms : List UInt16
  shares : List (UInt16 × Bytes)
  random_length : random.length = 32
  session_length : session.length ≤ 32
  suites_some : suites ≠ []
  suites_fit : 2 * suites.length < 65536
  extensions_fit : (extensions.flatMap writeEntry).length < 65536
  distinct : (extensions.map Prod.fst).Nodup
  versions_some : versions ≠ []
  versions_fit : 2 * versions.length < 256
  versions_in : (extensionSupportedVersions, writeList8 versions) ∈ extensions
  groups_some : groups ≠ []
  groups_fit : 2 * groups.length < 65536
  groups_in : (extensionSupportedGroups, writeList16 groups) ∈ extensions
  algorithms_some : algorithms ≠ []
  algorithms_fit : 2 * algorithms.length < 65536
  algorithms_in : (extensionSignatureAlgorithms, writeList16 algorithms) ∈ extensions
  shares_fit : (shares.flatMap writeEntry).length < 65536
  shares_in : (extensionKeyShare, writeVector16 (shares.flatMap writeEntry)) ∈ extensions

namespace ClientHello
variable (hello : ClientHello)

/-- The body of the message. -/
def encode : Bytes :=
  write16 hello.version ++ (hello.random ++ (writeVector8 hello.session ++
    (writeList16 hello.suites ++ (writeVector8 [0] ++
      writeVector16 (hello.extensions.flatMap writeEntry)))))

/-- The types of the extensions. -/
def types : List UInt16 := hello.extensions.map Prod.fst

/-- A group that both sides support. -/
def Mutual (group : UInt16) : Prop := group ∈ hello.groups

/-- The first share of a group, which is not empty. -/
def Share (group : UInt16) (share : Bytes) : Prop :=
  share ≠ [] ∧ ∃ before after, hello.shares = before ++ (group, share) :: after ∧
    ∀ entry ∈ before, entry.1 ≠ group

/-- A mutual group with a share. -/
def Shared (group : UInt16) : Prop := hello.Mutual group ∧ ∃ share, hello.Share group share

end ClientHello

/-- The first of a preference that is offered. -/
def Preferred (Offered : UInt16 → Prop) (preference : List UInt16) (choice : UInt16) : Prop :=
  ∃ before after, preference = before ++ choice :: after ∧ Offered choice ∧
    ∀ value ∈ before, ¬Offered value

/-- What a server with a key of a curve needs to be offered, and the suite that is chosen. -/
structure ClientHello.Offers (hello : ClientHello) (curve : Curve) (suite : UInt16) : Prop where
  version : version13 ∈ hello.versions
  suite : Preferred (· ∈ hello.suites) preferredSuites suite
  scheme : schemeOf curve ∈ hello.algorithms
  group : ∃ group ∈ preferredGroups, hello.Mutual group

/-! ### Preferences -/

theorem preferred_iff {offered : UInt16 → Bool} {Offered : UInt16 → Prop}
    (h : ∀ value, offered value = true ↔ Offered value) (preference : List UInt16)
    (choice : UInt16) :
    preference.find? offered = some choice ↔ Preferred Offered preference choice := by
  rw [List.find?_eq_some_iff_append, h]
  constructor
  · rintro ⟨hoffered, before, after, heq, hbefore⟩
    refine ⟨before, after, heq, hoffered, fun value hvalue hnot => ?_⟩
    have hfirst := hbefore value hvalue
    rw [(h value).mpr hnot] at hfirst
    exact absurd hfirst (by decide)
  · rintro ⟨before, after, heq, hoffered, hbefore⟩
    refine ⟨hoffered, before, after, heq, fun value hvalue => ?_⟩
    cases hvalue' : offered value with
    | true => exact absurd ((h value).mp hvalue') (hbefore value hvalue)
    | false => rfl

theorem Preferred.mem {Offered : UInt16 → Prop} {preference : List UInt16} {choice : UInt16}
    (h : Preferred Offered preference choice) : choice ∈ preference ∧ Offered choice := by
  obtain ⟨before, after, rfl, hoffered, -⟩ := h
  exact ⟨List.mem_append_right _ List.mem_cons_self, hoffered⟩

theorem Preferred.exists {Offered : UInt16 → Prop} {preference : List UInt16}
    (h : ∃ value ∈ preference, Offered value) : ∃ choice, Preferred Offered preference choice := by
  classical
  obtain ⟨value, hvalue, hoffered⟩ := h
  have hfound : (preference.find? fun value => Offered value).isSome = true :=
    List.find?_isSome.mpr ⟨value, hvalue, decide_eq_true hoffered⟩
  obtain ⟨choice, hchoice⟩ := Option.isSome_iff_exists.mp hfound
  exact ⟨choice, (preferred_iff (fun _ => decide_eq_true_iff) _ _).mp hchoice⟩

theorem Preferred.unique {Offered : UInt16 → Prop} {preference : List UInt16}
    {choice choice' : UInt16} (h : Preferred Offered preference choice)
    (h' : Preferred Offered preference choice') : choice = choice' := by
  classical
  have hfound := (preferred_iff (fun _ => decide_eq_true_iff) preference choice).mpr h
  have hfound' := (preferred_iff (fun _ => decide_eq_true_iff) preference choice').mpr h'
  exact Option.some.inj (hfound.symm.trans hfound')

/-! ### Lists of extensions -/

section Extensions

theorem toList_iff {read : Reader → List UInt16 × Reader} {encode : List UInt16 → Bytes}
    {bound : ℕ} (h : Reads read encode (2 * ·.length < bound)) (data : Bytes)
    (values : List UInt16) :
    toList (read { data }) = some values ↔
      values ≠ [] ∧ 2 * values.length < bound ∧ data = encode values := by
  unfold toList
  constructor
  · intro hread
    split at hread
    · rename_i hcomplete
      obtain ⟨hfits, hdata⟩ := h.sound_end hcomplete.1
      cases hread
      exact ⟨hcomplete.2, hfits, hdata⟩
    · cases hread
  · rintro ⟨hsome, hfits, rfl⟩
    rw [h.complete_end hfits, if_pos ⟨rfl, hsome⟩]

theorem distinct_entries {entries : List (UInt16 × Bytes)} (h : (entries.map Prod.fst).Nodup)
    {type : UInt16} {data data' : Bytes} (hdata : (type, data) ∈ entries)
    (hdata' : (type, data') ∈ entries) : data = data' :=
  congrArg Prod.snd (List.inj_on_of_nodup_map h hdata hdata' rfl)

/-- The values of a list that an extension of some type holds, or no values without it. -/
def Interprets (type : UInt16) (encode : List UInt16 → Bytes) (bound : ℕ)
    (entries : List (UInt16 × Bytes)) (values : List UInt16) : Prop :=
  (type ∉ entries.map Prod.fst ∧ values = []) ∨
    (values ≠ [] ∧ 2 * values.length < bound ∧ (type, encode values) ∈ entries)

theorem Interprets.other {type other : UInt16} {encode : List UInt16 → Bytes} {bound : ℕ}
    {entries : List (UInt16 × Bytes)} {values : List UInt16}
    (h : Interprets type encode bound entries values) (hother : other ≠ type) (data : Bytes) :
    Interprets type encode bound (entries ++ [(other, data)]) values := by
  rcases h with ⟨habsent, hnone⟩ | ⟨hsome, hfits, hin⟩
  · refine .inl ⟨?_, hnone⟩
    rw [List.map_append, List.mem_append]
    rintro (hbefore | hlast)
    · exact habsent hbefore
    · exact hother (List.mem_singleton.mp hlast).symm
  · exact .inr ⟨hsome, hfits, List.mem_append_left _ hin⟩

/-- What the loop knows behind some extensions. -/
structure Holds (entries : List (UInt16 × Bytes)) (extensions : Extensions) : Prop where
  seen : extensions.seen = entries.map Prod.fst
  distinct : (entries.map Prod.fst).Nodup
  versions : Interprets extensionSupportedVersions writeList8 256 entries extensions.versions
  groups : Interprets extensionSupportedGroups writeList16 65536 entries extensions.groups
  algorithms :
    Interprets extensionSignatureAlgorithms writeList16 65536 entries extensions.algorithms
  shares (data : Bytes) : extensions.shares = some data ↔ (extensionKeyShare, data) ∈ entries
  early : extensions.early = true ↔ extensionEarlyData ∈ entries.map Prod.fst

theorem Holds.initial : Holds [] {} :=
  ⟨rfl, List.nodup_nil, .inl ⟨List.not_mem_nil, rfl⟩, .inl ⟨List.not_mem_nil, rfl⟩,
    .inl ⟨List.not_mem_nil, rfl⟩, fun _ => ⟨nofun, nofun⟩, ⟨nofun, nofun⟩⟩

theorem mem_append_other {entries : List (UInt16 × Bytes)} {type other : UInt16}
    (hother : other ≠ type) (data data' : Bytes) :
    (type, data) ∈ entries ↔ (type, data) ∈ entries ++ [(other, data')] := by
  refine ⟨List.mem_append_left _, fun hin => ?_⟩
  rcases List.mem_append.mp hin with hbefore | hlast
  · exact hbefore
  · exact absurd (congrArg Prod.fst (List.mem_singleton.mp hlast)).symm hother

theorem types_append_other {entries : List (UInt16 × Bytes)} {type other : UInt16}
    (hother : other ≠ type) (data : Bytes) :
    type ∈ entries.map Prod.fst ↔ type ∈ (entries ++ [(other, data)]).map Prod.fst := by
  rw [List.map_append, List.mem_append]
  refine ⟨.inl, fun hin => hin.resolve_right fun hlast => ?_⟩
  exact hother (List.mem_singleton.mp hlast).symm

/-- An extension that is taken. -/
theorem Holds.take {entries : List (UInt16 × Bytes)} {extensions extensions' : Extensions}
    (h : Holds entries extensions) {type : UInt16} (hnew : type ∉ entries.map Prod.fst)
    {data : Bytes} (htake : extensions.take type data = .ok extensions') :
    Holds (entries ++ [(type, data)]) extensions' := by
  have hseen : extensions.seen ++ [type] = (entries ++ [(type, data)]).map Prod.fst := by
    rw [h.seen, List.map_append]
    rfl
  have hdistinct : ((entries ++ [(type, data)]).map Prod.fst).Nodup := by
    rw [List.map_append]
    refine h.distinct.append (List.nodup_singleton _) ?_
    exact List.disjoint_singleton.mpr hnew
  have hlast : (type, data) ∈ entries ++ [(type, data)] :=
    List.mem_append_right _ (List.mem_singleton_self _)
  have hversions := fun hne : type ≠ extensionSupportedVersions => h.versions.other hne data
  have hgroups := fun hne : type ≠ extensionSupportedGroups => h.groups.other hne data
  have halgorithms := fun hne : type ≠ extensionSignatureAlgorithms => h.algorithms.other hne data
  have hshares := fun (hne : type ≠ extensionKeyShare) data' =>
    (h.shares data').trans (mem_append_other hne data' data)
  have hearly := fun hne : type ≠ extensionEarlyData => h.early.trans (types_append_other hne data)
  unfold Extensions.take at htake
  dsimp only at htake
  split_ifs at htake with hv hg ha hs he
  · subst hv
    split at htake
    · cases htake
    · rename_i versions hread
      cases htake
      obtain ⟨hsome, hfits, rfl⟩ := (toList_iff reads_list8 data versions).mp hread
      exact ⟨hseen, hdistinct, .inr ⟨hsome, hfits, hlast⟩, hgroups (by decide),
        halgorithms (by decide), hshares (by decide), hearly (by decide)⟩
  · subst hg
    split at htake
    · cases htake
    · rename_i groups hread
      cases htake
      obtain ⟨hsome, hfits, rfl⟩ := (toList_iff reads_list16 data groups).mp hread
      exact ⟨hseen, hdistinct, hversions (by decide), .inr ⟨hsome, hfits, hlast⟩,
        halgorithms (by decide), hshares (by decide), hearly (by decide)⟩
  · subst ha
    split at htake
    · cases htake
    · rename_i algorithms hread
      cases htake
      obtain ⟨hsome, hfits, rfl⟩ := (toList_iff reads_list16 data algorithms).mp hread
      exact ⟨hseen, hdistinct, hversions (by decide), hgroups (by decide),
        .inr ⟨hsome, hfits, hlast⟩, hshares (by decide), hearly (by decide)⟩
  · subst hs
    cases htake
    refine ⟨hseen, hdistinct, hversions (by decide), hgroups (by decide), halgorithms (by decide),
      fun data' => ⟨?_, fun hin => ?_⟩, hearly (by decide)⟩
    · rintro ⟨⟩
      exact hlast
    · exact congrArg some (distinct_entries hdistinct hlast hin)
  · subst he
    cases htake
    refine ⟨hseen, hdistinct, hversions (by decide), hgroups (by decide), halgorithms (by decide),
      hshares (by decide), fun _ => ?_, fun _ => rfl⟩
    exact List.mem_map_of_mem hlast
  · cases htake
    exact ⟨hseen, hdistinct, hversions hv, hgroups hg, halgorithms ha, hshares hs, hearly he⟩

/-- A list that its extension may hold. -/
def Lists (encode : List UInt16 → Bytes) (bound : ℕ) (data : Bytes) : Prop :=
  ∃ values : List UInt16, values ≠ [] ∧ 2 * values.length < bound ∧ data = encode values

/-- The extensions that hold a list hold one that is well formed. -/
structure WellFormed (type : UInt16) (data : Bytes) : Prop where
  versions : type = extensionSupportedVersions → Lists writeList8 256 data
  groups : type = extensionSupportedGroups → Lists writeList16 65536 data
  algorithms : type = extensionSignatureAlgorithms → Lists writeList16 65536 data

/-- An extension that is well formed is taken. -/
theorem WellFormed.take {type : UInt16} {data : Bytes} (h : WellFormed type data)
    (extensions : Extensions) : ∃ extensions', extensions.take type data = .ok extensions' := by
  unfold Extensions.take
  dsimp only
  split_ifs with hv hg ha hs he
  · obtain ⟨values, hvalues⟩ := h.versions hv
    rw [(toList_iff reads_list8 data values).mpr hvalues]
    exact ⟨_, rfl⟩
  · obtain ⟨values, hvalues⟩ := h.groups hg
    rw [(toList_iff reads_list16 data values).mpr hvalues]
    exact ⟨_, rfl⟩
  · obtain ⟨values, hvalues⟩ := h.algorithms ha
    rw [(toList_iff reads_list16 data values).mpr hvalues]
    exact ⟨_, rfl⟩
  · exact ⟨_, rfl⟩
  · exact ⟨_, rfl⟩
  · exact ⟨_, rfl⟩

/-- The extensions of a ClientHello, one by one. -/
def Extensions.takeAll : List (UInt16 × Bytes) → Extensions → Except UInt8 Extensions
  | [], extensions => .ok extensions
  | entry :: entries, extensions =>
    if extensions.seen.contains entry.1 then .error alertIllegalParameter
    else
      match extensions.take entry.1 entry.2 with
      | .error alert => .error alert
      | .ok extensions => takeAll entries extensions

theorem Holds.takeAll {before entries : List (UInt16 × Bytes)}
    {extensions extensions' : Extensions} (h : Holds before extensions)
    (htake : extensions.takeAll entries = .ok extensions') :
    Holds (before ++ entries) extensions' := by
  induction entries generalizing before extensions with
  | nil =>
    cases htake
    rwa [List.append_nil]
  | cons entry entries ih =>
    rw [Extensions.takeAll] at htake
    split at htake
    · cases htake
    · rename_i hnew
      rw [List.contains_iff_mem, h.seen] at hnew
      split at htake
      · cases htake
      · rename_i hone
        have hlater := ih (h.take hnew hone) htake
        rwa [List.append_assoc] at hlater

theorem takeAll_wellFormed {before entries : List (UInt16 × Bytes)} {extensions : Extensions}
    (h : Holds before extensions) (hdistinct : ((before ++ entries).map Prod.fst).Nodup)
    (hentries : ∀ entry ∈ entries, WellFormed entry.1 entry.2) :
    ∃ extensions', extensions.takeAll entries = .ok extensions' := by
  induction entries generalizing before extensions with
  | nil => exact ⟨extensions, rfl⟩
  | cons entry entries ih =>
    obtain ⟨taken, htaken⟩ := (hentries entry List.mem_cons_self).take extensions
    have hnew : entry.1 ∉ before.map Prod.fst := by
      rw [List.map_append] at hdistinct
      intro hin
      exact List.disjoint_of_nodup_append hdistinct hin List.mem_cons_self
    have hopen : ¬extensions.seen.contains entry.1 = true := by
      rwa [List.contains_iff_mem, h.seen]
    rw [Extensions.takeAll, if_neg hopen, htaken]
    refine ih (h.take hnew htaken) ?_
      (fun later hlater => hentries later (List.mem_cons_of_mem _ hlater))
    rwa [List.append_assoc]

/-! ### Loops -/

theorem extensionsLoop_complete {entries : List (UInt16 × Bytes)}
    (hfits : ∀ entry ∈ entries, entry.2.length < 65536) {turns : ℕ}
    (hturns : (entries.flatMap writeEntry).length < turns) (extensions : Extensions) :
    extensionsLoop turns { data := entries.flatMap writeEntry } extensions
      = extensions.takeAll entries := by
  induction entries generalizing turns extensions with
  | nil =>
    cases turns with
    | zero => exact absurd hturns (Nat.not_lt_zero _)
    | succ turns => rfl
  | cons entry entries ih =>
    cases turns with
    | zero => exact absurd hturns (Nat.not_lt_zero _)
    | succ turns =>
      rw [List.flatMap_cons] at hturns ⊢
      rw [List.length_append, writeEntry_length] at hturns
      have hread := reads_entry.complete entry (entries.flatMap writeEntry)
        ⟨trivial, hfits entry List.mem_cons_self⟩
      set list : Reader := { data := writeEntry entry ++ entries.flatMap writeEntry }
      have htype : list.read16.1 = entry.1 := congrArg (·.1.1) hread
      have hdata : list.read16.2.readVector16.1 = entry.2 := congrArg (·.1.2) hread
      have hrest : list.read16.2.readVector16.2 = { data := entries.flatMap writeEntry } :=
        congrArg Prod.snd hread
      rw [extensionsLoop, if_neg (reader_open (writeEntry_ne_nil entry) _), Extensions.takeAll]
      dsimp only
      rw [hrest, if_neg (not_not.mpr rfl), htype, hdata]
      split
      · rfl
      · cases extensions.take entry.1 entry.2 with
        | error alert => rfl
        | ok taken =>
          have hshorter : (entries.flatMap writeEntry).length < turns := by omega
          exact ih (fun later hlater => hfits later (List.mem_cons_of_mem _ hlater)) hshorter taken

theorem extensionsLoop_sound {turns : ℕ} {list : Reader} (hvalid : list.valid = true)
    (hturns : list.data.length < turns) {extensions extensions' : Extensions}
    (hloop : extensionsLoop turns list extensions = .ok extensions') :
    ∃ entries : List (UInt16 × Bytes), (∀ entry ∈ entries, entry.2.length < 65536) ∧
      list = { data := entries.flatMap writeEntry } := by
  induction turns generalizing list extensions with
  | zero => exact absurd hturns (Nat.not_lt_zero _)
  | succ turns ih =>
    rw [extensionsLoop] at hloop
    split at hloop
    · rename_i hended
      obtain ⟨-, hempty⟩ := Bool.and_eq_true_iff.mp (hended.resolve_left (not_not.mpr hvalid))
      obtain ⟨data, valid⟩ := list
      obtain rfl : valid = true := hvalid
      obtain rfl : data = [] := List.isEmpty_iff.mp hempty
      exact ⟨[], nofun, rfl⟩
    · dsimp only at hloop
      split at hloop
      · cases hloop
      · rename_i hread
        obtain ⟨⟨-, hfits⟩, hlist⟩ := reads_entry.sound list (not_not.mp hread)
        split at hloop
        · cases hloop
        · split at hloop
          · cases hloop
          · have hshorter : list.read16.2.readVector16.2.data.length < turns := by
              rw [hlist] at hturns
              dsimp only at hturns
              rw [List.length_append, writeEntry_length] at hturns
              have hrest : (readEntry list).2 = list.read16.2.readVector16.2 := rfl
              rw [hrest] at hturns
              omega
            obtain ⟨entries, hentries, hrest⟩ := ih (not_not.mp hread) hshorter hloop
            refine ⟨(readEntry list).1 :: entries, List.forall_mem_cons.mpr ⟨hfits, hentries⟩,
              hlist.trans ?_⟩
            rw [List.flatMap_cons]
            exact congrArg (fun data : Bytes =>
              ({ data := writeEntry (readEntry list).1 ++ data } : Reader))
              (congrArg Reader.data hrest)

/-- The loop reads the extensions that are written, which are taken. -/
theorem extensionsLoop_iff {data : Bytes} {extensions : Extensions} :
    extensionsLoop (data.length + 1) { data } {} = .ok extensions ↔
      ∃ entries : List (UInt16 × Bytes), (∀ entry ∈ entries, entry.2.length < 65536) ∧
        data = entries.flatMap writeEntry ∧ Extensions.takeAll entries {} = .ok extensions := by
  constructor
  · intro hloop
    obtain ⟨entries, hfits, hlist⟩ :=
      @extensionsLoop_sound (data.length + 1) { data } rfl (Nat.lt_succ_self _) _ _ hloop
    have hdata : data = entries.flatMap writeEntry := congrArg Reader.data hlist
    subst hdata
    refine ⟨entries, hfits, rfl, ?_⟩
    rwa [← extensionsLoop_complete hfits (Nat.lt_succ_self _)]
  · rintro ⟨entries, hfits, rfl, htake⟩
    rwa [extensionsLoop_complete hfits (Nat.lt_succ_self _)]

theorem sharesLoop_invalid {entries : Reader} (h : ¬entries.valid = true) (turns : ℕ) :
    (sharesLoop turns entries).2 = entries ∧ (readAll readEntry turns entries).2 = entries := by
  cases turns with
  | zero => exact ⟨rfl, rfl⟩
  | succ turns => rw [sharesLoop, readAll, if_pos (.inl h), if_pos (.inl h)]; exact ⟨rfl, rfl⟩

theorem sharesLoop_eq (turns : ℕ) (entries : Reader) :
    (sharesLoop turns entries).2 = (readAll readEntry turns entries).2 ∧
      ((sharesLoop turns entries).2.valid = true →
        (sharesLoop turns entries).1 = (readAll readEntry turns entries).1) := by
  induction turns generalizing entries with
  | zero => exact ⟨rfl, fun _ => rfl⟩
  | succ turns ih =>
    rw [sharesLoop, readAll]
    split
    · exact ⟨rfl, fun _ => rfl⟩
    · have hrest := ih (readEntry entries).2
      refine ⟨hrest.1, fun hvalid => ?_⟩
      dsimp only at hvalid ⊢
      by_cases hread : (readEntry entries).2.valid = true
      · have hone : entries.read16.2.readVector16.2.valid = true := hread
        rw [if_pos hone]
        exact congrArg _ (hrest.2 hvalid)
      · have hended := (sharesLoop_invalid hread turns).1
        have hrest' : (sharesLoop turns (readEntry entries).2).2.valid = true := hvalid
        rw [hended] at hrest'
        exact absurd hrest' hread

/-- The loop reads the shares that are written. -/
theorem sharesLoop_iff {data : Bytes} {shares : List (UInt16 × Bytes)} :
    (sharesLoop (data.length + 1) { data }).2.valid = true ∧
        (sharesLoop (data.length + 1) { data }).1 = shares ↔
      (∀ entry ∈ shares, entry.2.length < 65536) ∧ data = shares.flatMap writeEntry := by
  obtain ⟨hreader, hshares⟩ := sharesLoop_eq (data.length + 1) { data }
  constructor
  · rintro ⟨hvalid, rfl⟩
    rw [hshares hvalid]
    rw [hreader] at hvalid
    obtain ⟨hfits, hdata⟩ := readAll_sound reads_entry writeEntry_ne_nil (Nat.lt_succ_self _) hvalid
    exact ⟨fun entry hentry => (hfits entry hentry).2, congrArg Reader.data hdata⟩
  · rintro ⟨hfits, rfl⟩
    have hall := readAll_complete reads_entry writeEntry_ne_nil
      (fun entry hentry => ⟨trivial, hfits entry hentry⟩)
      (Nat.lt_succ_self (shares.flatMap writeEntry).length)
    rw [Nat.succ_eq_add_one] at hall
    rw [hall] at hreader hshares
    have hvalid : (sharesLoop ((shares.flatMap writeEntry).length + 1)
        { data := shares.flatMap writeEntry }).2.valid = true := by rw [hreader]
    exact ⟨hvalid, hshares hvalid⟩

end Extensions

/-! ### Offers -/

namespace Reads
variable {α : Type} {read : Reader → α × Reader} {encode : α → Bytes} {Fits : α → Prop}

/-- A value that is read, and the reader behind it. -/
theorem value (h : Reads read encode Fits) {reader : Reader}
    (hvalid : (read reader).2.valid = true) :
    ∃ value rest, Fits value ∧ reader = { data := encode value ++ rest } ∧
      read reader = (value, { data := rest }) := by
  obtain ⟨hfits, hreader⟩ := h.sound reader hvalid
  have hread := h.complete (read reader).1 (read reader).2.data hfits
  rw [← hreader] at hread
  exact ⟨_, _, hfits, hreader, hread⟩

/-- Values that fit have encodings of their own. -/
theorem injective (h : Reads read encode Fits) {value value' : α} (hfits : Fits value)
    (hfits' : Fits value') (heq : encode value = encode value') : value = value' := by
  have hread := h.complete_end hfits
  rw [heq, h.complete_end hfits'] at hread
  exact (congrArg Prod.fst hread).symm

end Reads

/-- The fields of a body, of which the last is the bytes of the extensions. -/
def writeFields (version : UInt16) (random session : Bytes) (suites : List UInt16)
    (compression list : Bytes) : Bytes :=
  write16 version ++ (random ++ (writeVector8 session ++ (writeList16 suites ++
    (writeVector8 compression ++ writeVector16 list))))

/-- A body that is read to its end is written of fields that fit. -/
theorem body_fields {body : Bytes}
    (h : (({ data := body } : Reader).read16.2.readBytes
      32).2.readVector8.2.readList16.2.readVector8.2.readVector16.2.isComplete = true) :
    ∃ version random session suites compression list, random.length = 32 ∧
      session.length < 256 ∧ 2 * suites.length < 65536 ∧ compression.length < 256 ∧
      list.length < 65536 ∧ body = writeFields version random session suites compression list := by
  have hlist := (Bool.and_eq_true_iff.mp h).1
  have hcompression := reads_vector16.valid hlist
  have hsuites := reads_vector8.valid hcompression
  have hsession := reads_list16.valid hsuites
  have hrandom := reads_vector8.valid hsession
  have hversion := (reads_bytes 32).valid hrandom
  obtain ⟨version, rest₁, -, hbody, heq₁⟩ := reads_read16.value hversion
  rw [heq₁] at h hcompression hsuites hsession hrandom
  obtain ⟨random, rest₂, hsize, hrest₁, heq₂⟩ := (reads_bytes 32).value hrandom
  rw [heq₂] at h hcompression hsuites hsession
  obtain ⟨session, rest₃, hshort, hrest₂, heq₃⟩ := reads_vector8.value hsession
  rw [heq₃] at h hcompression hsuites
  obtain ⟨suites, rest₄, hfits, hrest₃, heq₄⟩ := reads_list16.value hsuites
  rw [heq₄] at h hcompression
  obtain ⟨compression, rest₅, hmethods, hrest₄, heq₅⟩ := reads_vector8.value hcompression
  rw [heq₅] at h
  obtain ⟨hlength, hrest₅⟩ := reads_vector16.sound_end h
  refine ⟨version, random, session, suites, compression, _, hsize, hshort, hfits, hmethods, hlength,
    ?_⟩
  injection hbody with hbody
  injection hrest₁ with hrest₁
  injection hrest₂ with hrest₂
  injection hrest₃ with hrest₃
  injection hrest₄ with hrest₄
  rw [hbody, hrest₁, hrest₂, hrest₃, hrest₄]
  exact congrArg _ (congrArg _ (congrArg _ (congrArg _ (congrArg _ hrest₅))))

/-- The fields of a body are read as they are written. -/
theorem read_fields {version : UInt16} {random session : Bytes} {suites : List UInt16}
    {compression list : Bytes} (hrandom : random.length = 32) (hsession : session.length < 256)
    (hsuites : 2 * suites.length < 65536) (hcompression : compression.length < 256)
    (hlist : list.length < 65536) :
    let hello : Reader := { data := writeFields version random session suites compression list }
    let fixed := hello.read16.2.readBytes 32
    fixed.2.readVector8.1 = session ∧
      fixed.2.readVector8.2.readList16.1 = suites ∧
      fixed.2.readVector8.2.readList16.2.readVector8 =
        (compression, { data := writeVector16 list }) ∧
      fixed.2.readVector8.2.readList16.2.readVector8.2.readVector16 = (list, { data := [] }) := by
  intro hello fixed
  have hfixed : fixed.2 = { data := writeVector8 session ++ (writeList16 suites ++
      (writeVector8 compression ++ writeVector16 list)) } := by
    have hversion := congrArg Prod.snd (reads_read16.complete version (random ++
      (writeVector8 session ++ (writeList16 suites ++
        (writeVector8 compression ++ writeVector16 list)))) trivial)
    show (hello.read16.2.readBytes 32).2 = _
    rw [show hello.read16.2 = _ from hversion]
    exact congrArg Prod.snd ((reads_bytes 32).complete random _ hrandom)
  rw [hfixed, reads_vector8.complete session _ hsession]
  dsimp only
  rw [reads_list16.complete suites _ hsuites]
  dsimp only
  rw [reads_vector8.complete compression _ hcompression]
  dsimp only
  rw [reads_vector16.complete_end hlist]
  exact ⟨rfl, rfl, rfl, rfl⟩

/-- The offer of a ClientHello for a suite. -/
def ClientHello.offer (hello : ClientHello) (suite : UInt16) : Offer :=
  ⟨hello.session, suite, hello.groups, hello.shares⟩

/-- A ClientHello behind a retry agrees with it, and sends no early data. -/
def ClientHello.Agrees (hello : ClientHello) (retried : Option UInt16) (suite : UInt16) : Prop :=
  ∀ first ∈ retried, suite = first ∧ extensionEarlyData ∉ hello.types

theorem isMutual_iff (hello : ClientHello) (suite group : UInt16) :
    (hello.offer suite).isMutual group = true ↔ hello.Mutual group := List.contains_iff_mem

/-- An extension that holds what is interpreted is well formed. -/
theorem ClientHello.wellFormed (hello : ClientHello) :
    ∀ entry ∈ hello.extensions, WellFormed entry.1 entry.2 := by
  rintro ⟨type, data⟩ hentry
  constructor
  · rintro rfl
    exact ⟨hello.versions, hello.versions_some, hello.versions_fit,
      distinct_entries hello.distinct hentry hello.versions_in⟩
  · rintro rfl
    exact ⟨hello.groups, hello.groups_some, hello.groups_fit,
      distinct_entries hello.distinct hentry hello.groups_in⟩
  · rintro rfl
    exact ⟨hello.algorithms, hello.algorithms_some, hello.algorithms_fit,
      distinct_entries hello.distinct hentry hello.algorithms_in⟩

/-- An extension of some values is there. -/
theorem Interprets.present {type : UInt16} {encode : List UInt16 → Bytes} {bound : ℕ}
    {entries : List (UInt16 × Bytes)} {values : List UInt16}
    (h : Interprets type encode bound entries values) (hsome : values ≠ []) :
    2 * values.length < bound ∧ (type, encode values) ∈ entries := by
  rcases h with ⟨-, hnone⟩ | ⟨-, hpresent⟩
  · exact absurd hnone hsome
  · exact hpresent

theorem Interprets.eq {type : UInt16} {encode : List UInt16 → Bytes} {bound : ℕ}
    {entries : List (UInt16 × Bytes)} {values values' : List UInt16}
    {read : Reader → List UInt16 × Reader} (hreads : Reads read encode (2 * ·.length < bound))
    (h : Interprets type encode bound entries values) (hdistinct : (entries.map Prod.fst).Nodup)
    (hfits : 2 * values'.length < bound) (hin : (type, encode values') ∈ entries) :
    values = values' := by
  rcases h with ⟨habsent, -⟩ | ⟨-, hvalues, hvalue⟩
  · exact absurd (List.mem_map_of_mem hin) habsent
  · exact hreads.injective hvalues hfits (distinct_entries hdistinct hvalue hin)

/-- What the loop knows of a ClientHello that is written. -/
theorem ClientHello.takeAll (hello : ClientHello) :
    ∃ extensions, Extensions.takeAll hello.extensions {} = .ok extensions ∧
      extensions.versions = hello.versions ∧ extensions.groups = hello.groups ∧
      extensions.algorithms = hello.algorithms ∧
      extensions.shares = some (writeVector16 (hello.shares.flatMap writeEntry)) ∧
      (extensions.early = true ↔ extensionEarlyData ∈ hello.types) := by
  obtain ⟨extensions, htake⟩ :=
    takeAll_wellFormed Holds.initial hello.distinct hello.wellFormed
  have hholds : Holds hello.extensions extensions := Holds.initial.takeAll htake
  exact ⟨extensions, htake,
    hholds.versions.eq reads_list8 hello.distinct hello.versions_fit hello.versions_in,
    hholds.groups.eq reads_list16 hello.distinct hello.groups_fit hello.groups_in,
    hholds.algorithms.eq reads_list16 hello.distinct hello.algorithms_fit hello.algorithms_in,
    (hholds.shares _).mpr hello.shares_in, hholds.early⟩

theorem entries_fit {entries : List (UInt16 × Bytes)}
    (h : (entries.flatMap writeEntry).length < 65536) :
    ∀ entry ∈ entries, entry.2.length < 65536 := by
  intro entry hentry
  have hmem : writeEntry entry ∈ entries.map writeEntry := List.mem_map_of_mem hentry
  have hle := (List.sublist_flatten_of_mem hmem).length_le
  rw [← List.flatMap_def, writeEntry_length] at hle
  omega

/-- A ClientHello that is written with what is needed is read as its offer. -/
theorem readOffer_complete {curve : Curve} {retried : Option UInt16} {hello : ClientHello}
    {suite retry : UInt16} (hoffers : hello.Offers curve suite)
    (hagrees : hello.Agrees retried suite) (hretry : Preferred hello.Mutual preferredGroups retry) :
    readOffer curve retried hello.encode = .ok (hello.offer suite, retry) := by
  obtain ⟨extensions, htake, hversions, hgroups, halgorithms, hshares, hearly⟩ := hello.takeAll
  obtain ⟨hsession, hsuites, hcompression, hlist⟩ := @read_fields hello.version hello.random
    hello.session hello.suites [0] (hello.extensions.flatMap writeEntry) hello.random_length
    (by have := hello.session_length; omega) hello.suites_fit (by decide) hello.extensions_fit
  have hencode : hello.encode = writeFields hello.version hello.random hello.session hello.suites [0]
      (hello.extensions.flatMap writeEntry) := rfl
  have hloop := extensionsLoop_iff.mpr
    ⟨hello.extensions, entries_fit hello.extensions_fit, rfl, htake⟩
  have hlarge : writeVector16 (hello.extensions.flatMap writeEntry) ≠ [] :=
    List.append_ne_nil_of_left_ne_nil (List.ne_nil_of_length_pos (by
      rw [toBytes_length]
      exact Nat.two_pos)) _
  have hopen : ¬({ data := writeVector16 (hello.extensions.flatMap writeEntry) } :
      Reader).isComplete = true := fun h => hlarge (List.isEmpty_iff.mp h)
  have hsuite : preferredSuites.find? hello.suites.contains = some suite :=
    (preferred_iff (fun _ => List.contains_iff_mem) _ _).mpr hoffers.suite
  have hsame : ¬(retried ≠ none ∧ (retried ≠ some suite ∨ extensions.early = true)) := by
    rintro ⟨hsome, hdiffers⟩
    obtain ⟨first, rfl⟩ := Option.ne_none_iff_exists'.mp hsome
    obtain ⟨rfl, hnone⟩ := hagrees first rfl
    exact hdiffers.elim (· rfl) fun h => hnone (hearly.mp h)
  have hread : ({ data := writeVector16 (hello.shares.flatMap writeEntry) } : Reader).readVector16
      = (hello.shares.flatMap writeEntry, { data := [] }) :=
    reads_vector16.complete_end hello.shares_fit
  obtain ⟨hvalid, hoffered⟩ := sharesLoop_iff.mpr ⟨entries_fit hello.shares_fit, rfl⟩
  have hmutual : (hello.offer suite).retry = some retry :=
    (preferred_iff (isMutual_iff hello suite) _ _).mpr hretry
  rw [hencode]
  unfold readOffer
  dsimp only
  rw [hlist, hcompression, hsession, hsuites, if_neg hopen,
    if_neg (by
      rintro (hincomplete | hlong | hnone)
      · exact hincomplete rfl
      · exact absurd hlong (Nat.not_lt.mpr hello.session_length)
      · exact hello.suites_some hnone),
    if_neg (not_not.mpr rfl), hloop]
  dsimp only
  rw [hversions, if_neg (not_not.mpr (List.contains_iff_mem.mpr hoffers.version)), hsuite]
  dsimp only
  rw [if_neg hsame, halgorithms, hgroups, hshares,
    if_neg (by
      rintro (hnone | hnone | hnone)
      · exact hello.algorithms_some hnone
      · exact hello.groups_some hnone
      · cases hnone),
    if_neg (not_not.mpr (List.contains_iff_mem.mpr hoffers.scheme))]
  rw [Option.getD_some, hread]
  dsimp only
  have hended : ({ data := [] } : Reader).isComplete = true := rfl
  rw [if_neg (not_not.mpr hended), if_neg (not_not.mpr hvalid), hoffered]
  have hoffer : (⟨hello.session, suite, hello.groups, hello.shares⟩ : Offer) = hello.offer suite := rfl
  rw [hoffer, hmutual]

/-- What is read as an offer is a ClientHello that is written with what is needed. -/
theorem readOffer_sound {curve : Curve} {retried : Option UInt16} {body : Bytes} {offer : Offer}
    {retry : UInt16} (h : readOffer curve retried body = .ok (offer, retry)) :
    ∃ hello : ClientHello, hello.encode = body ∧ hello.Offers curve offer.suite ∧
      hello.Agrees retried offer.suite ∧ offer = hello.offer offer.suite ∧
      Preferred hello.Mutual preferredGroups retry := by
  unfold readOffer at h
  dsimp only at h
  split at h
  · cases h
  split at h
  · cases h
  rename_i hframe
  obtain ⟨hcomplete, hshort, hsuites⟩ : _ ∧ _ ∧ _ := by
    rw [not_or, not_or, not_not, not_lt] at hframe
    exact hframe
  obtain ⟨version, random, session, suites, compression, list, hrandom, hsession, hfits, hmethods,
    hlength, rfl⟩ := body_fields hcomplete
  obtain ⟨heq₁, heq₂, heq₃, heq₄⟩ := @read_fields version random session suites compression list
    hrandom hsession hfits hmethods hlength
  rw [heq₁] at hshort
  rw [heq₂] at hsuites
  rw [heq₁, heq₂, heq₄, heq₃] at h
  dsimp only at h
  split at h
  · cases h
  rename_i hnull
  obtain rfl := not_not.mp hnull
  split at h
  · cases h
  rename_i extensions hloop
  obtain ⟨entries, hentries, rfl, htake⟩ := extensionsLoop_iff.mp hloop
  have hholds : Holds entries extensions := Holds.initial.takeAll htake
  split at h
  · cases h
  rename_i hversion
  rw [not_not, List.contains_iff_mem] at hversion
  split at h
  · cases h
  rename_i suite hsuite
  split at h
  · cases h
  rename_i hagrees
  split at h
  · cases h
  rename_i hpresent
  obtain ⟨halgorithms, hgroups, hshares⟩ : _ ∧ _ ∧ _ := by
    rw [not_or, not_or] at hpresent
    exact hpresent
  split at h
  · cases h
  rename_i hscheme
  rw [not_not, List.contains_iff_mem] at hscheme
  obtain ⟨data, hdata⟩ := Option.ne_none_iff_exists'.mp hshares
  rw [hdata, Option.getD_some] at h
  split at h
  · cases h
  rename_i hvector
  obtain ⟨hshort', hwritten⟩ := reads_vector16.sound_end (not_not.mp hvector)
  split at h
  · cases h
  rename_i hvalid
  obtain ⟨-, hwritten'⟩ := sharesLoop_iff.mp ⟨not_not.mp hvalid, rfl⟩
  split at h
  · cases h
  rename_i hretry
  cases h
  have hversions : extensions.versions ≠ [] := List.ne_nil_of_mem hversion
  obtain ⟨hversionsFit, hversionsIn⟩ := hholds.versions.present hversions
  obtain ⟨hgroupsFit, hgroupsIn⟩ := hholds.groups.present hgroups
  obtain ⟨halgorithmsFit, halgorithmsIn⟩ := hholds.algorithms.present halgorithms
  have hsharesIn := (hholds.shares data).mp hdata
  rw [hwritten, hwritten'] at hsharesIn
  rw [hwritten'] at hshort'
  let hello : ClientHello :=
    { version, random, session, suites
      extensions := entries
      versions := extensions.versions
      groups := extensions.groups
      algorithms := extensions.algorithms
      shares := _
      random_length := hrandom
      session_length := hshort
      suites_some := hsuites
      suites_fit := hfits
      extensions_fit := hlength
      distinct := hholds.distinct
      versions_some := hversions
      versions_fit := hversionsFit
      versions_in := hversionsIn
      groups_some := hgroups
      groups_fit := hgroupsFit
      groups_in := hgroupsIn
      algorithms_some := halgorithms
      algorithms_fit := halgorithmsFit
      algorithms_in := halgorithmsIn
      shares_fit := hshort'
      shares_in := hsharesIn }
  have hmutual : Preferred hello.Mutual preferredGroups retry :=
    (preferred_iff (isMutual_iff hello suite) _ _).mp hretry
  refine ⟨hello, rfl, ⟨hversion, ?_, hscheme, retry, hmutual.mem⟩, ?_, rfl, hmutual⟩
  · exact (preferred_iff (fun _ => List.contains_iff_mem) _ _).mp hsuite
  · rintro first hfirst
    obtain rfl := Option.mem_def.mp hfirst
    rw [not_and, not_or, not_not] at hagrees
    obtain ⟨hsame, hlate⟩ := hagrees (Option.some_ne_none _)
    exact ⟨(Option.some.inj hsame).symm, fun hearly => hlate (hholds.early.mpr hearly)⟩

end BitcoinNetwork.Tls
