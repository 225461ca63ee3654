import BitcoinNetwork.Http.Text
import BitcoinNetwork.Paths.Components

/-!
# The file of a request target (messages/http/enums/target.cpp)

A target is joined to the root, and what that is canonically is to be within what the root
is. What the file system makes of a path is a parameter, as is the parse of a uri.
-/

namespace BitcoinNetwork.Http

/-- `std::filesystem`, where a call that throws has no result. -/
structure FileSystem where
  weaklyCanonical : Text → Option Text
  exists? : Text → Option Bool
  isDirectory : Text → Option Bool
  isRegularFile : Text → Option Bool

/-- `wallet::uri`: whether a text decodes, and then has a fragment. -/
structure UriParser where
  hasFragment : Text → Option Bool

def slash : UInt8 := 47

def maxUrl : ℕ := 1024

/-- `is_origin_form`. -/
def isOriginForm (uri : UriParser) (target : Text) : Bool :=
  if maxUrl < target.length then false
  else
    (ascii "/").isPrefixOf target && !(ascii "//").isPrefixOf target &&
      uri.hasFragment target == some false

/-- The characters of a safe target, other than its separators. -/
def isSafeChar (c : UInt8) : Bool :=
  (97 ≤ c && c ≤ 122) || (65 ≤ c && c ≤ 90) || isDigit c || c == 95 || c == 45 || c == 46

/-- The expression of `is_safe_target` behind its first separator: segments that are not
empty. -/
def safeSegments (empty : Bool) : Text → Bool
  | [] => !empty
  | c :: rest =>
    if c = slash then !empty && safeSegments true rest
    else isSafeChar c && safeSegments false rest

/-- `find("..")`. -/
def hasDots (target : Text) : Bool := target.tails.any (ascii "..").isPrefixOf

/-- `is_safe_target`. -/
def isSafeTarget : Text → Bool
  | [] => false
  | c :: rest => c == slash && safeSegments true rest && !hasDots (c :: rest)

/-- `contains`, of canonical paths. -/
def contains (base full : Text) : Bool :=
  base.isPrefixOf full && decide (base.length < full.length)

/-- A path exists, and is not of a kind. -/
def FileSystem.existsBut (fs : FileSystem) (kind : Text → Option Bool) (path : Text) :
    Option Bool := do
  if ← fs.exists? path then return !(← kind path) else return false

/-- The body of `to_canonical`, for a root that is absolute. -/
def canonical? (fs : FileSystem) (root target : Text) : Option Text := do
  let dir ← fs.weaklyCanonical root
  if ← fs.existsBut fs.isDirectory dir then none
  else
    let path ← fs.weaklyCanonical (root ++ target)
    if ← fs.existsBut fs.isRegularFile path then none
    else if contains dir path then some path
    else none

/-- `to_canonical`, empty where it fails. -/
def toCanonical (fs : FileSystem) (root target : Text) : Text :=
  if ¬(ascii "/").isPrefixOf root then [] else (canonical? fs root target).getD []

/-- `sanitize_origin`. -/
def sanitizeOrigin (fs : FileSystem) (uri : UriParser) (base target : Text) : Text :=
  if isOriginForm uri target && isSafeTarget target then toCanonical fs base target else []

/-- The root is a directory or nothing, and the path at the target a file or nothing. -/
structure Resolves (fs : FileSystem) (root target dir path : Text) : Prop where
  absolute : (ascii "/").isPrefixOf root = true
  base : fs.weaklyCanonical root = some dir
  directory : fs.existsBut fs.isDirectory dir = some false
  joined : fs.weaklyCanonical (root ++ target) = some path
  file : fs.existsBut fs.isRegularFile path = some false

/-- The text of the path goes on with a component behind that of the root. -/
def EndsComponent (dir path : Text) : Prop :=
  (dir = [] ∨ dir.getLast? = some slash ∨ path[dir.length]? = some slash) ∧
    ∃ c ∈ path.drop dir.length, c ≠ slash

/-- A result is below the root. -/
def Confined (fs : FileSystem) (root result : Text) : Prop :=
  result ≠ [] → ∃ dir, fs.weaklyCanonical root = some dir ∧ Paths.Below slash dir result

theorem contains_iff {dir path : Text} :
    contains dir path = true ↔ ∃ rest, rest ≠ [] ∧ path = dir ++ rest := by
  unfold contains
  rw [Bool.and_eq_true, List.isPrefixOf_iff_prefix, decide_eq_true_eq]
  constructor
  · rintro ⟨⟨rest, rfl⟩, hlt⟩
    rw [List.length_append] at hlt
    exact ⟨rest, List.ne_nil_of_length_pos (by omega), rfl⟩
  · rintro ⟨rest, hne, rfl⟩
    have hpos := List.length_pos_of_ne_nil hne
    exact ⟨List.prefix_append _ _, by rw [List.length_append]; omega⟩

theorem below_iff_endsComponent {dir path : Text} (h : contains dir path = true) :
    Paths.Below slash dir path ↔ EndsComponent dir path := by
  obtain ⟨rest, hne, rfl⟩ := contains_iff.mp h
  unfold EndsComponent
  rw [Paths.below_append_iff, List.drop_left, List.getElem?_append_right (Nat.le_refl _),
    Nat.sub_self, List.head?_eq_getElem?]

theorem canonical?_eq_some_iff {fs : FileSystem} {root target path : Text}
    (habsolute : (ascii "/").isPrefixOf root = true) : canonical? fs root target = some path ↔
      ∃ dir, Resolves fs root target dir path ∧ contains dir path = true := by
  unfold canonical?
  constructor
  · intro h
    obtain ⟨dir, hdir, h⟩ := Option.bind_eq_some_iff.mp h
    obtain ⟨blocked, hdirectory, h⟩ := Option.bind_eq_some_iff.mp h
    cases blocked with
    | true => cases h
    | false =>
      obtain ⟨found, hpath, h⟩ := Option.bind_eq_some_iff.mp h
      obtain ⟨blocked, hfile, h⟩ := Option.bind_eq_some_iff.mp h
      cases blocked with
      | true => cases h
      | false =>
        by_cases hcontains : contains dir found = true
        · rw [if_neg Bool.noConfusion, if_pos hcontains] at h
          cases h
          exact ⟨dir, ⟨habsolute, hdir, hdirectory, hpath, hfile⟩, hcontains⟩
        · rw [if_neg Bool.noConfusion, if_neg hcontains] at h
          cases h
  · rintro ⟨dir, ⟨_, hdir, hdirectory, hpath, hfile⟩, hcontains⟩
    simp [hdir, hdirectory, hpath, hfile, hcontains]

/-- The result is the path that resolves, where it is contained. -/
theorem toCanonical_eq_iff {fs : FileSystem} {root target path : Text} (hne : path ≠ []) :
    toCanonical fs root target = path ↔
      ∃ dir, Resolves fs root target dir path ∧ contains dir path = true := by
  unfold toCanonical
  by_cases habsolute : (ascii "/").isPrefixOf root = true
  · rw [if_neg (not_not_intro habsolute), ← canonical?_eq_some_iff habsolute]
    cases canonical? fs root target with
    | none => simp [hne.symm]
    | some found => simp
  · rw [if_pos habsolute]
    exact iff_of_false hne.symm fun ⟨_, h, _⟩ => habsolute h.absolute

theorem confined_iff (fs : FileSystem) (root target : Text) :
    Confined fs root (toCanonical fs root target) ↔
      ∀ dir path, Resolves fs root target dir path → contains dir path = true →
        EndsComponent dir path := by
  constructor
  · intro h dir path hresolves hcontains
    have hne : path ≠ [] := by
      obtain ⟨rest, hrest, rfl⟩ := contains_iff.mp hcontains
      exact List.append_ne_nil_of_right_ne_nil dir hrest
    have heq := (toCanonical_eq_iff hne).mpr ⟨dir, hresolves, hcontains⟩
    rw [heq] at h
    obtain ⟨base, hbase, hbelow⟩ := h hne
    rw [hresolves.base] at hbase
    cases hbase
    exact (below_iff_endsComponent hcontains).mp hbelow
  · intro h hne
    obtain ⟨dir, hresolves, hcontains⟩ := (toCanonical_eq_iff hne).mp rfl
    exact ⟨dir, hresolves.base,
      (below_iff_endsComponent hcontains).mpr (h dir _ hresolves hcontains)⟩

/-- A result is below the root exactly if a path that is contained by its text goes on with
a component, where the root and the target resolve. -/
theorem target_confined_iff (fs : FileSystem) (uri : UriParser) (root target : Text) :
    (Confined fs root (toCanonical fs root target) ↔
      ∀ dir path, Resolves fs root target dir path → contains dir path = true →
        EndsComponent dir path) ∧
    (Confined fs root (sanitizeOrigin fs uri root target) ↔
      (isOriginForm uri target = true → isSafeTarget target = true →
        ∀ dir path, Resolves fs root target dir path → contains dir path = true →
          EndsComponent dir path)) := by
  refine ⟨confined_iff fs root target, ?_⟩
  unfold sanitizeOrigin
  by_cases hsafe : isOriginForm uri target = true ∧ isSafeTarget target = true
  · rw [if_pos (by rw [hsafe.1, hsafe.2]; rfl), confined_iff]
    exact ⟨fun h _ _ => h, fun h => h hsafe.1 hsafe.2⟩
  · rw [if_neg (by rwa [Bool.and_eq_true])]
    exact iff_of_true (fun h => absurd rfl h) fun horigin htarget => absurd ⟨horigin, htarget⟩ hsafe

/-- A link below the root is resolved to a file beside it. -/
def linkedFiles : FileSystem where
  weaklyCanonical path :=
    some (if path = ascii "/srv/www/link" then ascii "/srv/www-private/key" else path)
  exists? _ := some true
  isDirectory path := some (path == ascii "/srv/www")
  isRegularFile path := some (path == ascii "/srv/www-private/key")

def plainUri : UriParser := ⟨fun _ => some false⟩

theorem not_confined : ¬ ∀ (fs : FileSystem) (uri : UriParser) (root target : Text),
    Confined fs root (toCanonical fs root target) ∧
      Confined fs root (sanitizeOrigin fs uri root target) := by
  intro h
  have hkey : sanitizeOrigin linkedFiles plainUri (ascii "/srv/www") (ascii "/link") =
      ascii "/srv/www-private/key" := by decide
  have hconfined := (h linkedFiles plainUri (ascii "/srv/www") (ascii "/link")).2
  rw [hkey] at hconfined
  obtain ⟨dir, hdir, hbelow⟩ := hconfined (by decide)
  cases hdir
  have hcontains : contains (ascii "/srv/www") (ascii "/srv/www-private/key") = true := by
    decide
  have hends := ((below_iff_endsComponent hcontains).mp hbelow).1
  exact absurd hends (by decide)

end BitcoinNetwork.Http
