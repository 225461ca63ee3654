import BitcoinNetwork.Http.FieldFronts

/-!
# Incomplete elements (messages/http/parser.cpp, parse_start_line and parse_field)

An element is incomplete where its text ends. Some of what is so reported cannot be the front
of any element.
-/

namespace BitcoinNetwork.Http
open Incremental

/-- The parse reports need_more only for what a continuation makes an element. -/
def Sound {α : Type} (parse : Parse α) (text : Text) : Prop :=
  parse text = .more → ∃ more value rest, parse (text ++ more) = .done value rest

/-! ### Versions -/

/-- `HTTP-version`. -/
def versions : List Text := [ascii "HTTP/1.0", ascii "HTTP/1.1"]

theorem length_version {version : Text} (h : version ∈ versions) : version.length = 8 := by
  have hall : ∀ version ∈ versions, version.length = 8 := by decide
  exact hall version h

theorem parseVersion_version {version : Text} (h : version ∈ versions) (rest : Text) :
    ∃ n, parseVersion (version ++ rest) = .done n rest := by
  have htake : (Element.exactly 8 : Parse Text) (version ++ rest) = .done version rest :=
    Element.exactly_append (length_version h) rest
  rw [parseVersion, Element.bind_of_done htake]
  rw [versions, List.mem_cons, List.mem_singleton] at h
  rcases h with rfl | rfl
  · exact ⟨10, rfl⟩
  · exact ⟨11, rfl⟩

theorem parseVersion_short {d : Text} (h : d.length < 8) : parseVersion d = .more := by
  rw [parseVersion, Element.bind_apply, Element.exactly, if_pos h]

theorem byte_of_toNat {c d : UInt8} (h : c.toNat = d.toNat) : c = d := UInt8.toNat_inj.mp h

theorem parseVersion_done {d rest : Text} {n : ℕ} (h : parseVersion d = .done n rest) :
    ∃ version ∈ versions, d = version ++ rest := by
  obtain ⟨text, mid, htake, hcheck⟩ := Element.bind_eq_done h
  obtain ⟨hlen, htext, hmid⟩ := Element.exactly_eq_done htake
  have hd : d = text ++ mid := by rw [htext, hmid, List.take_append_drop]
  have hsize : text.length = 8 := by rw [htext, List.length_take]; omega
  match text, hsize with
  | [h0, h1, h2, h3, h4, major, dot, minor], _ =>
    dsimp only at hcheck
    split at hcheck
    · cases hcheck
    · next hform =>
      split at hcheck
      · cases hcheck
      · next hrange =>
        simp only [List.getD_cons_succ, List.getD_cons_zero] at hform hrange
        simp only [not_or, ne_eq, not_not, Bool.not_eq_true', Bool.not_eq_false] at hform
        obtain ⟨hname, hmajor, rfl, hminor⟩ := hform
        have hfive : [h0, h1, h2, h3, h4] = ascii "HTTP/" := hname
        simp only [isDigit, Bool.and_eq_true, decide_eq_true_eq, UInt8.le_iff_toNat_le] at hmajor hminor
        have h48 : (48 : UInt8).toNat = 48 := rfl
        have h57 : (57 : UInt8).toNat = 57 := rfl
        have hten : version10 = 10 := rfl
        have heleven : version11 = 11 := rfl
        have hone : major = 49 := byte_of_toNat (show major.toNat = 49 by omega)
        have hd' : d = ascii "HTTP/" ++ [49, 46, minor] ++ mid := by
          rw [hd, ← hfive, hone]
          rfl
        have hor : minor = 48 ∨ minor = 49 := by
          have hor : minor.toNat = 48 ∨ minor.toNat = 49 := by omega
          exact hor.imp (fun h => byte_of_toNat h) fun h => byte_of_toNat h
        cases hcheck
        rcases hor with rfl | rfl
        · exact ⟨ascii "HTTP/1.0", List.mem_cons_self, hd'⟩
        · exact ⟨ascii "HTTP/1.1", by simp [versions], hd'⟩

/-- No continuation of the text has a version at its front. -/
def Unversioned (text : Text) : Prop := text.length < 8 ∧ ∀ version ∈ versions, ¬text <+: version

theorem Unversioned.never {text : Text} (h : Unversioned text) (more : Text) {n : ℕ} {rest : Text} :
    parseVersion (text ++ more) ≠ .done n rest := by
  intro hdone
  obtain ⟨version, hversion, heq⟩ := parseVersion_done hdone
  have hfront : text <+: version := by
    refine List.prefix_of_prefix_length_le (List.prefix_append text more) ?_ ?_
    · rw [heq]
      exact List.prefix_append version rest
    · rw [length_version hversion]
      exact h.1.le
  exact h.2 version hversion hfront

/-- An incomplete version, a version, or text that is neither. -/
theorem parseVersion_more {d : Text} (h : parseVersion d = .more) (hversion : ¬Unversioned d) :
    ∃ version ∈ versions, ∃ more, d ++ more = version := by
  have hshort : d.length < 8 := by
    by_contra hlen
    rw [parseVersion, Element.bind_apply, Element.exactly, if_neg hlen] at h
    dsimp only at h
    split at h
    · cases h
    · split at h <;> cases h
  by_contra hnone
  refine hversion ⟨hshort, fun version hmem hfront => hnone ?_⟩
  obtain ⟨more, hmore⟩ := hfront
  exact ⟨version, hmem, more, hmore⟩

/-! ### Request lines -/

/-- What is behind the target of a request line. -/
def versionLine (method target : Text) : Parse (ℕ × RequestLine) := do
  let version ← parseVersion
  let ending ← Element.exactly 2
  if ending ≠ lineEnd then Element.fail .badVersion
  else pure (version, RequestLine.ofMethodString method target)

/-- No continuation of the text is the version and the end of a request line. -/
def NoVersionLine (behind : Text) : Prop :=
  Unversioned behind ∨ ∃ version ∈ versions, ∃ c, c ≠ cr ∧ behind = version ++ [c]

theorem versionLine_stuck {behind : Text} (h : NoVersionLine behind) (method target : Text) :
    versionLine method target behind = .more ∧
      ∀ more value rest, versionLine method target (behind ++ more) ≠ .done value rest := by
  rcases h with hnone | ⟨version, hversion, c, hc, rfl⟩
  · refine ⟨?_, fun more value rest hdone => ?_⟩
    · rw [versionLine, Element.bind_apply, parseVersion_short hnone.1]
    · obtain ⟨n, mid, hparse, -⟩ := Element.bind_eq_done hdone
      exact hnone.never more hparse
  · constructor
    · obtain ⟨n, hparse⟩ := parseVersion_version hversion [c]
      rw [versionLine, Element.bind_of_done hparse]
      rfl
    · intro more value rest hdone
      obtain ⟨n, hparse⟩ := parseVersion_version hversion (c :: more)
      rw [List.append_assoc, List.singleton_append, versionLine, Element.bind_of_done hparse] at hdone
      obtain ⟨ending, mid, hexact, hcheck⟩ := Element.bind_eq_done hdone
      obtain ⟨hlen, hending, -⟩ := Element.exactly_eq_done hexact
      obtain ⟨d, more, rfl⟩ : ∃ d more', more = d :: more' := by
        cases more with
        | nil => simp at hlen
        | cons d more => exact ⟨d, more, rfl⟩
      have hne : ending ≠ lineEnd := by
        rw [hending]
        intro heq
        exact hc (List.cons.inj heq).1
      rw [if_pos hne] at hcheck
      cases hcheck

theorem versionLine_completes {method target behind : Text}
    (h : versionLine method target behind = .more) (hstuck : ¬NoVersionLine behind) :
    ∃ more value rest, versionLine method target (behind ++ more) = .done value rest := by
  have hend : ∀ {version}, version ∈ versions → ∃ value rest,
      versionLine method target (version ++ lineEnd) = .done value rest := by
    intro version hversion
    obtain ⟨n, hparse⟩ := parseVersion_version hversion lineEnd
    refine ⟨(n, RequestLine.ofMethodString method target), [], ?_⟩
    rw [versionLine, Element.bind_of_done hparse]
    rfl
  cases hparse : parseVersion behind with
  | more =>
    obtain ⟨version, hversion, more, rfl⟩ := parseVersion_more hparse fun hn => hstuck (.inl hn)
    obtain ⟨value, rest, hdone⟩ := hend hversion
    exact ⟨more ++ lineEnd, value, rest, by rw [← List.append_assoc]; exact hdone⟩
  | fail e =>
    rw [versionLine, Element.bind_apply, hparse] at h
    cases h
  | done n rest =>
    obtain ⟨version, hversion, rfl⟩ := parseVersion_done hparse
    obtain ⟨value, rest', hdone⟩ := hend hversion
    obtain ⟨m, hparse'⟩ := parseVersion_version hversion rest
    rw [versionLine, Element.bind_of_done hparse'] at h
    match rest with
    | [] => exact ⟨lineEnd, value, rest', by rw [List.append_nil]; exact hdone⟩
    | [c] =>
      have hc : c = cr := by
        by_contra hne
        exact hstuck (.inr ⟨version, hversion, c, hne, rfl⟩)
      refine ⟨[lf], value, rest', ?_⟩
      rw [hc, List.append_assoc]
      exact hdone
    | c :: d :: rest =>
      have htwo : (Element.exactly 2 : Parse Text) (c :: d :: rest) = .done [c, d] rest :=
        @Element.exactly_append _ _ 2 [c, d] rfl rest
      rw [Element.bind_of_done htwo] at h
      split at h <;> cases h

/-- A request line that no continuation completes: it goes wrong behind its target. -/
def RequestStuck (text : Text) : Prop :=
  ∃ method target behind, text = method ++ sp :: (target ++ sp :: behind) ∧ IsToken method ∧
    target ≠ [] ∧ (∀ c ∈ target, isTargetChar c = true) ∧ NoVersionLine behind

theorem parseRequestLine_front {method target : Text} (hmethod : IsToken method)
    (hne : target ≠ []) (htarget : ∀ c ∈ target, isTargetChar c = true) (behind : Text) :
    parseRequestLine (method ++ sp :: (target ++ sp :: behind)) =
      versionLine method target behind := by
  have hscan : (Element.scan isTargetChar : Parse Text) (target ++ sp :: behind) =
      .done target (sp :: behind) := Element.scan_append _ htarget (by decide)
  have hname : (Element.scan isTchar : Parse Text) (method ++ sp :: (target ++ sp :: behind)) =
      .done method (sp :: (target ++ sp :: behind)) := Element.scan_append _ hmethod.2 (by decide)
  rw [parseRequestLine, Element.bind_of_done hname, Element.bind_of_done (item_cons _ _),
    if_neg (by simp [hmethod.1]), Element.bind_of_done hscan, Element.bind_of_done (item_cons _ _),
    if_neg (by simp [hne])]
  rfl

/-- An incomplete request line ends in its method, in its target or behind that. -/
theorem parseRequestLine_more {text : Text} (h : parseRequestLine text = .more) :
    (∀ c ∈ text, isTchar c = true) ∨
    (∃ method target, text = method ++ sp :: target ∧ IsToken method ∧
      ∀ c ∈ target, isTargetChar c = true) ∨
    ∃ method target behind, text = method ++ sp :: (target ++ sp :: behind) ∧ IsToken method ∧
      target ≠ [] ∧ (∀ c ∈ target, isTargetChar c = true) ∧
      versionLine method target behind = .more := by
  obtain ⟨method, hmethod, rfl | ⟨c, tail, hc, rfl⟩⟩ := exists_run isTchar text
  · exact .inl hmethod
  right
  have hname : (Element.scan isTchar : Parse Text) (method ++ c :: tail) =
      .done method (c :: tail) := Element.scan_append _ hmethod hc
  by_cases hsp : c = sp ∧ method ≠ []
  · obtain ⟨rfl, hne⟩ := hsp
    obtain ⟨target, htarget, rfl | ⟨d, behind, hd, rfl⟩⟩ := exists_run isTargetChar tail
    · exact .inl ⟨method, tail, rfl, ⟨hne, hmethod⟩, htarget⟩
    have hscan : (Element.scan isTargetChar : Parse Text) (target ++ d :: behind) =
        .done target (d :: behind) := Element.scan_append _ htarget hd
    by_cases hend : d = sp ∧ target ≠ []
    · obtain ⟨rfl, hsome⟩ := hend
      rw [parseRequestLine_front ⟨hne, hmethod⟩ hsome htarget] at h
      exact .inr ⟨method, target, behind, rfl, ⟨hne, hmethod⟩, hsome, htarget, h⟩
    · rw [parseRequestLine, Element.bind_of_done hname, Element.bind_of_done (item_cons _ _),
        if_neg (by simp [hne]), Element.bind_of_done hscan, Element.bind_of_done (item_cons _ _),
        if_pos (by tauto)] at h
      cases h
  · rw [parseRequestLine, Element.bind_of_done hname, Element.bind_of_done (item_cons _ _),
      if_pos (by tauto)] at h
    cases h

theorem request_sound_iff (text : Text) : Sound parseRequestLine text ↔ ¬RequestStuck text := by
  constructor
  · rintro hsound ⟨method, target, behind, rfl, hmethod, hne, htarget, hstuck⟩
    obtain ⟨hmore, hnever⟩ := versionLine_stuck hstuck method target
    obtain ⟨more, value, rest, hdone⟩ :=
      hsound (by rw [parseRequestLine_front hmethod hne htarget]; exact hmore)
    rw [List.append_assoc, List.cons_append, List.append_assoc, List.cons_append,
      parseRequestLine_front hmethod hne htarget] at hdone
    exact hnever more value rest hdone
  · intro hstuck hmore
    have hx : isTargetChar 120 = true := rfl
    rcases parseRequestLine_more hmore with hname | ⟨method, target, rfl, hmethod, htarget⟩ |
      ⟨method, target, behind, rfl, hmethod, hne, htarget, hbehind⟩
    · have hmethod : IsToken (text ++ [120]) :=
        ⟨by simp, List.forall_mem_append.mpr ⟨hname, List.forall_mem_singleton.mpr rfl⟩⟩
      have hdone := parseRequestLine_append hmethod (by simp : ([120] : Text) ≠ [])
        (List.forall_mem_singleton.mpr hx) []
      simp only [List.append_assoc] at hdone
      exact ⟨_, _, _, hdone⟩
    · have hdone := parseRequestLine_append hmethod (by simp : target ++ [120] ≠ [])
        (List.forall_mem_append.mpr ⟨htarget, List.forall_mem_singleton.mpr hx⟩) []
      have hsp : ascii " " ++ (target ++ ([120] ++ (ascii " " ++ (ascii "HTTP/1.1" ++
          (lineEnd ++ []))))) = sp :: target ++ ([120] ++ (ascii " " ++ (ascii "HTTP/1.1" ++
          (lineEnd ++ [])))) := rfl
      simp only [List.append_assoc] at hdone
      rw [hsp, ← List.append_assoc] at hdone
      exact ⟨_, _, _, hdone⟩
    · obtain ⟨more, value, rest, hdone⟩ := versionLine_completes hbehind fun hno =>
        hstuck ⟨method, target, behind, rfl, hmethod, hne, htarget, hno⟩
      refine ⟨more, value, rest, ?_⟩
      rw [List.append_assoc, List.cons_append, List.append_assoc, List.cons_append,
        parseRequestLine_front hmethod hne htarget]
      exact hdone

/-! ### Status lines -/

theorem findLine_completes {bad : HttpError} {d : Text} (h : findLine bad d = .more) :
    ∃ more reason rest, findLine bad (d ++ more) = .done reason rest := by
  obtain ⟨line, hline, rfl | ⟨c, tail, hc, rfl⟩⟩ := exists_line d
  · have hdone : findLine bad (d ++ lineEnd ++ []) = .done d [] := findLine_append hline []
    rw [List.append_assoc] at hdone
    exact ⟨_, _, _, hdone⟩
  · have htext : (Element.scan (fun c => !isControl c) : Parse Text) (line ++ c :: tail) =
        .done line (c :: tail) :=
      Element.scan_append _ (fun c hc => by simp [hline c hc]) (by simp [hc])
    rw [findLine, Element.bind_of_done htext, Element.bind_of_done (item_cons c tail)] at h
    split at h
    · cases h
    · next hcr =>
      rw [not_not.mp hcr]
      cases tail with
      | nil =>
        have hdone : findLine bad (line ++ lineEnd ++ []) = .done line [] :=
          findLine_append hline []
        exact ⟨[lf], line, [], by simpa [lineEnd] using hdone⟩
      | cons d rest =>
        rw [Element.bind_of_done (item_cons d rest)] at h
        split at h <;> cases h

/-- What is behind the version of a status line. -/
def statusLine (version : ℕ) : Parse (ℕ × StatusLine) := do
  let c ← Element.item
  if c ≠ sp then Element.fail .badVersion
  else do
    let status ← Element.exactly 4
    let hundreds := status.getD 0 0
    let tens := status.getD 1 0
    let units := status.getD 2 0
    if !isDigit hundreds ∨ !isDigit tens ∨ !isDigit units ∨ status.getD 3 0 ≠ sp then
      Element.fail .badStatus
    else do
      let code := (hundreds.toNat - 48) * 100 + (tens.toNat - 48) * 10 + (units.toNat - 48)
      let reason ← findLine .badReason
      pure (version, ⟨code, reason⟩)

theorem parseStatusLine_eq : parseStatusLine = parseVersion >>= statusLine := rfl

/-- A status line that no continuation completes: one without a version, or with a status that
has begun with another character than a digit. -/
def StatusStuck (text : Text) : Prop :=
  Unversioned text ∨ ∃ version ∈ versions, ∃ status, text = version ++ sp :: status ∧
    status.length < 4 ∧ ∃ c ∈ status, isDigit c = false

/-- The status and the reason behind three digits are read. -/
theorem statusLine_digits (version : ℕ) {a b c : UInt8} (ha : isDigit a = true)
    (hb : isDigit b = true) (hc : isDigit c = true) (behind : Text) :
    statusLine version (sp :: a :: b :: c :: sp :: behind) =
      (findLine .badReason >>= fun reason => pure (version,
        ⟨(a.toNat - 48) * 100 + (b.toNat - 48) * 10 + (c.toNat - 48), reason⟩)) behind := by
  have hfour : (Element.exactly 4 : Parse Text) (a :: b :: c :: sp :: behind) =
      .done [a, b, c, sp] behind := @Element.exactly_append _ _ 4 [a, b, c, sp] rfl behind
  rw [statusLine, Element.bind_of_done (item_cons sp _), if_neg (by simp),
    Element.bind_of_done hfour]
  simp only [List.getD_cons_zero, List.getD_cons_succ, ha, hb, hc]
  rfl

theorem statusLine_completes {version : ℕ} {text : Text} (h : statusLine version text = .more)
    (hdigits : ∀ status, text = sp :: status → status.length < 4 →
      ∀ c ∈ status, isDigit c = true) :
    ∃ more value rest, statusLine version (text ++ more) = .done value rest := by
  have hzero : isDigit 48 = true := rfl
  have hdone : ∀ {a b c : UInt8}, isDigit a = true → isDigit b = true → isDigit c = true →
      ∃ value rest, statusLine version (sp :: a :: b :: c :: sp :: lineEnd) = .done value rest := by
    intro a b c ha hb hc
    rw [statusLine_digits version ha hb hc]
    exact ⟨_, _, rfl⟩
  match text with
  | [] =>
    obtain ⟨value, rest, hvalue⟩ := hdone hzero hzero hzero
    exact ⟨_, value, rest, hvalue⟩
  | first :: status =>
    by_cases hsp : first = sp
    · subst hsp
      match status, hdigits status rfl with
      | [], _ =>
        obtain ⟨value, rest, hvalue⟩ := hdone hzero hzero hzero
        exact ⟨48 :: 48 :: 48 :: sp :: lineEnd, value, rest, hvalue⟩
      | [a], hall =>
        obtain ⟨value, rest, hvalue⟩ := hdone (hall (by simp) a (by simp)) hzero hzero
        exact ⟨48 :: 48 :: sp :: lineEnd, value, rest, hvalue⟩
      | [a, b], hall =>
        have hall := hall (by simp)
        obtain ⟨value, rest, hvalue⟩ := hdone (hall a (by simp)) (hall b (by simp)) hzero
        exact ⟨48 :: sp :: lineEnd, value, rest, hvalue⟩
      | [a, b, c], hall =>
        have hall := hall (by simp)
        obtain ⟨value, rest, hvalue⟩ :=
          hdone (hall a (by simp)) (hall b (by simp)) (hall c (by simp))
        exact ⟨sp :: lineEnd, value, rest, hvalue⟩
      | a :: b :: c :: d :: behind, _ =>
        by_cases hform : isDigit a = true ∧ isDigit b = true ∧ isDigit c = true ∧ d = sp
        · obtain ⟨ha, hb, hc, rfl⟩ := hform
          rw [statusLine_digits version ha hb hc] at h
          have hline : findLine .badReason behind = .more := by
            cases hreason : findLine .badReason behind with
            | more => rfl
            | fail e =>
              rw [Element.bind_apply, hreason] at h
              cases h
            | done reason rest =>
              rw [Element.bind_of_done hreason] at h
              cases h
          obtain ⟨more, reason, rest, hreason⟩ := findLine_completes hline
          refine ⟨more, (version, ⟨(a.toNat - 48) * 100 + (b.toNat - 48) * 10 + (c.toNat - 48),
            reason⟩), rest, ?_⟩
          rw [List.cons_append, List.cons_append, List.cons_append, List.cons_append,
            List.cons_append, statusLine_digits version ha hb hc, Element.bind_of_done hreason]
          rfl
        · have hfour : (Element.exactly 4 : Parse Text) (a :: b :: c :: d :: behind) =
              .done [a, b, c, d] behind := @Element.exactly_append _ _ 4 [a, b, c, d] rfl behind
          have hbad : (!isDigit a) = true ∨ (!isDigit b) = true ∨ (!isDigit c) = true ∨ d ≠ sp := by
            simp only [Bool.not_eq_true']
            by_contra hnone
            simp only [not_or, Bool.not_eq_false, ne_eq, not_not] at hnone
            exact hform hnone
          rw [statusLine, Element.bind_of_done (item_cons sp _), if_neg (by simp),
            Element.bind_of_done hfour] at h
          simp only [List.getD_cons_zero, List.getD_cons_succ] at h
          rw [if_pos hbad] at h
          cases h
    · rw [statusLine, Element.bind_of_done (item_cons first status), if_pos hsp] at h
      cases h

theorem statusLine_stuck {status : Text} (hlen : status.length < 4)
    (hbad : ∃ c ∈ status, isDigit c = false) (version : ℕ) :
    statusLine version (sp :: status) = .more ∧
      ∀ more value rest, statusLine version (sp :: status ++ more) ≠ .done value rest := by
  constructor
  · rw [statusLine, Element.bind_of_done (item_cons sp status), if_neg (by simp),
      Element.bind_apply, Element.exactly, if_pos hlen]
  · intro more value rest hdone
    rw [List.cons_append, statusLine, Element.bind_of_done (item_cons sp _), if_neg (by simp)] at hdone
    obtain ⟨four, mid, hfour, hcheck⟩ := Element.bind_eq_done hdone
    obtain ⟨hsize, htake, -⟩ := Element.exactly_eq_done hfour
    -- The digits are among the first three of the four, and what has arrived is among those.
    have hdigits : ∀ c ∈ four.take 3, isDigit c = true := by
      have hfour' : four.length = 4 := by rw [htake, List.length_take]; omega
      obtain ⟨a, b, c, d, rfl⟩ := List.length_eq_four.mp hfour'
      simp only [List.getD_cons_zero, List.getD_cons_succ] at hcheck
      split at hcheck
      · cases hcheck
      · next hform =>
        simp only [not_or, Bool.not_eq_true', Bool.not_eq_false] at hform
        obtain ⟨ha, hb, hc, -⟩ := hform
        simp [ha, hb, hc]
    obtain ⟨c, hc, hnot⟩ := hbad
    have hmem : c ∈ four.take 3 := by
      rw [htake, List.take_take]
      have hfront : status <+: (status ++ more).take (min 3 4) := by
        rw [List.take_append]
        rw [List.take_of_length_le (by omega)]
        exact List.prefix_append _ _
      exact hfront.subset hc
    rw [hdigits c hmem] at hnot
    cases hnot

theorem status_sound_iff (text : Text) : Sound parseStatusLine text ↔ ¬StatusStuck text := by
  rw [parseStatusLine_eq]
  constructor
  · rintro hsound (hnone | ⟨version, hversion, status, rfl, hlen, hbad⟩)
    · obtain ⟨more, value, rest, hdone⟩ :=
        hsound (by rw [Element.bind_apply, parseVersion_short hnone.1])
      obtain ⟨n, mid, hparse, -⟩ := Element.bind_eq_done hdone
      exact hnone.never more hparse
    · obtain ⟨n, hparse⟩ := parseVersion_version hversion (sp :: status)
      obtain ⟨hmore, -⟩ := statusLine_stuck hlen hbad n
      obtain ⟨more, value, rest, hdone⟩ :=
        hsound (by rw [Element.bind_of_done hparse]; exact hmore)
      obtain ⟨m, hparse'⟩ := parseVersion_version hversion (sp :: status ++ more)
      rw [List.append_assoc, Element.bind_of_done hparse'] at hdone
      exact (statusLine_stuck hlen hbad m).2 more value rest hdone
  · intro hstuck hmore
    cases hparse : parseVersion text with
    | more =>
      obtain ⟨version, hversion, more, hfront⟩ :=
        parseVersion_more hparse fun hnone => hstuck (.inl hnone)
      obtain ⟨n, hdone⟩ := parseVersion_version hversion (sp :: 48 :: 48 :: 48 :: sp :: lineEnd)
      refine ⟨more ++ (sp :: 48 :: 48 :: 48 :: sp :: lineEnd), (n, ⟨0, []⟩), [], ?_⟩
      rw [← List.append_assoc, hfront, Element.bind_of_done hdone]
      rfl
    | fail e =>
      rw [Element.bind_apply, hparse] at hmore
      cases hmore
    | done n rest =>
      obtain ⟨version, hversion, rfl⟩ := parseVersion_done hparse
      rw [Element.bind_of_done hparse] at hmore
      obtain ⟨more, value, rest', hdone⟩ := statusLine_completes hmore
        fun status heq hlen c hc => by
          by_contra hdigit
          exact hstuck (.inr ⟨version, hversion, status, by rw [heq], hlen, c, hc,
            by simpa using hdigit⟩)
      have hparse' := parseVersion_prompt.toStable.done_append hparse more
      exact ⟨more, value, rest', by rw [Element.bind_of_done hparse']; exact hdone⟩

/-! ### Fields -/

/-- A field that no continuation completes: it begins as no field does, or no value that goes on
from what has arrived of it is accepted. -/
def FieldStuck (keeps : Bool) (frame : Framing) (text : Text) : Prop :=
  (∃ c, text = [c] ∧ c ≠ cr ∧ isTchar c = false) ∨
    ∃ name raw value goes, text = name ++ colon :: raw ∧ IsToken name ∧ Begun raw value goes ∧
      ¬Viable keeps frame (framingField name) value goes

theorem peek_two {text : Text} (h : 2 ≤ text.length) :
    (Element.peek 2 : Parse Text) text = .done (text.take 2) text := by
  rw [Element.peek, if_neg (by omega)]

/-- A text that does not begin with a CR is a name up to a character that is not of one. -/
theorem parseFieldLine_name {name : Text} (hname : ∀ c ∈ name, isTchar c = true) {c : UInt8}
    (hc : isTchar c = false) {tail : Text} (hlen : 2 ≤ (name ++ c :: tail).length)
    (hcr : (name ++ c :: tail).getD 0 0 ≠ cr) :
    parseFieldLine (name ++ c :: tail) = if c ≠ colon ∨ name = [] then .fail .badField
      else (valueLines [] >>= fun value => pure (some (name, value))) tail := by
  have hfirst : ((name ++ c :: tail).take 2).getD 0 0 ≠ cr := by
    cases hd : name ++ c :: tail with
    | nil => simp at hd
    | cons d rest =>
      rw [hd] at hcr
      exact hcr
  have hscan : (Element.scan isTchar : Parse Text) (name ++ c :: tail) = .done name (c :: tail) :=
    Element.scan_append _ hname hc
  rw [parseFieldLine, Element.bind_of_done (peek_two hlen), if_neg hfirst,
    Element.bind_of_done hscan, Element.bind_of_done (item_cons c tail)]
  split <;> rfl

theorem parseFieldLine_front {name : Text} (hname : IsToken name) (raw : Text) :
    parseFieldLine (name ++ colon :: raw) =
      (valueLines [] >>= fun value => pure (some (name, value))) raw := by
  have hlen : 2 ≤ (name ++ colon :: raw).length := by
    have hpos := List.length_pos_of_ne_nil hname.1
    rw [List.length_append, List.length_cons]
    omega
  have hcr : (name ++ colon :: raw).getD 0 0 ≠ cr := by
    obtain ⟨c, name, rfl⟩ := List.exists_cons_of_ne_nil hname.1
    rintro rfl
    exact absurd (hname.2 cr List.mem_cons_self) (by decide)
  rw [parseFieldLine_name hname.2 (by decide) hlen hcr, if_neg (by simp [hname.1])]

/-- An incomplete field ends at its front, in its name or in its value. -/
theorem parseFieldLine_more {text : Text} (h : parseFieldLine text = .more) :
    text.length < 2 ∨ (∀ c ∈ text, isTchar c = true) ∨
      ∃ name raw, text = name ++ colon :: raw ∧ IsToken name ∧ valueLines [] raw = .more := by
  by_cases hlen : text.length < 2
  · exact .inl hlen
  right
  by_cases hcr : text.getD 0 0 = cr
  · have hfirst : (text.take 2).getD 0 0 = cr := by
      match text, hlen with
      | c :: d :: rest, _ => exact hcr
      | [], hlen | [_], hlen => simp at hlen
    rw [parseFieldLine, Element.bind_of_done (peek_two (by omega)), if_pos hfirst] at h
    split at h
    · cases h
    · rw [Element.bind_apply, Element.exactly, if_neg hlen] at h
      cases h
  · obtain ⟨name, hname, rfl | ⟨c, tail, hc, rfl⟩⟩ := exists_run isTchar text
    · exact .inl hname
    · rw [parseFieldLine_name hname hc (by omega) hcr] at h
      split at h
      · cases h
      · next hcolon =>
        simp only [not_or, ne_eq, not_not] at hcolon
        refine .inr ⟨name, tail, by rw [hcolon.1], ⟨hcolon.2, hname⟩, ?_⟩
        rw [Element.bind_apply] at h
        cases hv : valueLines [] tail with
        | more => rfl
        | fail e => rw [hv] at h; cases h
        | done value rest => rw [hv] at h; cases h

theorem parseField_front {split : Text → List Text} {frame frame' : Framing} {name raw : Text}
    (hname : IsToken name) {value rest : Text} (h : valueLines [] raw = .done value rest)
    (hframe : frameField split frame (framingField name) value = .ok frame') :
    parseField split frame (name ++ colon :: raw) = .done (some (name, value), frame') rest := by
  have hline : parseFieldLine (name ++ colon :: raw) = .done (some (name, value)) rest := by
    rw [parseFieldLine_front hname, Element.bind_of_done h]
    rfl
  rw [parseField, Element.bind_of_done hline]
  simp only [hframe]
  rfl

theorem parseField_more {split : Text → List Text} {frame : Framing} {text : Text} :
    parseField split frame text = .more ↔ parseFieldLine text = .more := by
  constructor
  · intro h
    rw [parseField, Element.bind_apply] at h
    cases hline : parseFieldLine text with
    | more => rfl
    | fail e => rw [hline] at h; cases h
    | done line rest =>
      rw [hline] at h
      cases line with
      | none => cases h
      | some field =>
        cases hframe : frameField split frame (framingField field.1) field.2 with
        | error e =>
          simp only [hframe] at h
          cases h
        | ok frame' =>
          simp only [hframe] at h
          cases h
  · intro h
    rw [parseField, Element.bind_apply, h]

/-- A name longer than those of the framing fields frames nothing. -/
theorem frameField_long (split : Text → List Text) (frame : Framing) {name : Text}
    (h : 17 < name.length) (value : Text) :
    frameField split frame (framingField name) value = .ok frame := by
  have hother : ∀ known : Text, known.length ≤ 17 → iequals name known = false := by
    intro known hknown
    by_contra hequal
    have hlen := congrArg List.length (iequals_iff.mp (by simpa using hequal))
    rw [List.length_map, List.length_map] at hlen
    omega
  have hfield : ∀ field : Field, field ≠ .unknown → field.toString.length ≤ 17 →
      toField name ≠ field := by
    intro field hknown hlen heq
    rw [toField_eq_iff hknown, hother _ hlen] at heq
    cases heq
  have hproxy : framingField name = toField name := by
    rw [framingField, hother _ (by decide)]
    rfl
  rw [hproxy, frameField, if_neg (hfield .connection (by decide) (by decide)),
    if_neg (hfield .contentLength (by decide) (by decide)),
    if_neg (hfield .transferEncoding (by decide) (by decide))]

theorem field_sound_iff {keeps : Bool} {split : Text → List Text} (hs : SplitsBy keeps split)
    {frame : Framing} (hframe : ∀ length ∈ frame.length, length < 2 ^ 64) (text : Text) :
    Sound (parseField split frame) text ↔ ¬FieldStuck keeps frame text := by
  constructor
  · rintro hsound (⟨c, rfl, hcr, hc⟩ | ⟨name, raw, value, goes, rfl, hname, hbegun, hviable⟩)
    · obtain ⟨more, value, rest, hdone⟩ := hsound (by rw [parseField_more]; rfl)
      obtain ⟨line, mid, hline, -⟩ := Element.bind_eq_done hdone
      have hlen : 2 ≤ ([] ++ c :: more).length := by
        obtain ⟨front, mid, hpeek, -⟩ := Element.bind_eq_done hline
        exact (Element.peek_eq_done hpeek).1
      have hnone : ∀ c ∈ ([] : Text), isTchar c = true := nofun
      have hbad := parseFieldLine_name hnone hc hlen hcr
      rw [if_pos (.inr rfl)] at hbad
      exact absurd (hbad.symm.trans hline) nofun
    · have hmore : parseField split frame (name ++ colon :: raw) = .more := by
        rw [parseField_more, parseFieldLine_front hname, Element.bind_apply, hbegun.incomplete]
      obtain ⟨more, field, rest, hdone⟩ := hsound hmore
      obtain ⟨line, mid, hline, hok⟩ := Element.bind_eq_done hdone
      rw [List.append_assoc, List.cons_append, parseFieldLine_front hname] at hline
      obtain ⟨result, mid', hresult, hpure⟩ := Element.bind_eq_done hline
      cases hpure
      obtain ⟨value', hext, rfl⟩ := hbegun.extends hresult
      rw [joinValue_nil_left] at hok
      cases hframed : frameField split frame (framingField name) value' with
      | error e =>
        simp only [hframed] at hok
        cases hok
      | ok frame' => exact hviable (viable_of_extends hs hframe hext hframed)
  · intro hstuck hmore
    rw [parseField_more] at hmore
    have hlong : (∀ c ∈ text, isTchar c = true) →
        ∃ more value rest, parseField split frame (text ++ more) = .done value rest := by
      intro htext
      have hname : IsToken (text ++ List.replicate 18 120) := by
        refine ⟨by simp, List.forall_mem_append.mpr ⟨htext, fun c hc => ?_⟩⟩
        rw [List.eq_of_mem_replicate hc]
        rfl
      have hlen : 17 < (text ++ List.replicate 18 120).length := by
        rw [List.length_append, List.length_replicate]
        omega
      have hline : valueLines [] ([] ++ cr :: lf :: [cr]) = .done [] [cr] :=
        valueLines_last [] (nofun : IsVisible []) rfl []
      have hdone := parseField_front hname hline (frameField_long split frame hlen [])
      rw [List.append_assoc] at hdone
      exact ⟨_, _, _, hdone⟩
    rcases parseFieldLine_more hmore with hlen | hname | ⟨name, raw, rfl, hname, hraw⟩
    · match text, hlen with
      | [], _ => exact hlong nofun
      | _ :: _ :: _, hlen =>
        simp only [List.length_cons] at hlen
        omega
      | [c], _ =>
        by_cases hcr : c = cr
        · exact ⟨[lf], _, _, by rw [hcr]; exact parseField_end split frame []⟩
        · refine hlong (List.forall_mem_singleton.mpr ?_)
          by_contra hc
          exact hstuck (.inl ⟨c, rfl, hcr, by simpa using hc⟩)
    · exact hlong hname
    · obtain ⟨value, goes, hbegun⟩ := begun_of_incomplete hraw
      have hviable : Viable keeps frame (framingField name) value goes := by
        by_contra hnone
        exact hstuck (.inr ⟨name, raw, value, goes, rfl, hname, hbegun, hnone⟩)
      obtain ⟨part, frame', hpart, hok⟩ := accepted_of_viable hs hbegun.trimmed hviable
      have hvisible : IsVisible part := fun c hc =>
        (hpart c hc).elim isTchar_not_control fun h => by rw [h]; rfl
      have htrimmed : IsTrimmed part := isTrimmed_of_word fun c hc =>
        (hpart c hc).elim isTchar_not_whitespace fun h => by rw [h]; rfl
      rcases hok with hjoined | ⟨hgoes, hne, hgone⟩
      · obtain ⟨more, rest, hdone⟩ := hbegun.can_join hvisible []
        rw [trim_of_trimmed htrimmed, joinValue_nil_left] at hdone
        have hfield := parseField_front hname hdone hjoined
        rw [← List.cons_append, ← List.append_assoc] at hfield
        exact ⟨more, _, _, hfield⟩
      · obtain ⟨-, hreach⟩ := hbegun.can_go_on hgoes hne hvisible htrimmed
        obtain ⟨more, rest, hdone⟩ := hreach []
        rw [joinValue_nil_left] at hdone
        have hfield := parseField_front hname hdone hgone
        rw [← List.cons_append, ← List.append_assoc] at hfield
        exact ⟨more, _, _, hfield⟩

/-! ### Every element -/

theorem need_more_sound_iff {keeps : Bool} {split : Text → List Text} (hs : SplitsBy keeps split)
    {frame : Framing} (hframe : ∀ length ∈ frame.length, length < 2 ^ 64) (text : Text) :
    (Sound (parseStartLine true) text ↔ ¬RequestStuck text) ∧
      (Sound (parseStartLine false) text ↔ ¬StatusStuck text) ∧
      (Sound (parseField split frame) text ↔ ¬FieldStuck keeps frame text) :=
  ⟨request_sound_iff text, status_sound_iff text, field_sound_iff hs hframe text⟩

/-- The front of a length that is not a number. -/
theorem need_more_sound_iff_length :
    (Sound (parseStartLine true) (ascii "Content-Length: x") ↔
        ¬RequestStuck (ascii "Content-Length: x")) ∧
      (Sound (parseStartLine false) (ascii "Content-Length: x") ↔
        ¬StatusStuck (ascii "Content-Length: x")) ∧
      (Sound (parseField listItems {}) (ascii "Content-Length: x") ↔
        ¬FieldStuck false {} (ascii "Content-Length: x")) :=
  need_more_sound_iff listItems_splitsBy (by simp) _

/-- More is asked for behind a character that no status line begins with. -/
theorem status_line_need_more_unsound :
    parseStartLine false (ascii "X") = .more ∧ ¬Sound (parseStartLine false) (ascii "X") := by
  have hnone : Unversioned (ascii "X") := ⟨by decide, by decide⟩
  refine ⟨rfl, fun hsound => ?_⟩
  obtain ⟨more, value, rest, hdone⟩ := hsound rfl
  obtain ⟨n, mid, hparse, -⟩ := Element.bind_eq_done hdone
  exact hnone.never more hparse

end BitcoinNetwork.Http
