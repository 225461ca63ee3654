import BitcoinNetwork.Http.Lists
import BitcoinNetwork.Http.Written

/-!
# Values that arrive in parts (messages/http/parser.cpp, parse_field)

The lines of a value are trimmed and joined by a space. What has arrived of a value leaves
open how it goes on: its last line may go on behind its last character, or another line joins.
-/

namespace BitcoinNetwork.Http
open Incremental

/-! ### Joined lines -/

/-- `value` with another line, of which an empty one adds nothing. -/
def joinValue (value part : Text) : Text :=
  if part = [] then value else if value = [] then part else value ++ sp :: part

theorem joinValue_nil_left (part : Text) : joinValue [] part = part := by
  unfold joinValue
  split
  · next h => exact h.symm
  · rfl

theorem joinValue_nil_right (value : Text) : joinValue value [] = value := rfl

theorem joinValue_of_ne_nil {value part : Text} (hv : value ≠ []) (hp : part ≠ []) :
    joinValue value part = value ++ sp :: part := by
  rw [joinValue, if_neg hp, if_neg hv]

theorem joinValue_assoc (a b c : Text) :
    joinValue (joinValue a b) c = joinValue a (joinValue b c) := by
  by_cases ha : a = []
  · rw [ha, joinValue_nil_left, joinValue_nil_left]
  by_cases hb : b = []
  · rw [hb, joinValue_nil_left, joinValue_nil_right]
  by_cases hc : c = []
  · rw [hc, joinValue_nil_right, joinValue_nil_right]
  rw [joinValue_of_ne_nil ha hb, joinValue_of_ne_nil hb hc, joinValue_of_ne_nil (by simp) hc,
    joinValue_of_ne_nil ha (by simp)]
  simp

/-! ### One line -/

/-- A text is a run and what ends it, if it is ended. -/
theorem exists_run (q : UInt8 → Bool) (d : Text) : ∃ run, (∀ c ∈ run, q c = true) ∧
    (d = run ∨ ∃ c tail, q c = false ∧ d = run ++ c :: tail) := by
  induction d with
  | nil => exact ⟨[], nofun, .inl rfl⟩
  | cons b d ih =>
    cases hb : q b with
    | false => exact ⟨[], nofun, .inr ⟨b, d, hb, rfl⟩⟩
    | true =>
      obtain ⟨run, hrun, hd⟩ := ih
      refine ⟨b :: run, List.forall_mem_cons.mpr ⟨hb, hrun⟩, ?_⟩
      rcases hd with rfl | ⟨c, tail, hc, rfl⟩
      · exact .inl rfl
      · exact .inr ⟨c, tail, hc, rfl⟩

theorem exists_line (d : Text) : ∃ line, IsVisible line ∧
    (d = line ∨ ∃ c tail, isControl c = true ∧ d = line ++ c :: tail) := by
  obtain ⟨line, hline, hd⟩ := exists_run (fun c => !isControl c) d
  refine ⟨line, fun c hc => by simpa using hline c hc, hd.imp_right ?_⟩
  rintro ⟨c, tail, hc, rfl⟩
  exact ⟨c, tail, by simpa using hc, rfl⟩

theorem scan_more {q : UInt8 → Bool} {text : Text} (h : ∀ c ∈ text, q c = true) :
    (Element.scan q : Parse Text) text = .more := by
  have hdrop : text.dropWhile q = [] := List.dropWhile_eq_nil_iff.mpr h
  rw [Element.scan, hdrop]

theorem isWhitespace_of_control {c : UInt8} (hc : isControl c = true) : isWhitespace c = false := by
  by_contra hw
  rw [isWhitespace_not_control (by simpa using hw)] at hc
  cases hc

theorem valueLine_open (value : Text) {line : Text} (hline : IsVisible line) :
    valueLine value line = .more := by
  have hblank : ∀ c ∈ line.takeWhile isWhitespace, isWhitespace c = true :=
    fun c hc => List.mem_takeWhile_imp hc
  have hsplit := List.takeWhile_append_dropWhile (p := isWhitespace) (l := line)
  rw [valueLine, Element.bind_apply]
  cases htail : line.dropWhile isWhitespace with
  | nil => rw [Element.scan, htail]
  | cons c tail =>
    have hvisible : ∀ d ∈ c :: tail, (!isControl d) = true := fun d hd => by
      have hmem : d ∈ line := (List.dropWhile_suffix isWhitespace).mem (htail ▸ hd)
      rw [hline d hmem]
      rfl
    rw [Element.scan, htail]
    dsimp only
    rw [Element.bind_apply, findLine, Element.bind_apply, scan_more hvisible]

/-- A line up to a control character, and what is done with that. -/
theorem valueLine_control (value : Text) {line : Text} (hline : IsVisible line) {c : UInt8}
    (hc : isControl c = true) (tail : Text) :
    valueLine value (line ++ c :: tail) = if c ≠ cr then .fail .badValue else match tail with
      | [] => .more
      | d :: rest => if d ≠ lf then .fail .badLineEnding else match rest with
        | [] => .more
        | e :: rest =>
          if isWhitespace e then .done (.inl (joinValue value (trim line))) rest
          else .done (.inr (joinValue value (trim line))) (e :: rest) := by
  have hblank : ∀ c ∈ line.takeWhile isWhitespace, isWhitespace c = true :=
    fun c hc => List.mem_takeWhile_imp hc
  have hsplit := List.takeWhile_append_dropWhile (p := isWhitespace) (l := line)
  have hvisible : ∀ d ∈ line.dropWhile isWhitespace, (!isControl d) = true := fun d hd => by
    rw [hline d ((List.dropWhile_suffix isWhitespace).mem hd)]
    rfl
  have hskip : (Element.scan isWhitespace : Parse Text) (line ++ c :: tail) =
      .done (line.takeWhile isWhitespace) (line.dropWhile isWhitespace ++ c :: tail) := by
    nth_rewrite 1 [← hsplit]
    rw [List.append_assoc]
    cases htail : line.dropWhile isWhitespace with
    | nil => exact Element.scan_append _ hblank (isWhitespace_of_control hc)
    | cons b rest =>
      have hhead := List.head?_dropWhile_not isWhitespace line
      rw [htail] at hhead
      exact Element.scan_append _ hblank (by simpa using hhead)
  have htext : (Element.scan (fun c => !isControl c) : Parse Text)
      (line.dropWhile isWhitespace ++ c :: tail) =
      .done (line.dropWhile isWhitespace) (c :: tail) :=
    Element.scan_append _ hvisible (by simp [hc])
  rw [valueLine, Element.bind_of_done hskip, Element.bind_apply, findLine,
    Element.bind_of_done htext, Element.bind_of_done (item_cons c tail)]
  by_cases hcr : c = cr
  · rw [if_neg (not_not.mpr hcr), if_neg (not_not.mpr hcr)]
    cases tail with
    | nil => rfl
    | cons d rest =>
      rw [Element.bind_of_done (item_cons d rest)]
      by_cases hlf : d = lf
      · rw [if_neg (not_not.mpr hlf)]
        simp only [hlf, ne_eq, not_true, if_false]
        cases rest with
        | nil => rfl
        | cons e rest =>
          have hpeek : (Element.peek 1 : Parse Text) (e :: rest) = .done [e] (e :: rest) := by
            simp [Element.peek]
          rw [Element.pure_apply]
          dsimp only
          rw [Element.bind_of_done hpeek]
          simp only [List.getD_cons_zero]
          cases he : isWhitespace e with
          | true => rfl
          | false => rfl
      · rw [if_pos hlf]
        simp only [hlf, ne_eq, not_false_eq_true, if_true]
        rfl
  · rw [if_pos hcr, if_pos hcr]
    rfl

/-! ### A value -/

/-- The loop of `parse_field` over the lines of a value. -/
def valueLines (value : Text) : Parse Text := Element.iterate valueLine value

theorem valueLines_eq (value d : Text) :
    valueLines value d = match valueLine value d with
      | .more => .more
      | .fail e => .fail e
      | .done (.inl value') rest => valueLines value' rest
      | .done (.inr value') rest => .done value' rest := by
  unfold valueLines
  rw [Element.iterate_eq (fun h => (valueLine_consumes _).shorter h)]
  cases valueLine value d with
  | more => rfl
  | fail e => rfl
  | done r rest => cases r <;> rfl

theorem valueLines_open (value : Text) {line : Text} (hline : IsVisible line) :
    valueLines value line = .more := by
  rw [valueLines_eq, valueLine_open value hline]

theorem valueLines_control (value : Text) {line : Text} (hline : IsVisible line) {c : UInt8}
    (hc : isControl c = true) (tail : Text) :
    valueLines value (line ++ c :: tail) = if c ≠ cr then .fail .badValue else match tail with
      | [] => .more
      | d :: rest => if d ≠ lf then .fail .badLineEnding else match rest with
        | [] => .more
        | e :: rest =>
          if isWhitespace e then valueLines (joinValue value (trim line)) rest
          else .done (joinValue value (trim line)) (e :: rest) := by
  rw [valueLines_eq, valueLine_control value hline hc]
  by_cases hcr : c = cr
  · simp only [hcr, ne_eq, not_true, if_false]
    cases tail with
    | nil => rfl
    | cons d rest =>
      by_cases hlf : d = lf
      · simp only [hlf, not_true, if_false]
        cases rest with
        | nil => rfl
        | cons e rest =>
          by_cases he : isWhitespace e = true
          · simp only [he, if_true]
          · simp only [he]
            rfl
      · simp only [hlf, not_false_eq_true, if_true]
  · simp only [hcr, ne_eq, not_false_eq_true, if_true]

theorem valueLines_fold (value : Text) {line : Text} (hline : IsVisible line) {w : UInt8}
    (hw : isWhitespace w = true) (rest : Text) :
    valueLines value (line ++ cr :: lf :: w :: rest) =
      valueLines (joinValue value (trim line)) rest := by
  rw [valueLines_control value hline rfl]
  simp [hw]

theorem valueLines_last (value : Text) {line : Text} (hline : IsVisible line) {e : UInt8}
    (he : isWhitespace e = false) (rest : Text) :
    valueLines value (line ++ cr :: lf :: e :: rest) =
      .done (joinValue value (trim line)) (e :: rest) := by
  rw [valueLines_control value hline rfl]
  simp [he]

/-- A value is a line and what joins it. -/
theorem valueLines_done {value d result rest : Text} (h : valueLines value d = .done result rest) :
    ∃ line e tail, IsVisible line ∧ d = line ++ cr :: lf :: e :: tail ∧
      ((isWhitespace e = true ∧ valueLines (joinValue value (trim line)) tail = .done result rest) ∨
        isWhitespace e = false ∧ result = joinValue value (trim line) ∧ rest = e :: tail) := by
  obtain ⟨line, hline, rfl | ⟨c, tail, hc, rfl⟩⟩ := exists_line d
  · rw [valueLines_open value hline] at h
    cases h
  · rw [valueLines_control value hline hc] at h
    split at h
    · cases h
    · next hcr =>
      split at h
      · cases h
      · next b rest' =>
        split at h
        · cases h
        · next hlf =>
          split at h
          · cases h
          · next e tail =>
            refine ⟨line, e, tail, hline, by rw [not_not.mp hcr, not_not.mp hlf], ?_⟩
            split at h
            · next he => exact .inl ⟨he, h⟩
            · next he =>
              cases h
              exact .inr ⟨by simpa using he, rfl, rfl⟩

theorem valueLines_ended {before line tail result rest : Text} (hline : IsVisible line)
    (h : valueLines before (line ++ cr :: tail) = .done result rest) :
    result = joinValue before (trim line) ∨
      ∃ behind, valueLines (joinValue before (trim line)) behind = .done result rest := by
  rw [valueLines_control before hline rfl, if_neg (not_not.mpr rfl)] at h
  split at h
  · cases h
  · split at h
    · cases h
    · split at h
      · cases h
      · split at h
        · exact .inr ⟨_, h⟩
        · cases h
          exact .inl rfl

theorem valueLines_joins {value d result rest : Text}
    (h : valueLines value d = .done result rest) : ∃ more, result = joinValue value more := by
  induction hlen : d.length using Nat.strong_induction_on generalizing value d with
  | _ n ih =>
    obtain ⟨line, e, tail, -, rfl, ⟨-, hfold⟩ | ⟨-, rfl, -⟩⟩ := valueLines_done h
    · simp only [List.length_append, List.length_cons] at hlen
      obtain ⟨more, rfl⟩ := ih tail.length (by omega) hfold rfl
      exact ⟨joinValue (trim line) more, joinValue_assoc _ _ _⟩
    · exact ⟨trim line, rfl⟩

/-! ### What has arrived of a value -/

/-- More of a line would be behind its last character. -/
def goesOn (line : Text) : Bool := line.getLast?.any fun c => !isWhitespace c

/-- What has arrived, the value that it makes, and whether that goes on behind its last
character. -/
inductive Begun : Text → Text → Bool → Prop
  | line {line} (hline : IsVisible line) : Begun line (trim line) (goesOn line)
  | ended {line ending} (hline : IsVisible line) (hending : ending = [cr] ∨ ending = lineEnd) :
      Begun (line ++ ending) (trim line) false
  | fold {line w raw value goes} (hline : IsVisible line) (hw : isWhitespace w = true)
      (hraw : Begun raw value goes) :
      Begun (line ++ cr :: lf :: w :: raw) (joinValue (trim line) value) goes

theorem Begun.incomplete {raw value : Text} {goes : Bool} (h : Begun raw value goes)
    (before : Text) : valueLines before raw = .more := by
  induction h generalizing before with
  | line hline => exact valueLines_open before hline
  | ended hline hending =>
    rcases hending with rfl | rfl
    · exact valueLines_control before hline rfl []
    · exact valueLines_control before hline rfl [lf]
  | fold hline hw _ ih =>
    rw [valueLines_fold before hline hw]
    exact ih _

theorem begun_of_incomplete {before raw : Text} (h : valueLines before raw = .more) :
    ∃ value goes, Begun raw value goes := by
  induction hlen : raw.length using Nat.strong_induction_on generalizing before raw with
  | _ n ih =>
    obtain ⟨line, hline, rfl | ⟨c, tail, hc, rfl⟩⟩ := exists_line raw
    · exact ⟨_, _, .line hline⟩
    · rw [valueLines_control before hline hc] at h
      split at h
      · cases h
      · next hcr =>
        rw [not_not.mp hcr] at hlen ⊢
        split at h
        · exact ⟨_, _, .ended hline (.inl rfl)⟩
        · next d rest =>
          split at h
          · cases h
          · next hlf =>
            rw [not_not.mp hlf] at hlen ⊢
            split at h
            · exact ⟨_, _, .ended hline (.inr rfl)⟩
            · next e tail =>
              split at h
              · next he =>
                simp only [List.length_append, List.length_cons] at hlen
                obtain ⟨value, goes, hraw⟩ := ih tail.length (by omega) h rfl
                exact ⟨_, _, .fold hline he hraw⟩
              · cases h

/-! ### How a value goes on -/

/-- `result` has `value` at its front, and goes on with whitespace unless the value goes on
behind its last character. -/
def Extends (goes : Bool) (value result : Text) : Prop :=
  ∃ more, result = value ++ more ∧
    (goes = false → value = [] ∨ ∀ c ∈ more.head?, isWhitespace c = true)

theorem Extends.refl (goes : Bool) (value : Text) : Extends goes value value :=
  ⟨[], (List.append_nil value).symm, fun _ => .inr nofun⟩

theorem Extends.then_join {goes : Bool} {value result : Text} (h : Extends goes value result)
    (more : Text) : Extends goes value (joinValue result more) := by
  obtain ⟨back, rfl, hback⟩ := h
  by_cases hmore : more = []
  · rw [hmore, joinValue_nil_right]
    exact ⟨back, rfl, hback⟩
  by_cases hnil : value ++ back = []
  · rw [hnil, joinValue_nil_left, (List.append_eq_nil_iff.mp hnil).1]
    exact ⟨more, rfl, fun _ => .inl rfl⟩
  · rw [joinValue_of_ne_nil hnil hmore]
    refine ⟨back ++ sp :: more, by rw [List.append_assoc], fun hgoes => (hback hgoes).imp_right ?_⟩
    intro hhead c hc
    cases back with
    | nil =>
      cases hc
      rfl
    | cons b back => exact hhead c hc

theorem Extends.join {goes : Bool} {value result : Text} (h : Extends goes value result)
    (before : Text) : Extends goes (joinValue before value) (joinValue before result) := by
  obtain ⟨more, rfl, hmore⟩ := h
  by_cases hbefore : before = []
  · rw [hbefore, joinValue_nil_left, joinValue_nil_left]
    exact ⟨more, rfl, hmore⟩
  by_cases hvalue : value = []
  · rw [hvalue, List.nil_append, joinValue_nil_right]
    exact (Extends.refl goes before).then_join more
  · rw [joinValue_of_ne_nil hbefore hvalue, joinValue_of_ne_nil hbefore (by simp [hvalue])]
    exact ⟨more, by simp, fun hgoes => .inr ((hmore hgoes).resolve_left hvalue)⟩

theorem trimBack_append (text : Text) :
    text = trimBack text ++ (text.reverse.takeWhile isWhitespace).reverse := by
  rw [trimBack, ← List.reverse_append, List.takeWhile_append_dropWhile, List.reverse_reverse]

theorem trim_append_blank {back : Text} (hback : ∀ c ∈ back, isWhitespace c = true) (value : Text) :
    trim (value ++ back) = trim value := by
  by_cases hnil : trim value = []
  · rw [hnil, trim_eq_nil_iff, List.forall_mem_append]
    exact ⟨trim_eq_nil_iff.mp hnil, hback⟩
  · have hne : (value.dropWhile isWhitespace).isEmpty = false := by
      rw [List.isEmpty_eq_false_iff]
      intro hempty
      rw [trim, hempty] at hnil
      exact hnil rfl
    have hrev : ∀ c ∈ back.reverse, isWhitespace c = true :=
      fun c hc => hback c (List.mem_reverse.mp hc)
    rw [trim, trim, List.dropWhile_append, hne]
    simp only [Bool.false_eq_true, if_false]
    rw [List.reverse_append, List.dropWhile_append_of_pos hrev]

theorem extends_trim (line more : Text) : Extends (goesOn line) (trim line) (trim (line ++ more)) := by
  have hsplit := List.takeWhile_append_dropWhile (p := isWhitespace) (l := line)
  have hblank : ∀ c ∈ line.takeWhile isWhitespace, isWhitespace c = true :=
    fun c hc => List.mem_takeWhile_imp hc
  by_cases hnil : trim line = []
  · rw [hnil]
    exact ⟨_, rfl, fun _ => .inl rfl⟩
  by_cases hmore : trim more = []
  · rw [trim_append_blank (trim_eq_nil_iff.mp hmore)]
    exact .refl _ _
  -- What remains of the line begins with another character, so what is behind it is trimmed
  -- at its back only.
  have hfirst : ∀ c ∈ (line.dropWhile isWhitespace).head?, isWhitespace c = false := by
    intro c hc
    have hhead := List.head?_dropWhile_not isWhitespace line
    rw [Option.mem_def.mp hc] at hhead
    simpa using hhead
  have hne : line.dropWhile isWhitespace ≠ [] := by
    intro hempty
    rw [trim, hempty] at hnil
    exact hnil rfl
  have htrim : trim (line ++ more) = line.dropWhile isWhitespace ++ trimBack more := by
    nth_rewrite 1 [← hsplit]
    rw [List.append_assoc, trim_whitespace_append hblank, trim_append_of_head hfirst hne hmore]
  have hback := trimBack_append (line.dropWhile isWhitespace)
  rw [htrim, hback, List.append_assoc]
  refine ⟨_, rfl, fun hgoes => .inr ?_⟩
  have hlast : line.getLast? = (line.dropWhile isWhitespace).getLast? := by
    nth_rewrite 1 [← hsplit]
    exact List.getLast?_append_of_ne_nil _ hne
  obtain ⟨c, hc⟩ := Option.ne_none_iff_exists'.mp (mt List.getLast?_eq_none_iff.mp hne)
  rw [goesOn, hlast, hc] at hgoes
  have hws : isWhitespace c = true := by simpa using hgoes
  rw [List.getLast?_eq_head?_reverse] at hc
  obtain ⟨rest, hrest⟩ : ∃ rest, (line.dropWhile isWhitespace).reverse = c :: rest := by
    cases hrev : (line.dropWhile isWhitespace).reverse with
    | nil =>
      rw [hrev] at hc
      cases hc
    | cons b rest =>
      rw [hrev] at hc
      cases hc
      exact ⟨rest, rfl⟩
  intro d hd
  cases hrun : ((line.dropWhile isWhitespace).reverse.takeWhile isWhitespace).reverse with
  | nil =>
    rw [List.reverse_eq_nil_iff, hrest, List.takeWhile_cons_of_pos hws] at hrun
    cases hrun
  | cons b run =>
    rw [hrun] at hd
    cases hd
    have hmem : d ∈ ((line.dropWhile isWhitespace).reverse.takeWhile isWhitespace).reverse := by
      rw [hrun]
      exact List.mem_cons_self
    exact List.mem_takeWhile_imp (List.mem_reverse.mp hmem)

/-- Whatever follows, the value of the field extends what has arrived. -/
theorem Begun.extends {raw value : Text} {goes : Bool} (h : Begun raw value goes)
    {before more result rest : Text} (hdone : valueLines before (raw ++ more) = .done result rest) :
    ∃ value', Extends goes value value' ∧ result = joinValue before value' := by
  induction h generalizing before with
  | @line line hline =>
    obtain ⟨line', e, tail, hline', heq, hnext⟩ := valueLines_done hdone
    -- The line that was read begins with what had arrived of it.
    have hbegins : ∃ more', line' = line ++ more' := by
      rcases List.append_eq_append_iff.mp heq with ⟨more', hmore, -⟩ | ⟨cut, hcut, htail⟩
      · exact ⟨more', hmore⟩
      · cases cut with
        | nil => exact ⟨[], by rw [hcut]; simp⟩
        | cons c cut =>
          have hc : c = cr := (List.cons.inj htail).1.symm
          have hvis := hline c (by rw [hcut]; simp)
          rw [hc] at hvis
          cases hvis
    obtain ⟨more', rfl⟩ := hbegins
    have hext := extends_trim line more'
    rcases hnext with ⟨-, hfold⟩ | ⟨-, rfl, -⟩
    · obtain ⟨joined, rfl⟩ := valueLines_joins hfold
      exact ⟨_, hext.then_join joined, joinValue_assoc _ _ _⟩
    · exact ⟨_, hext, rfl⟩
  | @ended line ending hline hending =>
    obtain ⟨tail, htail⟩ : ∃ tail, line ++ ending ++ more = line ++ cr :: tail := by
      rcases hending with rfl | rfl
      · exact ⟨more, by simp⟩
      · exact ⟨lf :: more, by simp [lineEnd]⟩
    rw [htail] at hdone
    rcases valueLines_ended hline hdone with rfl | ⟨behind, hbehind⟩
    · exact ⟨_, .refl _ _, rfl⟩
    · obtain ⟨joined, rfl⟩ := valueLines_joins hbehind
      exact ⟨_, (Extends.refl _ _).then_join joined, joinValue_assoc _ _ _⟩
  | fold hline hw _ ih =>
    rw [List.append_assoc, List.cons_append, List.cons_append, List.cons_append,
      valueLines_fold before hline hw] at hdone
    obtain ⟨value', hext, rfl⟩ := ih hdone
    exact ⟨_, hext.join _, joinValue_assoc _ _ _⟩

/-! ### How a value can be made to go on -/

theorem isTrimmed_trim (line : Text) : IsTrimmed (trim line) := ⟨trim_first line, trim_last line⟩

theorem IsTrimmed.join {value part : Text} (hvalue : IsTrimmed value) (hpart : IsTrimmed part) :
    IsTrimmed (joinValue value part) := by
  by_cases hp : part = []
  · rw [hp, joinValue_nil_right]
    exact hvalue
  by_cases hv : value = []
  · rw [hv, joinValue_nil_left]
    exact hpart
  rw [joinValue_of_ne_nil hv hp]
  refine ⟨fun c hc => hvalue.1 c ?_, fun c hc => hpart.2 c ?_⟩
  · rwa [List.head?_append_of_ne_nil _ hv] at hc
  · rwa [List.getLast?_append_of_ne_nil _ (by simp), List.getLast?_cons_of_ne_nil hp] at hc

theorem Begun.trimmed {raw value : Text} {goes : Bool} (h : Begun raw value goes) :
    IsTrimmed value := by
  induction h with
  | line => exact isTrimmed_trim _
  | ended => exact isTrimmed_trim _
  | fold _ _ _ ih => exact (isTrimmed_trim _).join ih

/-- Any line can be joined. -/
theorem Begun.can_join {raw value : Text} {goes : Bool} (h : Begun raw value goes)
    {part : Text} (hpart : IsVisible part) (before : Text) :
    ∃ more rest, valueLines before (raw ++ more) =
      .done (joinValue before (joinValue value (trim part))) rest := by
  have hstop : isWhitespace cr = false := rfl
  induction h generalizing before with
  | @line line hline =>
    refine ⟨cr :: lf :: sp :: (part ++ cr :: lf :: [cr]), [cr], ?_⟩
    rw [valueLines_fold before hline rfl, valueLines_last _ hpart hstop, joinValue_assoc]
  | @ended line ending hline hending =>
    have hdone : valueLines before (line ++ cr :: lf :: sp :: (part ++ cr :: lf :: [cr])) =
        .done (joinValue before (joinValue (trim line) (trim part))) [cr] := by
      rw [valueLines_fold before hline rfl, valueLines_last _ hpart hstop, joinValue_assoc]
    rcases hending with rfl | rfl
    · exact ⟨lf :: sp :: (part ++ cr :: lf :: [cr]), [cr], by simpa using hdone⟩
    · exact ⟨sp :: (part ++ cr :: lf :: [cr]), [cr], by simpa [lineEnd] using hdone⟩
  | fold hline hw _ ih =>
    obtain ⟨more, rest, hdone⟩ := ih (joinValue before (trim _))
    refine ⟨more, rest, ?_⟩
    rw [List.append_assoc, List.cons_append, List.cons_append, List.cons_append,
      valueLines_fold before hline hw, hdone]
    simp only [joinValue_assoc]

theorem trim_of_trimmed {text : Text} (h : IsTrimmed text) : trim text = text := by
  have hdrop : text.dropWhile isWhitespace = text := by
    cases text with
    | nil => rfl
    | cons c rest => exact List.dropWhile_cons_of_neg (by simp [h.1 c rfl])
  rw [trim, hdrop]
  exact trimBack_of_trimmed h

/-- What follows a line that goes on is of its last word. -/
theorem trim_append_goesOn {line part : Text} (hgoes : goesOn line = true) (hne : part ≠ [])
    (hpart : IsTrimmed part) : trim line ≠ [] ∧ trim (line ++ part) = trim line ++ part := by
  have hsplit := List.takeWhile_append_dropWhile (p := isWhitespace) (l := line)
  have hblank : ∀ c ∈ line.takeWhile isWhitespace, isWhitespace c = true :=
    fun c hc => List.mem_takeWhile_imp hc
  obtain ⟨last, hlast, hword⟩ : ∃ last, line.getLast? = some last ∧ isWhitespace last = false := by
    cases hlast : line.getLast? with
    | none =>
      rw [goesOn, hlast] at hgoes
      cases hgoes
    | some last =>
      rw [goesOn, hlast] at hgoes
      exact ⟨last, rfl, by simpa using hgoes⟩
  have hfirst : ∀ c ∈ (line.dropWhile isWhitespace).head?, isWhitespace c = false := by
    intro c hc
    have hhead := List.head?_dropWhile_not isWhitespace line
    rw [Option.mem_def.mp hc] at hhead
    simpa using hhead
  have hrest : line.dropWhile isWhitespace ≠ [] := by
    intro hempty
    have hmem := List.dropWhile_eq_nil_iff.mp hempty last (List.mem_of_getLast? hlast)
    rw [hmem] at hword
    cases hword
  have hlast' : (line.dropWhile isWhitespace).getLast? = some last := by
    rw [← hsplit, List.getLast?_append_of_ne_nil _ hrest] at hlast
    exact hlast
  have htrimmed : IsTrimmed (line.dropWhile isWhitespace) := by
    refine ⟨hfirst, fun c hc => ?_⟩
    rw [hlast'] at hc
    cases hc
    simpa using hword
  have htrim : trim line = line.dropWhile isWhitespace := trimBack_of_trimmed htrimmed
  have hmore : trim part ≠ [] := by rwa [trim_of_trimmed hpart]
  rw [htrim]
  refine ⟨hrest, ?_⟩
  nth_rewrite 1 [← hsplit]
  rw [List.append_assoc, trim_whitespace_append hblank, trim_append_of_head hfirst hrest hmore,
    trimBack_of_trimmed hpart]

theorem Begun.can_go_on {raw value : Text} {goes : Bool} (h : Begun raw value goes)
    (hgoes : goes = true) {part : Text} (hne : part ≠ []) (hpart : IsVisible part)
    (htrim : IsTrimmed part) :
    value ≠ [] ∧ ∀ before, ∃ more rest, valueLines before (raw ++ more) =
      .done (joinValue before (value ++ part)) rest := by
  induction h with
  | @line line hline =>
    obtain ⟨hvalue, htext⟩ := trim_append_goesOn hgoes hne htrim
    refine ⟨hvalue, fun before => ⟨part ++ cr :: lf :: [cr], [cr], ?_⟩⟩
    have hvisible : IsVisible (line ++ part) := List.forall_mem_append.mpr ⟨hline, hpart⟩
    rw [← List.append_assoc, valueLines_last before hvisible rfl, htext]
  | ended => cases hgoes
  | @fold line w raw value goes hline hw _ ih =>
    obtain ⟨hvalue, hdone⟩ := ih hgoes
    have hjoin : joinValue (trim line) (value ++ part) = joinValue (trim line) value ++ part := by
      by_cases hnil : trim line = []
      · rw [hnil, joinValue_nil_left, joinValue_nil_left]
      · rw [joinValue_of_ne_nil hnil hvalue, joinValue_of_ne_nil hnil (by simp [hvalue])]
        simp
    refine ⟨fun hempty => ?_, fun before => ?_⟩
    · unfold joinValue at hempty
      rw [if_neg hvalue] at hempty
      split at hempty
      · exact hvalue hempty
      · simp at hempty
    · obtain ⟨more, rest, hmore⟩ := hdone (joinValue before (trim line))
      refine ⟨more, rest, ?_⟩
      rw [List.append_assoc, List.cons_append, List.cons_append, List.cons_append,
        valueLines_fold before hline hw, hmore, joinValue_assoc, hjoin]

end BitcoinNetwork.Http
