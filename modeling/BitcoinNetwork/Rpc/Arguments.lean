import Mathlib.Data.List.Perm.Subperm
import BitcoinNetwork.Rpc.Dispatcher

/-!
# Arguments by position and by name (messages/rpc/dispatcher.ipp)

Both extractions take or refuse each argument the same way. They differ in the order in
which arguments are refused, and in what is left over.
-/

namespace BitcoinNetwork.Rpc.Dispatcher
open Results (error? all firstError inOrder)

variable {Json : Type}

/-! ### Arguments -/

def Argument.type : Argument → Internal
  | .required type => type
  | .optional default => default.type
  | .nullable type => type
  | .nullopt default => default.type

def Argument.isNullified : Argument → Bool
  | .nullable _ => true
  | .nullopt _ => true
  | _ => false

/-- The code with which the value is refused, or its absence is. -/
def refusal (argument : Argument) : Option (Value Json) → Option Error
  | none => if argument.isRequired then some .missingParameter else none
  | some .null => if argument.isNullified then none else some .missingParameter
  | some value => if argument.type.holds value then none else some .unexpectedType

/-- What the handler is given of the value, or of its absence. -/
def take (argument : Argument) : Option (Value Json) → Except Error (External Json)
  | none => getMissing argument
  | some .null => getNullified argument
  | some value => getValued argument value

theorem error?_getAs (type : Internal) (value : Value Json) (f : Value Json → External Json) :
    error? ((getAs type value).map f) =
      if type.holds value then none else some .unexpectedType := by
  unfold getAs
  split_ifs
  · rfl
  · rfl

theorem error?_getValued (argument : Argument) (value : Value Json) :
    error? (getValued argument value) =
      if argument.type.holds value then none else some .unexpectedType := by
  cases argument with
  | required type => exact error?_getAs type value _
  | optional default => exact error?_getAs default.type value _
  | nullable type => exact error?_getAs type value _
  | nullopt default => exact error?_getAs default.type value _

theorem error?_take (argument : Argument) (found : Option (Value Json)) :
    error? (take argument found) = refusal argument found := by
  unfold take refusal
  split
  · cases argument <;> rfl
  · cases argument <;> rfl
  · exact error?_getValued argument _

theorem refusal_cases {argument : Argument} {found : Option (Value Json)} {e : Error}
    (h : refusal argument found = some e) : e = .missingParameter ∨ e = .unexpectedType := by
  unfold refusal at h
  split at h
  · split at h
    · exact .inl (Option.some.inj h).symm
    · cases h
  · split at h
    · cases h
    · exact .inl (Option.some.inj h).symm
  · split at h
    · cases h
    · exact .inr (Option.some.inj h).symm

/-! ### Extraction by position -/

/-- The results of the parameters, of which the first is at the position. -/
def takes (parameters : List Parameter) (position : ℕ) (args : List (Value Json)) :
    List (Except Error (External Json)) :=
  (parameters.zipIdx position).map fun entry => take entry.1.argument args[entry.2]?

/-- The position stays behind the last of the values. -/
theorem getPositional_eq (argument : Argument) (position : ℕ) (args : List (Value Json)) :
    getPositional argument (min position args.length) args =
      (take argument args[position]?).map fun value => (value, min (position + 1) args.length) := by
  unfold getPositional take
  rcases Nat.lt_or_ge position args.length with hlt | hge
  · rw [Nat.min_eq_left (Nat.le_of_lt hlt), List.getElem?_eq_getElem hlt, Nat.min_eq_left hlt]
    generalize args[position] = value
    cases value <;> rfl
  · rw [Nat.min_eq_right hge, List.getElem?_eq_none (Nat.le_refl _), List.getElem?_eq_none hge,
      Nat.min_eq_right (Nat.le_succ_of_le hge)]

theorem getPositionals_eq (parameters : List Parameter) (position : ℕ) (args : List (Value Json)) :
    getPositionals args parameters (min position args.length) =
      (all (takes parameters position args)).map
        fun values => (values, min (position + parameters.length) args.length) := by
  induction parameters generalizing position with
  | nil => rfl
  | cons parameter parameters ih =>
    have hrest := ih (position + 1)
    rw [Nat.add_assoc, Nat.add_comm 1] at hrest
    unfold getPositionals takes
    rw [getPositional_eq, List.zipIdx_cons, List.map_cons, List.length_cons]
    cases take parameter.argument args[position]? with
    | error e => rfl
    | ok value =>
      show (getPositionals args parameters (min (position + 1) args.length) >>= _) =
        ((all (takes parameters (position + 1) args)).map _).map _
      rw [hrest]
      cases all (takes parameters (position + 1) args) with
      | error e => rfl
      | ok values => rfl

theorem extractPositional_eq (parameters : List Parameter) (args : List (Value Json)) :
    extractPositional parameters (some (.array args)) =
      match all (takes parameters 0 args) with
      | .error e => .error e
      | .ok values => if parameters.length < args.length then .error .extraPositional else .ok values := by
  have hvalues := getPositionals_eq parameters 0 args
  rw [Nat.zero_min, Nat.zero_add] at hvalues
  show (getPositionals args parameters 0 >>= _) = _
  rw [hvalues]
  cases all (takes parameters 0 args) with
  | error e => rfl
  | ok values =>
    have hposition : min parameters.length args.length < args.length ↔
        parameters.length < args.length := by omega
    show (if min parameters.length args.length < args.length then _ else _) = _
    simp only [hposition]

/-! ### Extraction by name -/

/-- The results of the parameters with what is found of them in the object. -/
def finds (parameters : List Parameter) (object : Object Json) :
    List (Except Error (External Json)) :=
  parameters.map fun parameter => take parameter.argument (object.find parameter.name)

theorem extractNamed_eq (evaluation : Evaluation) (parameters : List Parameter)
    (object : Object Json) :
    extractNamed evaluation parameters (some (.object object)) =
      if parameters.length < object.size then .error .extraNamed
      else inOrder (evaluation.order parameters.length) (finds parameters object) := rfl

/-- The names of the first values, one of each. -/
theorem zip_nodup {names : List String} (h : names.Nodup) (args : List (Value Json)) :
    ((names.zip args).map Prod.fst).Nodup := by
  induction names generalizing args with
  | nil => exact .nil
  | cons name names ih =>
    cases args with
    | nil => exact .nil
    | cons arg args =>
      obtain ⟨hfresh, hnodup⟩ := List.nodup_cons.mp h
      refine List.nodup_cons.mpr ⟨?_, ih hnodup args⟩
      intro hmem
      obtain ⟨⟨_, value⟩, hpair, rfl⟩ := List.mem_map.mp hmem
      exact hfresh (List.of_mem_zip hpair).1

theorem lookup_zip {names : List String} (h : names.Nodup) (args : List (Value Json)) {i : ℕ}
    (hi : i < names.length) : (names.zip args).lookup names[i] = args[i]? := by
  induction names generalizing args i with
  | nil => cases hi
  | cons name names ih =>
    obtain ⟨hfresh, hnodup⟩ := List.nodup_cons.mp h
    cases args with
    | nil => rfl
    | cons arg args =>
      cases i with
      | zero => exact List.lookup_cons_self
      | succ i =>
        have hrest : i < names.length := Nat.lt_of_succ_lt_succ hi
        have hne : (names[i] == name) = false := by
          rw [beq_eq_false_iff_ne]
          intro heq
          exact hfresh (heq ▸ List.getElem_mem hrest)
        show ((name, arg) :: names.zip args).lookup names[i] = _
        rw [List.lookup_cons, hne]
        exact ih hnodup args _

/-- The object of the values with the names of the first parameters. -/
def Method.named (method : Method) (args : List (Value Json)) : Object Json where
  members := (method.parameters.map Parameter.name).zip args
  distinct := zip_nodup method.distinct args

theorem finds_named (method : Method) (args : List (Value Json)) :
    finds method.parameters (method.named args) = takes method.parameters 0 args := by
  apply List.ext_getElem
  · unfold finds takes
    rw [List.length_map, List.length_map, List.length_zipIdx]
  · intro i hfinds htakes
    have hi : i < (method.parameters.map Parameter.name).length := by
      rw [List.length_map]
      rwa [finds, List.length_map] at hfinds
    have hfound := lookup_zip method.distinct args hi
    rw [List.getElem_map] at hfound
    simp only [finds, takes, List.getElem_map, List.getElem_zipIdx, Nat.zero_add]
    exact congrArg (take _) hfound

theorem named_size {method : Method} {args : List (Value Json)}
    (h : args.length ≤ method.parameters.length) : (method.named args).size = args.length := by
  unfold Object.size Method.named
  rw [List.length_zip, List.length_map, Nat.min_eq_right h]

/-! ### Refusals -/

/-- The code with which the argument is refused that is the first of them in the order. -/
def firstRefusal (order : List ℕ) (parameters : List Parameter) (args : List (Value Json)) :
    Option Error :=
  order.findSome? fun i => parameters[i]?.bind fun parameter => refusal parameter.argument args[i]?

theorem firstError_takes (order : List ℕ) (parameters : List Parameter) (args : List (Value Json)) :
    firstError order (takes parameters 0 args) = firstRefusal order parameters args := by
  unfold firstError firstRefusal takes
  congr 1
  funext i
  rw [List.getElem?_map, List.getElem?_zipIdx, Nat.zero_add]
  cases parameters[i]? with
  | none => rfl
  | some parameter => exact error?_take parameter.argument args[i]?

theorem error_mem_finds {parameters : List Parameter} {object : Object Json} :
    (∃ e, .error e ∈ finds parameters object) ↔
      ∃ parameter ∈ parameters, (refusal parameter.argument (object.find parameter.name)).isSome := by
  unfold finds
  constructor
  · rintro ⟨e, hmem⟩
    obtain ⟨parameter, hparameter, htake⟩ := List.mem_map.mp hmem
    refine ⟨parameter, hparameter, ?_⟩
    rw [← error?_take, htake]
    rfl
  · rintro ⟨parameter, hparameter, hsome⟩
    rw [← error?_take] at hsome
    cases htake : take parameter.argument (object.find parameter.name) with
    | error e => exact ⟨e, List.mem_map.mpr ⟨parameter, hparameter, htake⟩⟩
    | ok value =>
      rw [htake] at hsome
      cases hsome

theorem error_mem_takes {parameters : List Parameter} {args : List (Value Json)} {e : Error}
    (h : .error e ∈ takes parameters 0 args) : e = .missingParameter ∨ e = .unexpectedType := by
  obtain ⟨⟨parameter, i⟩, -, htake⟩ := List.mem_map.mp h
  apply @refusal_cases _ parameter.argument args[i]?
  rw [← error?_take]
  exact congrArg error? htake

theorem takes_length (parameters : List Parameter) (position : ℕ) (args : List (Value Json)) :
    (takes parameters position args).length = parameters.length := by
  unfold takes
  rw [List.length_map, List.length_zipIdx]

theorem finds_length (parameters : List Parameter) (object : Object Json) :
    (finds parameters object).length = parameters.length := List.length_map _

/-! ### Calls -/

variable {evaluation : Evaluation} {interface : Interface} {method : Method}

/-- The request of the method with the values as an array. -/
def Method.byPosition (method : Method) (args : List (Value Json)) : Request Json :=
  { method := method.name, params := some (.array args) }

def Method.byName (method : Method) (object : Object Json) : Request Json :=
  { method := method.name, params := some (.object object) }

/-- The interface dispatches what has the name of the method to it. -/
def Interface.Finds (interface : Interface) (method : Method) : Prop :=
  interface.methods.find? (fun other => other.name = method.name) = some method

/-- As an array and as an object the values are dispatched to the same end. -/
def Agree (evaluation : Evaluation) (interface : Interface) (method : Method)
    (args : List (Value Json)) : Prop :=
  notify evaluation interface (method.byPosition args) =
    notify evaluation interface (method.byName (method.named args))

/-- The request is not dispatched. -/
def Fails (evaluation : Evaluation) (interface : Interface) (request : Request Json) : Prop :=
  ∃ e, notify evaluation interface request = .error e

theorem notify_eq (h : interface.Finds method) (params : Option (Params Json)) :
    notify evaluation interface { method := method.name, params := params } =
      extract evaluation interface.mode method.parameters params := by
  unfold notify
  rw [show interface.methods.find? _ = some method from h]

theorem extractPositional_of_le {parameters : List Parameter} {args : List (Value Json)}
    (h : args.length ≤ parameters.length) :
    extractPositional parameters (some (.array args)) = all (takes parameters 0 args) := by
  rw [extractPositional_eq]
  cases all (takes parameters 0 args) with
  | error e => rfl
  | ok values => exact if_neg (Nat.not_lt.mpr h)

theorem extractNamed_named {args : List (Value Json)} (h : args.length ≤ method.parameters.length) :
    extractNamed evaluation method.parameters (some (.object (method.named args))) =
      inOrder (evaluation.order method.parameters.length) (takes method.parameters 0 args) := by
  rw [extractNamed_eq, named_size h, if_neg (Nat.not_lt.mpr h), finds_named]

theorem complete_takes (evaluation : Evaluation) (parameters : List Parameter)
    (args : List (Value Json)) :
    (evaluation.order parameters.length).Perm (List.range (takes parameters 0 args).length) := by
  rw [takes_length]
  exact evaluation.complete parameters.length

/-- The two agree where the interface takes both, and the argument that is refused first is
refused with one code in either order. -/
theorem agree_iff (h : interface.Finds method) {args : List (Value Json)}
    (hargs : args.length ≤ method.parameters.length) :
    Agree evaluation interface method args ↔ interface.mode = .either ∧
      firstRefusal (evaluation.order method.parameters.length) method.parameters args =
        firstRefusal (List.range method.parameters.length) method.parameters args := by
  have hcomplete := complete_takes evaluation method.parameters args
  unfold Agree Method.byPosition Method.byName
  rw [notify_eq h, notify_eq h]
  cases hmode : interface.mode with
  | positional =>
    constructor
    · intro hagree
      have herror : all (takes method.parameters 0 args) = .error .missingArray :=
        (extractPositional_of_le hargs).symm.trans hagree
      rcases error_mem_takes (Results.mem_of_all herror) with hcode | hcode
      · cases hcode
      · cases hcode
    · rintro ⟨hboth, -⟩
      cases hboth
  | named =>
    constructor
    · intro hagree
      have herror : inOrder (evaluation.order method.parameters.length)
          (takes method.parameters 0 args) = .error .missingObject :=
        (extractNamed_named hargs).symm.trans hagree.symm
      rcases error_mem_takes (Results.mem_of_inOrder hcomplete herror) with hcode | hcode
      · cases hcode
      · cases hcode
    · rintro ⟨hboth, -⟩
      cases hboth
  | either =>
    show extractPositional _ _ = extractNamed _ _ _ ↔ _
    rw [extractPositional_of_le hargs, extractNamed_named hargs, eq_comm,
      Results.inOrder_eq_all_iff hcomplete, takes_length, firstError_takes, firstError_takes]
    exact ⟨fun hcode => ⟨rfl, hcode⟩, fun hcode => hcode.2⟩

/-- An object fails where the interface takes none, where it has more members than there are
parameters, or where a parameter is refused what is found of it: no other member is. -/
theorem byName_fails_iff (h : interface.Finds method) (object : Object Json) :
    Fails evaluation interface (method.byName object) ↔ interface.mode = .positional ∨
      method.parameters.length < object.size ∨ ∃ parameter ∈ method.parameters,
        (refusal parameter.argument (object.find parameter.name)).isSome := by
  have hnamed : (∃ e, extractNamed evaluation method.parameters (some (.object object)) = .error e) ↔
      method.parameters.length < object.size ∨ ∃ parameter ∈ method.parameters,
        (refusal parameter.argument (object.find parameter.name)).isSome := by
    have hcomplete := evaluation.complete method.parameters.length
    rw [← finds_length method.parameters object] at hcomplete
    rw [extractNamed_eq, ← error_mem_finds, ← Results.inOrder_failed_iff hcomplete, finds_length]
    split_ifs with hmore
    · exact ⟨fun _ => .inl hmore, fun _ => ⟨.extraNamed, rfl⟩⟩
    · exact ⟨.inr, fun hfails => hfails.resolve_left hmore⟩
  unfold Fails Method.byName
  rw [notify_eq h, ← hnamed]
  cases interface.mode with
  | positional => exact ⟨fun _ => .inl rfl, fun _ => ⟨.missingArray, rfl⟩⟩
  | named => exact ⟨.inr, fun hfails => hfails.resolve_left (by decide)⟩
  | either => exact ⟨.inr, fun hfails => hfails.resolve_left (by decide)⟩

theorem longer_fails (h : interface.Finds method) {args : List (Value Json)}
    (hargs : method.parameters.length < args.length) :
    Fails evaluation interface (method.byPosition args) := by
  have hpositional : ∃ e, extractPositional method.parameters (some (.array args)) = .error e := by
    rw [extractPositional_eq]
    cases all (takes method.parameters 0 args) with
    | error e => exact ⟨e, rfl⟩
    | ok values => exact ⟨.extraPositional, if_pos hargs⟩
  unfold Fails Method.byPosition
  rw [notify_eq h]
  cases interface.mode with
  | positional => exact hpositional
  | named => exact ⟨.missingObject, rfl⟩
  | either => exact hpositional

/-- A member of the object is not a parameter of the method. -/
def Method.Unknown (method : Method) (object : Object Json) : Prop :=
  ∃ member ∈ object.members, member.1 ∉ method.parameters.map Parameter.name

theorem find_isSome {object : Object Json} {name : String} (h : (object.find name).isSome) :
    name ∈ object.members.map Prod.fst := by
  obtain ⟨value, hvalue⟩ := Option.isSome_iff_exists.mp h
  obtain ⟨front, back, hmembers, -⟩ := List.lookup_eq_some_iff.mp hvalue
  rw [hmembers, List.map_append]
  exact List.mem_append_right _ List.mem_cons_self

/-- Where all parameters are required, one that is not known is in the place of one that is
missing. -/
theorem required_fails (h : interface.Finds method) {object : Object Json}
    (hrequired : ∀ parameter ∈ method.parameters, parameter.argument.isRequired = true)
    (hunknown : method.Unknown object) : Fails evaluation interface (method.byName object) := by
  rw [byName_fails_iff h]
  by_contra hnone
  rw [not_or, not_or, Nat.not_lt] at hnone
  obtain ⟨-, hsize, htaken⟩ := hnone
  obtain ⟨⟨name, value⟩, hmember, hname⟩ := hunknown
  have hsubset : name :: method.parameters.map Parameter.name ⊆ object.members.map Prod.fst := by
    refine List.cons_subset.mpr ⟨List.mem_map.mpr ⟨_, hmember, rfl⟩, ?_⟩
    intro other hother
    obtain ⟨parameter, hparameter, rfl⟩ := List.mem_map.mp hother
    apply find_isSome
    by_contra hmissing
    rw [Option.not_isSome_iff_eq_none] at hmissing
    refine htaken ⟨parameter, hparameter, ?_⟩
    rw [hmissing, refusal, if_pos (hrequired parameter hparameter)]
    rfl
  have hnodup : (name :: method.parameters.map Parameter.name).Nodup :=
    List.nodup_cons.mpr ⟨hname, method.distinct⟩
  have hlength := (hnodup.subperm hsubset).length_le
  rw [List.length_cons, List.length_map, List.length_map] at hlength
  exact absurd hlength (Nat.not_le.mpr (Nat.lt_succ_of_le hsize))

/-- What calls by position and by name have in common, and what they refuse. -/
structure Exact (Json : Type) (evaluation : Evaluation) (interface : Interface) (method : Method) :
    Prop where
  agree : ∀ args : List (Value Json), args.length ≤ method.parameters.length →
    Agree evaluation interface method args
  unknown : ∀ object : Object Json, method.Unknown object →
    Fails evaluation interface (method.byName object)
  longer : ∀ args : List (Value Json), method.parameters.length < args.length →
    Fails evaluation interface (method.byPosition args)

/-- A member that is not known is ignored where no more of them are given than there are
parameters and none of these is refused. -/
theorem calls_exact_iff (evaluation : Evaluation) (interface : Interface) (method : Method)
    (h : interface.Finds method) :
    (∀ args : List (Value Json), args.length ≤ method.parameters.length →
      (Agree evaluation interface method args ↔ interface.mode = .either ∧
        firstRefusal (evaluation.order method.parameters.length) method.parameters args =
          firstRefusal (List.range method.parameters.length) method.parameters args)) ∧
    (∀ object : Object Json, method.Unknown object →
      (Fails evaluation interface (method.byName object) ↔ interface.mode = .positional ∨
        method.parameters.length < object.size ∨ ∃ parameter ∈ method.parameters,
          (refusal parameter.argument (object.find parameter.name)).isSome)) ∧
    (∀ args : List (Value Json), method.parameters.length < args.length →
      Fails evaluation interface (method.byPosition args)) :=
  ⟨fun _ hargs => agree_iff h hargs, fun object _ => byName_fails_iff h object,
    fun _ hargs => longer_fails h hargs⟩

def leftToRight : Evaluation := ⟨List.range, fun _ => .refl _⟩

def rightToLeft : Evaluation := ⟨fun count => (List.range count).reverse, fun _ => List.reverse_perm _⟩

/-- A text, and a flag that may be left out. -/
def withOptions : Method where
  name := "with_options"
  parameters := [⟨"a", .required .string⟩, ⟨"b", .optional (.boolean true)⟩]
  trailing := rfl
  distinct := by decide

def optionsInterface : Interface := { mode := .either, methods := [withOptions] }

theorem calls_exact_options :
    (∀ args : List (Value Empty), args.length ≤ 2 →
      (Agree leftToRight optionsInterface withOptions args ↔ Grouping.either = .either ∧
        firstRefusal (List.range 2) withOptions.parameters args =
          firstRefusal (List.range 2) withOptions.parameters args)) ∧
    ∀ args : List (Value Empty), 2 < args.length →
      Fails leftToRight optionsInterface (withOptions.byPosition args) :=
  have hexact := @calls_exact_iff Empty leftToRight optionsInterface withOptions rfl
  ⟨hexact.1, hexact.2.2⟩

/-- A text, and a member that is not a parameter. -/
def misnamed : Object Empty where
  members := [("a", .string "text"), ("d", .boolean false)]
  distinct := by decide

/-- The second of two members is not a parameter, and is ignored. In another order another
argument is refused first. -/
theorem not_calls_exact :
    ¬Exact Empty leftToRight optionsInterface withOptions ∧
      ¬Exact Empty rightToLeft optionsInterface withOptions := by
  constructor
  · intro hexact
    have hnotified : notify leftToRight optionsInterface (withOptions.byName misnamed) =
        .ok [.value (.string "text"), .value (.boolean true)] := rfl
    obtain ⟨e, hfails⟩ := hexact.unknown misnamed ⟨("d", .boolean false), by simp [misnamed], by decide⟩
    cases hnotified.symm.trans hfails
  · intro hexact
    have hagree := hexact.agree [.null, .string "on"] (by decide)
    have hposition : notify rightToLeft optionsInterface
        (withOptions.byPosition ([.null, .string "on"] : List (Value Empty))) =
          .error .missingParameter := rfl
    have hname : notify rightToLeft optionsInterface
        (withOptions.byName (withOptions.named ([.null, .string "on"] : List (Value Empty)))) =
          .error .unexpectedType := rfl
    cases hposition.symm.trans (hagree.trans hname)

end BitcoinNetwork.Rpc.Dispatcher
