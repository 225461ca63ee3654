import BitcoinNetwork.Zmtp.Frame

/-!
# What the readers of frames return (zmtp/stream.cpp)

A frame is a flags byte, a length of one byte or of eight and a body. The
reader takes exactly the frame that is in front of the bytes, if there is one,
and what is written is read back.
-/

namespace BitcoinNetwork.Zmtp
open Binary

/-! ### Frames -/

/-- The bytes of a frame. -/
inductive Framed (frame : Frame) : Bytes → Prop
  | short (flags : frame.flags &&& flagLong = 0) (size : frame.body.length < 2 ^ 8) :
      Framed frame (frame.flags :: (toBytes 1 frame.body.length ++ frame.body))
  | long (flags : frame.flags &&& flagLong ≠ 0) (size : frame.body.length < 2 ^ 64) :
      Framed frame (frame.flags :: (toBytes 8 frame.body.length ++ frame.body))

theorem frameBody_append (flags : UInt8) (body rest : Bytes) :
    frameBody flags body.length (body ++ rest) = some (some (⟨flags, body⟩, rest)) := by
  unfold frameBody
  rw [if_neg (by rw [List.length_append]; omega), first_append, subspan_append]
  rfl

theorem toBytes_one {n : ℕ} : toBytes 1 n = [n.toUInt8] := by
  rw [toBytes, pow_zero, Nat.div_one]
  rfl

theorem toNat_toUInt8 {n : ℕ} (h : n < 2 ^ 8) : n.toUInt8.toNat = n := by
  rw [Nat.toUInt8_eq, UInt8.toNat_ofNat']
  exact Nat.mod_eq_of_lt h

/-- The frame in front is decoded. -/
theorem frameDecode_framed {frame : Frame} {bytes : Bytes} (h : Framed frame bytes)
    (rest : Bytes) : frameDecode (bytes ++ rest) = some (some (frame, rest)) := by
  unfold frameDecode
  cases h with
  | short flags size =>
    rw [toBytes_one, List.cons_append, if_neg (List.cons_ne_nil _ _)]
    simp only [front_cons, subspan_one_cons, Option.bind_eq_bind, Option.bind_some]
    rw [if_neg (not_not.2 flags), List.singleton_append, List.cons_append,
      if_neg (List.cons_ne_nil _ _)]
    simp only [front_cons, subspan_one_cons, Option.bind_some]
    rw [toNat_toUInt8 size]
    exact frameBody_append _ _ _
  | long flags size =>
    have hlength : (toBytes 8 frame.body.length).length = 8 := toBytes_length _ _
    rw [List.cons_append, if_neg (List.cons_ne_nil _ _)]
    simp only [front_cons, subspan_one_cons, Option.bind_eq_bind, Option.bind_some]
    have hfirst : first (toBytes 8 frame.body.length ++ (frame.body ++ rest)) 8
        = some (toBytes 8 frame.body.length) := by
      have h := first_append (toBytes 8 frame.body.length) (frame.body ++ rest)
      rwa [hlength] at h
    have hrest : subspan (toBytes 8 frame.body.length ++ (frame.body ++ rest)) 8
        = some (frame.body ++ rest) := by
      have h := subspan_append (toBytes 8 frame.body.length) (frame.body ++ rest)
      rwa [hlength] at h
    rw [if_pos flags, List.append_assoc,
      if_neg (by rw [List.length_append, hlength]; omega), hfirst, hrest]
    simp only [Option.bind_some]
    rw [ofBytes_toBytes (size.trans_le (by norm_num))]
    exact frameBody_append _ _ _

/-- A frame body is within its bytes, or refused. -/
theorem frameBody_cases (flags : UInt8) (length : ℕ) (buffer : Bytes) :
    (buffer.length < length ∧ frameBody flags length buffer = some none) ∨
      ∃ body rest, buffer = body ++ rest ∧ body.length = length ∧
        frameBody flags length buffer = some (some (⟨flags, body⟩, rest)) := by
  by_cases hshort : buffer.length < length
  · exact .inl ⟨hshort, if_pos hshort⟩
  · have hlength : (buffer.take length).length = length := by
      rw [List.length_take]
      omega
    refine .inr ⟨buffer.take length, buffer.drop length, (List.take_append_drop _ _).symm,
      hlength, ?_⟩
    have hbody := frameBody_append flags (buffer.take length) (buffer.drop length)
    rwa [hlength, List.take_append_drop] at hbody

/-- Whatever the bytes are, the reader stays within them: it takes a frame that is in front, or
there is none. -/
theorem frameDecode_cases (buffer : Bytes) :
    (frameDecode buffer = some none ∧
      ¬∃ frame bytes rest, Framed frame bytes ∧ buffer = bytes ++ rest) ∨
    ∃ frame bytes rest, Framed frame bytes ∧ buffer = bytes ++ rest ∧
      frameDecode buffer = some (some (frame, rest)) := by
  have hnone (h : frameDecode buffer = some none) : frameDecode buffer = some none ∧
      ¬∃ frame bytes rest, Framed frame bytes ∧ buffer = bytes ++ rest := by
    refine ⟨h, ?_⟩
    rintro ⟨frame, bytes, rest, hframed, rfl⟩
    rw [frameDecode_framed hframed rest] at h
    exact absurd h nofun
  have hsome (frame : Frame) (bytes rest : Bytes) (hframed : Framed frame bytes)
      (h : buffer = bytes ++ rest) : ∃ frame bytes rest, Framed frame bytes ∧
        buffer = bytes ++ rest ∧ frameDecode buffer = some (some (frame, rest)) := by
    refine ⟨frame, bytes, rest, hframed, h, ?_⟩
    rw [h]
    exact frameDecode_framed hframed rest
  cases buffer with
  | nil => exact .inl (hnone rfl)
  | cons flags buffer =>
    by_cases hlong : flags &&& flagLong = 0
    · cases buffer with
      | nil =>
        refine .inl (hnone ?_)
        unfold frameDecode
        rw [if_neg (List.cons_ne_nil _ _)]
        simp only [front_cons, subspan_one_cons, Option.bind_eq_bind, Option.bind_some]
        rw [if_neg (not_not.2 hlong)]
        rfl
      | cons size buffer =>
        have hdecode : frameDecode (flags :: size :: buffer)
            = frameBody flags size.toNat buffer := by
          unfold frameDecode
          rw [if_neg (List.cons_ne_nil _ _)]
          simp only [front_cons, subspan_one_cons, Option.bind_eq_bind, Option.bind_some]
          rw [if_neg (not_not.2 hlong), if_neg (List.cons_ne_nil _ _)]
        rcases frameBody_cases flags size.toNat buffer with
          ⟨-, hbody⟩ | ⟨body, rest, hbuffer, hsize, -⟩
        · exact .inl (hnone (hdecode.trans hbody))
        · have hlt : body.length < 2 ^ 8 := by
            rw [hsize]
            exact size.toNat_lt
          have hbyte : toBytes 1 body.length = [size] := by
            rw [toBytes_one, hsize]
            simp
          have hframed := @Framed.short ⟨flags, body⟩ hlong hlt
          rw [hbyte] at hframed
          exact .inr (hsome _ _ rest hframed (by rw [hbuffer]; rfl))
    · by_cases hshort : buffer.length < 8
      · refine .inl (hnone ?_)
        unfold frameDecode
        rw [if_neg (List.cons_ne_nil _ _)]
        simp only [front_cons, subspan_one_cons, Option.bind_eq_bind, Option.bind_some]
        rw [if_pos hlong, if_pos hshort]
        rfl
      · have hle := Nat.le_of_not_lt hshort
        have hdecode : frameDecode (flags :: buffer)
            = frameBody flags (ofBytes (buffer.take 8)) (buffer.drop 8) := by
          unfold frameDecode
          rw [if_neg (List.cons_ne_nil _ _)]
          simp only [front_cons, subspan_one_cons, Option.bind_eq_bind, Option.bind_some]
          rw [if_pos hlong, if_neg hshort, first_of_le hle, subspan_of_le hle]
          rfl
        have hlength : (buffer.take 8).length = 8 := by
          rw [List.length_take]
          omega
        rcases frameBody_cases flags (ofBytes (buffer.take 8)) (buffer.drop 8) with
          ⟨-, hbody⟩ | ⟨body, rest, hbuffer, hsize, -⟩
        · exact .inl (hnone (hdecode.trans hbody))
        · have hlt : body.length < 2 ^ 64 := by
            have hmax := ofBytes_lt (buffer.take 8)
            rw [hlength] at hmax
            rw [hsize]
            exact hmax.trans_le (by norm_num)
          have hbytes : toBytes 8 body.length = buffer.take 8 := by
            have h := toBytes_ofBytes (buffer.take 8)
            rwa [hlength, ← hsize] at h
          have hframed := @Framed.long ⟨flags, body⟩ hlong hlt
          rw [hbytes] at hframed
          refine .inr (hsome _ _ rest hframed ?_)
          rw [List.cons_append, List.append_assoc, ← hbuffer, List.take_append_drop]

/-! ### Round trips -/

/-- The flags of a frame that is encoded. -/
def encodedFlags (body : Bytes) (command more : Bool) : UInt8 :=
  if 0xff < body.length then flagsOf command more ||| flagLong else flagsOf command more

theorem flagsOf_spec (command more : Bool) :
    flagsOf command more &&& flagLong = 0 ∧
      (flagsOf command more &&& flagCommand != 0) = command ∧
      (flagsOf command more &&& flagMore != 0) = more ∧
      flagsOf command more &&& (~~~flagLong) = flagsOf command more := by
  cases command <;> cases more <;> decide

theorem flagsOf_long_spec (command more : Bool) :
    (flagsOf command more ||| flagLong) &&& flagLong ≠ 0 ∧
      ((flagsOf command more ||| flagLong) &&& flagCommand != 0) = command ∧
      ((flagsOf command more ||| flagLong) &&& flagMore != 0) = more ∧
      (flagsOf command more ||| flagLong) &&& (~~~flagLong) = flagsOf command more := by
  cases command <;> cases more <;> decide

/-- A frame that is encoded has its flags, up to LONG. -/
theorem encodedFlags_spec (body : Bytes) (command more : Bool) :
    (Frame.mk (encodedFlags body command more) body).command = command ∧
      (Frame.mk (encodedFlags body command more) body).more = more ∧
      encodedFlags body command more &&& (~~~flagLong) = flagsOf command more := by
  unfold encodedFlags Frame.command Frame.more
  split
  · exact (flagsOf_long_spec command more).2
  · exact (flagsOf_spec command more).2

theorem frameEncode_framed {body : Bytes} (hb : body.length < 2 ^ 64) (command more : Bool) :
    Framed ⟨encodedFlags body command more, body⟩ (frameEncode body command more) := by
  have hshort := (flagsOf_spec command more).1
  have hlong := (flagsOf_long_spec command more).1
  unfold frameEncode frameHead encodedFlags
  by_cases hsize : 0xff < body.length
  · rw [if_pos hsize, if_pos hsize]
    exact .long hlong hb
  · rw [if_neg hsize, if_neg hsize]
    refine .short hshort ?_
    show body.length < 2 ^ 8
    omega

/-- The frames of a message, with MORE on all but the last. -/
def messageFrames : List Bytes → List Frame
  | [] => []
  | [part] => [⟨encodedFlags part false false, part⟩]
  | part :: parts => ⟨encodedFlags part false true, part⟩ :: messageFrames parts

/-- `frame_decode` is iterated over bytes, and takes these frames of them. -/
inductive Decodes : Bytes → List Frame → Bytes → Prop
  | nil {rest : Bytes} : Decodes rest [] rest
  | cons {buffer next rest : Bytes} {frame : Frame} {frames : List Frame}
      (h : frameDecode buffer = some (some (frame, next))) (tail : Decodes next frames rest) :
      Decodes buffer (frame :: frames) rest

theorem decodes_frameMessage {parts : List Bytes} (h : ∀ part ∈ parts, part.length < 2 ^ 64)
    (rest : Bytes) : Decodes (frameMessage parts ++ rest) (messageFrames parts) rest := by
  induction parts with
  | nil => exact .nil
  | cons part parts ih =>
    have hpart := h part List.mem_cons_self
    have htail := ih fun part hpart => h part (List.mem_cons_of_mem _ hpart)
    cases parts with
    | nil => exact .cons (frameDecode_framed (frameEncode_framed hpart _ _) rest) .nil
    | cons part' parts =>
      have hdecode := frameDecode_framed (frameEncode_framed hpart false true)
        (frameMessage (part' :: parts) ++ rest)
      rw [← List.append_assoc] at hdecode
      exact .cons hdecode htail

/-- The parts of a message, in order, none of which is a command. -/
theorem messageFrames_parts (parts : List Bytes) :
    (messageFrames parts).map Frame.body = parts ∧
      ∀ frame ∈ messageFrames parts, frame.command = false := by
  induction parts with
  | nil => exact ⟨rfl, fun frame hf => absurd hf List.not_mem_nil⟩
  | cons part parts ih =>
    obtain ⟨hbody, hcommand⟩ := ih
    cases parts with
    | nil =>
      refine ⟨rfl, fun frame hf => ?_⟩
      rw [List.mem_singleton.mp hf]
      exact (encodedFlags_spec part false false).1
    | cons part' parts =>
      refine ⟨congrArg (part :: ·) hbody, fun frame hf => ?_⟩
      rcases List.mem_cons.mp hf with rfl | hf
      · exact (encodedFlags_spec part false true).1
      · exact hcommand frame hf

/-- MORE is set on all parts but the last. -/
theorem messageFrames_more (parts : List Bytes) (last : Bytes) :
    (messageFrames (parts ++ [last])).map Frame.more = parts.map (fun _ => true) ++ [false] := by
  induction parts with
  | nil =>
    show [_] = [false]
    rw [(encodedFlags_spec last false false).2.1]
  | cons part parts ih =>
    obtain ⟨next, rest, hrest⟩ : ∃ next rest, parts ++ [last] = next :: rest :=
      List.exists_cons_of_ne_nil (List.append_ne_nil_of_right_ne_nil _ (List.cons_ne_nil _ _))
    rw [hrest] at ih
    rw [List.cons_append, hrest]
    show _ :: (messageFrames (next :: rest)).map Frame.more = _
    rw [ih, (encodedFlags_spec part false true).2.1]
    rfl

/-! ### Properties -/

/-- A property that its lengths can hold. -/
structure Sized (name value : Bytes) : Prop where
  name : name.length < 2 ^ 8
  value : value.length < 2 ^ 32

/-- The value of the first property of a name, through properties of other names. -/
inductive Finds (property : Bytes) : Bytes → Bytes → Prop
  | found {value rest : Bytes} (size : Sized property value) :
      Finds property (makeProperty property value ++ rest) value
  | next {name value rest found : Bytes} (size : Sized name value) (other : name ≠ property)
      (tail : Finds property rest found) :
      Finds property (makeProperty name value ++ rest) found

theorem makeProperty_append {name value : Bytes} (rest : Bytes) :
    makeProperty name value ++ rest
      = name.length.toUInt8 :: (name ++ (toBytes 4 value.length ++ (value ++ rest))) := by
  rw [makeProperty, toBytes_one]
  simp only [List.append_assoc, List.cons_append, List.nil_append]

/-- A property in front is read. -/
theorem propertyTurn_append (property : Bytes) {name value : Bytes} (size : Sized name value)
    (rest : Bytes) : propertyTurn property (makeProperty name value ++ rest)
      = some (some (if name = property then .inl value else .inr rest)) := by
  have hlength : (toBytes 4 value.length).length = 4 := toBytes_length _ _
  have hnumber : ofBytes (toBytes 4 value.length) = value.length :=
    ofBytes_toBytes (size.value.trans_le (by norm_num))
  set tail := toBytes 4 value.length ++ (value ++ rest) with htail
  have hdata : subspan (name.length.toUInt8 :: (name ++ tail)) (1 + name.length) = some tail := by
    rw [Nat.add_comm, subspan_of_le (by rw [List.length_cons, List.length_append]; omega)]
    rw [List.drop_succ_cons, List.drop_left]
  have hfirst : first tail 4 = some (toBytes 4 value.length) := by
    have h := first_append (toBytes 4 value.length) (value ++ rest)
    rwa [hlength] at h
  have hrest : subspan tail 4 = some (value ++ rest) := by
    have h := subspan_append (toBytes 4 value.length) (value ++ rest)
    rwa [hlength] at h
  unfold propertyTurn
  rw [makeProperty_append, ← htail]
  simp only [front_cons, subspan_one_cons, Option.bind_eq_bind, Option.bind_some,
    toNat_toUInt8 size.name]
  rw [if_neg (by rw [List.length_cons, List.length_append]; omega), first_append]
  simp only [Option.bind_some, hdata, hfirst, hrest]
  rw [if_neg (by rw [htail, List.length_append, hlength]; omega), hnumber,
    if_neg (by rw [List.length_append]; omega)]
  by_cases hname : name = property
  · rw [if_pos hname, if_pos hname, first_append]
    rfl
  · rw [if_neg hname, if_neg hname, subspan_append]
    rfl

/-- A turn stays within the bytes: it reads a property in front, or there is none. -/
theorem propertyTurn_cases (property : Bytes) {data : Bytes} (hd : data ≠ []) :
    (propertyTurn property data = some none ∧
      ¬∃ name value rest, Sized name value ∧ data = makeProperty name value ++ rest) ∨
    ∃ name value rest, Sized name value ∧ data = makeProperty name value ++ rest := by
  by_cases hproperty : ∃ name value rest, Sized name value ∧ data = makeProperty name value ++ rest
  · exact .inr hproperty
  refine .inl ⟨?_, hproperty⟩
  obtain ⟨size, tail, rfl⟩ := List.exists_cons_of_ne_nil hd
  unfold propertyTurn
  simp only [front_cons, subspan_one_cons, Option.bind_eq_bind, Option.bind_some]
  by_cases hshort : (size :: tail).length < 1 + size.toNat
  · rw [if_pos hshort]
    rfl
  rw [List.length_cons] at hshort
  have hname : size.toNat ≤ tail.length := by omega
  have hlength : (tail.take size.toNat).length = size.toNat := by
    rw [List.length_take]
    omega
  have hdrop : subspan (size :: tail) (1 + size.toNat) = some (tail.drop size.toNat) := by
    rw [Nat.add_comm, subspan_of_le (by rw [List.length_cons]; omega), List.drop_succ_cons]
  rw [if_neg (by rw [List.length_cons]; omega), first_of_le hname, hdrop]
  simp only [Option.bind_some]
  set data := tail.drop size.toNat with hdata
  by_cases hlengths : data.length < 4
  · rw [if_pos hlengths]
    rfl
  rw [if_neg hlengths, first_of_le (by omega), subspan_of_le (by omega)]
  simp only [Option.bind_some]
  by_cases hvalue : (data.drop 4).length < ofBytes (data.take 4)
  · rw [if_pos hvalue]
    rfl
  -- what is left is a property
  have hfour : (data.take 4).length = 4 := by
    rw [List.length_take]
    omega
  have hvalues : ((data.drop 4).take (ofBytes (data.take 4))).length = ofBytes (data.take 4) := by
    rw [List.length_take]
    omega
  refine absurd ⟨tail.take size.toNat, (data.drop 4).take (ofBytes (data.take 4)),
    (data.drop 4).drop (ofBytes (data.take 4)), ⟨?_, ?_⟩, ?_⟩ hproperty
  · rw [hlength]
    exact size.toNat_lt
  · have hmax := ofBytes_lt (data.take 4)
    rw [hfour] at hmax
    rw [hvalues]
    exact hmax.trans_le (by norm_num)
  · have hbytes : toBytes 4 (ofBytes (data.take 4)) = data.take 4 := by
      have h := toBytes_ofBytes (data.take 4)
      rwa [hfour] at h
    have hbyte : size.toNat.toUInt8 = size := by simp
    rw [makeProperty_append, hlength, hvalues, hbytes, hbyte, List.take_append_drop,
      List.take_append_drop, hdata, List.take_append_drop]

theorem makeProperty_length_pos (name value rest : Bytes) :
    rest.length < (makeProperty name value ++ rest).length := by
  rw [makeProperty_append]
  simp only [List.length_cons, List.length_append]
  omega

/-- Behind a property of another name the walk goes on. -/
theorem Finds.tail {property name value rest found : Bytes} (size : Sized name value)
    (other : name ≠ property) (h : Finds property (makeProperty name value ++ rest) found) :
    Finds property rest found := by
  have hturn := propertyTurn_append property size rest
  rw [if_neg other] at hturn
  generalize makeProperty name value ++ rest = data at h hturn
  cases h with
  | found size' =>
    rw [propertyTurn_append property size' _, if_pos rfl] at hturn
    exact absurd (Option.some.inj (Option.some.inj hturn)) nofun
  | next size' other' tail =>
    rw [propertyTurn_append property size' _, if_neg other'] at hturn
    rw [← Sum.inr.inj (Option.some.inj (Option.some.inj hturn))]
    exact tail

/-- The walk stays within the bytes, ends, and returns the value that it finds, if any. -/
theorem propertyLoop_cases (property : Bytes) {turns : ℕ} {data : Bytes}
    (ht : data.length < turns) :
    (propertyLoop property turns data = some none ∧ ¬∃ value, Finds property data value) ∨
    ∃ value, Finds property data value ∧ propertyLoop property turns data = some (some value) := by
  induction turns generalizing data with
  | zero => exact absurd ht (Nat.not_lt_zero _)
  | succ turns ih =>
    unfold propertyLoop
    by_cases hnil : data = []
    · rw [if_pos hnil]
      refine .inl ⟨rfl, ?_⟩
      rintro ⟨value, hfinds⟩
      have hlength := congrArg List.length hnil
      cases hfinds with
      | found =>
        rw [makeProperty_append] at hlength
        exact absurd hlength (Nat.succ_ne_zero _)
      | next =>
        rw [makeProperty_append] at hlength
        exact absurd hlength (Nat.succ_ne_zero _)
    rw [if_neg hnil]
    rcases propertyTurn_cases property hnil with ⟨hturn, hnone⟩ | ⟨name, value, rest, hsize, rfl⟩
    · left
      rw [hturn]
      refine ⟨rfl, ?_⟩
      rintro ⟨found, hfinds⟩
      cases hfinds with
      | found size => exact hnone ⟨_, _, _, size, rfl⟩
      | next size _ _ => exact hnone ⟨_, _, _, size, rfl⟩
    · rw [propertyTurn_append property hsize rest]
      by_cases hname : name = property
      · subst hname
        rw [if_pos rfl]
        exact .inr ⟨value, .found hsize, rfl⟩
      · rw [if_neg hname]
        have hlt := makeProperty_length_pos name value rest
        rcases @ih rest (by omega) with ⟨hloop, hnone⟩ | ⟨found, hfinds, hloop⟩
        · refine .inl ⟨hloop, ?_⟩
          rintro ⟨found, hfinds⟩
          exact hnone ⟨found, hfinds.tail hsize hname⟩
        · exact .inr ⟨found, .next hsize hname hfinds, hloop⟩

theorem propertyLoop_finds {property data value : Bytes} (h : Finds property data value)
    {turns : ℕ} (ht : data.length < turns) :
    propertyLoop property turns data = some (some value) := by
  induction h generalizing turns with
  | @found value rest size =>
    obtain ⟨turns, rfl⟩ := Nat.exists_eq_add_one_of_ne_zero (Nat.ne_zero_of_lt ht)
    unfold propertyLoop
    rw [propertyTurn_append property size rest, if_pos rfl, makeProperty_append,
      if_neg (List.cons_ne_nil _ _)]
    rfl
  | @next name value rest found size other _ ih =>
    obtain ⟨turns, rfl⟩ := Nat.exists_eq_add_one_of_ne_zero (Nat.ne_zero_of_lt ht)
    have hlt := makeProperty_length_pos name value rest
    unfold propertyLoop
    rw [propertyTurn_append property size rest, if_neg other, makeProperty_append,
      if_neg (List.cons_ne_nil _ _)]
    exact ih (by omega)

theorem readyProperty_iff (property body value : Bytes) :
    readyProperty property body = some (some value) ↔ Finds property body value := by
  have hturns := Nat.lt_succ_self body.length
  constructor
  · intro h
    rcases propertyLoop_cases property hturns with ⟨hloop, -⟩ | ⟨found, hfinds, hloop⟩
    · exact absurd (hloop.symm.trans h) nofun
    · rwa [Option.some.inj (Option.some.inj (hloop.symm.trans h))] at hfinds
  · intro h
    exact propertyLoop_finds h hturns

/-- What the codec of frames and of properties returns: messages and frames are read back as they
were written, a frame is decoded exactly if it is in front, the value of a property is that of
the first of its name, and no access is outside of the bytes. -/
structure CodecSpec : Prop where
  message {parts : List Bytes} (sizes : ∀ part ∈ parts, part.length < 2 ^ 64) :
    ∃ frames, Decodes (frameMessage parts) frames [] ∧ frames.map Frame.body = parts ∧
      (∀ frame ∈ frames, frame.command = false) ∧
      ∀ before last, parts = before ++ [last] →
        frames.map Frame.more = before.map (fun _ => true) ++ [false]
  frame {body : Bytes} (size : body.length < 2 ^ 64) (command more : Bool) (rest : Bytes) :
    ∃ frame, frameDecode (frameEncode body command more ++ rest) = some (some (frame, rest)) ∧
      frame.body = body ∧ frame.command = command ∧ frame.more = more ∧
      frame.flags &&& (~~~flagLong) = flagsOf command more
  decode (buffer : Bytes) : (∃ result, frameDecode buffer = some result) ∧
    ∀ frame rest, frameDecode buffer = some (some (frame, rest)) ↔
      ∃ bytes, Framed frame bytes ∧ buffer = bytes ++ rest
  property (name body : Bytes) : (∃ result, readyProperty name body = some result) ∧
    ∀ value, readyProperty name body = some (some value) ↔ Finds name body value

theorem codecSpec : CodecSpec where
  message {parts} sizes := by
    obtain ⟨hbody, hcommand⟩ := messageFrames_parts parts
    have hdecodes := decodes_frameMessage sizes []
    rw [List.append_nil] at hdecodes
    refine ⟨messageFrames parts, hdecodes, hbody, hcommand, ?_⟩
    intro before last hparts
    rw [hparts]
    exact messageFrames_more before last
  frame {body} size command more rest := by
    obtain ⟨hcommand, hmore, hflags⟩ := encodedFlags_spec body command more
    exact ⟨_, frameDecode_framed (frameEncode_framed size command more) rest, rfl, hcommand, hmore,
      hflags⟩
  decode buffer := by
    rcases frameDecode_cases buffer with ⟨hnone, hno⟩ | ⟨frame, bytes, rest, hframed, rfl, h⟩
    · refine ⟨⟨none, hnone⟩, fun frame rest => ⟨fun h => ?_, ?_⟩⟩
      · exact absurd (hnone.symm.trans h) nofun
      · rintro ⟨bytes, hframed, hbuffer⟩
        exact absurd ⟨frame, bytes, rest, hframed, hbuffer⟩ hno
    · refine ⟨⟨_, h⟩, fun frame' rest' => ⟨fun h' => ?_, ?_⟩⟩
      · obtain ⟨rfl, rfl⟩ := Prod.mk.inj (Option.some.inj (Option.some.inj (h.symm.trans h')))
        exact ⟨bytes, hframed, rfl⟩
      · rintro ⟨bytes', hframed', hbuffer⟩
        rw [hbuffer]
        exact frameDecode_framed hframed' rest'
  property name body := by
    refine ⟨?_, readyProperty_iff name body⟩
    rcases propertyLoop_cases name (Nat.lt_succ_self body.length) with ⟨h, -⟩ | ⟨value, -, h⟩
    · exact ⟨none, h⟩
    · exact ⟨some value, h⟩

end BitcoinNetwork.Zmtp
