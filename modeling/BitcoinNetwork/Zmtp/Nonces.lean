import BitcoinNetwork.Zmtp.Link

/-!
# The nonces over the life of a cipher (zmtp/cipher.cpp)

A cipher may be called in any order, with any bytes. What a call seals has the
next number of the cipher for a nonce, or one that is drawn for it, and what is
decoded is numbered above all that was accepted before.
-/

namespace BitcoinNetwork.Zmtp
open Binary

/-! ### Calls -/

/-- A call of a cipher, with the random values that it draws. -/
inductive Call
  | hello (transient : Keypair)
  | welcome (draw : Cipher.WelcomeDraw) (hello : Bytes)
  | initiate (vouchNonce : LongNonce) (welcome metadata : Bytes)
  | ready (initiate metadata : Bytes)
  | complete (ready : Bytes)
  | encode (flags : UInt8) (body : Bytes)
  | decode (message : Bytes)

/-- The state that a call reaches. -/
def Cipher.call (primitives : Primitives) (c : Cipher) : Call → Cipher
  | .hello transient => (c.hello primitives transient).1
  | .welcome draw hello => (c.welcome primitives draw hello).1
  | .initiate vouchNonce welcome metadata => (c.initiate primitives vouchNonce welcome metadata).1
  | .ready initiate metadata => (c.ready primitives initiate metadata).1
  | .complete ready => (c.complete primitives ready).1
  | .encode flags body => (c.encode primitives flags body).1
  | .decode message => (c.decode primitives message).1

def Cipher.run (primitives : Primitives) (c : Cipher) (calls : List Call) : Cipher :=
  calls.foldl (Cipher.call primitives) c

/-- The long nonces that a call draws, and what they are for. -/
def Call.draws : Call → List (Bytes × LongNonce)
  | .welcome draw _ => [(prefixCookie, draw.cookieNonce), (prefixWelcome, draw.welcomeNonce)]
  | .initiate vouchNonce _ _ => [(prefixVouch, vouchNonce)]
  | _ => []

/-! ### What a nonce is made of -/

/-- A label with a number, or with a nonce that is drawn. -/
inductive Tag
  | short (label : Bytes) (value : ℕ)
  | long (label : Bytes) (value : LongNonce)

def Tag.bytes : Tag → Bytes
  | .short label value => shortNonce label value
  | .long label value => longNonce label value.toList

/-- The labels of a side. -/
def shortLabels (server : Bool) : List Bytes :=
  if server then [prefixReady, prefixServer] else [prefixHello, prefixInitiate, prefixClient]

def longLabels (server : Bool) : List Bytes :=
  if server then [prefixCookie, prefixWelcome] else [prefixVouch]

/-- A nonce of a side. -/
def Tag.Of (server : Bool) : Tag → Prop
  | .short label _ => label ∈ shortLabels server
  | .long label _ => label ∈ longLabels server

theorem shortLabels_front : ∀ server, ∀ label ∈ shortLabels server,
    label.length = 16 ∧ label.take 8 = Http.ascii "CurveZMQ" := by decide

theorem longLabels_front : ∀ server, ∀ label ∈ longLabels server,
    label.length = 8 ∧ label ≠ Http.ascii "CurveZMQ" := by decide

theorem shortLabels_disjoint : ∀ label ∈ shortLabels false, label ∉ shortLabels true := by decide

theorem longLabels_disjoint : ∀ label ∈ longLabels false, label ∉ longLabels true := by decide

theorem labelOf_mem (server : Bool) : labelOf server ∈ shortLabels server := by
  cases server with
  | false => simp [labelOf, shortLabels]
  | true => simp [labelOf, shortLabels]

/-- The label of a nonce is seen in it. -/
theorem Tag.bytes_take {server : Bool} {tag : Tag} (h : tag.Of server) :
    match tag with
    | .short label _ => tag.bytes.take 16 = label ∧ tag.bytes.take 8 = Http.ascii "CurveZMQ"
    | .long label _ => tag.bytes.take 8 = label ∧ label ≠ Http.ascii "CurveZMQ" := by
  cases tag with
  | short label value =>
    obtain ⟨hlength, hfront⟩ := shortLabels_front server label h
    refine ⟨List.take_left' hlength, ?_⟩
    show (label ++ toBytes 8 value).take 8 = _
    rw [List.take_append_of_le_length (by omega), hfront]
  | long label value =>
    obtain ⟨hlength, hfront⟩ := longLabels_front server label h
    exact ⟨List.take_left' hlength, hfront⟩

/-- A nonce denotes one label and number. -/
theorem Tag.bytes_injective {server server' : Bool} {tag tag' : Tag} (h : tag.Of server)
    (h' : tag'.Of server') (hbytes : tag.bytes = tag'.bytes) :
    match tag, tag' with
    | .short label value, .short label' value' => label = label' ∧ value % 2 ^ 64 = value' % 2 ^ 64
    | .long label value, .long label' value' => label = label' ∧ value = value'
    | _, _ => False := by
  have htake := Tag.bytes_take h
  have htake' := Tag.bytes_take h'
  rw [hbytes] at htake
  cases tag with
  | short label value =>
    cases tag' with
    | short label' value' =>
      have hlabel : label = label' := htake.1.symm.trans htake'.1
      subst hlabel
      have hvalue : toBytes 8 value = toBytes 8 value' := List.append_cancel_left hbytes
      have hnumber := congrArg ofBytes hvalue
      rw [ofBytes_toBytes_mod, ofBytes_toBytes_mod] at hnumber
      exact ⟨rfl, hnumber⟩
    | long label' value' => exact htake'.2 (htake'.1.symm.trans htake.2)
  | long label value =>
    cases tag' with
    | short label' value' => exact htake.2 (htake.1.symm.trans htake'.2)
    | long label' value' =>
      have hlabel : label = label' := htake.1.symm.trans htake'.1
      subst hlabel
      have hvalue : value.toList = value'.toList := List.append_cancel_left hbytes
      exact ⟨rfl, Vector.toList_inj.mp hvalue⟩

/-! ### What a call does -/

/-- A call seals under nonces that are drawn, then at most once under the next
number, and accepts no number below those that it accepted. -/
structure Effect (c c' : Cipher) (longs : List (Bytes × LongNonce)) (shorts : List Bytes) :
    Prop where
  server : c'.server = c.server
  seals : c'.seals.map Prod.snd = c.seals.map Prod.snd ++
    (longs.map fun long => (Tag.long long.1 long.2).bytes) ++
    shorts.map fun label => (Tag.short label c.nonce).bytes
  nonce : c'.nonce = c.nonce + shorts.length
  once : shorts.length ≤ 1
  longs_of : ∀ long ∈ longs, long.1 ∈ longLabels c.server
  shorts_of : ∀ label ∈ shorts, label ∈ shortLabels c.server
  peer : c.peerNonce ≤ c'.peerNonce

/-- A call that seals nothing. -/
theorem Effect.quiet {c c' : Cipher} (hserver : c'.server = c.server)
    (hseals : c'.seals = c.seals) (hnonce : c'.nonce = c.nonce) (hpeer : c.peerNonce ≤ c'.peerNonce) : Effect c c' [] [] where
  server := hserver
  seals := by rw [hseals]; simp
  nonce := hnonce
  once := Nat.zero_le 1
  longs_of := fun long h => absurd h List.not_mem_nil
  shorts_of := fun label h => absurd h List.not_mem_nil
  peer := hpeer

/-- What a call that seals nothing does in front of another. -/
theorem Effect.after {c c' c'' : Cipher} {longs : List (Bytes × LongNonce)} {shorts : List Bytes}
    (h : Effect c' c'' longs shorts) (hserver : c'.server = c.server)
    (hseals : c'.seals = c.seals) (hnonce : c'.nonce = c.nonce) (hpeer : c.peerNonce ≤ c'.peerNonce) : Effect c c'' longs shorts where
  server := h.server.trans hserver
  seals := by rw [← hseals, ← hnonce]; exact h.seals
  nonce := by rw [← hnonce]; exact h.nonce
  once := h.once
  longs_of := by rw [← hserver]; exact h.longs_of
  shorts_of := by rw [← hserver]; exact h.shorts_of
  peer := hpeer.trans h.peer

section
variable {primitives : Primitives}

theorem accept_frame (c : Cipher) (nonce : ℕ) :
    (c.accept nonce).1.server = c.server ∧ (c.accept nonce).1.seals = c.seals ∧
      (c.accept nonce).1.nonce = c.nonce ∧ c.peerNonce ≤ (c.accept nonce).1.peerNonce := by
  rcases accept_cases c nonce with ⟨-, h⟩ | ⟨hlt, h⟩
  · rw [h]
    exact ⟨rfl, rfl, rfl, le_rfl⟩
  · rw [h]
    exact ⟨rfl, rfl, rfl, hlt.le⟩

/-- What is left of the state that a nonce is accepted in, or refused. -/
theorem Effect.quiet_accept {c c' : Cipher} (nonce : ℕ) (hserver : c'.server = c.server)
    (hseals : c'.seals = c.seals) (hnonce : c'.nonce = c.nonce) (hpeer : c'.peerNonce = c.peerNonce) : Effect c (c'.accept nonce).1 [] [] := by
  obtain ⟨haserver, haseals, hanonce, hapeer⟩ := accept_frame c' nonce
  exact .quiet (haserver.trans hserver) (haseals.trans hseals) (hanonce.trans hnonce) (hpeer ▸ hapeer)

theorem Effect.after_accept {c c' c'' : Cipher} {longs : List (Bytes × LongNonce)}
    {shorts : List Bytes} {nonce : ℕ} (h : Effect (c'.accept nonce).1 c'' longs shorts)
    (hserver : c'.server = c.server) (hseals : c'.seals = c.seals) (hnonce : c'.nonce = c.nonce)
    (hpeer : c'.peerNonce = c.peerNonce) :
    Effect c c'' longs shorts := by
  obtain ⟨haserver, haseals, hanonce, hapeer⟩ := accept_frame c' nonce
  exact h.after (haserver.trans hserver) (haseals.trans hseals) (hanonce.trans hnonce) (hpeer ▸ hapeer)

theorem hello_effect (primitives : Primitives) (c : Cipher) (transient : Keypair) :
    ∃ shorts, Effect c (c.hello primitives transient).1 [] shorts := by
  unfold Cipher.hello
  split
  next => exact ⟨[], .quiet rfl rfl rfl le_rfl⟩
  next hserver =>
    simp only [Cipher.sealBox]
    split
    next => exact ⟨[], .quiet rfl rfl rfl le_rfl⟩
    next =>
      refine ⟨[prefixHello], rfl, ?_, rfl, le_rfl, by simp, ?_, le_rfl⟩
      · simp [Tag.bytes]
      · simp [hserver, shortLabels]

theorem sendWelcome_effect (c : Cipher) (draw : Cipher.WelcomeDraw) (shared : Bytes)
    (hserver : c.server = true) :
    Effect c (c.sendWelcome primitives draw shared).1
      [(prefixCookie, draw.cookieNonce), (prefixWelcome, draw.welcomeNonce)] [] where
  server := rfl
  seals := by simp [Cipher.sendWelcome, Cipher.sealBox, Tag.bytes]
  nonce := rfl
  once := Nat.zero_le 1
  longs_of := by simp [hserver, longLabels]
  shorts_of := by simp
  peer := le_rfl

theorem welcome_effect (primitives : Primitives) (c : Cipher) (draw : Cipher.WelcomeDraw) (hello : Bytes) :
    ∃ longs, longs.Sublist (Call.welcome draw hello).draws ∧
      Effect c (c.welcome primitives draw hello).1 longs [] := by
  have hquiet {c' : Cipher} (h : Effect c c' [] []) : ∃ longs : List (Bytes × LongNonce),
      longs.Sublist (Call.welcome draw hello).draws ∧ Effect c c' longs [] :=
    ⟨[], List.nil_sublist _, h⟩
  unfold Cipher.welcome
  split
  next => exact hquiet (.quiet rfl rfl rfl le_rfl)
  next hguard =>
    have hserver : c.server = true := by
      by_contra hclient
      exact hguard (.inl hclient)
    simp only []
    split
    next => exact hquiet (.quiet rfl rfl rfl le_rfl)
    next =>
      split
      next => exact hquiet (.quiet rfl rfl rfl le_rfl)
      next shared _ =>
        split
        next => exact hquiet (.quiet_accept _ rfl rfl rfl rfl)
        next =>
          split
          next => exact hquiet (.quiet_accept _ rfl rfl rfl rfl)
          next =>
            refine ⟨_, List.Sublist.refl _, ?_⟩
            refine (sendWelcome_effect _ draw shared ?_).after_accept rfl rfl rfl rfl
            exact (accept_frame _ _).1.trans hserver

theorem initiate_effect (c : Cipher) (vouchNonce : LongNonce) (welcome metadata : Bytes) :
    ∃ longs shorts, longs.Sublist (Call.initiate vouchNonce welcome metadata).draws ∧
      Effect c (c.initiate primitives vouchNonce welcome metadata).1 longs shorts := by
  have hquiet {c' : Cipher} (h : Effect c c' [] []) : ∃ longs shorts,
      longs.Sublist (Call.initiate vouchNonce welcome metadata).draws ∧ Effect c c' longs shorts :=
    ⟨[], [], List.nil_sublist _, h⟩
  unfold Cipher.initiate
  split
  next => exact hquiet (.quiet rfl rfl rfl le_rfl)
  next =>
    split
    next => exact hquiet (.quiet rfl rfl rfl le_rfl)
    next hguard =>
      have hserver : c.server = false := by
        by_contra hclient
        exact hguard (.inl (Bool.not_eq_false _ ▸ hclient))
      simp only []
      split
      next => exact hquiet (.quiet rfl rfl rfl le_rfl)
      next =>
        split
        next => exact hquiet (.quiet rfl rfl rfl le_rfl)
        next =>
          split
          next => exact hquiet (.quiet rfl rfl rfl le_rfl)
          next =>
            refine ⟨_, [prefixInitiate], List.Sublist.refl _, rfl, ?_, rfl, le_rfl, ?_, ?_,
              le_rfl⟩
            · simp [Cipher.sendInitiate, Cipher.sealBox, Tag.bytes, Call.draws]
            · simp [hserver, longLabels, Call.draws]
            · simp [hserver, shortLabels]

theorem openVouch_effect (primitives : Primitives) (c : Cipher) (session content metadata : Bytes)
    (hserver : c.server = true) :
    ∃ shorts, Effect c (c.openVouch primitives session content metadata).1 [] shorts := by
  unfold Cipher.openVouch
  split
  next => exact ⟨[], .quiet rfl rfl rfl le_rfl⟩
  next =>
    simp only []
    split
    next => exact ⟨[], .quiet rfl rfl rfl le_rfl⟩
    next =>
      split
      next => exact ⟨[], .quiet rfl rfl rfl le_rfl⟩
      next =>
        split
        next => exact ⟨[], .quiet rfl rfl rfl le_rfl⟩
        next =>
          refine ⟨[prefixReady], rfl, ?_, rfl, le_rfl, by simp, ?_, le_rfl⟩
          · simp [Cipher.sendReady, Cipher.sealBox, Tag.bytes]
          · simp [hserver, shortLabels]

theorem ready_effect (primitives : Primitives) (c : Cipher) (initiate metadata : Bytes) :
    ∃ shorts, Effect c (c.ready primitives initiate metadata).1 [] shorts := by
  unfold Cipher.ready
  split
  next => exact ⟨[], .quiet rfl rfl rfl le_rfl⟩
  next hguard =>
    have hserver : c.server = true := by
      by_contra hclient
      exact hguard (.inl hclient)
    simp only []
    split
    next => exact ⟨[], .quiet rfl rfl rfl le_rfl⟩
    next =>
      split
      next => exact ⟨[], .quiet rfl rfl rfl le_rfl⟩
      next =>
        split
        next => exact ⟨[], .quiet rfl rfl rfl le_rfl⟩
        next session _ =>
          split
          next => exact ⟨[], .quiet_accept _ rfl rfl rfl rfl⟩
          next =>
            split
            next => exact ⟨[], .quiet_accept _ rfl rfl rfl rfl⟩
            next content _ =>
              obtain ⟨shorts, h⟩ := openVouch_effect primitives
                (Cipher.accept { c with sessionBox := some session } (shortNonceValue initiate
                  (1 + nameInitiate.length + cookieSize))).1 session content metadata
                ((accept_frame _ _).1.trans hserver)
              exact ⟨shorts, h.after_accept rfl rfl rfl rfl⟩

theorem complete_effect (c : Cipher) (ready : Bytes) :
    Effect c (c.complete primitives ready).1 [] [] := by
  unfold Cipher.complete
  split
  next => exact .quiet rfl rfl rfl le_rfl
  next =>
    split
    next => exact .quiet rfl rfl rfl le_rfl
    next =>
      simp only []
      split
      next => exact .quiet_accept _ rfl rfl rfl rfl
      next =>
        split
        next => exact .quiet_accept _ rfl rfl rfl rfl
        next =>
          obtain ⟨hserver, hseals, hnonce, hpeer⟩ := accept_frame c
            (shortNonceValue ready (1 + nameReady.length))
          exact .quiet hserver hseals hnonce hpeer

theorem encode_effect (primitives : Primitives) (c : Cipher) (flags : UInt8) (body : Bytes) :
    ∃ shorts, Effect c (c.encode primitives flags body).1 [] shorts := by
  cases hsession : c.sessionBox with
  | none =>
    have hencode : c.encode primitives flags body = (c, none) := by
      unfold Cipher.encode
      simp only [hsession]
    rw [hencode]
    exact ⟨[], .quiet rfl rfl rfl le_rfl⟩
  | some session =>
    rw [encode_eq primitives hsession (flags, body)]
    refine ⟨[labelOf c.server], rfl, ?_, rfl, le_rfl, by simp, ?_, le_rfl⟩
    · simp [Tag.bytes]
    · intro label hlabel
      rw [List.mem_singleton.mp hlabel]
      exact labelOf_mem c.server

theorem decode_effect (c : Cipher) (message : Bytes) :
    Effect c (c.decode primitives message).1 [] [] := by
  rcases decode_cases primitives c message with h | ⟨hlt, payload, h⟩
  · rw [h]
    exact .quiet rfl rfl rfl le_rfl
  · rw [h]
    exact .quiet rfl rfl rfl hlt.le

/-- What any call does. -/
theorem call_effect (primitives : Primitives) (c : Cipher) (call : Call) :
    ∃ longs shorts, longs.Sublist call.draws ∧ Effect c (c.call primitives call) longs shorts := by
  cases call with
  | hello transient =>
    obtain ⟨shorts, h⟩ := hello_effect primitives c transient
    exact ⟨[], shorts, List.nil_sublist _, h⟩
  | welcome draw hello =>
    obtain ⟨longs, hlongs, h⟩ := welcome_effect primitives c draw hello
    exact ⟨longs, [], hlongs, h⟩
  | initiate vouchNonce welcome metadata => exact initiate_effect c vouchNonce welcome metadata
  | ready initiate metadata =>
    obtain ⟨shorts, h⟩ := ready_effect primitives c initiate metadata
    exact ⟨[], shorts, List.nil_sublist _, h⟩
  | complete ready => exact ⟨[], [], List.nil_sublist _, complete_effect c ready⟩
  | encode flags body =>
    obtain ⟨shorts, h⟩ := encode_effect primitives c flags body
    exact ⟨[], shorts, List.nil_sublist _, h⟩
  | decode message => exact ⟨[], [], List.nil_sublist _, decode_effect c message⟩

/-! ### Runs -/

/-- The nonces accepted over a run never fall. -/
theorem run_peer (primitives : Primitives) (c : Cipher) (calls : List Call) :
    c.peerNonce ≤ (c.run primitives calls).peerNonce := by
  induction calls generalizing c with
  | nil => exact le_rfl
  | cons call calls ih =>
    obtain ⟨longs, shorts, -, h⟩ := call_effect primitives c call
    exact h.peer.trans (ih _)

theorem run_append (c : Cipher) (calls calls' : List Call) :
    c.run primitives (calls ++ calls') = (c.run primitives calls).run primitives calls' :=
  List.foldl_append

/-- A message that is decoded is numbered above what was accepted, and becomes that. -/
theorem decode_accepts {c : Cipher} {message : Bytes}
    (h : (c.decode primitives message).2 ≠ none) :
    c.peerNonce < messageNonce message ∧
      (c.decode primitives message).1.peerNonce = messageNonce message := by
  rcases decode_cases primitives c message with hrefused | ⟨hlt, payload, hdecode⟩
  · rw [hrefused] at h
    exact absurd rfl h
  · rw [hdecode]
    exact ⟨hlt, rfl⟩

/-- A message is decoded only if it is numbered above all that was decoded. -/
theorem decode_increasing (c : Cipher) (calls calls' : List Call) (message message' : Bytes)
    (h : ((c.run primitives calls).decode primitives message).2 ≠ none)
    (h' : ((c.run primitives (calls ++ .decode message :: calls')).decode primitives message').2
      ≠ none) :
    messageNonce message < messageNonce message' := by
  have hfirst := (decode_accepts h).2
  have hsecond := (decode_accepts h').1
  have hpeer := run_peer primitives
    ((c.run primitives calls).decode primitives message).1 calls'
  rw [run_append] at hsecond
  exact hfirst ▸ hpeer.trans_lt hsecond

/-- What the seals of a cipher are, of which the nonces in the list were drawn. -/
structure Sealed (c : Cipher) (draws : List (Bytes × LongNonce)) (tags : List Tag) : Prop where
  bytes : c.seals.map Prod.snd = tags.map Tag.bytes
  of : ∀ tag ∈ tags, tag.Of c.server
  short : ∀ label value, Tag.short label value ∈ tags → 0 < value ∧ value < c.nonce
  long : ∀ label value, Tag.long label value ∈ tags → (label, value) ∈ draws
  nodup : tags.Nodup
  positive : 0 < c.nonce

theorem Sealed.step {c : Cipher} {draws : List (Bytes × LongNonce)} {tags : List Tag}
    (h : Sealed c draws tags) (primitives : Primitives) (call : Call)
    (hdraws : (draws ++ call.draws).Nodup) :
    ∃ tags', Sealed (c.call primitives call) (draws ++ call.draws) tags' := by
  obtain ⟨longs, shorts, hlongs, heffect⟩ := call_effect primitives c call
  obtain ⟨-, hcall, hfresh⟩ := List.nodup_append.mp hdraws
  have hpos := h.positive
  have hnonce := heffect.nonce
  refine ⟨tags ++ (longs.map fun long => Tag.long long.1 long.2) ++
    shorts.map fun label => Tag.short label c.nonce, ?_, ?_, ?_, ?_, ?_, ?_⟩
  · rw [heffect.seals, h.bytes]
    simp only [List.map_append, List.map_map]
    rfl
  · intro tag htag
    rw [heffect.server]
    simp only [List.mem_append, List.mem_map] at htag
    rcases htag with (htag | ⟨long, hlong, rfl⟩) | ⟨label, hlabel, rfl⟩
    · exact h.of tag htag
    · exact heffect.longs_of long hlong
    · exact heffect.shorts_of label hlabel
  · intro label value htag
    simp only [List.mem_append, List.mem_map] at htag
    rcases htag with (htag | ⟨long, -, hlong⟩) | ⟨label', hlabel, heq⟩
    · obtain ⟨hvalue, hlt⟩ := h.short label value htag
      exact ⟨hvalue, by omega⟩
    · exact absurd hlong nofun
    · have hone : 0 < shorts.length := List.length_pos_of_mem hlabel
      rw [← (Tag.short.inj heq).2]
      exact ⟨hpos, by omega⟩
  · intro label value htag
    simp only [List.mem_append, List.mem_map] at htag
    rcases htag with (htag | ⟨long, hlong, heq⟩) | ⟨label', -, heq⟩
    · exact List.mem_append_left _ (h.long label value htag)
    · obtain ⟨hlabel, hvalue⟩ := Tag.long.inj heq
      rw [← hlabel, ← hvalue]
      exact List.mem_append_right _ (hlongs.subset hlong)
    · exact absurd heq nofun
  · have hinjective : Function.Injective fun long : Bytes × LongNonce => Tag.long long.1 long.2 := by
      intro long long' heq
      obtain ⟨hlabel, hvalue⟩ := Tag.long.inj heq
      exact Prod.ext hlabel hvalue
    have hshorts : (shorts.map fun label => Tag.short label c.nonce).Nodup := by
      match shorts, heffect.once with
      | [], _ => exact List.nodup_nil
      | [label], _ => exact List.nodup_singleton _
    refine List.nodup_append.mpr ⟨List.nodup_append.mpr ⟨h.nodup,
      (List.Sublist.nodup hlongs hcall).map hinjective, ?_⟩, hshorts, ?_⟩
    · intro tag htag tag' htag' heq
      obtain ⟨long, hlong, rfl⟩ := List.mem_map.mp htag'
      exact hfresh _ (h.long _ _ (heq ▸ htag)) _ (hlongs.subset hlong) rfl
    · intro tag htag tag' htag' heq
      obtain ⟨label, -, rfl⟩ := List.mem_map.mp htag'
      subst heq
      rcases List.mem_append.mp htag with htag | htag
      · exact absurd (h.short _ _ htag).2 (Nat.lt_irrefl _)
      · obtain ⟨long, -, hlong⟩ := List.mem_map.mp htag
        exact absurd hlong nofun
  · omega

/-- The seals over a run of calls. -/
theorem Sealed.run {c : Cipher} {draws : List (Bytes × LongNonce)} {tags : List Tag}
    (h : Sealed c draws tags) (primitives : Primitives) (calls : List Call)
    (hdraws : (draws ++ calls.flatMap Call.draws).Nodup) :
    ∃ tags', Sealed (c.run primitives calls) (draws ++ calls.flatMap Call.draws) tags' := by
  induction calls generalizing c draws tags with
  | nil =>
    refine ⟨tags, ?_⟩
    rw [List.flatMap_nil, List.append_nil]
    exact h
  | cons call calls ih =>
    rw [List.flatMap_cons, ← List.append_assoc] at hdraws ⊢
    obtain ⟨tags', hstep⟩ := h.step primitives call (List.nodup_append.mp hdraws).1
    exact ih hstep hdraws

/-- A number is at most one more than the calls. -/
theorem run_nonce (primitives : Primitives) (c : Cipher) (calls : List Call) :
    (c.run primitives calls).nonce ≤ c.nonce + calls.length := by
  induction calls generalizing c with
  | nil => exact le_rfl
  | cons call calls ih =>
    obtain ⟨longs, shorts, -, heffect⟩ := call_effect primitives c call
    have hnonce := heffect.nonce
    have honce := heffect.once
    have hrun : (c.run primitives (call :: calls)).nonce
        ≤ (c.call primitives call).nonce + calls.length := ih _
    rw [List.length_cons]
    omega

theorem run_server (primitives : Primitives) (c : Cipher) (calls : List Call) :
    (c.run primitives calls).server = c.server := by
  induction calls generalizing c with
  | nil => rfl
  | cons call calls ih =>
    obtain ⟨longs, shorts, -, heffect⟩ := call_effect primitives c call
    exact (ih _).trans heffect.server

/-- A cipher that was not called. -/
structure Fresh (c : Cipher) : Prop where
  seals : c.seals = []
  nonce : c.nonce = 1

theorem Fresh.sealed {c : Cipher} (h : Fresh c) : Sealed c [] [] where
  bytes := by rw [h.seals]; rfl
  of := by simp
  short := by simp
  long := by simp
  nodup := List.nodup_nil
  positive := by rw [h.nonce]; exact Nat.zero_lt_one

/-- No two seals of a cipher use one nonce. -/
theorem run_seals_nodup {c : Cipher} (h : Fresh c) (calls : List Call)
    (hdraws : (calls.flatMap Call.draws).Nodup) (hcalls : calls.length ≤ 2 ^ 64) :
    ((c.run primitives calls).seals.map Prod.snd).Nodup := by
  obtain ⟨tags, hsealed⟩ := h.sealed.run primitives calls hdraws
  have hnonce := run_nonce primitives c calls
  rw [h.nonce] at hnonce
  rw [hsealed.bytes]
  apply hsealed.nodup.map_on
  intro tag htag tag' htag' hbytes
  have heq := Tag.bytes_injective (hsealed.of tag htag) (hsealed.of tag' htag') hbytes
  cases tag with
  | short label value =>
    cases tag' with
    | short label' value' =>
      obtain ⟨hpos, hlt⟩ := hsealed.short label value htag
      obtain ⟨hpos', hlt'⟩ := hsealed.short label' value' htag'
      have hvalue : value = value' := by
        have hmod : value % 2 ^ 64 = value' % 2 ^ 64 := heq.2
        omega
      rw [heq.1, hvalue]
    | long label' value' => exact heq.elim
  | long label value =>
    cases tag' with
    | short label' value' => exact heq.elim
    | long label' value' => rw [heq.1, heq.2]

/-- The nonces of a side, whatever is drawn for them. -/
theorem run_seals_of {c : Cipher} (hseals : c.seals = []) (calls : List Call) :
    ∀ nonce ∈ (c.run primitives calls).seals.map Prod.snd,
      ∃ tag : Tag, tag.Of c.server ∧ nonce = tag.bytes := by
  have hstep (c' : Cipher) (hc' : c'.server = c.server)
      (h : ∀ nonce ∈ c'.seals.map Prod.snd, ∃ tag : Tag, tag.Of c.server ∧ nonce = tag.bytes)
      (call : Call) : ∀ nonce ∈ (c'.call primitives call).seals.map Prod.snd,
        ∃ tag : Tag, tag.Of c.server ∧ nonce = tag.bytes := by
    obtain ⟨longs, shorts, -, heffect⟩ := call_effect primitives c' call
    intro nonce hnonce
    rw [heffect.seals] at hnonce
    simp only [List.mem_append, List.mem_map] at hnonce
    rcases hnonce with (hnonce | ⟨long, hlong, rfl⟩) | ⟨label, hlabel, rfl⟩
    · exact h nonce (List.mem_map.mpr hnonce)
    · exact ⟨_, hc' ▸ heffect.longs_of long hlong, rfl⟩
    · exact ⟨_, hc' ▸ heffect.shorts_of label hlabel, rfl⟩
  have hrun (c' : Cipher) (hc' : c'.server = c.server)
      (h : ∀ nonce ∈ c'.seals.map Prod.snd, ∃ tag : Tag, tag.Of c.server ∧ nonce = tag.bytes) :
      ∀ nonce ∈ (c'.run primitives calls).seals.map Prod.snd,
        ∃ tag : Tag, tag.Of c.server ∧ nonce = tag.bytes := by
    induction calls generalizing c' with
    | nil => exact h
    | cons call calls ih =>
      exact ih _ ((run_server primitives c' [call]).trans hc') (hstep c' hc' h call)
  exact hrun c rfl (by rw [hseals]; simp)

/-- No nonce of one side is one of the other. -/
theorem run_seals_disjoint (primitives : Primitives) {c s : Cipher} (hclient : c.server = false)
    (hserver : s.server = true) (hclientSeals : c.seals = [])
    (hserverSeals : s.seals = []) (calls calls' : List Call) :
    ∀ nonce ∈ (c.run primitives calls).seals.map Prod.snd,
      nonce ∉ (s.run primitives calls').seals.map Prod.snd := by
  intro nonce hnonce hnonce'
  obtain ⟨tag, htag, rfl⟩ := run_seals_of hclientSeals calls nonce hnonce
  obtain ⟨tag', htag', hbytes⟩ := run_seals_of hserverSeals calls' _ hnonce'
  rw [hclient] at htag
  rw [hserver] at htag'
  have heq := Tag.bytes_injective htag htag' hbytes
  cases tag with
  | short label value =>
    cases tag' with
    | short label' value' => exact shortLabels_disjoint label htag (heq.1 ▸ htag')
    | long label' value' => exact heq
  | long label value =>
    cases tag' with
    | short label' value' => exact heq
    | long label' value' => exact longLabels_disjoint label htag (heq.1 ▸ htag')

end

end BitcoinNetwork.Zmtp
