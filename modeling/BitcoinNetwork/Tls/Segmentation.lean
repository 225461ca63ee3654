import BitcoinNetwork.Incremental.Machine
import BitcoinNetwork.Tls.Gate

/-!
# The records of a server by the pieces they arrive in (tls/server.cpp)

`receive` is an incremental machine over records, so that the pieces the
transport cuts do not matter. A handshake message that is cut over records is
handled once they are complete, as if it was in one.
-/

namespace BitcoinNetwork.Tls
open Binary Incremental

variable {Certificate : Type} (config : Config Certificate)

/-! ### Records -/

/-- The size of a record by its header. -/
def recordSize (available : Bytes) : ℕ :=
  (Reader.read8 { data := available.take recordHeaderSize }).2.read16.2.read16.1.toNat

/-- A turn of the loop over records. -/
def recordStep (s : Connection Certificate) (available : Bytes) :
    Step (Connection Certificate) Empty (Connection Certificate) :=
  if s.isFailed ∨ s.closed then .done
  else if available.length < recordHeaderSize then .wait
  else if maximumCiphertext < recordSize available then .fail (s.fail config alertRecordOverflow)
  else if available.length < recordHeaderSize + recordSize available then .wait
  else
    let s := s.handleRecord config (Reader.read8 { data := available.take recordHeaderSize }).1
      (available.take recordHeaderSize)
      ((available.drop recordHeaderSize).take (recordSize available))
    if s.isFailed then .fail s else .next s (recordHeaderSize + recordSize available) []

variable {config}

theorem recordSize_append {available : Bytes} (h : recordHeaderSize ≤ available.length)
    (x : Bytes) : (available ++ x).take recordHeaderSize = available.take recordHeaderSize ∧
      recordSize (available ++ x) = recordSize available := by
  have htake : (available ++ x).take recordHeaderSize = available.take recordHeaderSize :=
    List.take_append_of_le_length h
  refine ⟨htake, ?_⟩
  unfold recordSize
  rw [htake]

/-- The step does not see what is behind a record that is complete. -/
theorem recordStep_append {s : Connection Certificate} {available : Bytes}
    (hw : recordStep config s available ≠ .wait) (x : Bytes) :
    recordStep config s (available ++ x) = recordStep config s available := by
  unfold recordStep at hw ⊢
  by_cases hdone : s.isFailed ∨ s.closed
  · rw [if_pos hdone, if_pos hdone]
  rw [if_neg hdone] at hw
  rw [if_neg hdone, if_neg hdone]
  by_cases hheader : available.length < recordHeaderSize
  · rw [if_pos hheader] at hw
    exact absurd rfl hw
  rw [if_neg hheader] at hw
  obtain ⟨htake, hsize⟩ := recordSize_append (Nat.le_of_not_lt hheader) x
  have hheader' : ¬(available ++ x).length < recordHeaderSize := by
    rw [List.length_append]
    omega
  rw [if_neg hheader', if_neg hheader, hsize, htake]
  by_cases hover : maximumCiphertext < recordSize available
  · rw [if_pos hover, if_pos hover]
  rw [if_neg hover] at hw
  rw [if_neg hover, if_neg hover]
  by_cases hshort : available.length < recordHeaderSize + recordSize available
  · rw [if_pos hshort] at hw
    exact absurd rfl hw
  have hshort' : ¬(available ++ x).length < recordHeaderSize + recordSize available := by
    rw [List.length_append]
    omega
  rw [if_neg hshort', if_neg hshort, List.drop_append_of_le_length (Nat.le_of_not_lt hheader),
    List.take_append_of_le_length]
  rw [List.length_drop]
  omega

theorem recordStep_next {s s' : Connection Certificate} {available : Bytes} {n : ℕ}
    {out : List Empty} (h : recordStep config s available = .next s' n out) :
    0 < n ∧ n ≤ available.length := by
  unfold recordStep at h
  split at h
  · exact absurd h nofun
  split at h
  · exact absurd h nofun
  split at h
  · exact absurd h nofun
  split at h
  · exact absurd h nofun
  · rename_i hshort
    dsimp only at h
    split at h
    · exact absurd h nofun
    · injection h with _ hn _
      have hpos : 0 < recordHeaderSize := by decide
      omega

theorem recordStep_resumable :
    Resumable (fun _ => True) (@recordStep Certificate config) where
  progress _ h := recordStep_next h
  preserve _ _ := trivial
  done_append _ h x := by
    rw [recordStep_append (by rw [h]; nofun), h]
  fail_append _ h x := by
    rw [recordStep_append (by rw [h]; nofun), h]
  next_append _ h x := by
    left
    rw [recordStep_append (by rw [h]; nofun), h]

/-- What the loop over records returns of a run. -/
def loopResult : Result UInt8 (Connection Certificate) (Connection Certificate) →
    Connection Certificate × Option Bytes
  | .waiting s rest => (s, some rest)
  | .done s rest => (s, some rest)
  | .failed s => (s, none)

/-- A turn of the loop is a step of the machine. -/
theorem recordsLoop_succ (turns : ℕ) (s : Connection Certificate) (available : Bytes) :
    Server.recordsLoop config (turns + 1) s available =
      match recordStep config s available with
      | .wait => (s, some available)
      | .done => (s, some available)
      | .fail failed => (failed, none)
      | .next s' n _ => Server.recordsLoop config turns s' (available.drop n) := by
  unfold recordStep
  conv => lhs; unfold Server.recordsLoop
  by_cases hdone : s.isFailed ∨ s.closed
  · rw [if_pos hdone, if_pos (hdone.imp_right .inl)]
  by_cases hheader : available.length < recordHeaderSize
  · rw [if_neg hdone, if_pos hheader, if_pos (.inr (.inr hheader))]
  have hturn : ¬(s.isFailed = true ∨ s.closed = true ∨ available.length < recordHeaderSize) := by
    rintro (hf | hc | hh)
    · exact hdone (.inl hf)
    · exact hdone (.inr hc)
    · exact hheader hh
  rw [if_neg hdone, if_neg hheader, if_neg hturn]
  dsimp only
  by_cases hover : maximumCiphertext < recordSize available
  · rw [if_pos hover]
    exact if_pos hover
  rw [if_neg hover]
  refine (if_neg hover).trans ?_
  by_cases hshort : available.length < recordHeaderSize + recordSize available
  · rw [if_pos hshort]
    exact if_pos hshort
  rw [if_neg hshort]
  refine (if_neg hshort).trans ?_
  by_cases hfailed : (s.handleRecord config
      (Reader.read8 { data := available.take recordHeaderSize }).1
      (available.take recordHeaderSize)
      ((available.drop recordHeaderSize).take (recordSize available))).isFailed = true
  · rw [if_pos hfailed]
    exact if_pos hfailed
  · rw [if_neg hfailed]
    exact if_neg hfailed

/-- The loop takes the steps of the machine. -/
theorem recordsLoop_eq {s : Connection Certificate} {available : Bytes} {outs : List Empty}
    {r : Result UInt8 (Connection Certificate) (Connection Certificate)}
    (h : Runs (recordStep config) s available outs r) {turns : ℕ}
    (ht : available.length < turns) :
    Server.recordsLoop config turns s available = loopResult r := by
  obtain ⟨turns, rfl⟩ := Nat.exists_eq_add_one_of_ne_zero (Nat.ne_zero_of_lt ht)
  induction h generalizing turns with
  | wait hstep =>
    rw [recordsLoop_succ, hstep]
    rfl
  | done hstep =>
    rw [recordsLoop_succ, hstep]
    rfl
  | fail hstep =>
    rw [recordsLoop_succ, hstep]
    rfl
  | next hstep _ ih =>
    obtain ⟨hpos, hle⟩ := recordStep_next hstep
    rw [recordsLoop_succ, hstep]
    obtain ⟨turns, rfl⟩ : ∃ fewer, turns = fewer + 1 := by
      refine Nat.exists_eq_add_one_of_ne_zero ?_
      omega
    refine ih turns ?_
    rw [List.length_drop]
    omega

/-- A run that is done is failed or closed. -/
theorem done_of_step {s : Connection Certificate} {available : Bytes}
    (h : recordStep config s available = .done) : s.isFailed = true ∨ s.closed = true := by
  unfold recordStep at h
  split at h
  · assumption
  split at h
  · exact absurd h nofun
  split at h
  · exact absurd h nofun
  split at h
  · exact absurd h nofun
  · dsimp only at h
    split at h
    · exact absurd h nofun
    · exact absurd h nofun

theorem fail_isFailed (s : Connection Certificate) (alert : UInt8) :
    (s.fail config alert).isFailed = true := by
  unfold Connection.fail
  split
  · assumption
  · rfl

theorem failed_of_runs {s failed : Connection Certificate} {available : Bytes}
    {outs : List Empty} (h : Runs (recordStep config) s available outs (.failed failed)) :
    failed.isFailed = true := by
  generalize hr : Result.failed failed = r at h
  induction h with
  | wait => cases hr
  | done => cases hr
  | @fail s available e hstep =>
    cases hr
    unfold recordStep at hstep
    split at hstep
    · exact absurd hstep nofun
    split at hstep
    · exact absurd hstep nofun
    split at hstep
    · injection hstep with he
      rw [← he]
      exact fail_isFailed s _
    split at hstep
    · exact absurd hstep nofun
    · dsimp only at hstep
      split at hstep
      · injection hstep with he
        rw [← he]
        assumption
      · exact absurd hstep nofun
  | next _ _ ih => exact ih hr

/-- The server that is left by a run of the machine over its input. -/
theorem receive_eq {server : Server Certificate} {data : Bytes} {outs : List Empty}
    {r : Result UInt8 (Connection Certificate) (Connection Certificate)}
    (hopen : ¬(server.connection.isFailed = true ∨ server.connection.closed = true))
    (h : Runs (recordStep config) server.connection (server.input ++ data) outs r) :
    (server.receive config data).1
      = ⟨(loopResult r).1, ((loopResult r).2).getD (server.input ++ data)⟩ := by
  unfold Server.receive
  dsimp only
  rw [if_neg hopen, recordsLoop_eq h (Nat.lt_succ_self _)]
  cases r with
  | waiting => rfl
  | done => rfl
  | failed => rfl

/-- A server that failed or is closed receives nothing. -/
theorem receive_final {server : Server Certificate} (data : Bytes)
    (h : server.connection.isFailed = true ∨ server.connection.closed = true) :
    server.receive config data = (server, false) := by
  unfold Server.receive
  exact if_pos h

/-- Bytes that are received one after the other are received as if they were one. -/
theorem receive_append (config : Config Certificate) (server : Server Certificate)
    (a b : Bytes) :
    let parts := ((server.receive config a).1.receive config b).1
    let whole := (server.receive config (a ++ b)).1
    parts.connection = whole.connection ∧
      (whole.connection.isFailed = false → whole.connection.closed = false → parts = whole) := by
  intro parts whole
  by_cases hfinal : server.connection.isFailed = true ∨ server.connection.closed = true
  · have hparts : parts = server := by
      show ((server.receive config a).1.receive config b).1 = server
      rw [receive_final a hfinal, receive_final b hfinal]
    have hwhole : whole = server := by
      show (server.receive config (a ++ b)).1 = server
      rw [receive_final (a ++ b) hfinal]
    rw [hparts, hwhole]
    exact ⟨rfl, fun _ _ => rfl⟩
  have hresumable := @recordStep_resumable Certificate config
  obtain ⟨outs, r, hr⟩ := hresumable.total (s := server.connection) trivial (server.input ++ a)
  have hfirst := receive_eq hfinal hr
  cases r with
  | waiting s rest =>
    obtain ⟨outs', r', hr'⟩ := hresumable.total (s := s) trivial (rest ++ b)
    have hall := hresumable.resume trivial hr hr'
    rw [List.append_assoc] at hall
    have hwhole : whole = _ := receive_eq hfinal hall
    have hstep := hr.wait_of_waiting
    have hwaits : ¬(s.isFailed = true ∨ s.closed = true) := by
      intro hn
      unfold recordStep at hstep
      rw [if_pos hn] at hstep
      exact absurd hstep nofun
    have hparts : parts = ⟨(loopResult r').1, (loopResult r').2.getD (rest ++ b)⟩ := by
      show ((server.receive config a).1.receive config b).1 = _
      rw [hfirst]
      exact @receive_eq _ config ⟨s, rest⟩ b _ _ hwaits hr'
    rw [hparts, hwhole]
    refine ⟨rfl, fun hf hc => ?_⟩
    cases r' with
    | waiting => rfl
    | done => rfl
    | failed e => exact absurd ((failed_of_runs hr').symm.trans hf) Bool.true_eq_false.mp
  | done s rest =>
    have hall := hresumable.extend trivial hr trivial b
    rw [List.append_assoc] at hall
    have hwhole : whole = _ := receive_eq hfinal hall
    have hdone := done_of_step hr.done_of_done
    have hparts : parts = ⟨s, rest⟩ := by
      show ((server.receive config a).1.receive config b).1 = _
      rw [hfirst, receive_final b hdone]
      rfl
    rw [hparts, hwhole]
    refine ⟨rfl, fun hf hc => ?_⟩
    rcases hdone with hd | hd
    · exact absurd (hd.symm.trans hf) Bool.true_eq_false.mp
    · exact absurd (hd.symm.trans hc) Bool.true_eq_false.mp
  | failed s =>
    have hall := hresumable.extend trivial hr trivial b
    rw [List.append_assoc] at hall
    have hwhole : whole = _ := receive_eq hfinal hall
    have hfailed := failed_of_runs hr
    have hparts : parts.connection = s := by
      show ((server.receive config a).1.receive config b).1.connection = s
      rw [hfirst, receive_final b (.inl hfailed)]
      rfl
    rw [hparts, hwhole]
    exact ⟨rfl, fun hf _ => absurd (hfailed.symm.trans hf) Bool.true_eq_false.mp⟩

/-! ### What the handlers do not see -/

namespace Connection

/-- The connection with other bytes of messages, and another record to open next. -/
def pending (s : Connection Certificate) (handshake : Bytes) (receive : Record) :
    Connection Certificate := { s with handshake := handshake, receive := receive }

theorem fail_pending (s : Connection Certificate) (handshake : Bytes) (receive : Record)
    (alert : UInt8) : (s.pending handshake receive).fail config alert
      = (s.fail config alert).pending handshake receive := by
  unfold fail
  cases hf : s.isFailed with
  | true =>
    rw [if_pos rfl]
    exact if_pos hf
  | false =>
    rw [if_neg Bool.false_ne_true]
    exact if_neg (Bool.eq_false_iff.mp hf)

theorem fail_receive (s : Connection Certificate) (alert : UInt8) :
    (s.fail config alert).receive = s.receive := by
  unfold fail
  split
  · rfl
  · rfl

theorem sendContent_pending (s : Connection Certificate) (handshake : Bytes) (receive : Record)
    (type : UInt8) (data : Bytes) : (s.pending handshake receive).sendContent config type data
      = (s.sendContent config type data).pending handshake receive := by
  unfold sendContent
  generalize fragments data.length data = parts
  induction parts generalizing s with
  | nil => rfl
  | cons part parts ih => exact ih (s.sealRecord config type part)

theorem sendContent_receive (s : Connection Certificate) (type : UInt8) (data : Bytes) :
    (s.sendContent config type data).receive = s.receive := by
  unfold sendContent
  generalize fragments data.length data = parts
  induction parts generalizing s with
  | nil => rfl
  | cons part parts ih => exact ih (s.sealRecord config type part)

theorem sendCompatibility_pending (s : Connection Certificate) (handshake : Bytes)
    (receive : Record) (session : Bytes) :
    (s.pending handshake receive).sendCompatibility config session
        = (s.sendCompatibility config session).pending handshake receive ∧
      (s.sendCompatibility config session).receive = s.receive := by
  unfold sendCompatibility
  by_cases hnone : session = [] ∨ s.compatibilitySent = true
  · rw [if_pos hnone]
    exact ⟨if_pos hnone, rfl⟩
  · rw [if_neg hnone]
    exact ⟨if_neg hnone, rfl⟩

theorem sendHello_pending (s : Connection Certificate) (handshake : Bytes) (receive : Record)
    (random session keyShare : Bytes) :
    (s.pending handshake receive).sendHello config random session keyShare
        = (s.sendHello config random session keyShare).pending handshake receive ∧
      (s.sendHello config random session keyShare).receive = s.receive := by
  unfold sendHello
  exact sendCompatibility_pending ((s.addTranscript _).sealRecord config contentHandshake _) _ _ _

theorem sendFlight_pending (s : Connection Certificate) (handshake : Bytes) (receive : Record) :
    (s.pending handshake receive).sendFlight config
        = (s.sendFlight config).pending handshake receive := by
  have hmessages : (s.pending handshake receive).flightMessages config
      = ((s.flightMessages config).1.pending handshake receive, (s.flightMessages config).2) := by
    unfold flightMessages
    cases config.context.request with
    | true => rfl
    | false => rfl
  unfold sendFlight
  rw [hmessages]
  simp only [sendContent_pending]
  rfl

theorem acceptHello_pending (s : Connection Certificate) (handshake : Bytes) (receive : Record)
    (message session shared own : Bytes) :
    (s.pending handshake receive).acceptHello config message session shared own
      = (s.acceptHello config message session shared own).pending handshake
          (s.acceptHello config message session shared own).receive := by
  obtain ⟨hhello, -⟩ := @sendHello_pending _ config (s.addTranscript message) handshake receive
    config.random session (write16 s.group ++ writeVector16 own)
  have hadded : ((s.pending handshake receive).addTranscript message)
      = (s.addTranscript message).pending handshake receive := rfl
  have hgroup (s : Connection Certificate) : (s.addTranscript message).group = s.group := rfl
  have hpending : (s.pending handshake receive).group = s.group := rfl
  unfold acceptHello
  dsimp only
  rw [hgroup, hgroup, hpending, hadded, hhello]
  generalize (s.addTranscript message).sendHello config config.random session
    (write16 s.group ++ writeVector16 own) = greeted
  set keyed := ({ greeted with
    handshakeSecret := Tls.handshakeSecret config.crypto greeted.suite
      (earlySecret config.crypto greeted.suite) shared
    clientHandshake := expandLabel config.crypto greeted.suite (Tls.handshakeSecret config.crypto
      greeted.suite (earlySecret config.crypto greeted.suite) shared) "c hs traffic"
        (greeted.transcriptHash config)
    serverHandshake := expandLabel config.crypto greeted.suite (Tls.handshakeSecret config.crypto
      greeted.suite (earlySecret config.crypto greeted.suite) shared) "s hs traffic"
        (greeted.transcriptHash config) } : Connection Certificate)
  set flying := (keyed.setSend config keyed.serverHandshake).setReceive config
    keyed.clientHandshake
  have hreceive : (flying.sendFlight config).receive = flying.receive := by
    have h := congrArg Connection.receive
      (@sendFlight_pending _ config flying flying.handshake flying.receive)
    exact h
  have hflight := @sendFlight_pending _ config flying handshake flying.receive
  have hkept : (flying.sendFlight config).pending handshake flying.receive
      = (flying.sendFlight config).pending handshake (flying.sendFlight config).receive := by
    rw [hreceive]
  exact congrArg (fun t : Connection Certificate => { t with
    state := if config.context.request then .clientCertificate else .clientFinished })
    (hflight.trans hkept)

end Connection

/-- A handler sees neither the bytes of later messages nor how records are opened. -/
def Blind (s : Connection Certificate) (handshake : Bytes) (receive : Record)
    (t t' : Connection Certificate) : Prop :=
  (t' = t.pending handshake receive ∧ t.receive = s.receive) ∨
    t' = t.pending handshake t.receive

theorem Blind.fail (s : Connection Certificate) (handshake : Bytes) (receive : Record)
    (alert : UInt8) : Blind s handshake receive (s.fail config alert)
      ((s.pending handshake receive).fail config alert) :=
  .inl ⟨Connection.fail_pending s handshake receive alert, Connection.fail_receive s alert⟩

/-- The end of `handle_client_hello`, once a ClientHello is read. -/
def answerHello (config : Config Certificate) (s : Connection Certificate) (retried : Bool)
    (message : Bytes) (offer : Offer) (retry : UInt16) : Connection Certificate :=
  match offer.group with
  | none =>
    if retried then s.fail config alertIllegalParameter
    else { s with group := retry }.sendRetry config message offer.session
  | some group =>
    if retried ∧ group ≠ s.group then s.fail config alertIllegalParameter
    else
      match Connection.exchange config group (offer.shareOf group) with
      | none => { s with group := group }.fail config alertIllegalParameter
      | some (shared, own) =>
        { s with group := group }.acceptHello config message offer.session shared own

/-- The transcript and the suite of a ClientHello. -/
def suitedHello (s : Connection Certificate) (suite : UInt16) : Connection Certificate :=
  if s.state == .retryHello then { s with suite := suite }
  else { s with suite := suite, transcript := .reset suite }

theorem handleClientHello_eq (s : Connection Certificate) (message body : Bytes) :
    s.handleClientHello config message body =
      match readOffer config.context.curve
        (if (s.state == .retryHello) = true then some s.suite else none) body with
      | .error alert => s.fail config alert
      | .ok (offer, retry) => answerHello config (suitedHello s offer.suite)
          (s.state == .retryHello) message offer retry := by
  unfold Connection.handleClientHello
  dsimp only
  cases readOffer config.context.curve
    (if (s.state == .retryHello) = true then some s.suite else none) body with
  | error alert => rfl
  | ok result =>
    obtain ⟨offer, retry⟩ := result
    unfold answerHello suitedHello
    cases offer.group with
    | none => rfl
    | some group => rfl

theorem sendRetry_pending (s : Connection Certificate) (handshake : Bytes) (receive : Record)
    (message session : Bytes) : Blind s handshake receive (s.sendRetry config message session)
      ((s.pending handshake receive).sendRetry config message session) := by
  obtain ⟨hhello, hkept⟩ := @Connection.sendHello_pending _ config
    (({ s with transcript := .reset s.suite } : Connection Certificate).addTranscript
      (hashMessage config.crypto s.suite message)) handshake receive retryRandom session
        (write16 s.group)
  exact .inl ⟨congrArg (fun t : Connection Certificate => { t with state := .retryHello }) hhello,
    hkept⟩

theorem answerHello_blind (s : Connection Certificate) (handshake : Bytes) (receive : Record)
    (retried : Bool) (message : Bytes) (offer : Offer) (retry : UInt16) :
    Blind s handshake receive (answerHello config s retried message offer retry)
      (answerHello config (s.pending handshake receive) retried message offer retry) := by
  have hgroup : (s.pending handshake receive).group = s.group := rfl
  unfold answerHello
  cases offer.group with
  | none =>
    simp only
    split
    · exact Blind.fail s _ _ _
    · exact sendRetry_pending { s with group := retry } handshake receive _ _
  | some group =>
    simp only [hgroup]
    split
    · exact Blind.fail s _ _ _
    · cases Connection.exchange config group (offer.shareOf group) with
      | none => exact Blind.fail { s with group := group } handshake receive _
      | some keys =>
        exact .inr (Connection.acceptHello_pending { s with group := group } handshake receive
          _ _ _ _)

theorem clientHello_blind (s : Connection Certificate) (handshake : Bytes) (receive : Record)
    (message body : Bytes) : Blind s handshake receive (s.handleClientHello config message body)
      ((s.pending handshake receive).handleClientHello config message body) := by
  have hstate : (s.pending handshake receive).state = s.state := rfl
  have hsuite : (s.pending handshake receive).suite = s.suite := rfl
  have hsuited (suite : UInt16) : suitedHello (s.pending handshake receive) suite
      = (suitedHello s suite).pending handshake receive ∧
        (suitedHello s suite).receive = s.receive := by
    unfold suitedHello
    rw [hstate]
    split
    · exact ⟨rfl, rfl⟩
    · exact ⟨rfl, rfl⟩
  rw [handleClientHello_eq, handleClientHello_eq, hstate, hsuite]
  cases readOffer config.context.curve
    (if (s.state == .retryHello) = true then some s.suite else none) body with
  | error alert => exact Blind.fail s _ _ _
  | ok result =>
    obtain ⟨hpending, hreceive⟩ := hsuited result.1.suite
    have hanswer := @answerHello_blind _ config (suitedHello s result.1.suite) handshake receive
      (s.state == .retryHello) message result.1 result.2
    unfold Blind at hanswer ⊢
    rw [hreceive, ← hpending] at hanswer
    exact hanswer

theorem certificate_blind (s : Connection Certificate) (handshake : Bytes) (receive : Record)
    (message body : Bytes) : Blind s handshake receive (s.handleCertificate config message body)
      ((s.pending handshake receive).handleCertificate config message body) := by
  unfold Connection.handleCertificate
  cases Connection.readCertificate config body with
  | error alert => exact Blind.fail s _ _ _
  | ok chain =>
    cases chain with
    | nil =>
      dsimp only
      split
      · exact Blind.fail (s.addTranscript message) handshake receive _
      · exact .inl ⟨rfl, rfl⟩
    | cons leaf chain =>
      dsimp only
      cases config.crypto.verifyChain (leaf :: chain) config.context.anchors
        config.context.time with
      | some ec => exact Blind.fail (s.addTranscript message) handshake receive _
      | none => exact .inl ⟨rfl, rfl⟩

theorem certificateVerify_blind (s : Connection Certificate) (handshake : Bytes)
    (receive : Record) (message body : Bytes) :
    Blind s handshake receive (s.handleCertificateVerify config message body)
      ((s.pending handshake receive).handleCertificateVerify config message body) := by
  have hpeer : (s.pending handshake receive).peer = s.peer := rfl
  have hhash : (s.pending handshake receive).transcriptHash config = s.transcriptHash config := rfl
  unfold Connection.handleCertificateVerify
  dsimp only
  rw [hpeer, hhash]
  split
  · exact Blind.fail s _ _ _
  cases s.peer with
  | nil => exact .inl ⟨rfl, rfl⟩
  | cons leaf chain =>
    dsimp only
    cases Connection.verifySignature config leaf (Reader.read16 { data := body }).1
      (Reader.read16 { data := body }).2.readVector16.1 (s.transcriptHash config) with
    | none => exact Blind.fail s _ _ _
    | some valid =>
      cases valid with
      | false => exact Blind.fail s _ _ _
      | true => exact .inl ⟨rfl, rfl⟩

theorem finished_blind (s : Connection Certificate) (handshake : Bytes) (receive : Record)
    (message body : Bytes) : Blind s handshake receive (s.handleFinished config message body)
      ((s.pending handshake receive).handleFinished config message body) := by
  by_cases hbody : body ≠ finished config.crypto s.suite s.clientHandshake
      (s.transcriptHash config)
  · have hfail : s.handleFinished config message body = s.fail config alertDecryptError :=
      if_pos hbody
    have hfail' : (s.pending handshake receive).handleFinished config message body
        = (s.pending handshake receive).fail config alertDecryptError := if_pos hbody
    rw [hfail, hfail']
    exact Blind.fail s _ _ _
  · have hdone : s.handleFinished config message body = _ := if_neg hbody
    have hdone' : (s.pending handshake receive).handleFinished config message body = _ :=
      if_neg hbody
    rw [hdone, hdone']
    exact .inr rfl

theorem sendUpdate_pending (s : Connection Certificate) (handshake : Bytes) (receive : Record) :
    (s.pending handshake receive).sendUpdate config
        = (s.sendUpdate config).pending handshake receive ∧
      (s.sendUpdate config).receive = s.receive := by
  have hsent := @Connection.sendContent_pending _ config s handshake receive contentHandshake
    keyUpdate
  refine ⟨?_, Connection.sendContent_receive s _ _⟩
  unfold Connection.sendUpdate
  dsimp only
  rw [hsent]
  rfl

theorem keyUpdate_blind (s : Connection Certificate) (handshake : Bytes) (receive : Record)
    (body : Bytes) : Blind s handshake receive (s.handleKeyUpdate config body)
      ((s.pending handshake receive).handleKeyUpdate config body) := by
  unfold Connection.handleKeyUpdate
  split
  · rename_i request
    split
    · exact Blind.fail s _ _ _
    · set updated := ({ s with clientTraffic := update config.crypto s.suite s.clientTraffic }
        : Connection Certificate).setReceive config (update config.crypto s.suite s.clientTraffic)
      obtain ⟨hpending, hreceive⟩ := @sendUpdate_pending _ config updated handshake updated.receive
      right
      by_cases hreply : request = 1 ∧ ¬s.closeSent = true
      · refine (if_pos hreply).trans (hpending.trans ?_)
        have hsent : (if request = 1 ∧ ¬s.closeSent = true then updated.sendUpdate config
          else updated) = updated.sendUpdate config := if_pos hreply
        exact hsent.symm ▸ (by rw [hreceive])
      · refine (if_neg hreply).trans ?_
        have hkept : (if request = 1 ∧ ¬s.closeSent = true then updated.sendUpdate config
          else updated) = updated := if_neg hreply
        exact hkept.symm ▸ rfl
  · exact Blind.fail s _ _ _

theorem message_blind (s : Connection Certificate) (handshake : Bytes) (receive : Record)
    (type : UInt8) (message body : Bytes) :
    Blind s handshake receive (s.handleMessage config type message body)
      ((s.pending handshake receive).handleMessage config type message body) := by
  have hstate : (s.pending handshake receive).state = s.state := rfl
  unfold Connection.handleMessage
  rw [hstate]
  cases s.state with
  | clientHello =>
    simp only
    split
    · exact clientHello_blind s _ _ _ _
    · exact Blind.fail s _ _ _
  | retryHello =>
    simp only
    split
    · exact clientHello_blind s _ _ _ _
    · exact Blind.fail s _ _ _
  | clientCertificate =>
    simp only
    split
    · exact certificate_blind s _ _ _ _
    · exact Blind.fail s _ _ _
  | clientCertificateVerify =>
    simp only
    split
    · exact certificateVerify_blind s _ _ _ _
    · exact Blind.fail s _ _ _
  | clientFinished =>
    simp only
    split
    · exact finished_blind s _ _ _ _
    · exact Blind.fail s _ _ _
  | established =>
    simp only
    split
    · exact keyUpdate_blind s _ _ _
    · exact Blind.fail s _ _ _
  | failed => exact Blind.fail s _ _ _

/-! ### A message that is cut over records -/

/-- What a connection is left in, without the bytes that it will not read and the number of
records that it took. -/
def outcome (s : Connection Certificate) : Connection Certificate :=
  s.pending (if s.isFailed then [] else s.handshake) { s.receive with sequence := 0 }

/-- What becomes of a message that is complete. -/
def delivered (config : Config Certificate) (s : Connection Certificate) (type : UInt8)
    (body : Bytes) : Connection Certificate :=
  if maximumMessage < body.length then s.fail config alertDecodeError
  else (s.pending [] s.receive).handleMessage config type (makeMessage type body) body

theorem Blind.outcome {s t t' : Connection Certificate} {receive : Record}
    (h : Blind s [] receive t t')
    (hr : ({ receive with sequence := 0 } : Record) = { s.receive with sequence := 0 })
    (ht : t.handshake = []) : outcome t' = outcome t := by
  have hnone (u : Connection Certificate) (hu : u.handshake = []) :
      (if u.isFailed then [] else u.handshake) = [] := by
    split
    · rfl
    · exact hu
  unfold BitcoinNetwork.Tls.outcome
  rcases h with ⟨rfl, hkept⟩ | rfl
  · rw [hnone _ ht, hnone (t.pending [] receive) rfl, hkept, ← hr]
    rfl
  · rw [hnone _ ht, hnone (t.pending [] t.receive) rfl]
    rfl

/-- A message leaves the bytes behind it. -/
theorem handleMessage_handshake (s : Connection Certificate) (type : UInt8)
    (message body : Bytes) :
    (s.handleMessage config type message body).handshake = s.handshake := by
  rcases @message_blind _ config s s.handshake s.receive type message body with ⟨h, -⟩ | h
  · have hhandshake := congrArg Connection.handshake h
    exact hhandshake
  · have hhandshake := congrArg Connection.handshake h
    exact hhandshake

theorem fail_outcome (s : Connection Certificate) (handshake : Bytes) (receive : Record)
    (hr : ({ receive with sequence := 0 } : Record) = { s.receive with sequence := 0 })
    (alert : UInt8) : outcome ((s.pending handshake receive).fail config alert)
      = outcome (s.fail config alert) := by
  have hfailed := @fail_isFailed _ config s alert
  have hfailed' : ((s.fail config alert).pending handshake receive).isFailed = true := hfailed
  rw [Connection.fail_pending]
  unfold outcome
  rw [hfailed, hfailed', if_pos rfl, if_pos rfl, Connection.fail_receive, ← hr]
  rfl

/-- Neither the record state nor what is pending matters to a message. -/
theorem delivered_outcome (s : Connection Certificate) (handshake : Bytes) (receive : Record)
    (hr : ({ receive with sequence := 0 } : Record) = { s.receive with sequence := 0 })
    (type : UInt8) (body : Bytes) :
    outcome (delivered config (s.pending handshake receive) type body)
      = outcome (delivered config s type body) := by
  unfold delivered
  split
  · exact fail_outcome s handshake receive hr _
  · have hblind := @message_blind _ config (s.pending [] s.receive) [] receive type
      (makeMessage type body) body
    exact hblind.outcome hr (handleMessage_handshake _ _ _ _)

/-- The size in the header of a message. -/
theorem readHeader_makeMessage (type : UInt8) {body : Bytes} (hb : body.length < 2 ^ 24) :
    (Reader.read8 { data := (makeMessage type body).take 4 }).1 = type ∧
      (Reader.read8 { data := (makeMessage type body).take 4 }).2.read24.1 = body.length := by
  obtain ⟨a, b, c, hsize⟩ : ∃ a b c, toBytes 3 body.length = [a, b, c] :=
    ⟨_, _, _, rfl⟩
  have hnumber : ofBytes (toBytes 3 body.length) = body.length := ofBytes_toBytes hb
  have hmessage : makeMessage type body = type :: a :: b :: c :: body := by
    rw [makeMessage, writeVector24, hsize]
    rfl
  obtain ⟨htype, hread⟩ := readHeader type a b c body
  rw [hmessage]
  refine ⟨htype, hread.trans ?_⟩
  rw [← hsize]
  exact hnumber

/-- The header of a message is complete or not, in a part of it. -/
theorem take_header {part message : Bytes} (hpart : part <+: message) (h : 4 ≤ part.length) :
    part.take 4 = message.take 4 := by
  obtain ⟨rest, rfl⟩ := hpart
  rw [List.take_append_of_le_length h]

/-- A part of a message is kept, unless its header is complete and refused. -/
theorem handshake_part {s : Connection Certificate} {type : UInt8} {body piece rest : Bytes}
    (hb : body.length < 2 ^ 24) (hpiece : piece ≠ []) (hrest : rest ≠ [])
    (hm : s.handshake ++ (piece ++ rest) = makeMessage type body) :
    s.handleHandshake config piece = s.pending (s.handshake ++ piece) s.receive ∨
      (maximumMessage < body.length ∧ s.handleHandshake config piece
        = (s.pending (s.handshake ++ piece) s.receive).fail config alertDecodeError) := by
  have hpart : s.handshake ++ piece <+: makeMessage type body :=
    ⟨rest, by rw [← hm, List.append_assoc]⟩
  have hlength := congrArg List.length hm
  rw [makeMessage_length, ← List.append_assoc, List.length_append] at hlength
  have hpos := List.length_pos_iff.mpr hrest
  unfold Connection.handleHandshake
  rw [if_neg hpiece]
  dsimp only
  unfold Connection.messagesLoop
  by_cases hheader : (s.handshake ++ piece).length < 4
  · left
    exact if_pos hheader
  · refine (Or.imp (fun h => (if_neg hheader).trans h)
      (And.imp_right fun h => (if_neg hheader).trans h)) ?_
    dsimp only
    rw [take_header hpart (Nat.le_of_not_lt hheader), (readHeader_makeMessage type hb).2]
    by_cases hsize : maximumMessage < body.length
    · right
      exact ⟨hsize, if_pos hsize⟩
    · left
      rw [if_neg hsize]
      refine if_pos ?_
      omega

/-- A message that is complete is delivered. -/
theorem handshake_whole {s : Connection Certificate} {type : UInt8} {body piece : Bytes}
    (hb : body.length < 2 ^ 24) (hpiece : piece ≠ [])
    (hm : s.handshake ++ piece = makeMessage type body) :
    outcome (s.handleHandshake config piece) = outcome (delivered config s type body) := by
  have hlength := makeMessage_length type body
  unfold Connection.handleHandshake
  rw [if_neg hpiece, hm]
  dsimp only
  unfold Connection.messagesLoop
  have hheader : ¬(makeMessage type body).length < 4 := by omega
  rw [if_neg hheader]
  dsimp only
  rw [(readHeader_makeMessage type hb).1, (readHeader_makeMessage type hb).2]
  unfold delivered
  by_cases hsize : maximumMessage < body.length
  · rw [if_pos hsize, if_pos hsize]
    exact fail_outcome s (makeMessage type body) s.receive rfl _
  · have hshort : ¬(makeMessage type body).length < 4 + body.length := by omega
    have htake : (makeMessage type body).take (4 + body.length) = makeMessage type body :=
      List.take_of_length_le hlength.le
    have hdrop : (makeMessage type body).drop (4 + body.length) = [] :=
      List.drop_of_length_le hlength.le
    have hbody : (makeMessage type body).drop 4 = body := rfl
    rw [if_neg hsize, if_neg hsize, if_neg hshort, htake, hdrop, hbody]
    have hnone : ((s.pending [] s.receive).handleMessage config type (makeMessage type body)
        body).handshake = [] := handleMessage_handshake _ _ _ _
    show outcome (ite _ _ _) = _
    set t := (s.pending [] s.receive).handleMessage config type (makeMessage type body) body
    have hloop : (if t.isFailed = true then t
        else if s.receiveEpoch ≠ t.receiveEpoch ∧ t.handshake ≠ [] then
          t.fail config alertUnexpectedMessage
        else t.messagesLoop config (makeMessage type body).length) = t := by
      split
      · rfl
      split
      · rename_i hspan
        exact absurd hnone hspan.2
      · cases (makeMessage type body).length with
        | zero => rfl
        | succ turns =>
          unfold Connection.messagesLoop
          rw [hnone]
          rfl
    exact congrArg outcome hloop

/-- The header of a record. -/
def recordHeader (type : UInt8) (version : UInt16) (size : ℕ) : Bytes :=
  type :: write16 version ++ toBytes 2 size

/-- A record that carries handshake content, in clear or protected, and how the next is
opened. -/
inductive Carries (config : Config Certificate) (receive : Record) : Bytes → Bytes → Record → Prop
  | clear {version : UInt16} {piece : Bytes} (clear : receive.isProtected = false)
      (nonempty : piece ≠ []) (limit : piece.length ≤ maximumPlaintext) :
      Carries config receive (recordHeader contentHandshake version piece.length ++ piece) piece
        receive
  | opened {version : UInt16} {fragment piece : Bytes} {next : Record}
      (isProtected : receive.isProtected = true) (size : fragment.length ≤ maximumCiphertext)
      (opened : receive.openFragment config.crypto
        (recordHeader contentApplicationData version fragment.length) fragment
          = (some (contentHandshake, piece), next))
      (nonempty : piece ≠ []) (limit : piece.length ≤ maximumPlaintext) :
      Carries config receive
        (recordHeader contentApplicationData version fragment.length ++ fragment) piece next

/-- Consecutive records, and the content they carry. -/
inductive CarriesAll (config : Config Certificate) : Record → Bytes → List Bytes → Prop
  | nil {receive : Record} : CarriesAll config receive [] []
  | cons {receive next : Record} {wire rest piece : Bytes} {pieces : List Bytes}
      (first : Carries config receive wire piece next)
      (tail : CarriesAll config next rest pieces) :
      CarriesAll config receive (wire ++ rest) (piece :: pieces)

theorem openFragment_next {crypto : Crypto Certificate} {receive next : Record}
    {header fragment : Bytes} {opened : Option (UInt8 × Bytes)}
    (h : receive.openFragment crypto header fragment = (opened, next)) :
    ({ next with sequence := 0 } : Record) = { receive with sequence := 0 } := by
  unfold Record.openFragment at h
  split at h
  · injection h with _ hnext
    rw [← hnext]
  · dsimp only at h
    split at h
    · injection h with _ hnext
      rw [← hnext]
    · injection h with _ hnext
      rw [← hnext]

theorem Carries.next {receive next : Record} {wire piece : Bytes}
    (h : Carries config receive wire piece next) :
    ({ next with sequence := 0 } : Record) = { receive with sequence := 0 } := by
  cases h with
  | clear => rfl
  | opened _ _ opened => exact openFragment_next opened

theorem Carries.nonempty {receive next : Record} {wire piece : Bytes}
    (h : Carries config receive wire piece next) : piece ≠ [] := by
  cases h with
  | clear _ nonempty => exact nonempty
  | opened _ _ _ nonempty => exact nonempty

/-- A record that is complete is handled. -/
theorem recordStep_record {s : Connection Certificate} (hopen : ¬(s.isFailed ∨ s.closed))
    (type : UInt8) (version : UInt16) {fragment : Bytes}
    (hsize : fragment.length ≤ maximumCiphertext) (rest : Bytes) :
    recordStep config s (recordHeader type version fragment.length ++ fragment ++ rest) =
      (if (s.handleRecord config type (recordHeader type version fragment.length)
        fragment).isFailed
      then .fail (s.handleRecord config type (recordHeader type version fragment.length) fragment)
      else .next (s.handleRecord config type (recordHeader type version fragment.length) fragment)
        (recordHeader type version fragment.length ++ fragment).length []) := by
  have hlength : (recordHeader type version fragment.length).length = recordHeaderSize := rfl
  have hmax : maximumCiphertext < 2 ^ 16 := by decide
  set header := recordHeader type version fragment.length with hheader
  have htake : (header ++ fragment ++ rest).take recordHeaderSize = header := by
    rw [List.append_assoc, ← hlength, List.take_left]
  have hnumber : ofBytes (toBytes 2 fragment.length) = fragment.length :=
    ofBytes_toBytes (hsize.trans_lt hmax)
  have hread : recordSize (header ++ fragment ++ rest) = fragment.length := by
    have hofnat : (UInt16.ofNat (ofBytes (toBytes 2 fragment.length))).toNat = fragment.length := by
      rw [hnumber, UInt16.toNat_ofNat']
      exact Nat.mod_eq_of_lt (hsize.trans_lt hmax)
    unfold recordSize
    rw [htake]
    exact hofnat
  have htype : (Reader.read8 { data := header }).1 = type := rfl
  have hfragment : ((header ++ fragment ++ rest).drop recordHeaderSize).take fragment.length
      = fragment := by
    rw [List.append_assoc, ← hlength, List.drop_left, List.take_left]
  have htotal : (header ++ fragment ++ rest).length
      = recordHeaderSize + fragment.length + rest.length := by
    rw [List.length_append, List.length_append, hlength]
  unfold recordStep
  rw [if_neg hopen, if_neg (by omega), hread, if_neg (Nat.not_lt.mpr hsize), if_neg (by omega),
    htake, hfragment, htype, List.length_append, hlength]

/-- A record of handshake content is content of the handshake. -/
theorem Carries.step {s : Connection Certificate} {next : Record} {wire piece : Bytes}
    (h : Carries config s.receive wire piece next) (hopen : ¬(s.isFailed ∨ s.closed))
    (rest : Bytes) :
    recordStep config s (wire ++ rest) =
      (if ((s.pending s.handshake next).handleHandshake config piece).isFailed
      then .fail ((s.pending s.handshake next).handleHandshake config piece)
      else .next ((s.pending s.handshake next).handleHandshake config piece) wire.length []) := by
  have hcontent (s : Connection Certificate) :
      s.handleContent config contentHandshake piece = s.handleHandshake config piece := by
    unfold Connection.handleContent
    rw [if_neg (by decide), if_pos rfl]
  cases h with
  | clear clear nonempty limit =>
    rename_i version
    have hrecord : s.handleRecord config contentHandshake
        (recordHeader contentHandshake version piece.length) piece
          = (s.pending s.handshake s.receive).handleHandshake config piece := by
      unfold Connection.handleRecord
      rw [if_neg (by decide), if_pos (by rw [clear]; exact Bool.false_ne_true),
        if_neg (Nat.not_lt.mpr limit), if_neg (by decide)]
      exact hcontent s
    have hsize : piece.length ≤ maximumCiphertext := limit.trans (by decide)
    rw [recordStep_record hopen contentHandshake version hsize rest, hrecord]
  | opened isProtected size opened nonempty limit =>
    rename_i version fragment
    have hrecord : s.handleRecord config contentApplicationData
        (recordHeader contentApplicationData version fragment.length) fragment
          = (s.pending s.handshake next).handleHandshake config piece := by
      unfold Connection.handleRecord
      rw [if_neg (by decide), if_neg (not_not.2 isProtected), if_neg (not_not.2 rfl), opened]
      dsimp only
      rw [if_neg (Nat.not_lt.mpr limit)]
      exact hcontent (s.pending s.handshake next)
    rw [recordStep_record hopen contentApplicationData version size rest, hrecord]

theorem Carries.wire_pos {receive next : Record} {wire piece : Bytes}
    (h : Carries config receive wire piece next) : 0 < wire.length := by
  cases h with
  | clear => exact Nat.zero_lt_succ _
  | opened => exact Nat.zero_lt_succ _

/-- A turn of the loop on a record of handshake content. -/
theorem Carries.loop {s : Connection Certificate} {next : Record} {wire piece : Bytes}
    (h : Carries config s.receive wire piece next) (hopen : ¬(s.isFailed ∨ s.closed))
    (rest : Bytes) (turns : ℕ) :
    Server.recordsLoop config (turns + 1) s (wire ++ rest) =
      if ((s.pending s.handshake next).handleHandshake config piece).isFailed
      then ((s.pending s.handshake next).handleHandshake config piece, none)
      else Server.recordsLoop config turns
        ((s.pending s.handshake next).handleHandshake config piece) rest := by
  rw [recordsLoop_succ, h.step hopen rest]
  by_cases hf : ((s.pending s.handshake next).handleHandshake config piece).isFailed = true
  · rw [if_pos hf, if_pos hf]
  · rw [if_neg hf, if_neg hf]
    dsimp only
    rw [List.drop_left]

/-- The loop delivers the message that consecutive records carry. -/
theorem CarriesAll.outcome {receive : Record} {wire : Bytes} {pieces : List Bytes}
    (h : CarriesAll config receive wire pieces) {s : Connection Certificate}
    (hr : receive = s.receive) (hopen : ¬(s.isFailed ∨ s.closed)) (hne : pieces ≠ [])
    {type : UInt8} {body : Bytes} (hb : body.length < 2 ^ 24)
    (hm : s.handshake ++ pieces.flatten = makeMessage type body) {turns : ℕ}
    (ht : wire.length < turns) :
    Tls.outcome (Server.recordsLoop config turns s wire).1
      = Tls.outcome (delivered config s type body) := by
  induction h generalizing s turns with
  | nil => exact absurd rfl hne
  | @cons receive next wire rest piece pieces first tail ih =>
    subst hr
    obtain ⟨turns, rfl⟩ := Nat.exists_eq_add_one_of_ne_zero (Nat.ne_zero_of_lt ht)
    have hpos := first.wire_pos
    rw [List.length_append] at ht
    have hdelivered := @delivered_outcome _ config s s.handshake next first.next type body
    rw [first.loop hopen rest]
    set opened := s.pending s.handshake next with hopened
    cases pieces with
    | nil =>
      cases tail
      rw [List.flatten_cons, List.flatten_nil, List.append_nil] at hm
      have hwhole := @handshake_whole _ config opened type body piece hb first.nonempty hm
      have hloop : (if (opened.handleHandshake config piece).isFailed = true
          then (opened.handleHandshake config piece, none)
          else Server.recordsLoop config turns (opened.handleHandshake config piece) []).1
            = opened.handleHandshake config piece := by
        split
        · rfl
        · cases turns with
          | zero => rfl
          | succ turns =>
            unfold Server.recordsLoop
            rw [if_pos (.inr (.inr (by decide)))]
      rw [hloop]
      exact hwhole.trans hdelivered
    | cons piece' pieces =>
      have hrest : (piece' :: pieces).flatten ≠ [] := by
        cases tail with
        | cons first' _ =>
          rw [List.flatten_cons]
          exact List.append_ne_nil_of_left_ne_nil first'.nonempty _
      rw [List.flatten_cons] at hm
      rcases @handshake_part _ config opened type body piece _ hb first.nonempty hrest hm with
        hpart | ⟨hsize, hpart⟩
      · -- the piece is kept for the records behind it
        have hgoing : ¬(opened.handleHandshake config piece).isFailed = true := by
          rw [hpart]
          exact fun hf => hopen (.inl hf)
        rw [if_neg hgoing, hpart]
        refine (ih (s := opened.pending (opened.handshake ++ piece) opened.receive) rfl hopen
          (List.cons_ne_nil _ _) ?_ (by omega)).trans ?_
        · rw [← hm]
          exact List.append_assoc _ _ _
        · have hkept := @delivered_outcome _ config opened (opened.handshake ++ piece)
            opened.receive rfl type body
          exact hkept.trans hdelivered
      · have hfailed : (opened.handleHandshake config piece).isFailed = true := by
          rw [hpart]
          exact fail_isFailed _ _
        rw [if_pos hfailed, hpart]
        have hlarge : delivered config opened type body
            = opened.fail config alertDecodeError := if_pos hsize
        rw [← hdelivered, hlarge]
        exact fail_outcome opened _ _ rfl _

/-- What a server receives does not depend on how the transport cuts it, and a handshake message
not on how it is cut over the records of an epoch. -/
theorem receive_segments (config : Config Certificate) (server : Server Certificate) :
    (∀ a b, let parts := ((server.receive config a).1.receive config b).1
      let whole := (server.receive config (a ++ b)).1
      parts.connection = whole.connection ∧
        (whole.connection.isFailed = false → whole.connection.closed = false → parts = whole)) ∧
    ∀ type body wire wire' pieces pieces', body.length < 2 ^ 24 → server.input = [] →
      CarriesAll config server.connection.receive wire pieces →
      CarriesAll config server.connection.receive wire' pieces' → pieces ≠ [] → pieces' ≠ [] →
      server.connection.handshake ++ pieces.flatten = makeMessage type body →
      pieces'.flatten = pieces.flatten →
      outcome (server.receive config wire).1.connection
        = outcome (server.receive config wire').1.connection := by
  refine ⟨receive_append config server, ?_⟩
  intro type body wire wire' pieces pieces' hb hinput hwire hwire' hne hne' hm heq
  by_cases hfinal : server.connection.isFailed = true ∨ server.connection.closed = true
  · rw [receive_final wire hfinal, receive_final wire' hfinal]
  have hreceive (wire : Bytes) : (server.receive config wire).1.connection
      = (Server.recordsLoop config (wire.length + 1) server.connection wire).1 := by
    unfold Server.receive
    dsimp only
    rw [if_neg hfinal, hinput, List.nil_append]
    split
    · rename_i hloop
      rw [hloop]
    · rename_i hloop
      rw [hloop]
  rw [hreceive, hreceive, hwire.outcome rfl hfinal hne hb hm (Nat.lt_succ_self _),
    hwire'.outcome rfl hfinal hne' hb (heq ▸ hm) (Nat.lt_succ_self _)]

/-- A ClientHello in a record and in two. -/
theorem receive_segments_hello :
    let hello := makeMessage typeClientHello (plainHello [])
    let whole := clearRecord hello
    let cut := clearRecord (hello.take 3) ++ clearRecord (hello.drop 3)
    let server : Server Bytes := {}
    (server.receive plainConfig whole).1.connection.state = .retryHello ∧
      outcome (server.receive plainConfig whole).1.connection
        = outcome (server.receive plainConfig cut).1.connection := by
  intro hello whole cut server
  have hrecord (piece : Bytes) (hn : piece ≠ []) (hl : piece.length ≤ maximumPlaintext) :
      Carries plainConfig {} (clearRecord piece) piece {} :=
    @Carries.clear _ plainConfig {} legacyVersion piece rfl hn hl
  have hwhole : CarriesAll plainConfig {} whole [hello] := by
    have hone := CarriesAll.cons (hrecord hello (by decide) (by decide)) .nil
    rwa [List.append_nil] at hone
  have hcut : CarriesAll plainConfig {} cut [hello.take 3, hello.drop 3] := by
    have hlast := CarriesAll.cons
      (hrecord (hello.drop 3) (by decide) (by decide)) .nil
    rw [List.append_nil] at hlast
    exact .cons (hrecord (hello.take 3) (by decide) (by decide)) hlast
  refine ⟨by decide +kernel, ?_⟩
  exact (receive_segments plainConfig server).2 typeClientHello (plainHello []) whole cut [hello]
    [hello.take 3, hello.drop 3] (by decide) rfl hwhole hcut (List.cons_ne_nil _ _)
    (List.cons_ne_nil _ _) (by decide) (by decide)

end BitcoinNetwork.Tls
