import BitcoinNetwork.Tls.Segmentation

/-!
# The output of a server (tls/server.cpp)

A server only adds to its output, and reads nothing of it: one whose output is taken
produces what one that keeps it produces.
-/

namespace BitcoinNetwork.Tls
open Binary

variable {Certificate : Type} {config : Config Certificate}

namespace Connection

/-- The connection with its output behind other bytes. -/
def behind (s : Connection Certificate) (bytes : Bytes) : Connection Certificate :=
  { s with output := bytes ++ s.output }

variable (s : Connection Certificate) (bytes : Bytes)

/-! ### Sending -/

theorem sealRecord_behind (type : UInt8) (content : Bytes) :
    (s.behind bytes).sealRecord config type content
      = (s.sealRecord config type content).behind bytes := by
  unfold sealRecord behind
  simp only [List.append_assoc]

theorem fail_behind (alert : UInt8) :
    (s.behind bytes).fail config alert = (s.fail config alert).behind bytes := by
  have hstate : (s.behind bytes).isFailed = s.isFailed := rfl
  unfold fail
  rw [hstate]
  split
  · rfl
  · exact sealRecord_behind { s with state := .failed, failure := alert } bytes _ _

theorem sendContent_behind (type : UInt8) (data : Bytes) :
    (s.behind bytes).sendContent config type data
      = (s.sendContent config type data).behind bytes := by
  unfold sendContent
  generalize fragments data.length data = parts
  induction parts generalizing s with
  | nil => rfl
  | cons part parts ih =>
    rw [List.foldl_cons, List.foldl_cons, sealRecord_behind]
    exact ih (s.sealRecord config type part)

theorem sendCompatibility_behind (session : Bytes) :
    (s.behind bytes).sendCompatibility config session
      = (s.sendCompatibility config session).behind bytes := by
  have hsent : (s.behind bytes).compatibilitySent = s.compatibilitySent := rfl
  unfold sendCompatibility
  rw [hsent, sealRecord_behind]
  split
  · rfl
  · rfl

theorem sendHello_behind (random session keyShare : Bytes) :
    (s.behind bytes).sendHello config random session keyShare
      = (s.sendHello config random session keyShare).behind bytes := by
  have hadded (message : Bytes) : (s.behind bytes).addTranscript message
      = (s.addTranscript message).behind bytes := rfl
  have hsuite : (s.behind bytes).suite = s.suite := rfl
  unfold sendHello
  dsimp only
  rw [hsuite, hadded, sealRecord_behind, sendCompatibility_behind]

theorem sendRetry_behind (hello session : Bytes) :
    (s.behind bytes).sendRetry config hello session
      = (s.sendRetry config hello session).behind bytes := by
  have hsent := @sendHello_behind _ config (({ s with transcript := .reset s.suite }
    : Connection Certificate).addTranscript (hashMessage config.crypto s.suite hello)) bytes
      retryRandom session (write16 s.group)
  exact congrArg (fun t : Connection Certificate => { t with state := .retryHello }) hsent

theorem sendFlight_behind :
    (s.behind bytes).sendFlight config = (s.sendFlight config).behind bytes := by
  have hmessages : (s.behind bytes).flightMessages config
      = ((s.flightMessages config).1.behind bytes, (s.flightMessages config).2) := by
    have hadded (s : Connection Certificate) (message : Bytes) :
        (s.behind bytes).addTranscript message = (s.addTranscript message).behind bytes := rfl
    have hhash (s : Connection Certificate) :
        (s.behind bytes).transcriptHash config = s.transcriptHash config := rfl
    have hsuite (s : Connection Certificate) : (s.behind bytes).suite = s.suite := rfl
    have hserver (s : Connection Certificate) :
        (s.behind bytes).serverHandshake = s.serverHandshake := rfl
    unfold flightMessages
    cases config.context.request with
    | true => simp only [append, ↓reduceIte, hadded, hhash, hsuite, hserver]
    | false => simp only [append, Bool.false_eq_true, ↓reduceIte, hadded, hhash, hsuite, hserver]
  unfold sendFlight
  rw [hmessages]
  simp only [sendContent_behind]
  rfl

theorem sendUpdate_behind :
    (s.behind bytes).sendUpdate config = (s.sendUpdate config).behind bytes := by
  unfold sendUpdate
  rw [sendContent_behind]
  rfl

/-! ### Messages -/

theorem acceptHello_behind (message session shared own : Bytes) :
    (s.behind bytes).acceptHello config message session shared own
      = (s.acceptHello config message session shared own).behind bytes := by
  have hadded : (s.behind bytes).addTranscript message
      = (s.addTranscript message).behind bytes := rfl
  have hgroup (s : Connection Certificate) : (s.behind bytes).group = s.group := rfl
  unfold acceptHello
  dsimp only
  rw [hadded, hgroup, sendHello_behind]
  generalize (s.addTranscript message).sendHello config config.random session
    (write16 (s.addTranscript message).group ++ writeVector16 own) = greeted
  set keyed := ({ greeted with
    handshakeSecret := Tls.handshakeSecret config.crypto greeted.suite
      (earlySecret config.crypto greeted.suite) shared
    clientHandshake := expandLabel config.crypto greeted.suite (Tls.handshakeSecret config.crypto
      greeted.suite (earlySecret config.crypto greeted.suite) shared) "c hs traffic"
        (greeted.transcriptHash config)
    serverHandshake := expandLabel config.crypto greeted.suite (Tls.handshakeSecret config.crypto
      greeted.suite (earlySecret config.crypto greeted.suite) shared) "s hs traffic"
        (greeted.transcriptHash config) } : Connection Certificate)
  have hflight := @sendFlight_behind _ config
    ((keyed.setSend config keyed.serverHandshake).setReceive config keyed.clientHandshake) bytes
  exact congrArg (fun t : Connection Certificate => { t with
    state := if config.context.request then .clientCertificate else .clientFinished }) hflight

theorem answerHello_behind (retried : Bool) (message : Bytes) (offer : Offer) (retry : UInt16) :
    answerHello config (s.behind bytes) retried message offer retry
      = (answerHello config s retried message offer retry).behind bytes := by
  have hgroup : (s.behind bytes).group = s.group := rfl
  unfold answerHello
  cases offer.group with
  | none =>
    dsimp only
    split
    · exact fail_behind s bytes _
    · exact sendRetry_behind { s with group := retry } bytes _ _
  | some group =>
    dsimp only
    rw [hgroup]
    split
    · exact fail_behind s bytes _
    cases exchange config group (offer.shareOf group) with
    | none => exact fail_behind { s with group := group } bytes _
    | some keys => exact acceptHello_behind { s with group := group } bytes _ _ _ _

theorem handleClientHello_behind (message body : Bytes) :
    (s.behind bytes).handleClientHello config message body
      = (s.handleClientHello config message body).behind bytes := by
  have hstate : (s.behind bytes).state = s.state := rfl
  have hsuite : (s.behind bytes).suite = s.suite := rfl
  have hsuited (suite : UInt16) : suitedHello (s.behind bytes) suite
      = (suitedHello s suite).behind bytes := by
    unfold suitedHello
    rw [hstate]
    split
    · rfl
    · rfl
  rw [handleClientHello_eq, handleClientHello_eq, hstate, hsuite]
  cases readOffer config.context.curve
    (if (s.state == .retryHello) = true then some s.suite else none) body with
  | error alert => exact fail_behind s bytes alert
  | ok result =>
    dsimp only
    rw [hsuited, answerHello_behind]

theorem handleCertificate_behind (message body : Bytes) :
    (s.behind bytes).handleCertificate config message body
      = (s.handleCertificate config message body).behind bytes := by
  unfold handleCertificate
  cases readCertificate config body with
  | error alert => exact fail_behind s bytes alert
  | ok chain =>
    cases chain with
    | nil =>
      dsimp only
      split
      · exact fail_behind (s.addTranscript message) bytes _
      · rfl
    | cons leaf chain =>
      dsimp only
      cases config.crypto.verifyChain (leaf :: chain) config.context.anchors
        config.context.time with
      | some ec => exact fail_behind (s.addTranscript message) bytes _
      | none => rfl

theorem handleCertificateVerify_behind (message body : Bytes) :
    (s.behind bytes).handleCertificateVerify config message body
      = (s.handleCertificateVerify config message body).behind bytes := by
  have hpeer : (s.behind bytes).peer = s.peer := rfl
  have hhash : (s.behind bytes).transcriptHash config = s.transcriptHash config := rfl
  unfold handleCertificateVerify
  dsimp only
  rw [hpeer, hhash]
  split
  · exact fail_behind s bytes _
  cases s.peer with
  | nil => rfl
  | cons leaf chain =>
    dsimp only
    cases verifySignature config leaf (Reader.read16 { data := body }).1
      (Reader.read16 { data := body }).2.readVector16.1 (s.transcriptHash config) with
    | none => exact fail_behind s bytes _
    | some valid =>
      cases valid with
      | false => exact fail_behind s bytes _
      | true => rfl

theorem handleFinished_behind (message body : Bytes) :
    (s.behind bytes).handleFinished config message body
      = (s.handleFinished config message body).behind bytes := by
  have hsuite : (s.behind bytes).suite = s.suite := rfl
  have hclient : (s.behind bytes).clientHandshake = s.clientHandshake := rfl
  have hhash : (s.behind bytes).transcriptHash config = s.transcriptHash config := rfl
  unfold handleFinished
  dsimp only
  rw [hsuite, hclient, hhash]
  split
  · exact fail_behind s bytes _
  · rfl

theorem handleKeyUpdate_behind (body : Bytes) :
    (s.behind bytes).handleKeyUpdate config body
      = (s.handleKeyUpdate config body).behind bytes := by
  unfold handleKeyUpdate
  split
  · rename_i request
    split
    · exact fail_behind s bytes _
    · set updated := ({ s with clientTraffic := update config.crypto s.suite s.clientTraffic }
        : Connection Certificate).setReceive config (update config.crypto s.suite s.clientTraffic)
        with hupdated
      by_cases hreply : request = 1 ∧ ¬s.closeSent = true
      · refine (if_pos hreply).trans ((sendUpdate_behind updated bytes).trans ?_)
        exact congrArg (behind · bytes) (if_pos hreply).symm
      · have hkept : updated = if request = 1 ∧ ¬s.closeSent = true then updated.sendUpdate config
            else updated := (if_neg hreply).symm
        exact (if_neg hreply).trans (congrArg (behind · bytes) hkept)
  · exact fail_behind s bytes _

theorem handleMessage_behind (type : UInt8) (message body : Bytes) :
    (s.behind bytes).handleMessage config type message body
      = (s.handleMessage config type message body).behind bytes := by
  have hstate : (s.behind bytes).state = s.state := rfl
  unfold handleMessage
  rw [hstate]
  cases s.state with
  | clientHello | retryHello =>
    simp only
    split
    · exact handleClientHello_behind s bytes _ _
    · exact fail_behind s bytes _
  | clientCertificate =>
    simp only
    split
    · exact handleCertificate_behind s bytes _ _
    · exact fail_behind s bytes _
  | clientCertificateVerify =>
    simp only
    split
    · exact handleCertificateVerify_behind s bytes _ _
    · exact fail_behind s bytes _
  | clientFinished =>
    simp only
    split
    · exact handleFinished_behind s bytes _ _
    · exact fail_behind s bytes _
  | established =>
    simp only
    split
    · exact handleKeyUpdate_behind s bytes _
    · exact fail_behind s bytes _
  | failed => exact fail_behind s bytes _

/-! ### Records -/

theorem messagesLoop_behind (turns : ℕ) :
    (s.behind bytes).messagesLoop config turns
      = (s.messagesLoop config turns).behind bytes := by
  induction turns generalizing s with
  | zero => rfl
  | succ turns ih =>
    have hhandshake : (s.behind bytes).handshake = s.handshake := rfl
    have hepoch : (s.behind bytes).receiveEpoch = s.receiveEpoch := rfl
    -- what follows a message that is handled
    have hnext (epoch : ℕ) (t : Connection Certificate) :
        (if (t.behind bytes).isFailed then t.behind bytes
          else if epoch ≠ (t.behind bytes).receiveEpoch ∧ (t.behind bytes).handshake ≠ []
            then (t.behind bytes).fail config alertUnexpectedMessage
          else (t.behind bytes).messagesLoop config turns)
        = (if t.isFailed then t
          else if epoch ≠ t.receiveEpoch ∧ t.handshake ≠ []
            then t.fail config alertUnexpectedMessage
          else t.messagesLoop config turns).behind bytes := by
      have hfailed : (t.behind bytes).isFailed = t.isFailed := rfl
      have hchanged : (t.behind bytes).receiveEpoch = t.receiveEpoch := rfl
      have hleft : (t.behind bytes).handshake = t.handshake := rfl
      rw [hfailed, hchanged, hleft, fail_behind, ih]
      split
      · rfl
      split
      · rfl
      · rfl
    unfold messagesLoop
    dsimp only
    rw [hhandshake, hepoch]
    split
    · rfl
    split
    · exact fail_behind s bytes _
    split
    · rfl
    set size := 4 + (Reader.read8 { data := s.handshake.take 4 }).2.read24.1
    set type := (Reader.read8 { data := s.handshake.take 4 }).1
    have hhandled := @handleMessage_behind _ config { s with handshake := s.handshake.drop size }
      bytes type (s.handshake.take size) ((s.handshake.take size).drop 4)
    have hafter := hnext s.receiveEpoch (({ s with handshake := s.handshake.drop size }
      : Connection Certificate).handleMessage config type (s.handshake.take size)
        ((s.handshake.take size).drop 4))
    rw [← hhandled] at hafter
    exact hafter

theorem handleHandshake_behind (content : Bytes) :
    (s.behind bytes).handleHandshake config content
      = (s.handleHandshake config content).behind bytes := by
  unfold handleHandshake
  split
  · exact fail_behind s bytes _
  · exact messagesLoop_behind { s with handshake := s.handshake ++ content } bytes _

theorem handleAlert_behind (content : Bytes) :
    (s.behind bytes).handleAlert config content
      = (s.handleAlert config content).behind bytes := by
  unfold handleAlert
  split
  · split
    · rfl
    split
    · rfl
    · rfl
  · exact fail_behind s bytes _

theorem handleContent_behind (type : UInt8) (content : Bytes) :
    (s.behind bytes).handleContent config type content
      = (s.handleContent config type content).behind bytes := by
  have hestablished : (s.behind bytes).isEstablished = s.isEstablished := rfl
  unfold handleContent
  rw [hestablished]
  split
  · exact handleAlert_behind s bytes content
  split
  · exact handleHandshake_behind s bytes content
  split
  · split
    · exact fail_behind s bytes _
    · rfl
  · exact fail_behind s bytes _

theorem handleRecord_behind (type : UInt8) (header fragment : Bytes) :
    (s.behind bytes).handleRecord config type header fragment
      = (s.handleRecord config type header fragment).behind bytes := by
  have hstate : (s.behind bytes).state = s.state := rfl
  have hreceive : (s.behind bytes).receive = s.receive := rfl
  unfold handleRecord
  dsimp only
  rw [hstate, hreceive]
  split
  · split
    · exact fail_behind s bytes _
    · rfl
  split
  · split
    · exact fail_behind s bytes _
    split
    · exact fail_behind s bytes _
    · exact handleContent_behind s bytes type fragment
  split
  · exact fail_behind s bytes _
  set opened := s.receive.openFragment config.crypto header fragment
  cases opened.1 with
  | none => exact fail_behind { s with receive := opened.2 } bytes _
  | some inner =>
    dsimp only
    split
    · exact fail_behind { s with receive := opened.2 } bytes _
    · exact handleContent_behind { s with receive := opened.2 } bytes _ _

/-! ### Calls -/

theorem write_behind (data : Bytes) :
    (s.behind bytes).write config data
      = ((s.write config data).1.behind bytes, (s.write config data).2) := by
  have hestablished : (s.behind bytes).isEstablished = s.isEstablished := rfl
  have hsent : (s.behind bytes).closeSent = s.closeSent := rfl
  have hsequence : (s.behind bytes).send = s.send := rfl
  unfold write
  rw [hestablished, hsent, hsequence]
  split
  · rfl
  dsimp only
  split
  · rw [sendUpdate_behind, sendContent_behind]
  · rw [sendContent_behind]

theorem close_behind :
    (s.behind bytes).close config = (s.close config).behind bytes := by
  have hsent : (s.behind bytes).closeSent = s.closeSent := rfl
  have hfailed : (s.behind bytes).isFailed = s.isFailed := rfl
  unfold close
  rw [hsent, hfailed, sealRecord_behind]
  split
  · rfl
  · rfl

end Connection

namespace Server

/-- The server with its output behind other bytes. -/
def behind (server : Server Certificate) (bytes : Bytes) : Server Certificate :=
  { server with connection := server.connection.behind bytes }

variable (server : Server Certificate) (bytes : Bytes)

theorem recordsLoop_behind (s : Connection Certificate) (turns : ℕ) (available : Bytes) :
    recordsLoop config turns (s.behind bytes) available
      = ((recordsLoop config turns s available).1.behind bytes,
          (recordsLoop config turns s available).2) := by
  induction turns generalizing s available with
  | zero => rfl
  | succ turns ih =>
    have hfailed (s : Connection Certificate) : (s.behind bytes).isFailed = s.isFailed := rfl
    have hclosed : (s.behind bytes).closed = s.closed := rfl
    unfold recordsLoop
    dsimp only
    rw [hfailed, hclosed]
    split
    · rfl
    split
    · rw [Connection.fail_behind]
    split
    · rfl
    rw [Connection.handleRecord_behind, hfailed]
    split
    · rfl
    · exact ih _ _

theorem receive_behind (data : Bytes) :
    (server.behind bytes).receive config data
      = ((server.receive config data).1.behind bytes, (server.receive config data).2) := by
  have hfailed (s : Connection Certificate) : (s.behind bytes).isFailed = s.isFailed := rfl
  have hclosed (s : Connection Certificate) : (s.behind bytes).closed = s.closed := rfl
  unfold receive behind
  dsimp only
  rw [hfailed, hclosed, recordsLoop_behind]
  split
  · rfl
  cases recordsLoop config ((server.input ++ data).length + 1) server.connection
    (server.input ++ data) with
  | mk s rest =>
    cases rest with
    | none => rfl
    | some rest => rfl

/-- A call of a server sees nothing of its output, but for that which takes bytes of it. -/
theorem call_behind (c : Call) (h : ∀ size, c ≠ .consume size) :
    (server.behind bytes).call config c = (server.call config c).behind bytes := by
  cases c with
  | receive data => exact congrArg Prod.fst (receive_behind server bytes data)
  | write data =>
    exact congrArg (fun result => { server with connection := Prod.fst result })
      (Connection.write_behind server.connection bytes data)
  | read size => rfl
  | close =>
    exact congrArg (fun s => { server with connection := s })
      (Connection.close_behind server.connection bytes)
  | consume size => exact absurd rfl (h size)

end Server

end BitcoinNetwork.Tls
