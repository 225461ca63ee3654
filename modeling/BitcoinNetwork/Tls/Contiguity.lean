import BitcoinNetwork.Tls.Segmentation

/-!
# The records between parts of a handshake message (tls/server.cpp)

Beside the bytes of `handshake_` stands the epoch of the receive keys each of them came
under, which goes with them into the messages that are completed.
-/

namespace BitcoinNetwork.Tls
open Binary

section Contiguity
variable {Certificate : Type} (config : Config Certificate)

/-! ### Records -/

/-- What `handle_record` passes to `handle_content`, and the record state behind it. -/
def carried (s : Connection Certificate) (type : UInt8) (header fragment : Bytes) :
    Option (Record × UInt8 × Bytes) :=
  if type = contentChangeCipherSpec then none
  else if ¬s.receive.isProtected then
    if maximumPlaintext < fragment.length ∨ type = contentApplicationData then none
    else some (s.receive, type, fragment)
  else if type ≠ contentApplicationData then none
  else
    let opened := s.receive.openFragment config.crypto header fragment
    match opened.1 with
    | none => none
    | some (inner, content) =>
      if maximumPlaintext < content.length then none else some (opened.2, inner, content)

/-- A change_cipher_spec between the first ClientHello and the Finished. -/
def Compatible (s : Connection Certificate) (type : UInt8) (fragment : Bytes) : Prop :=
  type = contentChangeCipherSpec ∧ s.state ≠ .clientHello ∧ s.state ≠ .established ∧
    fragment = [0x01]

/-- The connection fails with an alert, and nothing else comes of the record. -/
def Refuses (s s' : Connection Certificate) : Prop :=
  ∃ receive alert, s' = ({ s with receive := receive } : Connection Certificate).fail config alert

/-- Behind a part of a handshake message there is more of it, or the record is dropped as it
may be, or the connection is terminated. -/
def Contiguous (s : Connection Certificate) (type : UInt8) (header fragment : Bytes) : Prop :=
  s.handshake ≠ [] →
    (∃ receive content, carried config s type header fragment =
      some (receive, contentHandshake, content)) ∨
    (Compatible s type fragment ∧ s.handleRecord config type header fragment = s) ∨
    Refuses config s (s.handleRecord config type header fragment)

/-- Behind a part of a handshake message there is an alert, or data that may be read. -/
def Interleaves (s : Connection Certificate) (type : UInt8) (header fragment : Bytes) : Prop :=
  s.handshake ≠ [] ∧ ∃ receive inner content,
    carried config s type header fragment = some (receive, inner, content) ∧
      ((inner = contentAlert ∧ content.length = 2) ∨
        (inner = contentApplicationData ∧ s.isEstablished = true))

/-! ### Traces -/

/-- A connection with the epochs of the bytes in `handshake`, and those of the bytes of the
messages that were completed. -/
structure Traced (Certificate : Type) where
  connection : Connection Certificate := {}
  origins : List ℕ := []
  completed : List (List ℕ) := []

namespace Traced

/-- The loop over the messages that are complete. -/
def messagesLoop : ℕ → Traced Certificate → Traced Certificate
  | 0, t => t
  | turns + 1, t =>
    let s := t.connection
    if s.handshake.length < 4 then t
    else
      let header : Reader := { data := s.handshake.take 4 }
      let type := header.read8
      let size := type.2.read24.1
      if maximumMessage < size then { t with connection := s.fail config alertDecodeError }
      else if s.handshake.length < 4 + size then t
      else
        let message := s.handshake.take (4 + size)
        let epoch := s.receiveEpoch
        let s := { s with handshake := s.handshake.drop (4 + size) }
        let s := s.handleMessage config type.1 message (message.drop 4)
        let next : Traced Certificate :=
          { connection := s
            origins := t.origins.drop (4 + size)
            completed := t.completed ++ [t.origins.take (4 + size)] }
        if s.isFailed then next
        else if epoch ≠ s.receiveEpoch ∧ s.handshake ≠ [] then
          { next with connection := s.fail config alertUnexpectedMessage }
        else messagesLoop turns next

/-- The content is of the epoch it arrives in. -/
def handleHandshake (t : Traced Certificate) (content : Bytes) : Traced Certificate :=
  let s := t.connection
  if content = [] then { t with connection := s.fail config alertUnexpectedMessage }
  else
    let s := { s with handshake := s.handshake ++ content }
    { t with
      connection := s
      origins := t.origins ++ List.replicate content.length s.receiveEpoch }.messagesLoop config
        (s.handshake.length + 1)

def handleRecord (t : Traced Certificate) (type : UInt8) (header fragment : Bytes) :
    Traced Certificate :=
  let s := t.connection
  match carried config s type header fragment with
  | some (receive, inner, content) =>
    let s := { s with receive := receive }
    if inner = contentHandshake then { t with connection := s }.handleHandshake config content
    else { t with connection := s.handleContent config inner content }
  | none => { t with connection := s.handleRecord config type header fragment }

end Traced

/-- What comes to a connection: records and the calls of the owner. A record of too many
bytes fails ahead of its fragment. -/
inductive Event where
  | record (type : UInt8) (header fragment : Bytes)
  | overflow
  | write (data : Bytes)
  | read (size : ℕ)
  | close
  | consume (size : ℕ)

/-- No record is looked at once the connection is failed or closed. -/
def Traced.take (t : Traced Certificate) : Event → Traced Certificate
  | .record type header fragment =>
    if t.connection.isFailed ∨ t.connection.closed then t
    else t.handleRecord config type header fragment
  | .overflow =>
    if t.connection.isFailed ∨ t.connection.closed then t
    else { t with connection := t.connection.fail config alertRecordOverflow }
  | .write data => { t with connection := (t.connection.write config data).1 }
  | .read size => { t with connection := (t.connection.read size).2 }
  | .close => { t with connection := t.connection.close config }
  | .consume size => { t with connection := t.connection.consume size }

def traced (events : List Event) : Traced Certificate := events.foldl (Traced.take config) {}

end Contiguity

variable {Certificate : Type} {config : Config Certificate}

/-! ### What becomes of a record -/

theorem handleRecord_carried {s : Connection Certificate} {type : UInt8} {header fragment : Bytes}
    {receive : Record} {inner : UInt8} {content : Bytes}
    (h : carried config s type header fragment = some (receive, inner, content)) :
    s.handleRecord config type header fragment =
      ({ s with receive := receive } : Connection Certificate).handleContent config inner content := by
  unfold carried at h
  unfold Connection.handleRecord
  split at h
  · cases h
  next hspec =>
  rw [if_neg hspec]
  split at h
  · next hclear =>
    rw [if_pos hclear]
    split at h
    · cases h
    · next hfits =>
      cases h
      rw [not_or] at hfits
      rw [if_neg hfits.1, if_neg hfits.2]
  · next hprotected =>
    rw [if_neg hprotected]
    split at h
    · cases h
    · next hdata =>
      rw [if_neg hdata]
      dsimp only at h ⊢
      cases hopened : (s.receive.openFragment config.crypto header fragment).1 with
      | none =>
        rw [hopened] at h
        cases h
      | some contents =>
        rw [hopened] at h
        dsimp only at h ⊢
        split at h
        · cases h
        · next hfits =>
          cases h
          exact if_neg hfits

theorem refuses_fail (s : Connection Certificate) (alert : UInt8) :
    Refuses config s (s.fail config alert) := ⟨s.receive, alert, rfl⟩

theorem handleRecord_none {s : Connection Certificate} {type : UInt8} {header fragment : Bytes}
    (h : carried config s type header fragment = none) :
    (Compatible s type fragment ∧ s.handleRecord config type header fragment = s) ∨
      Refuses config s (s.handleRecord config type header fragment) := by
  unfold carried at h
  unfold Connection.handleRecord
  split at h
  · next hspec =>
    rw [if_pos hspec]
    dsimp only
    split
    · exact .inr (refuses_fail s _)
    · next hpermitted =>
      rw [not_or, not_not, not_not] at hpermitted
      exact .inl ⟨⟨hspec, hpermitted.1.1, hpermitted.1.2, hpermitted.2⟩, rfl⟩
  next hspec =>
  rw [if_neg hspec]
  right
  split at h
  · next hclear =>
    rw [if_pos hclear]
    split at h
    · split
      · exact refuses_fail s _
      · next hfits hsize =>
        rw [if_pos (hfits.resolve_left hsize)]
        exact refuses_fail s _
    · cases h
  · next hprotected =>
    rw [if_neg hprotected]
    split at h
    · next hdata =>
      rw [if_pos hdata]
      exact refuses_fail s _
    · next hdata =>
      rw [if_neg hdata]
      dsimp only at h ⊢
      cases hopened : (s.receive.openFragment config.crypto header fragment).1 with
      | none => exact ⟨_, _, rfl⟩
      | some contents =>
        rw [hopened] at h
        dsimp only at h ⊢
        split at h
        · next hsize =>
          rw [if_pos hsize]
          exact ⟨_, _, rfl⟩
        · cases h

theorem fail_handshake (s : Connection Certificate) (alert : UInt8) :
    (s.fail config alert).handshake = s.handshake := by
  unfold Connection.fail
  split_ifs
  · rfl
  · rfl

theorem fail_log {s : Connection Certificate} (h : s.isFailed = false) (alert : UInt8) :
    (s.fail config alert).log ≠ s.log := by
  unfold Connection.fail
  rw [if_neg (by rw [h]; exact Bool.false_ne_true)]
  intro hlog
  have hlength : (s.log ++ [_]).length = s.log.length := congrArg List.length hlog
  rw [List.length_append, List.length_singleton] at hlength
  omega

/-- What fails with an alert sends it. -/
theorem Refuses.log_ne {s s' : Connection Certificate} (h : Refuses config s s')
    (hopen : s.isFailed = false) : s'.log ≠ s.log := by
  obtain ⟨receive, alert, rfl⟩ := h
  exact @fail_log _ config { s with receive := receive } hopen alert

/-- An alert is not answered, and data are kept. -/
theorem handleContent_log {s : Connection Certificate} {inner : UInt8} {content : Bytes}
    (h : (inner = contentAlert ∧ content.length = 2) ∨
      (inner = contentApplicationData ∧ s.isEstablished = true)) :
    (s.handleContent config inner content).log = s.log := by
  unfold Connection.handleContent
  rcases h with ⟨rfl, hlength⟩ | ⟨rfl, hestablished⟩
  · rw [if_pos rfl]
    obtain ⟨level, description, rfl⟩ := List.length_eq_two.mp hlength
    unfold Connection.handleAlert
    dsimp only
    split_ifs
    · rfl
    · rfl
    · rfl
  · rw [if_neg (by decide), if_neg (by decide), if_pos rfl, if_neg (not_not.mpr hestablished)]

/-- Content that is none of these is not kept. -/
theorem handleContent_refuses {s : Connection Certificate} {inner : UInt8} {content : Bytes}
    (hhandshake : inner ≠ contentHandshake)
    (h : ¬((inner = contentAlert ∧ content.length = 2) ∨
      (inner = contentApplicationData ∧ s.isEstablished = true))) :
    ∃ alert, s.handleContent config inner content = s.fail config alert := by
  rw [not_or] at h
  unfold Connection.handleContent
  split_ifs with halert hdata hestablished
  · unfold Connection.handleAlert
    split
    · exact absurd ⟨halert, rfl⟩ h.1
    · exact ⟨_, rfl⟩
  · exact absurd ⟨hdata, hestablished⟩ h.2
  · exact ⟨_, rfl⟩
  · exact ⟨_, rfl⟩

/-- The records that are refused are those that neither are an alert nor may be read. -/
theorem contiguous_iff {s : Connection Certificate} (hopen : s.isFailed = false) (type : UInt8)
    (header fragment : Bytes) :
    Contiguous config s type header fragment ↔ ¬Interleaves config s type header fragment := by
  constructor
  · rintro hcontiguous ⟨hpart, receive, inner, content, hcarried, hinner⟩
    rcases hcontiguous hpart with ⟨_, _, hhandshake⟩ | ⟨⟨hspec, -⟩, -⟩ | hrefuses
    · cases hcarried.symm.trans hhandshake
      rcases hinner with ⟨htype, -⟩ | ⟨htype, -⟩
      · exact absurd htype (by decide)
      · exact absurd htype (by decide)
    · rw [carried, if_pos hspec] at hcarried
      cases hcarried
    · refine hrefuses.log_ne hopen ?_
      rw [handleRecord_carried hcarried]
      exact handleContent_log hinner
  · intro hapart hpart
    cases hcarried : carried config s type header fragment with
    | none => exact .inr (handleRecord_none hcarried)
    | some entry =>
      obtain ⟨receive, inner, content⟩ := entry
      by_cases hhandshake : inner = contentHandshake
      · exact .inl ⟨receive, content, by rw [hhandshake]⟩
      · refine .inr (.inr ?_)
        rw [handleRecord_carried hcarried]
        obtain ⟨alert, halert⟩ := @handleContent_refuses _ config { s with receive := receive } inner
          content hhandshake fun hinner => hapart ⟨hpart, receive, inner, content, hcarried, hinner⟩
        exact ⟨receive, alert, halert⟩

/-! ### What is traced -/

namespace Traced

theorem messagesLoop_connection (turns : ℕ) (t : Traced Certificate) :
    (t.messagesLoop config turns).connection = t.connection.messagesLoop config turns := by
  induction turns generalizing t with
  | zero => rfl
  | succ turns ih =>
    unfold messagesLoop Connection.messagesLoop
    dsimp only
    split_ifs
    · rfl
    · rfl
    · rfl
    · rfl
    · rfl
    · exact ih _

theorem handleHandshake_connection (t : Traced Certificate) (content : Bytes) :
    (t.handleHandshake config content).connection =
      t.connection.handleHandshake config content := by
  unfold handleHandshake Connection.handleHandshake
  dsimp only
  split_ifs
  · rfl
  · exact messagesLoop_connection _ _

theorem handleRecord_connection (t : Traced Certificate) (type : UInt8) (header fragment : Bytes) :
    (t.handleRecord config type header fragment).connection =
      t.connection.handleRecord config type header fragment := by
  unfold handleRecord
  dsimp only
  cases hcarried : carried config t.connection type header fragment with
  | none => rfl
  | some entry =>
    obtain ⟨receive, inner, content⟩ := entry
    rw [handleRecord_carried hcarried]
    dsimp only
    split_ifs with hhandshake
    · rw [handleHandshake_connection, hhandshake]
      rfl
    · rfl

/-- The bytes that are pending are of the keys that are in use, and those of a message are of
one key. -/
structure Inv (t : Traced Certificate) : Prop where
  length : t.origins.length = t.connection.handshake.length
  current : t.connection.isFailed = false → ∀ origin ∈ t.origins, origin = t.connection.receiveEpoch
  completed : ∀ message ∈ t.completed, ∃ epoch, ∀ origin ∈ message, origin = epoch

theorem Inv.initial : Inv ({} : Traced Certificate) := ⟨rfl, fun _ => nofun, nofun⟩

/-- Nothing is asked of a connection that is failed but that the bytes are counted. -/
theorem Inv.failed {t : Traced Certificate} (h : Inv t) {s : Connection Certificate}
    (hhandshake : s.handshake = t.connection.handshake) (hfailed : s.isFailed = true) :
    Inv { t with connection := s } where
  length := h.length.trans (congrArg List.length hhandshake.symm)
  current := fun hopen => absurd (hfailed.symm.trans hopen) (by decide)
  completed := h.completed

theorem Inv.fail {t : Traced Certificate} (h : Inv t) (alert : UInt8) :
    Inv { t with connection := t.connection.fail config alert } :=
  h.failed (fail_handshake _ _) (fail_isFailed _ _)

/-- The same bytes under the same keys. -/
theorem Inv.kept {t : Traced Certificate} (h : Inv t) {s : Connection Certificate}
    (hhandshake : s.handshake = t.connection.handshake)
    (hepoch : s.receiveEpoch = t.connection.receiveEpoch)
    (hstate : s.isFailed = false → t.connection.isFailed = false) :
    Inv { t with connection := s } where
  length := h.length.trans (congrArg List.length hhandshake.symm)
  current := fun hopen origin horigin => (h.current (hstate hopen) origin horigin).trans hepoch.symm
  completed := h.completed

/-- A message is taken off, and with new keys nothing is behind it. -/
theorem Inv.completes {t : Traced Certificate} (h : Inv t) (hopen : t.connection.isFailed = false)
    (size : ℕ) {s : Connection Certificate}
    (hhandshake : s.handshake = t.connection.handshake.drop size)
    (hepoch : s.isFailed = false →
      s.receiveEpoch = t.connection.receiveEpoch ∨ s.handshake = []) :
    Inv { connection := s
          origins := t.origins.drop size
          completed := t.completed ++ [t.origins.take size] } where
  length := by
    dsimp only
    rw [hhandshake, List.length_drop, List.length_drop, h.length]
  current := by
    intro hs origin horigin
    rcases hepoch hs with hsame | hempty
    · rw [hsame]
      exact h.current hopen origin (List.mem_of_mem_drop horigin)
    · have hlength := congrArg List.length (hhandshake.symm.trans hempty)
      rw [List.length_drop, ← h.length, ← List.length_drop] at hlength
      rw [List.length_eq_zero_iff.mp hlength] at horigin
      exact absurd horigin List.not_mem_nil
  completed := by
    intro message hmessage
    rcases List.mem_append.mp hmessage with hbefore | hlast
    · exact h.completed message hbefore
    · obtain rfl := List.mem_singleton.mp hlast
      exact ⟨t.connection.receiveEpoch, fun origin horigin =>
        h.current hopen origin (List.mem_of_mem_take horigin)⟩

theorem Inv.messagesLoop {t : Traced Certificate} (h : Inv t)
    (hopen : t.connection.isFailed = false) (turns : ℕ) : Inv (t.messagesLoop config turns) := by
  induction turns generalizing t with
  | zero => exact h
  | succ turns ih =>
    unfold Traced.messagesLoop
    dsimp only
    split_ifs with hheader hmaximum hcomplete hfailed hchanged
    · exact h
    · exact h.fail _
    · exact h
    · exact h.completes hopen _ (handleMessage_handshake _ _ _ _)
        fun hs => absurd (hfailed.symm.trans hs) (by decide)
    · exact h.completes hopen _ ((fail_handshake _ _).trans (handleMessage_handshake _ _ _ _))
        fun hs => absurd ((fail_isFailed _ _).symm.trans hs) (by decide)
    · rw [not_and_or, not_not, not_not] at hchanged
      refine ih ?_ (Bool.eq_false_iff.mpr hfailed)
      exact h.completes hopen _ (handleMessage_handshake _ _ _ _) fun _ => hchanged.imp_left Eq.symm

theorem Inv.joined {t : Traced Certificate} (h : Inv t) (content : Bytes) :
    Inv { t with
      connection := { t.connection with handshake := t.connection.handshake ++ content }
      origins := t.origins ++ List.replicate content.length t.connection.receiveEpoch } where
  length := by
    dsimp only
    rw [List.length_append, List.length_append, List.length_replicate, h.length]
  current := by
    intro hopen origin horigin
    rcases List.mem_append.mp horigin with hpending | hcontent
    · exact h.current hopen origin hpending
    · exact List.eq_of_mem_replicate hcontent
  completed := h.completed

theorem Inv.handleHandshake {t : Traced Certificate} (h : Inv t)
    (hopen : t.connection.isFailed = false) (content : Bytes) :
    Inv (t.handleHandshake config content) := by
  unfold Traced.handleHandshake
  dsimp only
  split_ifs
  · exact h.fail _
  · exact (h.joined content).messagesLoop hopen _

/-- Content of another type does not touch the messages. -/
theorem Inv.handleContent {t : Traced Certificate} (h : Inv t) {inner : UInt8} {content : Bytes}
    (hinner : inner ≠ contentHandshake) :
    Inv { t with connection := t.connection.handleContent config inner content } := by
  unfold Connection.handleContent Connection.handleAlert
  rw [if_neg hinner]
  split_ifs
  · split
    · split_ifs
      · exact h.kept rfl rfl id
      · exact h
      · exact h.failed rfl rfl
    · exact h.fail _
  · exact h.kept rfl rfl id
  · exact h.fail _
  · exact h.fail _

theorem Inv.handleRecord {t : Traced Certificate} (h : Inv t)
    (hopen : t.connection.isFailed = false) (type : UInt8) (header fragment : Bytes) :
    Inv (t.handleRecord config type header fragment) := by
  unfold Traced.handleRecord
  dsimp only
  cases hcarried : carried config t.connection type header fragment with
  | none =>
    dsimp only
    rcases handleRecord_none hcarried with ⟨-, hsame⟩ | ⟨receive, alert, hfails⟩
    · rw [hsame]
      exact h
    · rw [hfails]
      exact h.failed (fail_handshake _ _) (fail_isFailed _ _)
  | some entry =>
    obtain ⟨receive, inner, content⟩ := entry
    have hreceived : Inv { t with connection := { t.connection with receive := receive } } :=
      h.kept rfl rfl id
    dsimp only
    split_ifs with hhandshake
    · exact hreceived.handleHandshake hopen content
    · exact hreceived.handleContent hhandshake

/-! ### Calls of the owner -/

/-- What is sent does not touch what is received. -/
def Sends (s s' : Connection Certificate) : Prop :=
  s'.handshake = s.handshake ∧ s'.receiveEpoch = s.receiveEpoch ∧ s'.state = s.state

theorem Sends.trans {s s' s'' : Connection Certificate} (h : Sends s s') (h' : Sends s' s'') :
    Sends s s'' := ⟨h'.1.trans h.1, h'.2.1.trans h.2.1, h'.2.2.trans h.2.2⟩

theorem sends_content (s : Connection Certificate) (type : UInt8) (data : Bytes) :
    Sends s (s.sendContent config type data) := by
  unfold Connection.sendContent
  generalize Connection.fragments data.length data = parts
  induction parts generalizing s with
  | nil => exact ⟨rfl, rfl, rfl⟩
  | cons part parts ih => exact Sends.trans ⟨rfl, rfl, rfl⟩ (ih _)

theorem sends_write (s : Connection Certificate) (data : Bytes) :
    Sends s (s.write config data).1 := by
  unfold Connection.write
  split_ifs
  · exact ⟨rfl, rfl, rfl⟩
  · have hupdate : Sends s (s.sendUpdate config) :=
      (sends_content s _ _).trans ⟨rfl, rfl, rfl⟩
    exact hupdate.trans (sends_content _ _ _)
  · exact sends_content s _ _

theorem sends_close (s : Connection Certificate) : Sends s (s.close config) := by
  unfold Connection.close
  split_ifs
  · exact ⟨rfl, rfl, rfl⟩
  · exact ⟨rfl, rfl, rfl⟩

theorem Inv.sends {t : Traced Certificate} (h : Inv t) {s : Connection Certificate}
    (hsends : Sends t.connection s) : Inv { t with connection := s } := by
  obtain ⟨hhandshake, hepoch, hstate⟩ := hsends
  refine h.kept hhandshake hepoch ?_
  unfold Connection.isFailed
  rw [hstate]
  exact id

theorem Inv.take {t : Traced Certificate} (h : Inv t) (event : Event) : Inv (t.take config event) := by
  cases event with
  | record type header fragment =>
    unfold Traced.take
    dsimp only
    split_ifs with hfinal
    · exact h
    · rw [not_or, Bool.not_eq_true] at hfinal
      exact h.handleRecord hfinal.1 type header fragment
  | overflow =>
    unfold Traced.take
    dsimp only
    split_ifs
    · exact h
    · exact h.fail _
  | write data => exact h.sends (sends_write _ data)
  | read size => exact h.sends ⟨rfl, rfl, rfl⟩
  | close => exact h.sends (sends_close _)
  | consume size => exact h.sends ⟨rfl, rfl, rfl⟩

theorem inv_traced (events : List Event) : Inv (traced config events) := by
  unfold traced
  induction events using List.reverseRecOn with
  | nil => exact Inv.initial
  | append_singleton events event ih =>
    rw [List.foldl_append]
    exact ih.take event

/-! ### Servers -/

theorem take_record {t : Traced Certificate}
    (h : ¬(t.connection.isFailed = true ∨ t.connection.closed = true)) (type : UInt8)
    (header fragment : Bytes) : (t.take config (.record type header fragment)).connection =
      t.connection.handleRecord config type header fragment := by
  unfold Traced.take
  dsimp only
  rw [if_neg h]
  exact handleRecord_connection t type header fragment

theorem recordsLoop_traced (turns : ℕ) (t : Traced Certificate) (available : Bytes) :
    ∃ events : List Event, (events.foldl (Traced.take config) t).connection =
      (Server.recordsLoop config turns t.connection available).1 := by
  induction turns generalizing t available with
  | zero => exact ⟨[], rfl⟩
  | succ turns ih =>
    unfold Server.recordsLoop
    dsimp only
    generalize (Reader.read8 { data := available.take recordHeaderSize }).1 = type
    generalize (Reader.read8 { data := available.take recordHeaderSize }).2.read16.2.read16.1.toNat =
      size
    split_ifs with hfinal hsize hpart hfailed
    · exact ⟨[], rfl⟩
    · refine ⟨[.overflow], ?_⟩
      show (t.take config .overflow).connection = _
      unfold Traced.take
      rw [if_neg fun hclosed => hfinal (hclosed.imp_right .inl)]
    · exact ⟨[], rfl⟩
    · refine ⟨[.record type (available.take recordHeaderSize)
        ((available.drop recordHeaderSize).take size)], ?_⟩
      exact take_record (fun hclosed => hfinal (hclosed.imp_right .inl)) type _ _
    · have hrecord := @take_record _ config t (fun hclosed => hfinal (hclosed.imp_right .inl)) type
        (available.take recordHeaderSize) ((available.drop recordHeaderSize).take size)
      obtain ⟨events, hevents⟩ := ih (t.take config (.record type (available.take recordHeaderSize)
        ((available.drop recordHeaderSize).take size))) (available.drop (recordHeaderSize + size))
      rw [hrecord] at hevents
      exact ⟨.record type _ _ :: events, hevents⟩

theorem receive_traced (t : Traced Certificate) (server : Server Certificate)
    (h : server.connection = t.connection) (data : Bytes) :
    ∃ events : List Event, (events.foldl (Traced.take config) t).connection =
      (server.receive config data).1.connection := by
  unfold Server.receive
  dsimp only
  split_ifs
  · exact ⟨[], h.symm⟩
  · rw [h]
    obtain ⟨events, hevents⟩ := @recordsLoop_traced _ config ((server.input ++ data).length + 1) t
      (server.input ++ data)
    refine ⟨events, hevents.trans ?_⟩
    split
    · next hloop => rw [hloop]
    · next hloop => rw [hloop]

/-- The runs of a server are such runs of its connection. -/
theorem run_traced (calls : List Server.Call) :
    ∃ events : List Event, (traced config events).connection = (Server.run config calls).connection := by
  induction calls using List.reverseRecOn with
  | nil => exact ⟨[], rfl⟩
  | append_singleton calls call ih =>
    obtain ⟨events, hevents⟩ := ih
    have hlast : ∃ more : List Event, (more.foldl (Traced.take config) (traced config events)).connection =
        ((Server.run config calls).call config call).connection := by
      cases call with
      | receive data => exact receive_traced _ _ hevents.symm data
      | write data =>
        exact ⟨[.write data], congrArg (fun s => (Connection.write config s data).1) hevents⟩
      | read size => exact ⟨[.read size], congrArg (fun s => (Connection.read s size).2) hevents⟩
      | close => exact ⟨[.close], congrArg (Connection.close config) hevents⟩
      | consume size => exact ⟨[.consume size], congrArg (Connection.consume · size) hevents⟩
    obtain ⟨more, hmore⟩ := hlast
    have hrun : Server.run config (calls ++ [call]) = (Server.run config calls).call config call := by
      unfold Server.run
      rw [List.foldl_append]
      rfl
    refine ⟨events ++ more, ?_⟩
    rw [traced, List.foldl_append, hrun]
    exact hmore

end Traced

/-! ### Runs -/

/-- What holds of each record of the run that is looked at, in the state it arrives in. -/
def EachRecord (config : Config Certificate)
    (P : Connection Certificate → UInt8 → Bytes → Bytes → Prop) (events : List Event) : Prop :=
  ∀ before type header fragment after, events = before ++ .record type header fragment :: after →
    (traced config before).connection.isFailed = false →
    (traced config before).connection.closed = false →
    P (traced config before).connection type header fragment

/-- No message is completed of bytes that came under two keys. Parts of a message are behind
one another where no alert and no data that may be read are between them. -/
theorem handshake_contiguous_iff (config : Config Certificate) (events : List Event) :
    (∀ message ∈ (traced config events).completed, ∃ epoch, ∀ origin ∈ message, origin = epoch) ∧
      (EachRecord config (Contiguous config) events ↔
        EachRecord config (fun s type header fragment => ¬Interleaves config s type header fragment)
          events) := by
  refine ⟨(Traced.inv_traced events).completed, ?_⟩
  constructor
  · intro hcontiguous before type header fragment after hevents hopen hclosed
    exact (contiguous_iff hopen type header fragment).mp
      (hcontiguous before type header fragment after hevents hopen hclosed)
  · intro hapart before type header fragment after hevents hopen hclosed
    exact (contiguous_iff hopen type header fragment).mpr
      (hapart before type header fragment after hevents hopen hclosed)

/-! ### A run -/

def recordEvent (bytes : Bytes) : Event :=
  .record (bytes.headD 0) (bytes.take recordHeaderSize) (bytes.drop recordHeaderSize)

/-- A client that is established, and sends a part of a KeyUpdate. -/
def partialUpdate : List Event :=
  [recordEvent (clearRecord (makeMessage typeClientHello
      (plainHello (write16 secp256r1Group ++ writeVector16 [8])))),
   recordEvent (protectedRecord contentHandshake (makeMessage typeCertificate
      (writeVector8 [] ++ writeVector24 (writeVector24 [4] ++ write16 0)))),
   recordEvent (protectedRecord contentHandshake (makeMessage typeCertificateVerify
      (write16 ecdsaSecp256r1Sha256 ++ writeVector16 (List.replicate 32 0)))),
   recordEvent (protectedRecord contentHandshake (makeMessage typeFinished (List.replicate 32 0))),
   recordEvent (protectedRecord contentHandshake [typeKeyUpdate, 0])]

/-- Data that follow a part of a message are read. -/
theorem not_handshake_contiguous :
    ¬EachRecord plainConfig (Contiguous plainConfig)
      (partialUpdate ++ [recordEvent (protectedRecord contentApplicationData [1, 2, 3])]) := by
  intro hcontiguous
  have hopen : (traced plainConfig partialUpdate).connection.isFailed = false := by decide +kernel
  have hpart : (traced plainConfig partialUpdate).connection.handshake = [typeKeyUpdate, 0] := by
    decide +kernel
  have hapart := (contiguous_iff hopen _ _ _).mp
    (hcontiguous partialUpdate _ _ _ [] rfl hopen (by decide +kernel))
  have hcarried : (carried plainConfig (traced plainConfig partialUpdate).connection
      contentApplicationData
      ((protectedRecord contentApplicationData [1, 2, 3]).take recordHeaderSize)
      ((protectedRecord contentApplicationData [1, 2, 3]).drop recordHeaderSize)).map Prod.snd =
        some (contentApplicationData, [1, 2, 3]) := by decide +kernel
  obtain ⟨⟨receive, inner, content⟩, hentry, hinner⟩ := Option.map_eq_some_iff.mp hcarried
  cases hinner
  exact hapart ⟨by rw [hpart]; exact List.cons_ne_nil _ _, receive, _, _, hentry,
    .inr ⟨rfl, by decide +kernel⟩⟩

end BitcoinNetwork.Tls
