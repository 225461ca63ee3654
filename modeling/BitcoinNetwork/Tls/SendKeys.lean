import BitcoinNetwork.Tls.Gate

/-!
# The use of the sending keys (tls/server.cpp, tls/record.cpp)

What the server seals, in order, by the log: the records under a secret are
numbered from zero and bounded, a KeyUpdate is the last record under its secret,
and nothing but alerts follows an alert once the handshake is complete.
-/

namespace BitcoinNetwork.Tls
open Binary

variable {Certificate : Type} {config : Config Certificate}

/-! ### Nonces -/

theorem zipWith_xor_injective {key a b : Bytes} (ha : a.length = key.length)
    (hb : b.length = key.length) (h : List.zipWith (· ^^^ ·) key a = List.zipWith (· ^^^ ·) key b) :
    a = b := by
  induction key generalizing a b with
  | nil =>
    rw [List.length_eq_zero_iff.mp ha, List.length_eq_zero_iff.mp hb]
  | cons k key ih =>
    obtain ⟨x, a, rfl⟩ := List.exists_cons_of_length_eq_add_one ha
    obtain ⟨y, b, rfl⟩ := List.exists_cons_of_length_eq_add_one hb
    simp only [List.zipWith_cons_cons, List.cons.injEq] at h
    have hxy : x = y := by
      have hcancel : k ^^^ (k ^^^ x) = k ^^^ (k ^^^ y) := congrArg (k ^^^ ·) h.1
      simpa only [← UInt8.xor_assoc, UInt8.xor_self, UInt8.zero_xor] using hcancel
    rw [hxy, ih (Nat.succ.inj ha) (Nat.succ.inj hb) h.2]

/-- The nonces of a secret differ by the number of the record. -/
theorem nonce_injective {record record' : Record} (hiv : record.iv.length = 12)
    (hsame : record'.iv = record.iv) (h : record.sequence < 2 ^ 64)
    (h' : record'.sequence < 2 ^ 64) (he : record.nonce = record'.nonce) :
    record.sequence = record'.sequence := by
  unfold Record.nonce at he
  rw [hsame] at he
  have htail := List.append_cancel_left he
  have hkey : (record.iv.drop 4).length = 8 := by rw [List.length_drop, hiv]
  have hbytes := zipWith_xor_injective ((toBytes_length 8 _).trans hkey.symm)
    ((toBytes_length 8 _).trans hkey.symm) htail
  have hnumber := congrArg ofBytes hbytes
  rwa [ofBytes_toBytes h, ofBytes_toBytes h'] at hnumber

/-! ### Logs -/

def Sealing.traffic : Sealing → Option Bytes
  | .secret traffic => some traffic
  | .record _ _ _ => none

/-- The secrets that were set, the first of which is that of the handshake. -/
def secretsOf (log : List Sealing) : List Bytes := log.filterMap Sealing.traffic

/-- How many records were sealed since a secret was set. -/
def sealedSince (log : List Sealing) : ℕ :=
  log.foldl (fun count sealing => if sealing.traffic = none then count + 1 else 0) 0

/-- An alert was sent. -/
def Alerted (log : List Sealing) : Prop :=
  ∃ sequence content, Sealing.record sequence contentAlert content ∈ log

/-- A handshake record was sent last, under a secret for application data. -/
def Updating (log : List Sealing) : Prop :=
  ∃ before sequence content, log = before ++ [.record sequence contentHandshake content] ∧
    2 ≤ (secretsOf before).length

theorem secretsOf_append (log added : List Sealing) :
    secretsOf (log ++ added) = secretsOf log ++ secretsOf added := List.filterMap_append

theorem secretsOf_record (log : List Sealing) (sequence : Option ℕ) (type : UInt8)
    (content : Bytes) : secretsOf (log ++ [.record sequence type content]) = secretsOf log := by
  rw [secretsOf_append]
  exact List.append_nil _

theorem secretsOf_secret (log : List Sealing) (traffic : Bytes) :
    secretsOf (log ++ [.secret traffic]) = secretsOf log ++ [traffic] := secretsOf_append log _

theorem sealedSince_record (log : List Sealing) (sequence : Option ℕ) (type : UInt8)
    (content : Bytes) :
    sealedSince (log ++ [.record sequence type content]) = sealedSince log + 1 := by
  unfold sealedSince
  rw [List.foldl_append]
  rfl

theorem sealedSince_secret (log : List Sealing) (traffic : Bytes) :
    sealedSince (log ++ [.secret traffic]) = 0 := by
  unfold sealedSince
  rw [List.foldl_append]
  rfl

/-- A record of the log behind what was done before it. -/
structure Numbered (before : List Sealing) (sequence : Option ℕ) (type : UInt8)
    (content : Bytes) : Prop where
  clear : secretsOf before = [] → sequence = none
  number : secretsOf before ≠ [] →
    sequence = some (sealedSince before) ∧ sealedSince before < maximumRecords + 2
  alerted : Alerted before →
    type ≠ contentApplicationData ∧ (type = contentHandshake → (secretsOf before).length < 2)
  update : type = contentHandshake → 2 ≤ (secretsOf before).length → content = keyUpdate
  settled : ¬Updating before

/-- What may be done behind what was done before. -/
def Follows (crypto : Crypto Certificate) (suite : UInt16) (before : List Sealing) :
    Sealing → Prop
  | .secret traffic => 2 ≤ (secretsOf before).length →
    Updating before ∧ ∃ old, (secretsOf before).getLast? = some old ∧
      traffic = update crypto suite old
  | .record sequence type content => Numbered before sequence type content

/-- Everything in the log follows what is before it. -/
def Orderly (crypto : Crypto Certificate) (suite : UInt16) (log : List Sealing) : Prop :=
  ∀ before sealing after, log = before ++ sealing :: after →
    Follows crypto suite before sealing

theorem Orderly.nil {crypto : Crypto Certificate} {suite : UInt16} :
    Orderly crypto suite [] := by
  intro before sealing after h
  exact absurd h.symm (List.append_ne_nil_of_right_ne_nil _ (List.cons_ne_nil _ _))

theorem Orderly.concat {crypto : Crypto Certificate} {suite : UInt16} {log : List Sealing}
    (h : Orderly crypto suite log) {sealing : Sealing} (hf : Follows crypto suite log sealing) :
    Orderly crypto suite (log ++ [sealing]) := by
  intro before last after heq
  rcases List.eq_nil_or_concat after with rfl | ⟨rest, final, rfl⟩
  · obtain ⟨rfl, hlast⟩ := List.append_inj' heq rfl
    rw [← List.singleton_inj.mp hlast]
    exact hf
  · rw [List.concat_eq_append, ← List.cons_append, ← List.append_assoc] at heq
    obtain ⟨hlog, -⟩ := List.append_inj' heq rfl
    exact h before last rest hlog

/-- The suite matters to what follows a KeyUpdate only. -/
theorem Orderly.suite {crypto : Crypto Certificate} {suite : UInt16} {log : List Sealing}
    (h : Orderly crypto suite log) (hnone : secretsOf log = []) (suite' : UInt16) :
    Orderly crypto suite' log := by
  intro before sealing after heq
  have hfollows := h before sealing after heq
  cases sealing with
  | record => exact hfollows
  | secret traffic =>
    rw [heq, secretsOf_append] at hnone
    have hcons := (List.append_eq_nil_iff.mp hnone).2
    exact absurd hcons (List.cons_ne_nil _ _)

theorem not_updating_secret (log : List Sealing) (traffic : Bytes) :
    ¬Updating (log ++ [.secret traffic]) := by
  rintro ⟨before, sequence, content, heq, -⟩
  have hlast := (List.append_inj' heq rfl).2
  exact absurd (List.singleton_inj.mp hlast) nofun

theorem updating_record {log : List Sealing} {sequence : Option ℕ} {type : UInt8}
    {content : Bytes} (h : Updating (log ++ [.record sequence type content])) :
    type = contentHandshake ∧ 2 ≤ (secretsOf log).length := by
  obtain ⟨before, sequence', content', heq, hlength⟩ := h
  obtain ⟨rfl, hlast⟩ := List.append_inj' heq rfl
  injection List.singleton_inj.mp hlast with _ htype _
  exact ⟨htype, hlength⟩

theorem alerted_append {log : List Sealing} {sealing : Sealing} (h : Alerted (log ++ [sealing])) :
    Alerted log ∨ ∃ sequence content, sealing = .record sequence contentAlert content := by
  obtain ⟨sequence, content, hmem⟩ := h
  rcases List.mem_append.mp hmem with hmem | hmem
  · exact .inl ⟨sequence, content, hmem⟩
  · exact .inr ⟨sequence, content, (List.mem_singleton.mp hmem).symm⟩

/-! ### Connections -/

/-- The log of a connection, and the number of the record that is next. -/
structure Logged (config : Config Certificate) (s : Connection Certificate) : Prop where
  orderly : Orderly config.crypto s.suite s.log
  settled : ¬Updating s.log
  clear : s.send.isProtected = false → secretsOf s.log = []
  counted : s.send.isProtected = true →
    secretsOf s.log ≠ [] ∧ s.send.sequence = sealedSince s.log

theorem Logged.congr {s s' : Connection Certificate} (h : Logged config s)
    (hsuite : s'.suite = s.suite) (hsend : s'.send = s.send) (hlog : s'.log = s.log) :
    Logged config s' := by
  refine ⟨?_, ?_, ?_, ?_⟩
  · rw [hsuite, hlog]
    exact h.orderly
  · rw [hlog]
    exact h.settled
  · rw [hsend, hlog]
    exact h.clear
  · rw [hsend, hlog]
    exact h.counted

namespace Connection

/-- The number and the log behind a record. -/
theorem sealRecord_log (s : Connection Certificate) (type : UInt8) (content : Bytes) :
    ∃ sequence, (s.sealRecord config type content).log
        = s.log ++ [.record sequence type content] ∧
      (s.send.isProtected = false → sequence = none) ∧
      (s.send.isProtected = true → sequence = some s.send.sequence) := by
  refine ⟨_, rfl, ?_, ?_⟩
  · intro h
    rw [h]
    rfl
  · intro h
    rw [h]
    rfl

theorem sealContent_protected (crypto : Crypto Certificate) {record : Record} (type : UInt8)
    (content : Bytes) (h : record.isProtected = true) :
    (record.sealContent crypto type content).2.isProtected = true ∧
      (record.sealContent crypto type content).2.sequence = record.sequence + 1 := by
  unfold Record.isProtected at h
  obtain ⟨cipher, hcipher⟩ := Option.isSome_iff_exists.mp h
  unfold Record.sealContent Record.isProtected
  rw [hcipher]
  exact ⟨rfl, rfl⟩

theorem sealContent_clear (crypto : Crypto Certificate) {record : Record} (type : UInt8)
    (content : Bytes) (h : record.isProtected = false) :
    (record.sealContent crypto type content).2 = record := by
  have hnone : record.cipher = none := Option.isSome_eq_false_iff.mp h |> Option.isNone_iff_eq_none.mp
  unfold Record.sealContent
  rw [hnone]

end Connection

/-- The record that is next may be sealed. -/
theorem Logged.numbered {s : Connection Certificate} (h : Logged config s) {type : UInt8}
    {content : Bytes} {sequence : Option ℕ}
    (hclear : s.send.isProtected = false → sequence = none)
    (hprotected : s.send.isProtected = true → sequence = some s.send.sequence)
    (hbound : s.send.isProtected = true → s.send.sequence < maximumRecords + 2)
    (halerted : Alerted s.log →
      type ≠ contentApplicationData ∧ (type = contentHandshake → (secretsOf s.log).length < 2))
    (hupdate : type = contentHandshake → 2 ≤ (secretsOf s.log).length → content = keyUpdate) :
    Numbered s.log sequence type content := by
  cases hp : s.send.isProtected with
  | false =>
    exact ⟨fun _ => hclear hp, fun hn => absurd (h.clear hp) hn, halerted, hupdate, h.settled⟩
  | true =>
    obtain ⟨hsecrets, hcount⟩ := h.counted hp
    refine ⟨fun hn => absurd hn hsecrets, fun _ => ?_, halerted, hupdate, h.settled⟩
    rw [← hcount]
    exact ⟨hprotected hp, hbound hp⟩

/-- A record that is no KeyUpdate is sealed. -/
theorem Logged.seal {s : Connection Certificate} (h : Logged config s) (type : UInt8)
    (content : Bytes) (hbound : s.send.isProtected = true → s.send.sequence < maximumRecords + 2)
    (halerted : Alerted s.log →
      type ≠ contentApplicationData ∧ (type = contentHandshake → (secretsOf s.log).length < 2))
    (hupdate : type = contentHandshake → (secretsOf s.log).length < 2) :
    Logged config (s.sealRecord config type content) := by
  obtain ⟨sequence, hlog, hnone, hsome⟩ := @Connection.sealRecord_log _ config s type content
  have hnumbered : Numbered s.log sequence type content :=
    h.numbered hnone hsome hbound halerted fun ht hn => absurd (hupdate ht) (Nat.not_lt.mpr hn)
  refine ⟨?_, ?_, ?_, ?_⟩
  · rw [hlog]
    exact h.orderly.concat hnumbered
  · rw [hlog]
    intro hupdating
    obtain ⟨ht, hn⟩ := updating_record hupdating
    exact absurd (hupdate ht) (Nat.not_lt.mpr hn)
  · intro hp
    rw [hlog, secretsOf_record]
    cases hprotected : s.send.isProtected with
    | false => exact h.clear hprotected
    | true =>
      have hkept := (Connection.sealContent_protected config.crypto type content hprotected).1
      exact absurd (hkept.symm.trans hp) Bool.true_eq_false.mp
  · intro hp
    rw [hlog, secretsOf_record, sealedSince_record]
    cases hprotected : s.send.isProtected with
    | false =>
      have hkept := Connection.sealContent_clear config.crypto type content hprotected
      have hsame : (s.sealRecord config type content).send = s.send := hkept
      rw [hsame, hprotected] at hp
      exact absurd hp Bool.false_ne_true
    | true =>
      obtain ⟨hsecrets, hcount⟩ := h.counted hprotected
      have hnext := (Connection.sealContent_protected config.crypto type content hprotected).2
      exact ⟨hsecrets, hnext.trans (congrArg (· + 1) hcount)⟩

/-- A secret of the handshake, or the first of application data, is set. -/
theorem Logged.setSend {s : Connection Certificate} (h : Logged config s) (traffic : Bytes)
    (hn : (secretsOf s.log).length < 2) : Logged config (s.setSend config traffic) := by
  have hlog : (s.setSend config traffic).log = s.log ++ [.secret traffic] := rfl
  refine ⟨?_, ?_, ?_, ?_⟩
  · rw [hlog]
    exact h.orderly.concat fun htwo => absurd hn (Nat.not_lt.mpr htwo)
  · rw [hlog]
    exact not_updating_secret _ _
  · intro hp
    exact absurd hp Bool.true_eq_false.mp
  · intro _
    rw [hlog, secretsOf_secret, sealedSince_secret]
    exact ⟨List.append_ne_nil_of_right_ne_nil _ (List.cons_ne_nil _ _), rfl⟩

/-- A KeyUpdate is sealed under the secret, and the next secret is set. -/
theorem Logged.sendUpdate {s : Connection Certificate} (h : Logged config s)
    (hbound : s.send.sequence < maximumRecords + 2) (halerted : ¬Alerted s.log) (htwo : 2 ≤ (secretsOf s.log).length)
    (hlast : (secretsOf s.log).getLast? = some s.serverTraffic) :
    Logged config (s.sendUpdate config) ∧
      secretsOf (s.sendUpdate config).log
        = secretsOf s.log ++ [update config.crypto s.suite s.serverTraffic] ∧
      ¬Alerted (s.sendUpdate config).log := by
  obtain ⟨sequence, hrecord, hnone, hsome⟩ :=
    @Connection.sealRecord_log _ config s contentHandshake keyUpdate
  have hnumbered : Follows config.crypto s.suite s.log
      (.record sequence contentHandshake keyUpdate) :=
    h.numbered hnone hsome (fun _ => hbound) (fun ha => absurd ha halerted) fun _ _ => rfl
  set traffic := update config.crypto s.suite s.serverTraffic with htraffic
  have hlog : (s.sendUpdate config).log
      = (s.log ++ [.record sequence contentHandshake keyUpdate]) ++ [.secret traffic] := by
    rw [← hrecord]
    rfl
  have hsecrets : secretsOf (s.sendUpdate config).log = secretsOf s.log ++ [traffic] := by
    rw [hlog, secretsOf_secret, secretsOf_record]
  refine ⟨⟨?_, ?_, ?_, ?_⟩, hsecrets, ?_⟩
  · rw [hlog]
    refine (h.orderly.concat hnumbered).concat fun _ => ?_
    refine ⟨⟨s.log, sequence, keyUpdate, rfl, htwo⟩, s.serverTraffic, ?_, htraffic⟩
    rw [secretsOf_record, hlast]
  · rw [hlog]
    exact not_updating_secret _ _
  · intro hclear
    exact absurd hclear Bool.true_eq_false.mp
  · intro _
    rw [hsecrets, hlog, sealedSince_secret]
    exact ⟨List.append_ne_nil_of_right_ne_nil _ (List.cons_ne_nil _ _), rfl⟩
  · rw [hlog]
    intro ha
    rcases alerted_append ha with ha | ⟨_, _, heq⟩
    · rcases alerted_append ha with ha | ⟨_, _, heq⟩
      · exact halerted ha
      · injection heq with _ htype _
        exact absurd htype (by decide)
    · exact absurd heq nofun

/-! ### The invariant -/

/-- No ClientHello was accepted yet. -/
def Early (s : Connection Certificate) : Prop := s.state = .clientHello ∨ s.state = .retryHello

theorem not_early {s : Connection Certificate} (h : s.state ≠ .clientHello)
    (h' : s.state ≠ .retryHello) : ¬Early s := by
  rintro (hn | hn)
  · exact h hn
  · exact h' hn

/-- The records under the secret are bounded, with one for a close and one for a failure. -/
structure Sealed (config : Config Certificate) (s : Connection Certificate) : Prop where
  logged : Logged config s
  bound : s.send.isProtected = true →
    s.send.sequence ≤ maximumRecords + s.closeSent.toNat + s.isFailed.toNat
  alerted : Alerted s.log → s.closeSent = true ∨ s.isFailed = true
  early : Early s → s.send.isProtected = false
  keyed : ¬Early s → s.state ≠ .failed →
    2 ≤ (secretsOf s.log).length ∧ (secretsOf s.log).getLast? = some s.serverTraffic

/-- The connections agree on the send direction. -/
structure SameSend (s s' : Connection Certificate) : Prop where
  suite : s'.suite = s.suite
  send : s'.send = s.send
  log : s'.log = s.log
  closeSent : s'.closeSent = s.closeSent
  serverTraffic : s'.serverTraffic = s.serverTraffic

/-- A state that is neither early nor failed may follow another. -/
theorem Sealed.advance {s s' : Connection Certificate} (h : Sealed config s)
    (hs : SameSend s s') (he : ¬Early s) (hf : s.state ≠ .failed) (he' : ¬Early s')
    (hf' : s'.state ≠ .failed) : Sealed config s' := by
  have hfailed : s'.isFailed = s.isFailed :=
    (beq_eq_false_iff_ne.mpr hf').trans (beq_eq_false_iff_ne.mpr hf).symm
  refine ⟨h.logged.congr hs.suite hs.send hs.log, ?_, ?_, fun hn => absurd hn he', fun _ _ => ?_⟩
  · rw [hs.send, hs.closeSent, hfailed]
    exact h.bound
  · rw [hs.log, hs.closeSent, hfailed]
    exact h.alerted
  · rw [hs.log, hs.serverTraffic]
    exact h.keyed he hf

theorem Sealed.congr {s s' : Connection Certificate} (h : Sealed config s) (hs : SameSend s s')
    (hstate : s'.state = s.state) : Sealed config s' := by
  have hfailed : s'.isFailed = s.isFailed := by
    unfold Connection.isFailed
    rw [hstate]
  have hearly : Early s' ↔ Early s := by
    unfold Early
    rw [hstate]
  refine ⟨h.logged.congr hs.suite hs.send hs.log, ?_, ?_, ?_, ?_⟩
  · rw [hs.send, hs.closeSent, hfailed]
    exact h.bound
  · rw [hs.log, hs.closeSent, hfailed]
    exact h.alerted
  · rw [hs.send, hearly]
    exact h.early
  · rw [hs.log, hs.serverTraffic, hearly, hstate]
    exact h.keyed

/-- A failure that is received seals nothing. -/
theorem Sealed.alerted_failed {s s' : Connection Certificate} (h : Sealed config s)
    (hs : SameSend s s') (hstate : s'.state = .failed) : Sealed config s' := by
  have hfailed : s'.isFailed = true := by
    unfold Connection.isFailed
    rw [hstate]
    rfl
  refine ⟨h.logged.congr hs.suite hs.send hs.log, ?_, fun _ => .inr hfailed, ?_, ?_⟩
  · rw [hs.send, hs.closeSent, hfailed]
    intro hp
    have hbound := h.bound hp
    have hone : s.isFailed.toNat ≤ 1 := Bool.toNat_le _
    exact hbound.trans (Nat.add_le_add_left hone _)
  · intro he
    refine absurd he (not_early ?_ ?_)
    · rw [hstate]
      nofun
    · rw [hstate]
      nofun
  · intro _ hn
    exact absurd hstate hn

/-- The number behind a record. -/
theorem sealRecord_sequence (s : Connection Certificate) (type : UInt8) (content : Bytes)
    (hp : (s.sealRecord config type content).send.isProtected = true) :
    s.send.isProtected = true ∧
      (s.sealRecord config type content).send.sequence = s.send.sequence + 1 := by
  cases hprotected : s.send.isProtected with
  | false =>
    have hkept := Connection.sealContent_clear config.crypto type content hprotected
    have hsame : (s.sealRecord config type content).send = s.send := hkept
    rw [hsame, hprotected] at hp
    exact absurd hp Bool.false_ne_true
  | true =>
    exact ⟨rfl, (Connection.sealContent_protected config.crypto type content hprotected).2⟩

theorem Sealed.lt {s : Connection Certificate} (h : Sealed config s) (hf : s.isFailed = false)
    (hp : s.send.isProtected = true) : s.send.sequence < maximumRecords + 2 := by
  have hbound := h.bound hp
  have hone : s.closeSent.toNat ≤ 1 := Bool.toNat_le _
  rw [hf] at hbound
  simp only [Bool.toNat_false] at hbound
  omega

theorem Sealed.fail {s : Connection Certificate} (h : Sealed config s) (alert : UInt8) :
    Sealed config (s.fail config alert) := by
  unfold Connection.fail
  cases hf : s.isFailed with
  | true =>
    rw [if_pos rfl]
    exact h
  | false =>
    rw [if_neg Bool.false_ne_true]
    set failed : Connection Certificate := { s with state := .failed, failure := alert }
    have hfailed : Sealed config failed := h.alerted_failed ⟨rfl, rfl, rfl, rfl, rfl⟩ rfl
    have hlogged := hfailed.logged.seal contentAlert [alertFatal, alert] (h.lt hf)
      (fun _ => ⟨by decide, fun ht => absurd ht (by decide)⟩) fun ht => absurd ht (by decide)
    refine ⟨hlogged, fun hp => ?_, fun _ => .inr rfl, ?_, fun _ hn => absurd rfl hn⟩
    swap
    · exact fun he => absurd he (not_early nofun nofun)
    obtain ⟨hprotected, hnext⟩ := sealRecord_sequence failed _ _ hp
    have hbound := h.bound hprotected
    rw [hf] at hbound
    rw [hnext]
    exact Nat.succ_le_succ hbound

/-! ### The flight -/

/-- What the writer of vectors asserts of the messages of the flight. -/
structure Fits (config : Config Certificate) : Prop where
  certificates : (certificateEntries config.context.certificates).length < 2 ^ 24
  signature (curve : Curve) (key digest : Bytes) :
    (config.crypto.sign curve key digest).length < 2 ^ 16

/-- Parts of the size of a record. -/
theorem fragments_length (turns : ℕ) (data : Bytes) :
    (Connection.fragments turns data).length * maximumPlaintext < data.length + maximumPlaintext := by
  induction turns generalizing data with
  | zero =>
    show 0 * maximumPlaintext < _
    have hsize : 0 < maximumPlaintext := by decide
    omega
  | succ turns ih =>
    unfold Connection.fragments
    split
    · have hsize : 0 < maximumPlaintext := by decide
      simp only [List.length_nil]
      omega
    · rename_i hdata
      have hrest := ih (data.drop maximumPlaintext)
      have hpos := List.length_pos_iff.mpr hdata
      rw [List.length_drop] at hrest
      rw [List.length_cons, Nat.add_mul, Nat.one_mul]
      by_cases hfull : maximumPlaintext ≤ data.length
      · omega
      · have hzero : data.length - maximumPlaintext = 0 := by omega
        rw [hzero, Nat.zero_add] at hrest
        have hnone : (Connection.fragments turns (data.drop maximumPlaintext)).length = 0 := by
          by_contra hn
          have hmul := Nat.mul_le_mul_right maximumPlaintext (Nat.one_le_iff_ne_zero.mpr hn)
          omega
        rw [hnone]
        omega

/-- A flight adds to the transcript, and is of a size. -/
def Grows (s : Connection Certificate) (size : ℕ) (flight : Connection Certificate × Bytes) :
    Prop :=
  (∃ transcript, flight.1 = { s with transcript := transcript }) ∧ flight.2.length ≤ size

theorem Grows.append {s : Connection Certificate} {size length : ℕ}
    {flight : Connection Certificate × Bytes} (h : Grows s size flight) {message : Bytes}
    (hm : message.length ≤ length) : Grows s (size + length) (Connection.append flight message) := by
  obtain ⟨⟨transcript, heq⟩, hlength⟩ := h
  refine ⟨⟨transcript.write message, ?_⟩, ?_⟩
  · rw [Connection.append, heq]
    rfl
  · rw [Connection.append, List.length_append]
    exact Nat.add_le_add hlength hm

theorem flightMessages_grows (fits : Fits config) (s : Connection Certificate) :
    Grows s (2 ^ 24 + 2 ^ 16 + 128) (s.flightMessages config) := by
  have hcertificate : (certificateMessage config.context.certificates).length ≤ 2 ^ 24 + 8 := by
    have hentries := fits.certificates
    rw [certificateMessage, makeMessage_length, List.length_append, writeVector8_length,
      writeVector24_length, List.length_nil]
    omega
  have hverify (transcript : Bytes) :
      (certificateVerify config.crypto config.context transcript).length ≤ 2 ^ 16 + 8 := by
    have hsignature := fits.signature config.context.curve config.context.key
      (digestOf config.crypto config.context.curve (verifyContent serverVerify transcript))
    rw [certificateVerify, makeMessage_length, List.length_append, write16_length,
      writeVector16_length]
    omega
  have hfinished (suite : UInt16) (traffic transcript : Bytes) :
      (makeMessage typeFinished (finished config.crypto suite traffic transcript)).length ≤ 52 := by
    rw [makeMessage_length, finished_length]
    exact Nat.add_le_add_left (Hash.size_le _) 4
  have hextensions : encryptedExtensions.length ≤ 6 := le_refl 6
  have hrequest : certificateRequest.length ≤ 17 := le_refl 17
  have hnone : Grows s 0 (s, []) := ⟨⟨s.transcript, rfl⟩, le_refl 0⟩
  have hfirst : Grows s 23 (if config.context.request
      then Connection.append (Connection.append (s, []) encryptedExtensions) certificateRequest
      else Connection.append (s, []) encryptedExtensions) := by
    split
    · exact (hnone.append hextensions).append hrequest
    · have hone := hnone.append hextensions
      exact ⟨hone.1, hone.2.trans (by decide)⟩
  suffices hflight : Grows s (23 + (2 ^ 24 + 8) + (2 ^ 16 + 8) + 52) (s.flightMessages config) by
    exact ⟨hflight.1, hflight.2.trans (by omega)⟩
  exact ((hfirst.append hcertificate).append (hverify _)).append (hfinished _ _ _)

/-- Records of the handshake are sealed under its secret, or in clear. -/
theorem Logged.sendParts {s : Connection Certificate} (h : Logged config s) (parts : List Bytes)
    (hn : (secretsOf s.log).length < 2)
    (hbound : s.send.sequence + parts.length ≤ maximumRecords + 2) :
    ∃ output send log, parts.foldl (fun s part => s.sealRecord config contentHandshake part) s
        = { s with output := output, send := send, log := log } ∧
      Logged config { s with output := output, send := send, log := log } ∧
      secretsOf log = secretsOf s.log ∧ (Alerted log → Alerted s.log) := by
  induction parts generalizing s with
  | nil => exact ⟨s.output, s.send, s.log, rfl, h, rfl, id⟩
  | cons part parts ih =>
    rw [List.length_cons] at hbound
    have hsealed := h.seal contentHandshake part (fun _ => by omega)
      (fun _ => ⟨by decide, fun _ => hn⟩) fun _ => hn
    obtain ⟨sequence, hlog, -, -⟩ :=
      @Connection.sealRecord_log _ config s contentHandshake part
    have hsecrets : secretsOf (s.sealRecord config contentHandshake part).log
        = secretsOf s.log := by
      rw [hlog, secretsOf_record]
    have hnext : (s.sealRecord config contentHandshake part).send.sequence
        ≤ s.send.sequence + 1 := by
      cases hp : s.send.isProtected with
      | false =>
        have hkept : (s.sealRecord config contentHandshake part).send = s.send :=
          Connection.sealContent_clear config.crypto _ _ hp
        rw [hkept]
        exact Nat.le_succ _
      | true => exact (Connection.sealContent_protected config.crypto _ _ hp).2.le
    obtain ⟨output, send, log, heq, hlogged, hsecrets', halerted⟩ :=
      ih hsealed (by rwa [hsecrets]) (by omega)
    refine ⟨output, send, log, heq, hlogged, hsecrets'.trans hsecrets, fun ha => ?_⟩
    have hafter := halerted ha
    rw [hlog] at hafter
    rcases alerted_append hafter with hbefore | ⟨_, _, hrecord⟩
    · exact hbefore
    · injection hrecord with _ htype _
      exact absurd htype (by decide)

/-- The flight is sealed under the handshake secret, and the first secret of application data is
set. -/
theorem Logged.sendFlight (fits : Fits config) {s : Connection Certificate} (h : Logged config s)
    (hn : (secretsOf s.log).length = 1) (hzero : s.send.sequence = 0) :
    ∃ output send log transcript client server, s.sendFlight config = { s with
        output := output, send := send, log := log, transcript := transcript,
        clientTraffic := client, serverTraffic := server } ∧
      Logged config (s.sendFlight config) ∧ send.sequence = 0 ∧
      secretsOf log = secretsOf s.log ++ [server] ∧ (Alerted log → Alerted s.log) := by
  obtain ⟨⟨transcript, heq⟩, hlength⟩ := flightMessages_grows fits s
  set messages := (s.flightMessages config).2 with hmessages
  have hflight : Logged config { s with transcript := transcript } := h.congr rfl rfl rfl
  have hparts := fragments_length messages.length messages
  have hbound : (Connection.fragments messages.length messages).length ≤ maximumRecords + 2 := by
    have hsize : maximumPlaintext = 16384 := rfl
    have hmax : maximumRecords = 16777216 := rfl
    rw [hsize] at hparts
    rw [hmax]
    omega
  obtain ⟨output, send, log, hsent, hlogged, hsecrets, halerted⟩ :=
    hflight.sendParts (Connection.fragments messages.length messages)
      (by rw [show secretsOf _ = secretsOf s.log from rfl, hn]; exact Nat.lt_succ_self 1)
      (by rw [show Record.sequence _ = s.send.sequence from rfl, hzero, Nat.zero_add]; exact hbound)
  have hsendFlight : s.sendFlight config = ({ s with
      transcript := transcript, output := output, send := send, log := log,
      clientTraffic := expandLabel config.crypto s.suite
        (masterSecret config.crypto s.suite s.handshakeSecret) "c ap traffic"
          (transcript.hash config.crypto),
      serverTraffic := expandLabel config.crypto s.suite
        (masterSecret config.crypto s.suite s.handshakeSecret) "s ap traffic"
          (transcript.hash config.crypto) } : Connection Certificate).setSend config
      (expandLabel config.crypto s.suite (masterSecret config.crypto s.suite s.handshakeSecret)
        "s ap traffic" (transcript.hash config.crypto)) := by
    unfold Connection.sendFlight Connection.sendContent
    simp only [heq, ← hmessages, hsent]
    rfl
  refine ⟨output, _, _, transcript, _, _, hsendFlight, ?_, rfl, ?_, ?_⟩
  · rw [hsendFlight]
    refine Logged.setSend ?_ _ ?_
    · exact hlogged.congr rfl rfl rfl
    · show (secretsOf log).length < 2
      rw [hsecrets]
      exact hn.trans_lt (Nat.lt_succ_self 1)
  · rw [secretsOf_secret, hsecrets]
  · intro ha
    rcases alerted_append ha with ha | ⟨_, _, hrecord⟩
    · exact halerted ha
    · exact absurd hrecord nofun

/-! ### Handlers -/

/-- A record in clear that is no alert changes the output and the log. -/
theorem Logged.sealClear {s : Connection Certificate} (h : Logged config s) {type : UInt8}
    (content : Bytes) (hp : s.send.isProtected = false) (ht : type ≠ contentApplicationData)
    (ha : type ≠ contentAlert) :
    ∃ output log, s.sealRecord config type content = { s with output := output, log := log } ∧
      Logged config (s.sealRecord config type content) ∧ (Alerted log → Alerted s.log) := by
  have hn : (secretsOf s.log).length < 2 := by
    rw [h.clear hp]
    exact Nat.zero_lt_two
  have hlogged := h.seal type content (fun hn => absurd (hp.symm.trans hn) Bool.false_ne_true)
    (fun _ => ⟨ht, fun _ => hn⟩) fun _ => hn
  have hkept : (s.send.sealContent config.crypto type content).2 = s.send :=
    Connection.sealContent_clear config.crypto _ _ hp
  refine ⟨(s.sealRecord config type content).output, (s.sealRecord config type content).log, ?_,
    hlogged, fun halerted => ?_⟩
  · show { s with
      output := _, send := (s.send.sealContent config.crypto type content).2, log := _ } = _
    rw [hkept]
    rfl
  · rcases alerted_append halerted with hbefore | ⟨_, _, hrecord⟩
    · exact hbefore
    · injection hrecord with _ htype _
      exact absurd htype ha

/-- A hello is sealed in clear. -/
theorem Logged.sendHello {s : Connection Certificate} (h : Logged config s)
    (random session keyShare : Bytes) (hp : s.send.isProtected = false) :
    ∃ output log transcript flag, s.sendHello config random session keyShare = { s with
        output := output, log := log, transcript := transcript, compatibilitySent := flag } ∧
      Logged config (s.sendHello config random session keyShare) ∧
      (Alerted log → Alerted s.log) := by
  set hello := helloMessage s.suite random session keyShare
  have habsorbed : Logged config (s.addTranscript hello) := h.congr rfl rfl rfl
  obtain ⟨output, log, heq, hlogged, halerted⟩ := habsorbed.sealClear hello hp
    (by decide : contentHandshake ≠ contentApplicationData)
    (by decide : contentHandshake ≠ contentAlert)
  have hsend : s.sendHello config random session keyShare
      = ((s.addTranscript hello).sealRecord config contentHandshake hello).sendCompatibility config
        session := rfl
  rw [hsend, Connection.sendCompatibility]
  split
  · exact ⟨output, log, _, _, heq, hlogged, halerted⟩
  · rw [heq] at hlogged ⊢
    obtain ⟨output', log', heq', hlogged', halerted'⟩ := hlogged.sealClear [0x01] hp
      (by decide : contentChangeCipherSpec ≠ contentApplicationData)
      (by decide : contentChangeCipherSpec ≠ contentAlert)
    rw [heq'] at hlogged' ⊢
    exact ⟨output', log', _, _, rfl, hlogged'.congr rfl rfl rfl,
      fun ha => halerted (halerted' ha)⟩

/-- Without a secret the suite may change. -/
theorem Sealed.hello {s s' : Connection Certificate} (h : Sealed config s) (he : Early s)
    (hstate : s'.state = s.state) (hsend : s'.send = s.send) (hlog : s'.log = s.log)
    (hclose : s'.closeSent = s.closeSent) : Sealed config s' := by
  have hnone : secretsOf s.log = [] := h.logged.clear (h.early he)
  have hearly : Early s' := by
    unfold Early
    rwa [hstate]
  have hfailed : s'.isFailed = s.isFailed := by
    unfold Connection.isFailed
    rw [hstate]
  refine ⟨⟨?_, ?_, ?_, ?_⟩, ?_, ?_, ?_, fun hn => absurd hearly hn⟩
  · rw [hlog]
    exact h.logged.orderly.suite hnone _
  · rw [hlog]
    exact h.logged.settled
  · rw [hsend, hlog]
    exact h.logged.clear
  · rw [hsend, hlog]
    exact h.logged.counted
  · rw [hsend, hclose, hfailed]
    exact h.bound
  · rw [hlog, hclose, hfailed]
    exact h.alerted
  · rw [hsend]
    exact fun _ => h.early he

/-- An alert before the handshake is complete was a close. -/
theorem Sealed.closed_of_alerted {s : Connection Certificate} (h : Sealed config s)
    (hf : s.state ≠ .failed) (ha : Alerted s.log) : s.closeSent = true := by
  rcases h.alerted ha with hclose | hfailed
  · exact hclose
  · exact absurd (eq_of_beq hfailed) hf

theorem Sealed.retry {s : Connection Certificate} (h : Sealed config s) (he : Early s)
    (message session : Bytes) : Sealed config (s.sendRetry config message session) := by
  have hf : s.state ≠ .failed := by
    rcases he with he | he <;> rw [he] <;> nofun
  set reset : Connection Certificate := ({ s with transcript := .reset s.suite }).addTranscript
    (hashMessage config.crypto s.suite message)
  have hreset : Logged config reset := h.logged.congr rfl rfl rfl
  obtain ⟨output, log, transcript, flag, heq, hlogged, halerted⟩ :=
    hreset.sendHello retryRandom session (write16 s.group) (h.early he)
  have hretry : s.sendRetry config message session
      = { reset.sendHello config retryRandom session (write16 s.group) with
          state := .retryHello } := rfl
  rw [hretry]
  rw [heq] at hlogged ⊢
  refine ⟨hlogged.congr rfl rfl rfl, ?_, ?_, ?_, ?_⟩
  · exact fun hp => absurd ((h.early he).symm.trans hp) Bool.false_ne_true
  · exact fun ha => .inl (h.closed_of_alerted hf (halerted ha))
  · exact fun _ => h.early he
  · exact fun hn => absurd (.inr rfl) hn

theorem Sealed.accept (fits : Fits config) {s : Connection Certificate} (h : Sealed config s)
    (he : Early s) (message session shared own : Bytes) :
    Sealed config (s.acceptHello config message session shared own) := by
  have hf : s.state ≠ .failed := by
    rcases he with he | he <;> rw [he] <;> nofun
  have hmessage : Logged config (s.addTranscript message) := h.logged.congr rfl rfl rfl
  obtain ⟨output, log, transcript, flag, heq, hlogged, halerted⟩ :=
    hmessage.sendHello config.random session (write16 s.group ++ writeVector16 own) (h.early he)
  have hgroup : (s.addTranscript message).group = s.group := rfl
  unfold Connection.acceptHello
  dsimp only
  rw [hgroup]
  rw [heq] at hlogged ⊢
  have hnone : secretsOf log = [] := hlogged.clear (h.early he)
  -- the secret of the handshake is the first
  set greeted : Connection Certificate := { s with
    output := output, log := log, transcript := transcript, compatibilitySent := flag }
  set early := earlySecret config.crypto greeted.suite
  set secret := Tls.handshakeSecret config.crypto greeted.suite early shared
  set keyed : Connection Certificate := { greeted with
    handshakeSecret := secret
    clientHandshake := expandLabel config.crypto greeted.suite secret "c hs traffic"
      (greeted.transcriptHash config)
    serverHandshake := expandLabel config.crypto greeted.suite secret "s hs traffic"
      (greeted.transcriptHash config) }
  have hkeyed : Logged config keyed := hlogged.congr rfl rfl rfl
  have hset := hkeyed.setSend keyed.serverHandshake (by
    show (secretsOf log).length < 2
    rw [hnone]
    exact Nat.zero_lt_two)
  set flying := (keyed.setSend config keyed.serverHandshake).setReceive config
    keyed.clientHandshake
  have hflying : Logged config flying := hset.congr rfl rfl rfl
  have hone : secretsOf flying.log = [keyed.serverHandshake] := by
    show secretsOf (log ++ [.secret keyed.serverHandshake]) = _
    rw [secretsOf_secret, hnone]
    rfl
  obtain ⟨output', send', log', transcript', client, server, heq', hlogged', hzero, hsecrets,
    halerted'⟩ := hflying.sendFlight fits (congrArg List.length hone) rfl
  have halert (ha : Alerted log') : Alerted s.log := by
    rcases alerted_append (halerted' ha) with ha | ⟨_, _, hrecord⟩
    · exact halerted ha
    · exact absurd hrecord nofun
  rw [hone] at hsecrets
  show Sealed config { flying.sendFlight config with
    state := if config.context.request then .clientCertificate else .clientFinished }
  rw [heq'] at hlogged' ⊢
  refine ⟨hlogged'.congr rfl rfl rfl, fun _ => ?_, ?_, ?_, fun _ _ => ?_⟩
  · show send'.sequence ≤ _
    rw [hzero]
    exact Nat.zero_le _
  · exact fun ha => .inl (h.closed_of_alerted hf (halert ha))
  · intro hn
    refine absurd hn (not_early ?_ ?_)
    · split <;> nofun
    · split <;> nofun
  · show 2 ≤ (secretsOf log').length ∧ (secretsOf log').getLast? = some server
    rw [hsecrets]
    exact ⟨le_refl 2, rfl⟩

theorem Sealed.clientHello (fits : Fits config) {s : Connection Certificate}
    (h : Sealed config s) (he : Early s) (message body : Bytes) :
    Sealed config (s.handleClientHello config message body) := by
  unfold Connection.handleClientHello
  dsimp only
  split
  · exact h.fail _
  · rename_i offer retry _
    have hsuite : Sealed config (if (s.state == State.retryHello) = true then
        { s with suite := offer.suite } else
        { s with suite := offer.suite, transcript := Transcript.reset offer.suite }) := by
      split
      · exact h.hello he rfl rfl rfl rfl
      · exact h.hello he rfl rfl rfl rfl
    have hearly : Early (if (s.state == State.retryHello) = true then
        { s with suite := offer.suite } else
        { s with suite := offer.suite, transcript := Transcript.reset offer.suite }) := by
      split
      · exact he
      · exact he
    generalize (if (s.state == State.retryHello) = true then
        { s with suite := offer.suite } else
        { s with suite := offer.suite, transcript := Transcript.reset offer.suite }) = suited
      at hsuite hearly ⊢
    have hgroup (group : UInt16) : Sealed config { suited with group := group } :=
      hsuite.hello hearly rfl rfl rfl rfl
    split
    · split
      · exact hsuite.fail _
      · exact (hgroup retry).retry hearly _ _
    · rename_i group _
      split
      · exact hsuite.fail _
      split
      · exact (hgroup group).fail _
      · exact (hgroup group).accept fits hearly _ _ _ _

/-- A handler that awaits the client's authentication seals nothing but alerts. -/
theorem Sealed.certificate {s : Connection Certificate} (h : Sealed config s)
    (hstate : s.state = .clientCertificate) (message body : Bytes) :
    Sealed config (s.handleCertificate config message body) := by
  have he : ¬Early s := not_early (by rw [hstate]; nofun) (by rw [hstate]; nofun)
  have hf : s.state ≠ .failed := by rw [hstate]; nofun
  have hadded : Sealed config (s.addTranscript message) := h.congr ⟨rfl, rfl, rfl, rfl, rfl⟩ rfl
  unfold Connection.handleCertificate
  split
  · exact h.fail _
  · dsimp only
    split
    · exact hadded.fail _
    · exact h.advance ⟨rfl, rfl, rfl, rfl, rfl⟩ he hf (not_early nofun nofun) nofun
  · dsimp only
    split
    · exact hadded.fail _
    · exact h.advance ⟨rfl, rfl, rfl, rfl, rfl⟩ he hf (not_early nofun nofun) nofun

theorem Sealed.certificateVerify {s : Connection Certificate} (h : Sealed config s)
    (hstate : s.state = .clientCertificateVerify) (message body : Bytes) :
    Sealed config (s.handleCertificateVerify config message body) := by
  have he : ¬Early s := not_early (by rw [hstate]; nofun) (by rw [hstate]; nofun)
  have hf : s.state ≠ .failed := by rw [hstate]; nofun
  unfold Connection.handleCertificateVerify
  dsimp only
  split
  · exact h.fail _
  split
  · exact h
  split
  · exact h.fail _
  · exact h.fail _
  · exact h.advance ⟨rfl, rfl, rfl, rfl, rfl⟩ he hf (not_early nofun nofun) nofun

theorem Sealed.finished {s : Connection Certificate} (h : Sealed config s)
    (hstate : s.state = .clientFinished) (message body : Bytes) :
    Sealed config (s.handleFinished config message body) := by
  have he : ¬Early s := not_early (by rw [hstate]; nofun) (by rw [hstate]; nofun)
  have hf : s.state ≠ .failed := by rw [hstate]; nofun
  unfold Connection.handleFinished
  dsimp only
  split
  · exact h.fail _
  · exact h.advance ⟨rfl, rfl, rfl, rfl, rfl⟩ he hf (not_early nofun nofun) nofun

/-- Under the new secret nothing is sealed yet. -/
theorem Sealed.sendUpdate {s : Connection Certificate} (h : Sealed config s)
    (hstate : s.state = .established) (hclose : s.closeSent = false) :
    Sealed config (s.sendUpdate config) ∧ (s.sendUpdate config).state = .established ∧
      (s.sendUpdate config).closeSent = false ∧ (s.sendUpdate config).send.sequence = 0 := by
  have he : ¬Early s := not_early (by rw [hstate]; nofun) (by rw [hstate]; nofun)
  have hf : s.state ≠ .failed := by rw [hstate]; nofun
  have hfailed : s.isFailed = false := beq_eq_false_iff_ne.mpr hf
  have halerted : ¬Alerted s.log := by
    intro ha
    exact absurd ((h.closed_of_alerted hf ha).symm.trans hclose) Bool.true_eq_false.mp
  obtain ⟨htwo, hlast⟩ := h.keyed he hf
  have hbound : s.send.sequence < maximumRecords + 2 := by
    cases hp : s.send.isProtected with
    | true => exact h.lt hfailed hp
    | false =>
      have hnone := h.logged.clear hp
      rw [hnone] at htwo
      exact absurd htwo (by decide)
  obtain ⟨hlogged, hsecrets, hquiet⟩ := h.logged.sendUpdate hbound halerted htwo hlast
  have hupdated : (s.sendUpdate config).state = .established := by
    rw [← hstate]
    rfl
  refine ⟨⟨hlogged, fun _ => Nat.zero_le _, fun ha => absurd ha hquiet, ?_, fun _ _ => ?_⟩,
    hupdated, hclose, rfl⟩
  · intro hn
    refine absurd hn (not_early ?_ ?_)
    · rw [hupdated]
      nofun
    · rw [hupdated]
      nofun
  · rw [hsecrets, List.length_append, List.getLast?_concat]
    exact ⟨htwo.trans (Nat.le_add_right _ _), rfl⟩

theorem Sealed.keyUpdate {s : Connection Certificate} (h : Sealed config s)
    (hstate : s.state = .established) (body : Bytes) :
    Sealed config (s.handleKeyUpdate config body) := by
  unfold Connection.handleKeyUpdate
  split
  · split
    · exact h.fail _
    · dsimp only
      have hreceive : Sealed config (({ s with
          clientTraffic := update config.crypto s.suite s.clientTraffic }).setReceive config
            (update config.crypto s.suite s.clientTraffic)) :=
        h.congr ⟨rfl, rfl, rfl, rfl, rfl⟩ rfl
      split
      · rename_i hreply
        exact (hreceive.sendUpdate hstate (Bool.eq_false_iff.mpr hreply.2)).1
      · exact hreceive
  · exact h.fail _

theorem Sealed.message (fits : Fits config) {s : Connection Certificate} (h : Sealed config s)
    (type : UInt8) (message body : Bytes) :
    Sealed config (s.handleMessage config type message body) := by
  unfold Connection.handleMessage
  cases hstate : s.state with
  | clientHello =>
    simp only
    split
    · exact h.clientHello fits (.inl hstate) _ _
    · exact h.fail _
  | retryHello =>
    simp only
    split
    · exact h.clientHello fits (.inr hstate) _ _
    · exact h.fail _
  | clientCertificate =>
    simp only
    split
    · exact h.certificate hstate _ _
    · exact h.fail _
  | clientCertificateVerify =>
    simp only
    split
    · exact h.certificateVerify hstate _ _
    · exact h.fail _
  | clientFinished =>
    simp only
    split
    · exact h.finished hstate _ _
    · exact h.fail _
  | established =>
    simp only
    split
    · exact h.keyUpdate hstate _
    · exact h.fail _
  | failed => exact h.fail _

/-! ### Calls -/

/-- What fits a record is sent in one, if there is any. -/
theorem sendContent_small (s : Connection Certificate) (type : UInt8) {data : Bytes}
    (hd : data.length ≤ maximumPlaintext) :
    s.sendContent config type data = if data = [] then s else s.sealRecord config type data := by
  unfold Connection.sendContent
  cases data with
  | nil => rfl
  | cons byte data =>
    rw [if_neg (List.cons_ne_nil _ _), List.length_cons]
    unfold Connection.fragments
    rw [if_neg (List.cons_ne_nil _ _), List.take_of_length_le hd, List.drop_of_length_le hd]
    have hnone : Connection.fragments data.length [] = [] := by
      cases data with
      | nil => rfl
      | cons => rfl
    rw [hnone]
    rfl

/-- A record of application data under a secret that is not used up. -/
theorem Sealed.data {s : Connection Certificate} (h : Sealed config s)
    (hstate : s.state = .established) (hclose : s.closeSent = false)
    (hbound : s.send.sequence < maximumRecords) {data : Bytes}
    (hd : data.length ≤ maximumPlaintext) :
    Sealed config (s.sendContent config contentApplicationData data) := by
  rw [sendContent_small s _ hd]
  split
  · exact h
  have he : ¬Early s := not_early (by rw [hstate]; nofun) (by rw [hstate]; nofun)
  have hf : s.state ≠ .failed := by rw [hstate]; nofun
  have halerted : ¬Alerted s.log := by
    intro ha
    exact absurd ((h.closed_of_alerted hf ha).symm.trans hclose) Bool.true_eq_false.mp
  have hlogged := h.logged.seal contentApplicationData data
    (fun _ => hbound.trans (Nat.lt_add_of_pos_right Nat.zero_lt_two))
    (fun ha => absurd ha halerted) fun ht => absurd ht (by decide)
  obtain ⟨sequence, hlog, -, -⟩ :=
    @Connection.sealRecord_log _ config s contentApplicationData data
  refine ⟨hlogged, fun hp => ?_, fun ha => ?_, fun hn => absurd hn he, fun _ _ => ?_⟩
  · obtain ⟨-, hnext⟩ := sealRecord_sequence s _ _ hp
    rw [hnext]
    exact (Nat.succ_le_of_lt hbound).trans ((Nat.le_add_right _ _).trans (Nat.le_add_right _ _))
  · rw [hlog] at ha
    rcases alerted_append ha with ha | ⟨_, _, hrecord⟩
    · exact absurd ha halerted
    · injection hrecord with _ htype _
      exact absurd htype (by decide)
  · rw [hlog, secretsOf_record]
    exact h.keyed he hf

theorem Sealed.write {s : Connection Certificate} (h : Sealed config s) {data : Bytes}
    (hd : data.length ≤ maximumPlaintext) : Sealed config (s.write config data).1 := by
  unfold Connection.write
  split
  · exact h
  · rename_i hwritable
    have hstate : s.state = .established := by
      by_contra hn
      exact hwritable (.inl fun hestablished => hn (eq_of_beq hestablished))
    have hclose : s.closeSent = false := by
      by_contra hn
      exact hwritable (.inr (Bool.eq_true_of_not_eq_false hn))
    dsimp only
    split
    · obtain ⟨hupdated, hstate', hclose', hzero⟩ := h.sendUpdate hstate hclose
      refine hupdated.data hstate' hclose' ?_ hd
      rw [hzero]
      decide
    · rename_i hused
      exact h.data hstate hclose (Nat.lt_of_not_le hused) hd

theorem Sealed.close {s : Connection Certificate} (h : Sealed config s) :
    Sealed config (s.close config) := by
  unfold Connection.close
  split
  · exact h
  · rename_i hclosable
    have hclose : s.closeSent = false := by
      by_contra hn
      exact hclosable (.inl (Bool.eq_true_of_not_eq_false hn))
    have hfailed : s.isFailed = false := by
      by_contra hn
      exact hclosable (.inr (Bool.eq_true_of_not_eq_false hn))
    have hlogged := h.logged.seal contentAlert [alertWarning, alertCloseNotify] (h.lt hfailed)
      (fun _ => ⟨by decide, fun ht => absurd ht (by decide)⟩) fun ht => absurd ht (by decide)
    obtain ⟨sequence, hlog, -, -⟩ :=
      @Connection.sealRecord_log _ config s contentAlert [alertWarning, alertCloseNotify]
    refine ⟨hlogged.congr rfl rfl rfl, fun hp => ?_, fun _ => .inl rfl, fun he => ?_,
      fun he hf => ?_⟩
    · obtain ⟨hprotected, hnext⟩ := sealRecord_sequence s _ _ hp
      have hbound := h.bound hprotected
      rw [hclose, hfailed] at hbound
      show (s.sealRecord config _ _).send.sequence ≤ maximumRecords + 1 + s.isFailed.toNat
      rw [hnext, hfailed]
      exact Nat.succ_le_succ hbound
    · have hkept : (s.send.sealContent config.crypto contentAlert
          [alertWarning, alertCloseNotify]).2 = s.send :=
        Connection.sealContent_clear config.crypto _ _ (h.early he)
      show (s.send.sealContent config.crypto _ _).2.isProtected = false
      rw [hkept]
      exact h.early he
    · show 2 ≤ (secretsOf (s.sealRecord config _ _).log).length ∧ _
      rw [hlog, secretsOf_record]
      exact h.keyed he hf

/-- No step of a server leaves the invariant, if it writes no more than fits a record. -/
theorem sealed_steps (fits : Fits config) :
    Steps config (Sealed config) fun data => data.length ≤ maximumPlaintext where
  initial := by
    refine ⟨⟨.nil, ?_, fun _ => rfl, fun hp => absurd hp Bool.false_ne_true⟩,
      fun hp => absurd hp Bool.false_ne_true, ?_, fun _ => rfl, fun hn => absurd (.inl rfl) hn⟩
    · rintro ⟨before, sequence, content, heq, -⟩
      exact absurd heq.symm (List.append_ne_nil_of_right_ne_nil _ (List.cons_ne_nil _ _))
    · rintro ⟨sequence, content, hmem⟩
      exact absurd hmem List.not_mem_nil
  fail h alert := h.fail alert
  received h _ _ := h.congr ⟨rfl, rfl, rfl, rfl, rfl⟩ rfl
  message h type body := h.message fits type _ body
  closed h := h.congr ⟨rfl, rfl, rfl, rfl, rfl⟩ rfl
  alerted h _ := h.alerted_failed ⟨rfl, rfl, rfl, rfl, rfl⟩ rfl
  readable h _ _ := h.congr ⟨rfl, rfl, rfl, rfl, rfl⟩ rfl
  write h _ hd := h.write hd
  read h _ := h.congr ⟨rfl, rfl, rfl, rfl, rfl⟩ rfl
  close h := h.close
  consume h _ := h.congr ⟨rfl, rfl, rfl, rfl, rfl⟩ rfl

/-! ### What a run seals -/

def Sealing.sequence : Sealing → Option ℕ
  | .secret _ => none
  | .record sequence _ _ => sequence

/-- The nonce of a record under a secret. -/
def nonceOf (crypto : Crypto Certificate) (suite : UInt16) (traffic : Bytes) (sealing : Sealing) :
    Option Bytes :=
  sealing.sequence.map fun sequence =>
    ({ Record.setSecret crypto suite traffic with sequence := sequence } : Record).nonce

theorem sealedSince_segment (before : List Sealing) (traffic : Bytes) {segment : List Sealing}
    (h : secretsOf segment = []) :
    sealedSince (before ++ .secret traffic :: segment) = segment.length := by
  induction segment using List.reverseRecOn with
  | nil => exact sealedSince_secret before traffic
  | append_singleton segment sealing ih =>
    rw [secretsOf_append] at h
    obtain ⟨hsegment, hlast⟩ := List.append_eq_nil_iff.mp h
    cases sealing with
    | secret _ => exact absurd hlast (List.cons_ne_nil _ _)
    | record sequence type content =>
      rw [← List.cons_append, ← List.append_assoc, sealedSince_record, ih hsegment,
        List.length_append]
      rfl

/-- The records under a secret are numbered from zero, and bounded. -/
theorem Orderly.segment {crypto : Crypto Certificate} {suite : UInt16} {log : List Sealing}
    (h : Orderly crypto suite log) {before segment after : List Sealing} {traffic : Bytes}
    (hlog : log = before ++ .secret traffic :: (segment ++ after)) (hs : secretsOf segment = []) :
    segment.length ≤ maximumRecords + 2 ∧
      segment.map Sealing.sequence = (List.range segment.length).map some := by
  induction segment using List.reverseRecOn generalizing after with
  | nil => exact ⟨Nat.zero_le _, rfl⟩
  | append_singleton segment sealing ih =>
    rw [secretsOf_append] at hs
    obtain ⟨hsegment, hlast⟩ := List.append_eq_nil_iff.mp hs
    have hsplit : log = before ++ .secret traffic :: (segment ++ sealing :: after) := by
      rw [hlog, List.append_assoc]
      rfl
    obtain ⟨-, hnumbers⟩ := ih hsplit hsegment
    cases sealing with
    | secret _ => exact absurd hlast (List.cons_ne_nil _ _)
    | record sequence type content =>
      rw [← List.cons_append, ← List.append_assoc] at hsplit
      have hfollows := h _ _ _ hsplit
      obtain ⟨hsequence, hbound⟩ := hfollows.number (by
        rw [secretsOf_append]
        exact List.append_ne_nil_of_right_ne_nil _ (List.cons_ne_nil _ _))
      rw [sealedSince_segment before traffic hsegment] at hsequence hbound
      rw [List.length_append, List.map_append, hnumbers]
      refine ⟨hbound, ?_⟩
      show _ ++ [sequence] = (List.range (segment.length + 1)).map some
      rw [hsequence, List.range_succ, List.map_append]
      rfl

/-- No nonce is used twice under a secret. -/
theorem Orderly.nonces {crypto : Crypto Certificate} {suite : UInt16} {log : List Sealing}
    (h : Orderly crypto suite log) {before segment after : List Sealing} {traffic : Bytes}
    (hlog : log = before ++ .secret traffic :: (segment ++ after)) (hs : secretsOf segment = [])
    (suite' : UInt16) : (segment.map (nonceOf crypto suite' traffic)).Nodup := by
  obtain ⟨hbound, hnumbers⟩ := h.segment hlog hs
  set nonce : ℕ → Bytes := fun sequence =>
    ({ Record.setSecret crypto suite' traffic with sequence := sequence } : Record).nonce
  have hmap : segment.map (nonceOf crypto suite' traffic)
      = (List.range segment.length).map fun sequence => some (nonce sequence) := by
    calc segment.map (nonceOf crypto suite' traffic)
        = (segment.map Sealing.sequence).map (Option.map nonce) := by
          rw [List.map_map]
          rfl
      _ = ((List.range segment.length).map some).map (Option.map nonce) := by rw [hnumbers]
      _ = _ := by
          rw [List.map_map]
          rfl
  rw [hmap]
  refine List.Nodup.map_on (fun i hi j hj he => ?_) List.nodup_range
  have hmax : maximumRecords + 2 < 2 ^ 64 := by decide
  have hlt (k : ℕ) (hk : k ∈ List.range segment.length) : k < 2 ^ 64 :=
    (List.mem_range.mp hk).trans (hbound.trans_lt hmax)
  exact @nonce_injective { Record.setSecret crypto suite' traffic with sequence := i }
    { Record.setSecret crypto suite' traffic with sequence := j }
    (trafficIv_length crypto suite' traffic) rfl (hlt i hi) (hlt j hj) (Option.some.inj he)

/-- A KeyUpdate is the last record under the secret before it. -/
theorem Orderly.update {crypto : Crypto Certificate} {suite : UInt16} {log : List Sealing}
    (h : Orderly crypto suite log) (hsettled : ¬Updating log) {before after : List Sealing}
    {sequence : Option ℕ} {content : Bytes}
    (hlog : log = before ++ .record sequence contentHandshake content :: after)
    (htwo : 2 ≤ (secretsOf before).length) :
    content = keyUpdate ∧ ∃ old rest, (secretsOf before).getLast? = some old ∧
      after = .secret (Tls.update crypto suite old) :: rest := by
  have hnumbered : Numbered before sequence contentHandshake content := h _ _ _ hlog
  have hupdating : Updating (before ++ [.record sequence contentHandshake content]) :=
    ⟨before, sequence, content, rfl, htwo⟩
  refine ⟨hnumbered.update rfl htwo, ?_⟩
  cases after with
  | nil => exact absurd (hlog ▸ hupdating) hsettled
  | cons next rest =>
    have hnext := h (before ++ [.record sequence contentHandshake content]) next rest (by
      rw [hlog, List.append_assoc]
      rfl)
    cases next with
    | record _ _ _ => exact absurd hupdating hnext.settled
    | secret traffic =>
      obtain ⟨-, old, hold, htraffic⟩ := hnext (by rwa [secretsOf_record])
      rw [secretsOf_record] at hold
      exact ⟨old, rest, hold, by rw [htraffic]⟩

/-- No data is sent behind an alert, and no KeyUpdate. -/
theorem Orderly.alerted {crypto : Crypto Certificate} {suite : UInt16} {log : List Sealing}
    (h : Orderly crypto suite log) {before middle after : List Sealing}
    {sequence sequence' : Option ℕ} {type : UInt8} {alert content : Bytes}
    (hlog : log = before ++ .record sequence contentAlert alert ::
      (middle ++ .record sequence' type content :: after)) :
    type ≠ contentApplicationData ∧ (type = contentHandshake →
      (secretsOf (before ++ .record sequence contentAlert alert :: middle)).length < 2) := by
  rw [← List.cons_append, ← List.append_assoc] at hlog
  have hnumbered : Numbered (before ++ .record sequence contentAlert alert :: middle) sequence'
      type content := h _ _ _ hlog
  exact hnumbered.alerted
    ⟨sequence, alert, List.mem_append_right _ List.mem_cons_self⟩

/-- The use of sending keys: no nonce is used twice and no secret for more records than are
allowed, the records behind a KeyUpdate are sealed under the secret that follows, and no data or
KeyUpdate is sent behind an alert. -/
structure WellKeyed (config : Config Certificate) (s : Connection Certificate) : Prop where
  numbered {before segment after : List Sealing} {traffic : Bytes}
    (log : s.log = before ++ .secret traffic :: (segment ++ after))
    (records : secretsOf segment = []) :
    segment.length ≤ maximumRecords + 2 ∧
      segment.map Sealing.sequence = (List.range segment.length).map some ∧
      ∀ suite, (segment.map (nonceOf config.crypto suite traffic)).Nodup
  updated {before after : List Sealing} {sequence : Option ℕ} {content : Bytes}
    (log : s.log = before ++ .record sequence contentHandshake content :: after)
    (established : 2 ≤ (secretsOf before).length) :
    content = keyUpdate ∧ ∃ old rest, (secretsOf before).getLast? = some old ∧
      after = .secret (update config.crypto s.suite old) :: rest
  alerted {before middle after : List Sealing} {sequence sequence' : Option ℕ} {type : UInt8}
    {alert content : Bytes}
    (log : s.log = before ++ .record sequence contentAlert alert ::
      (middle ++ .record sequence' type content :: after)) :
    type ≠ contentApplicationData ∧ (type = contentHandshake →
      (secretsOf (before ++ .record sequence contentAlert alert :: middle)).length < 2)

/-- The sending keys of every run whose writes fit records. -/
theorem run_wellKeyed (fits : Fits config) {calls : List Server.Call}
    (hc : ∀ data, Server.Call.write data ∈ calls → data.length ≤ maximumPlaintext) :
    WellKeyed config (Server.run config calls).connection := by
  have hsealed := (sealed_steps fits).run hc
  have horderly := hsealed.logged.orderly
  refine ⟨fun hlog hs => ?_, fun hlog htwo => ?_, fun hlog => horderly.alerted hlog⟩
  · obtain ⟨hbound, hnumbers⟩ := horderly.segment hlog hs
    exact ⟨hbound, hnumbers, horderly.nonces hlog hs⟩
  · exact horderly.update hsealed.logged.settled hlog htwo

/-- The client asks for an update between writes, and the server closes. -/
def updateCalls : List Server.Call :=
  plainCalls ++ [.write [1, 2], .receive (protectedRecord contentHandshake
    (makeMessage typeKeyUpdate [1])), .write [3], .close, .write [4]]

theorem run_wellKeyed_updated :
    let s := (Server.run plainConfig updateCalls).connection
    (secretsOf s.log).length = 3 ∧ sealedSince s.log = 2 ∧ WellKeyed plainConfig s := by
  intro s
  have hfits : Fits plainConfig := by
    refine ⟨by decide, fun _ _ digest => ?_⟩
    show (digest.take 64).length < 2 ^ 16
    rw [List.length_take]
    omega
  have hc : ∀ data, Server.Call.write data ∈ updateCalls → data.length ≤ maximumPlaintext := by
    intro data hdata
    simp only [updateCalls, plainCalls, List.cons_append, List.nil_append, List.mem_cons,
      reduceCtorEq, false_or, Server.Call.write.injEq, List.not_mem_nil, or_false] at hdata
    rcases hdata with rfl | rfl | rfl <;> decide
  exact ⟨by decide +kernel, by decide +kernel, run_wellKeyed hfits hc⟩

end BitcoinNetwork.Tls
