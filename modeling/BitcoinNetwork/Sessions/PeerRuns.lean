import BitcoinNetwork.Sessions.Peer

/-!
# The records are those of the channels (net.cpp, sessions/session_peer.cpp)

Each step keeps the records of the network equal to what the channels that are under
way make of them, so that each channel is counted at most once, and uncounted once if
it was counted.
-/

namespace BitcoinNetwork.Sessions
open Net Async
variable {Endpoint : Type} [DecidableEq Endpoint]

namespace Peers

/-- What was counted and uncounted of a channel. -/
def accountsOf (s : Peers Endpoint) (identifier : ℕ) : List Account :=
  s.network.accounts.filter (·.identifier = identifier)

/-- The channels that are counted: those that were, and were not uncounted since. -/
def counted (s : Peers Endpoint) : List (PeerChannel Endpoint) :=
  s.given.filter fun c => s.accountsOf c.identifier = [.counted c.identifier]

/-- The channels that have neither failed nor stopped. -/
def alive (s : Peers Endpoint) : List (PeerChannel Endpoint) := s.handshaking ++ s.started

end Peers

/-- No branch of a record that is not as it should be was taken. -/
def Sound (faults : List Fault) : Prop :=
  .unstoreNonce ∉ faults ∧ .inboundUnderflow ∉ faults ∧ .totalUnderflow ∉ faults

/-- The records are exact: each channel is counted at most once, and uncounted once,
behind that, if and only if it was counted; the identifiers, the reservations and the
counts are those of the counted channels, no two of which share an endpoint; the
nonces are those of the channels that stored one and have neither failed nor stopped;
and none was found missing. -/
structure Exact (s : Peers Endpoint) : Prop where
  once : ∀ c ∈ s.given, s.accountsOf c.identifier = [] ∨
    s.accountsOf c.identifier = [.counted c.identifier] ∨
      s.accountsOf c.identifier = [.counted c.identifier, .uncounted c.identifier]
  balanced : ∀ c ∈ s.given, c ∉ s.alive → s.accountsOf c.identifier = [] ∨
    s.accountsOf c.identifier = [.counted c.identifier, .uncounted c.identifier]
  identifiers : (s.given.map (·.identifier)).Nodup
  actives : s.network.actives.Perm (s.counted.map (·.identifier))
  reservations : ∀ host, host ∈ s.network.endpoints ↔ ∃ c ∈ s.counted, c.endpoint = host
  distinct : (s.counted.map (·.endpoint)).Nodup
  endpointsCount : s.network.endpointsCount = s.counted.length % 2 ^ 64
  inbound : s.network.inboundChannelCount = s.counted.countP (·.inbound)
  total : s.network.totalChannelCount = s.counted.countP (fun c => !c.quiet)
  nonces : ∀ nonce, nonce ∈ s.network.nonces ↔
    ∃ c ∈ s.alive, c.stores s.network.enableLoopback ∧ c.nonce = nonce
  sound : Sound s.network.faults

/-! ### The invariant -/

/-- What is under way accounts for the records. -/
structure Balanced (s : Peers Endpoint) : Prop where
  stored : Stored s.network.enableLoopback s.network.nonces s.alive
  tallied : s.network.Tallied s.started
  identifiers : (s.given.map (·.identifier)).Nodup
  distinct : (s.alive.map (·.identifier)).Nodup
  given : ∀ c ∈ s.alive, c ∈ s.given
  started : ∀ c ∈ s.started, s.accountsOf c.identifier = [.counted c.identifier]
  fresh : ∀ identifier, identifier ∉ s.given.map (·.identifier) → s.accountsOf identifier = []
  handshaking : ∀ c ∈ s.handshaking, s.accountsOf c.identifier = []
  ended : ∀ c ∈ s.given, c ∉ s.alive → s.accountsOf c.identifier = [] ∨
    s.accountsOf c.identifier = [.counted c.identifier, .uncounted c.identifier]
  sound : Sound s.network.faults

section
variable {s : Peers Endpoint} {c d : PeerChannel Endpoint}

omit [DecidableEq Endpoint] in
/-- A channel that is given is known by its identifier. -/
theorem Balanced.same (h : Balanced s) (hc : c ∈ s.given) (hd : d ∈ s.given)
    (heq : c.identifier = d.identifier) : c = d :=
  List.inj_on_of_nodup_map h.identifiers hc hd heq

theorem Balanced.counted (h : Balanced s) : s.counted.Perm s.started := by
  refine (List.perm_ext_iff_of_nodup ?_ (List.Nodup.of_map _ h.tallied.identifiers)).mpr ?_
  · exact (List.Nodup.of_map _ h.identifiers).filter _
  intro c
  unfold Peers.counted
  rw [List.mem_filter, decide_eq_true_iff]
  constructor
  · rintro ⟨hgiven, haccounts⟩
    by_cases halive : c ∈ s.alive
    · rcases List.mem_append.mp halive with hshaking | hstarted
      · rw [h.handshaking c hshaking] at haccounts
        cases haccounts
      · exact hstarted
    · rcases h.ended c hgiven halive with hnone | hboth
      · rw [hnone] at haccounts
        cases haccounts
      · rw [hboth] at haccounts
        cases haccounts
  · intro hstarted
    exact ⟨h.given c (List.mem_append_right _ hstarted), h.started c hstarted⟩

theorem Balanced.exact (h : Balanced s) : Exact s where
  once c hgiven := by
    by_cases halive : c ∈ s.alive
    · rcases List.mem_append.mp halive with hshaking | hstarted
      · exact .inl (h.handshaking c hshaking)
      · exact .inr (.inl (h.started c hstarted))
    · rcases h.ended c hgiven halive with hnone | hboth
      · exact .inl hnone
      · exact .inr (.inr hboth)
  balanced := h.ended
  identifiers := h.identifiers
  actives := (h.tallied.perm h.counted.symm).actives
  reservations := (h.tallied.perm h.counted.symm).endpoints
  distinct := (h.tallied.perm h.counted.symm).distinct
  endpointsCount := (h.tallied.perm h.counted.symm).endpointsCount
  inbound := (h.tallied.perm h.counted.symm).inbound
  total := (h.tallied.perm h.counted.symm).total
  nonces := h.stored.nonces
  sound := h.sound

end

/-! ### Steps -/

section
variable {s : Peers Endpoint} {c : PeerChannel Endpoint}

omit [DecidableEq Endpoint] in
theorem Sound.append {faults more : List Fault} (h : Sound faults) (hmore : Sound more) :
    Sound (faults ++ more) := by
  unfold Sound at *
  simp only [List.mem_append, not_or]
  exact ⟨⟨h.1, hmore.1⟩, ⟨h.2.1, hmore.2.1⟩, ⟨h.2.2, hmore.2.2⟩⟩

omit [DecidableEq Endpoint] in
theorem overflow_sound {more : List Fault}
    (h : ∀ fault ∈ more, fault = .inboundOverflow ∨ fault = .totalOverflow) : Sound more := by
  refine ⟨?_, ?_, ?_⟩
  · intro hmem
    rcases h _ hmem with heq | heq <;> cases heq
  · intro hmem
    rcases h _ hmem with heq | heq <;> cases heq
  · intro hmem
    rcases h _ hmem with heq | heq <;> cases heq

omit [DecidableEq Endpoint] in
theorem filter_account (accounts : List Account) (account : Account) (identifier : ℕ) :
    (accounts ++ [account]).filter (·.identifier = identifier) =
      accounts.filter (·.identifier = identifier) ++
        if account.identifier = identifier then [account] else [] := by
  rw [List.filter_append, List.filter_singleton]
  by_cases heq : account.identifier = identifier
  · simp [heq]
  · simp [heq]

omit [DecidableEq Endpoint] in
/-- Faults that are logged change nothing else. -/
theorem Balanced.faults {more : List Fault} (h : Balanced s) (hmore : Sound more) :
    Balanced { s with network := { s.network with faults := s.network.faults ++ more } } :=
  { h with
    tallied := { h.tallied with }
    sound := h.sound.append hmore }

omit [DecidableEq Endpoint] in
/-- A channel of an identifier of its own is given. -/
theorem Balanced.give (h : Balanced s) (hfresh : c.identifier ∉ s.given.map (·.identifier)) :
    Balanced { s with given := c :: s.given } :=
  { h with
    identifiers := List.nodup_cons.mpr ⟨hfresh, h.identifiers⟩
    given := fun d hd => List.mem_cons_of_mem _ (h.given d hd)
    fresh := by
      intro identifier hnot
      apply h.fresh
      intro hmem
      exact hnot (List.mem_cons_of_mem _ hmem)
    ended := by
      intro d hd hdead
      rcases List.mem_cons.mp hd with rfl | hd
      · exact .inl (h.fresh _ hfresh)
      · exact h.ended d hd hdead }

omit [DecidableEq Endpoint] in
/-- Its start is posted, with its nonce stored if it stores one. -/
theorem Balanced.shake {nonces : Finset ℕ} (h : Balanced s) (hgiven : c ∈ s.given)
    (hdead : c ∉ s.alive) (hnone : s.accountsOf c.identifier = [])
    (hstored : Stored s.network.enableLoopback nonces (c :: s.alive)) :
    Balanced
      { s with
        network := { s.network with nonces := nonces }
        handshaking := c :: s.handshaking } :=
  { h with
    stored := hstored
    tallied := { h.tallied with }
    distinct := by
      refine List.nodup_cons.mpr ⟨?_, h.distinct⟩
      intro hmem
      obtain ⟨d, hd, heq⟩ := List.mem_map.mp hmem
      exact hdead (h.same (h.given d hd) hgiven heq ▸ hd)
    given := by
      intro d hd
      rcases List.mem_cons.mp hd with rfl | hd
      · exact hgiven
      · exact h.given d hd
    handshaking := by
      intro d hd
      rcases List.mem_cons.mp hd with rfl | hd
      · exact hnone
      · exact h.handshaking d hd
    ended := by
      intro d hd hdead
      apply h.ended d hd
      intro halive
      exact hdead (List.mem_cons_of_mem _ halive) }

omit [DecidableEq Endpoint] in
/-- What `start_channel` does: a fault may be logged, or the nonce is stored and the
start is posted. -/
theorem startChannel_cases (h : Balanced s) (hfresh : c.identifier ∉ s.given.map (·.identifier))
    (stopped : Bool) :
    (∃ more, Sound more ∧ { s with given := c :: s.given }.startChannel c stopped =
      { s with
        network := { s.network with faults := s.network.faults ++ more }
        given := c :: s.given }) ∨
    ∃ nonces, Stored s.network.enableLoopback nonces (c :: s.alive) ∧
      { s with given := c :: s.given }.startChannel c stopped =
        { s with
          network := { s.network with nonces := nonces }
          given := c :: s.given
          handshaking := c :: s.handshaking } := by
  unfold Peers.startChannel
  cases stopped with
  | true =>
    refine .inl ⟨[], ⟨List.not_mem_nil, List.not_mem_nil, List.not_mem_nil⟩, ?_⟩
    rw [List.append_nil, if_pos rfl]
  | false =>
    rw [if_neg Bool.false_ne_true]
    rcases Records.storeNonce_spec (c := c) (h.give hfresh).stored with
      hstore | ⟨nonces, hstore, hstored⟩
    · rw [hstore]
      exact .inl ⟨_, by unfold Sound; decide, rfl⟩
    · rw [hstore]
      exact .inr ⟨nonces, hstored, rfl⟩

omit [DecidableEq Endpoint] in
theorem startChannel_balanced (h : Balanced s)
    (hfresh : c.identifier ∉ s.given.map (·.identifier)) (stopped : Bool) :
    Balanced ({ s with given := c :: s.given }.startChannel c stopped) := by
  have hgive := h.give hfresh
  rcases startChannel_cases h hfresh stopped with ⟨more, hmore, heq⟩ | ⟨nonces, hstored, heq⟩
  · rw [heq]
    exact hgive.faults hmore
  · rw [heq]
    refine hgive.shake List.mem_cons_self ?_ (h.fresh _ hfresh) hstored
    intro halive
    exact hfresh (List.mem_map.mpr ⟨c, h.given c halive, rfl⟩)

theorem alive_handshaking (hc : c ∈ s.handshaking) :
    s.alive.Perm (c :: (s.handshaking.erase c ++ s.started)) :=
  (List.perm_cons_erase hc).append_right s.started

theorem alive_started (hc : c ∈ s.started) :
    s.alive.Perm (c :: (s.handshaking ++ s.started.erase c)) :=
  ((List.perm_cons_erase hc).append_left s.handshaking).trans List.perm_middle

omit [DecidableEq Endpoint] in
/-- The others that are under way, where one is. -/
theorem Balanced.others {rest : List (PeerChannel Endpoint)} (h : Balanced s)
    (hperm : s.alive.Perm (c :: rest)) :
    (rest.map (·.identifier)).Nodup ∧ (∀ d ∈ rest, d ∈ s.alive ∧ d.identifier ≠ c.identifier) ∧
      ∀ d ∈ s.alive, d ∉ rest → d = c := by
  have hdistinct := (hperm.map (·.identifier)).nodup_iff.mp h.distinct
  rw [List.map_cons, List.nodup_cons] at hdistinct
  refine ⟨hdistinct.2, ?_, ?_⟩
  · intro d hd
    refine ⟨hperm.symm.subset (List.mem_cons_of_mem _ hd), ?_⟩
    intro heq
    exact hdistinct.1 (List.mem_map.mpr ⟨d, hd, heq⟩)
  · intro d hd hnot
    rcases List.mem_cons.mp (hperm.subset hd) with heq | hd
    · exact heq
    · exact absurd hd hnot

/-- A channel whose handshake fails is under way no more. -/
theorem Balanced.fail {nonces : Finset ℕ} (h : Balanced s) (hc : c ∈ s.handshaking)
    (hstored : Stored s.network.enableLoopback nonces (s.handshaking.erase c ++ s.started)) :
    Balanced
      { s with
        network := { s.network with nonces := nonces }
        handshaking := s.handshaking.erase c } := by
  obtain ⟨hdistinct, hothers, hlast⟩ := h.others (alive_handshaking hc)
  exact
  { h with
    stored := hstored
    tallied := { h.tallied with }
    distinct := hdistinct
    given := fun d hd => h.given d (hothers d hd).1
    handshaking := fun d hd => h.handshaking d (List.mem_of_mem_erase hd)
    ended := by
      intro d hd hdead
      by_cases halive : d ∈ s.alive
      · rw [hlast d halive hdead]
        exact .inl (h.handshaking c hc)
      · exact h.ended d hd halive }

/-- A channel whose handshake succeeds is counted. -/
theorem Balanced.count (h : Balanced s) (hc : c ∈ s.handshaking)
    (htallied : (s.network.counted c).Tallied (c :: s.started)) :
    Balanced
      { s with
        network := s.network.counted c
        handshaking := s.handshaking.erase c
        started := c :: s.started } := by
  obtain ⟨-, hothers, -⟩ := h.others (alive_handshaking hc)
  have hperm : s.alive.Perm (s.handshaking.erase c ++ c :: s.started) :=
    (alive_handshaking hc).trans List.perm_middle.symm
  have haccounts : ∀ identifier, (s.network.counted c).accounts.filter (·.identifier = identifier) =
      s.accountsOf identifier ++
        if c.identifier = identifier then [.counted c.identifier] else [] :=
    fun identifier => filter_account _ _ identifier
  exact
  { h with
    stored := h.stored.perm hperm
    tallied := htallied
    distinct := (hperm.map _).nodup_iff.mp h.distinct
    given := fun d hd => h.given d (hperm.symm.subset hd)
    started := by
      intro d hd
      refine (haccounts _).trans ?_
      rcases List.mem_cons.mp hd with rfl | hd
      · rw [if_pos rfl, h.handshaking d hc]
        rfl
      · have hne := (hothers d (List.mem_append_right _ hd)).2
        rw [if_neg hne.symm, List.append_nil]
        exact h.started d hd
    fresh := by
      intro identifier hfresh
      refine (haccounts _).trans ?_
      rw [if_neg, List.append_nil]
      · exact h.fresh identifier hfresh
      · rintro rfl
        exact hfresh (List.mem_map.mpr ⟨c, h.given c (List.mem_append_left _ hc), rfl⟩)
    handshaking := by
      intro d hd
      refine (haccounts _).trans ?_
      have hne := (hothers d (List.mem_append_left _ hd)).2
      rw [if_neg hne.symm, List.append_nil]
      exact h.handshaking d (List.mem_of_mem_erase hd)
    ended := by
      intro d hd hdead
      have halive : d ∉ s.alive := fun hmem => hdead (hperm.subset hmem)
      have hne : c.identifier ≠ d.identifier := by
        intro heq
        have hsame := h.same (h.given c (List.mem_append_left _ hc)) hd heq
        exact halive (hsame ▸ List.mem_append_left _ hc)
      have hsame := haccounts d.identifier
      rw [if_neg hne, List.append_nil] at hsame
      rcases h.ended d hd halive with hnone | hboth
      · exact .inl (hsame.trans hnone)
      · exact .inr (hsame.trans hboth) }

/-- What `do_handle_handshake` does: the nonce is unstored, and an overflow may be
logged, or the channel is counted, and is not of a nonce that is stored. -/
theorem doHandleHandshake_cases (h : Balanced s) (hc : c ∈ s.handshaking) (ec : Code) :
    (∃ more nonces, Sound more ∧
      Stored s.network.enableLoopback nonces (s.handshaking.erase c ++ s.started) ∧
      { s with handshaking := s.handshaking.erase c }.doHandleHandshake ec c =
        { s with
          network := { s.network with faults := s.network.faults ++ more, nonces := nonces }
          handshaking := s.handshaking.erase c }) ∨
    (s.network.isLoopback c = false ∧ (s.network.counted c).Tallied (c :: s.started) ∧
      { s with handshaking := s.handshaking.erase c }.doHandleHandshake ec c =
        { s with
          network := s.network.counted c
          handshaking := s.handshaking.erase c
          started := c :: s.started }) := by
  have hrefused : ∀ more : List Fault,
      ∃ nonces, Stored s.network.enableLoopback nonces (s.handshaking.erase c ++ s.started) ∧
        ({ s.network with faults := s.network.faults ++ more }.unstoreNonce c).2 =
          { s.network with faults := s.network.faults ++ more, nonces := nonces } := by
    intro more
    have hrest : Stored { s.network with faults := s.network.faults ++ more }.enableLoopback
      { s.network with faults := s.network.faults ++ more }.nonces
        (c :: (s.handshaking.erase c ++ s.started)) := h.stored.perm (alive_handshaking hc)
    obtain ⟨nonces, hunstore, hunstored⟩ := Records.unstoreNonce_spec hrest
    exact ⟨nonces, hunstored, congrArg Prod.snd hunstore⟩
  unfold Peers.doHandleHandshake
  by_cases hec : ec = .success
  · rw [if_neg (not_not.mpr hec)]
    rcases Records.countChannel_cases s.network c with
      ⟨code, more, hcount, hcode, hmore⟩ | ⟨hcount, hloop, hendpoint, hinbound, htotal⟩
    · obtain ⟨nonces, hunstored, hunstore⟩ := hrefused more
      simp only [hcount, if_pos hcode, hunstore]
      exact .inl ⟨more, nonces, overflow_sound hmore, hunstored, rfl⟩
    · simp only [hcount]
      rw [if_neg (not_not.mpr rfl)]
      refine .inr ⟨hloop, h.tallied.counted ?_ hendpoint hinbound htotal, rfl⟩
      intro hmem
      obtain ⟨d, hd, heq⟩ := List.mem_map.mp hmem
      exact ((h.others (alive_handshaking hc)).2.1 d (List.mem_append_right _ hd)).2 heq
  · obtain ⟨nonces, hunstored, hunstore⟩ := hrefused []
    have hsame : s.network = { s.network with faults := s.network.faults ++ [] } := by
      rw [List.append_nil]
    rw [← hsame] at hunstore
    simp only [if_pos hec, hunstore]
    refine .inl ⟨[], nonces, ⟨List.not_mem_nil, List.not_mem_nil, List.not_mem_nil⟩, hunstored, ?_⟩
    rw [List.append_nil]

theorem doHandleHandshake_balanced (h : Balanced s) (hc : c ∈ s.handshaking) (ec : Code) :
    Balanced ({ s with handshaking := s.handshaking.erase c }.doHandleHandshake ec c) := by
  rcases doHandleHandshake_cases h hc ec with
    ⟨more, nonces, hmore, hstored, heq⟩ | ⟨-, htallied, heq⟩
  · rw [heq]
    exact (h.faults hmore).fail hc hstored
  · rw [heq]
    exact h.count hc htallied

/-- A counted channel that stops is uncounted. -/
theorem Balanced.uncount {nonces : Finset ℕ} (h : Balanced s) (hc : c ∈ s.started)
    (hstored : Stored s.network.enableLoopback nonces (s.handshaking ++ s.started.erase c))
    (sent received : ℕ) :
    Balanced
      { s with
        network := { s.network with nonces := nonces }.uncounted c sent received
        started := s.started.erase c } := by
  obtain ⟨hdistinct, hothers, hlast⟩ := h.others (alive_started hc)
  have htallied : { s.network with nonces := nonces }.Tallied (c :: s.started.erase c) :=
    { h.tallied.perm (List.perm_cons_erase hc) with }
  have haccounts : ∀ identifier,
      ({ s.network with nonces := nonces }.uncounted c sent received).accounts.filter
        (·.identifier = identifier) = s.accountsOf identifier ++
          if c.identifier = identifier then [.uncounted c.identifier] else [] :=
    fun identifier => filter_account _ _ identifier
  have hsame : ∀ {identifier}, identifier ≠ c.identifier →
      ({ s.network with nonces := nonces }.uncounted c sent received).accounts.filter
        (·.identifier = identifier) = s.accountsOf identifier := by
    intro identifier hne
    rw [haccounts, if_neg hne.symm, List.append_nil]
  exact
  { h with
    stored := hstored
    tallied := htallied.uncounted sent received
    distinct := hdistinct
    given := fun d hd => h.given d (hothers d hd).1
    started := by
      intro d hd
      exact (hsame (hothers d (List.mem_append_right _ hd)).2).trans
        (h.started d (List.mem_of_mem_erase hd))
    fresh := by
      intro identifier hfresh
      refine (hsame ?_).trans (h.fresh identifier hfresh)
      rintro rfl
      exact hfresh (List.mem_map.mpr ⟨c, h.given c (List.mem_append_right _ hc), rfl⟩)
    handshaking := by
      intro d hd
      exact (hsame (hothers d (List.mem_append_left _ hd)).2).trans (h.handshaking d hd)
    ended := by
      intro d hd hdead
      by_cases heq : d.identifier = c.identifier
      · rw [h.same hd (h.given c (List.mem_append_right _ hc)) heq]
        refine .inr ((haccounts _).trans ?_)
        rw [if_pos rfl, h.started c hc]
        rfl
      · have halive : d ∉ s.alive := by
          intro hmem
          exact heq (congrArg _ (hlast d hmem hdead))
        rcases h.ended d hd halive with hnone | hboth
        · exact .inl ((hsame heq).trans hnone)
        · exact .inr ((hsame heq).trans hboth) }

/-- What `do_handle_channel_stopped` does: the nonce is unstored, and the channel is
uncounted. -/
theorem doHandleChannelStopped_cases (h : Balanced s) (hc : c ∈ s.started) (sent received : ℕ) :
    ∃ nonces, Stored s.network.enableLoopback nonces (s.handshaking ++ s.started.erase c) ∧
      { s with started := s.started.erase c }.doHandleChannelStopped c sent received =
        { s with
          network := { s.network with nonces := nonces }.uncounted c sent received
          started := s.started.erase c } := by
  obtain ⟨nonces, hunstore, hunstored⟩ :=
    Records.unstoreNonce_spec (h.stored.perm (alive_started hc))
  have htallied : { s.network with nonces := nonces }.Tallied (c :: s.started.erase c) :=
    { h.tallied.perm (List.perm_cons_erase hc) with }
  refine ⟨nonces, hunstored, ?_⟩
  unfold Peers.doHandleChannelStopped
  dsimp only
  rw [hunstore, Records.uncountChannel_eq htallied]

theorem doHandleChannelStopped_balanced (h : Balanced s) (hc : c ∈ s.started) (sent received : ℕ) :
    Balanced ({ s with started := s.started.erase c }.doHandleChannelStopped c sent received) := by
  obtain ⟨nonces, hstored, heq⟩ := doHandleChannelStopped_cases h hc sent received
  rw [heq]
  exact h.uncount hc hstored sent received

theorem step_balanced (s : Peers Endpoint) (e : Peers.Event Endpoint) (h : Balanced s) :
    Balanced (s.step e) := by
  cases e with
  | start c stopped =>
    show Balanced (if _ then _ else _)
    split
    · exact h
    · exact startChannel_balanced h ‹_› stopped
  | handshake c ec =>
    show Balanced (if _ then _ else _)
    split
    · exact doHandleHandshake_balanced h ‹_› ec
    · exact h
  | stop c sent received =>
    show Balanced (if _ then _ else _)
    split
    · exact doHandleChannelStopped_balanced h ‹_› sent received
    · exact h
  | close => exact { h with tallied := { h.tallied with } }

omit [DecidableEq Endpoint] in
theorem create_balanced (enableLoopback : Bool) :
    Balanced (Peers.create enableLoopback : Peers Endpoint) where
  stored := ⟨fun nonce => by simp [Peers.create, Peers.alive], List.nodup_nil⟩
  tallied :=
    { actives := List.Perm.nil
      identifiers := List.nodup_nil
      endpoints := fun host => by simp [Peers.create]
      distinct := List.nodup_nil
      endpointsCount := rfl
      inbound := rfl
      inboundBound := Nat.two_pow_pos 64
      total := rfl
      totalBound := Nat.two_pow_pos 64 }
  identifiers := List.nodup_nil
  distinct := List.nodup_nil
  given _ hd := absurd hd List.not_mem_nil
  started _ hd := absurd hd List.not_mem_nil
  fresh _ _ := rfl
  handshaking _ hd := absurd hd List.not_mem_nil
  ended _ hd := absurd hd List.not_mem_nil
  sound := ⟨List.not_mem_nil, List.not_mem_nil, List.not_mem_nil⟩

theorem run_balanced (enableLoopback : Bool) (events : List (Peers.Event Endpoint)) :
    Balanced (after Peers.step (Peers.create enableLoopback) events) :=
  after_invariant step_balanced (create_balanced enableLoopback) events

end

/-! ### Nonces of peers -/

section
variable {s : Peers Endpoint} {c d : PeerChannel Endpoint}

/-- What a step can do to two channels, of which the one is counted behind it and the
other under way. -/
theorem step_cases (h : Balanced s) (e : Peers.Event Endpoint) (hc : c ∈ (s.step e).started)
    (hd : d ∈ (s.step e).alive) :
    (c ∈ s.started ∧ d ∈ s.alive) ∨ (c ∈ s.started ∧ d ∉ s.given) ∨
      (s.network.isLoopback c = false ∧ d ∈ s.alive) := by
  cases e with
  | start c' stopped =>
    simp only [Peers.step] at hc hd
    split at hc
    · rename_i hmem
      rw [if_pos hmem] at hd
      exact .inl ⟨hc, hd⟩
    · rename_i hfresh
      rw [if_neg hfresh] at hd
      rcases startChannel_cases h hfresh stopped with ⟨more, -, heq⟩ | ⟨nonces, -, heq⟩
      · rw [heq] at hc hd
        exact .inl ⟨hc, hd⟩
      · rw [heq] at hc hd
        rcases List.mem_cons.mp hd with rfl | hd
        · refine .inr (.inl ⟨hc, ?_⟩)
          intro hgiven
          exact hfresh (List.mem_map.mpr ⟨d, hgiven, rfl⟩)
        · exact .inl ⟨hc, hd⟩
  | handshake c' ec =>
    simp only [Peers.step] at hc hd
    split at hc
    · rename_i hmem
      rw [if_pos hmem] at hd
      rcases doHandleHandshake_cases h hmem ec with ⟨more, nonces, -, -, heq⟩ | ⟨hloop, -, heq⟩
      · rw [heq] at hc hd
        exact .inl ⟨hc, ((h.others (alive_handshaking hmem)).2.1 d hd).1⟩
      · rw [heq] at hc hd
        have halive : d ∈ s.alive :=
          (alive_handshaking hmem).symm.subset (List.perm_middle.subset hd)
        rcases List.mem_cons.mp hc with rfl | hc
        · exact .inr (.inr ⟨hloop, halive⟩)
        · exact .inl ⟨hc, halive⟩
    · rename_i hmem
      rw [if_neg hmem] at hd
      exact .inl ⟨hc, hd⟩
  | stop c' sent received =>
    simp only [Peers.step] at hc hd
    split at hc
    · rename_i hmem
      rw [if_pos hmem] at hd
      obtain ⟨nonces, -, heq⟩ := doHandleChannelStopped_cases h hmem sent received
      rw [heq] at hc hd
      exact .inl ⟨List.mem_of_mem_erase hc, ((h.others (alive_started hmem)).2.1 d hd).1⟩
    · rename_i hmem
      rw [if_neg hmem] at hd
      exact .inl ⟨hc, hd⟩
  | close => exact .inl ⟨hc, hd⟩

theorem step_enableLoopback (h : Balanced s) (e : Peers.Event Endpoint) :
    (s.step e).network.enableLoopback = s.network.enableLoopback := by
  cases e with
  | start c stopped =>
    simp only [Peers.step]
    split
    · rfl
    · rcases startChannel_cases h ‹_› stopped with ⟨more, -, heq⟩ | ⟨nonces, -, heq⟩
      · rw [heq]
      · rw [heq]
  | handshake c ec =>
    simp only [Peers.step]
    split
    · rcases doHandleHandshake_cases h ‹_› ec with ⟨more, nonces, -, -, heq⟩ | ⟨-, -, heq⟩
      · rw [heq]
      · rw [heq]
        rfl
    · rfl
  | stop c sent received =>
    simp only [Peers.step]
    split
    · obtain ⟨nonces, -, heq⟩ := doHandleChannelStopped_cases h ‹_› sent received
      rw [heq]
      rfl
    · rfl
  | close => rfl

end

section
variable {enableLoopback : Bool}

theorem run_enableLoopback (events : List (Peers.Event Endpoint)) :
    (after Peers.step (Peers.create enableLoopback) events).network.enableLoopback =
      enableLoopback := by
  refine (after_invariant
    (P := fun s => Balanced s ∧ s.network.enableLoopback = enableLoopback) ?_
      ⟨create_balanced enableLoopback, rfl⟩ events).2
  intro s e h
  exact ⟨step_balanced s e h.1, (step_enableLoopback h.1 e).trans h.2⟩

/-- An inbound channel that is counted was, before the other channel was given. -/
def Since (enableLoopback : Bool) (events : List (Peers.Event Endpoint))
    (c d : PeerChannel Endpoint) : Prop :=
  ∃ earlier later, events = earlier ++ later ∧
    c ∈ (after Peers.step (Peers.create enableLoopback) earlier).counted ∧
      d ∉ (after Peers.step (Peers.create enableLoopback) earlier).given

/-- Where the nonce of the peer of a counted inbound channel is that of one that is
under way, the latter was given since the former was counted. -/
theorem run_since (events : List (Peers.Event Endpoint)) {c d : PeerChannel Endpoint}
    (hc : c ∈ (after Peers.step (Peers.create enableLoopback) events).started)
    (hd : d ∈ (after Peers.step (Peers.create enableLoopback) events).alive)
    (hinbound : c.inbound = true) (hstores : d.stores enableLoopback = true)
    (hnonce : d.nonce = c.peerNonce) : Since enableLoopback events c d := by
  induction events using List.reverseRecOn with
  | nil => cases hc
  | append_singleton events e ih =>
    rw [after_append] at hc hd
    have h := run_balanced enableLoopback events
    rcases step_cases h e hc hd with ⟨hc, hd⟩ | ⟨hc, hd⟩ | ⟨hloop, hd⟩
    · obtain ⟨earlier, later, rfl, hrest⟩ := ih hc hd
      exact ⟨earlier, later ++ [e], List.append_assoc _ _ _, hrest⟩
    · exact ⟨events, [e], rfl, h.counted.symm.subset hc, hd⟩
    · -- the nonce was stored when the channel was counted
      have hstored := h.stored.nonces d.nonce
      rw [run_enableLoopback] at hstored
      have hmem := hstored.mpr ⟨d, hd, hstores, rfl⟩
      have hsetting : enableLoopback = false := by
        unfold PeerChannel.stores at hstores
        cases enableLoopback
        · rfl
        · cases hstores
      unfold Records.isLoopback at hloop
      rw [run_enableLoopback, hsetting, hinbound, if_neg (by decide), ← hnonce,
        decide_eq_false_iff_not] at hloop
      exact absurd (hsetting ▸ hmem) hloop

/-- In every run the records are exact; and where a counted inbound channel is of a
peer whose nonce is stored, a channel that was given since then has stored it. -/
theorem channels_accounted (enableLoopback : Bool) (events : List (Peers.Event Endpoint)) :
    Exact (after Peers.step (Peers.create enableLoopback) events) ∧
      ∀ c ∈ (after Peers.step (Peers.create enableLoopback) events).counted, c.inbound = true →
        c.peerNonce ∈ (after Peers.step (Peers.create enableLoopback) events).network.nonces →
          ∃ d ∈ (after Peers.step (Peers.create enableLoopback) events).given,
            d.inbound = false ∧ d.nonce = c.peerNonce ∧ Since enableLoopback events c d := by
  have h := run_balanced enableLoopback events
  refine ⟨h.exact, ?_⟩
  intro c hc hinbound hnonce
  obtain ⟨d, hd, hstores, hdnonce⟩ := (h.stored.nonces _).mp hnonce
  rw [run_enableLoopback] at hstores
  refine ⟨d, h.given d hd, ?_, hdnonce,
    run_since events (h.counted.subset hc) hd hinbound hstores hdnonce⟩
  unfold PeerChannel.stores at hstores
  rw [Bool.not_eq_true', Bool.or_eq_false_iff] at hstores
  exact hstores.2

/-- An inbound channel is counted, and then an outbound one is given whose nonce is that
of its peer. -/
def sameNonce : List (Peers.Event ℕ) :=
  let inbound : PeerChannel ℕ :=
    { identifier := 1, endpoint := 1, nonce := 5, peerNonce := 7, inbound := true, quiet := false }
  let outbound : PeerChannel ℕ :=
    { identifier := 2, endpoint := 2, nonce := 7, peerNonce := 9, inbound := false, quiet := false }
  [.start inbound false, .handshake inbound .success, .start outbound false]

theorem not_channels_accounted :
    ¬∀ events : List (Peers.Event ℕ), Exact (after Peers.step (Peers.create false) events) ∧
      ∀ c ∈ (after Peers.step (Peers.create false) events).counted, c.inbound = true →
        c.peerNonce ∉ (after Peers.step (Peers.create false) events).network.nonces := by
  intro h
  exact absurd (h sameNonce).2 (by decide)

end

end BitcoinNetwork.Sessions
