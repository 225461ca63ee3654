import BitcoinNetwork.Net.Channels

/-!
# Records that are those of some channels

The records that the nonces of channels are stored in, and those that channels are
counted in, with what each operation makes of them.
-/

namespace BitcoinNetwork.Net
variable {Endpoint : Type} [DecidableEq Endpoint]

/-! ### Stored nonces -/

/-- The nonce of the channel is stored while it is under way. -/
def PeerChannel.stores (enableLoopback : Bool) (c : PeerChannel Endpoint) : Bool :=
  !(enableLoopback || c.inbound)

/-- The nonces are those of the channels that store one, and these are distinct. -/
structure Stored (enableLoopback : Bool) (nonces : Finset ℕ) (alive : List (PeerChannel Endpoint)) :
    Prop where
  nonces : ∀ nonce, nonce ∈ nonces ↔ ∃ c ∈ alive, c.stores enableLoopback ∧ c.nonce = nonce
  distinct : ((alive.filter (·.stores enableLoopback)).map (·.nonce)).Nodup

section
variable {enableLoopback : Bool} {nonces : Finset ℕ} {alive : List (PeerChannel Endpoint)}

omit [DecidableEq Endpoint]

theorem Stored.perm {alive' : List (PeerChannel Endpoint)} (h : Stored enableLoopback nonces alive)
    (hperm : alive.Perm alive') : Stored enableLoopback nonces alive' where
  nonces nonce := by
    rw [h.nonces nonce]
    constructor
    · rintro ⟨c, hmem, hc⟩
      exact ⟨c, hperm.subset hmem, hc⟩
    · rintro ⟨c, hmem, hc⟩
      exact ⟨c, hperm.symm.subset hmem, hc⟩
  distinct := ((hperm.filter _).map _).nodup_iff.mp h.distinct

theorem stored_cons_of_not {c : PeerChannel Endpoint} (hstores : c.stores enableLoopback = false) :
    Stored enableLoopback nonces (c :: alive) ↔ Stored enableLoopback nonces alive := by
  have hfilter : (c :: alive).filter (·.stores enableLoopback) =
      alive.filter (·.stores enableLoopback) := by
    rw [List.filter_cons, if_neg (by rw [hstores]; exact Bool.false_ne_true)]
  have hmem : ∀ nonce, (∃ d ∈ c :: alive, d.stores enableLoopback ∧ d.nonce = nonce) ↔
      ∃ d ∈ alive, d.stores enableLoopback ∧ d.nonce = nonce := by
    intro nonce
    constructor
    · rintro ⟨d, hd, hdstores, hnonce⟩
      rcases List.mem_cons.mp hd with rfl | hd
      · rw [hstores] at hdstores
        cases hdstores
      · exact ⟨d, hd, hdstores, hnonce⟩
    · rintro ⟨d, hd, hrest⟩
      exact ⟨d, List.mem_cons_of_mem _ hd, hrest⟩
  constructor
  · intro h
    exact ⟨fun nonce => (h.nonces nonce).trans (hmem nonce), hfilter ▸ h.distinct⟩
  · intro h
    exact ⟨fun nonce => (h.nonces nonce).trans (hmem nonce).symm, hfilter ▸ h.distinct⟩

theorem Stored.insert {c : PeerChannel Endpoint} (h : Stored enableLoopback nonces alive)
    (hstores : c.stores enableLoopback = true) (hnonce : c.nonce ∉ nonces) :
    Stored enableLoopback (insert c.nonce nonces) (c :: alive) where
  nonces nonce := by
    rw [Finset.mem_insert, h.nonces nonce]
    constructor
    · rintro (rfl | ⟨d, hd, hrest⟩)
      · exact ⟨c, List.mem_cons_self, hstores, rfl⟩
      · exact ⟨d, List.mem_cons_of_mem _ hd, hrest⟩
    · rintro ⟨d, hd, hdstores, hdnonce⟩
      rcases List.mem_cons.mp hd with rfl | hd
      · exact .inl hdnonce.symm
      · exact .inr ⟨d, hd, hdstores, hdnonce⟩
  distinct := by
    rw [List.filter_cons, if_pos hstores, List.map_cons, List.nodup_cons]
    refine ⟨?_, h.distinct⟩
    intro hmem
    obtain ⟨d, hd, hdnonce⟩ := List.mem_map.mp hmem
    obtain ⟨hd, hdstores⟩ := List.mem_filter.mp hd
    exact hnonce ((h.nonces c.nonce).mpr ⟨d, hd, hdstores, hdnonce⟩)

theorem Stored.erase {c : PeerChannel Endpoint} (h : Stored enableLoopback nonces (c :: alive))
    (hstores : c.stores enableLoopback = true) :
    c.nonce ∈ nonces ∧ Stored enableLoopback (nonces.erase c.nonce) alive := by
  have hdistinct := h.distinct
  rw [List.filter_cons, if_pos hstores, List.map_cons, List.nodup_cons] at hdistinct
  obtain ⟨hfresh, hrest⟩ := hdistinct
  refine ⟨(h.nonces c.nonce).mpr ⟨c, List.mem_cons_self, hstores, rfl⟩, ?_, hrest⟩
  intro nonce
  rw [Finset.mem_erase, h.nonces nonce]
  constructor
  · rintro ⟨hne, d, hd, hdstores, hdnonce⟩
    rcases List.mem_cons.mp hd with rfl | hd
    · exact absurd hdnonce.symm hne
    · exact ⟨d, hd, hdstores, hdnonce⟩
  · rintro ⟨d, hd, hdstores, hdnonce⟩
    refine ⟨?_, d, List.mem_cons_of_mem _ hd, hdstores, hdnonce⟩
    rintro rfl
    exact hfresh (List.mem_map.mpr ⟨d, List.mem_filter.mpr ⟨hd, hdstores⟩, hdnonce⟩)

end

namespace Records
variable {n : Records Endpoint} {c : PeerChannel Endpoint} {alive started : List (PeerChannel Endpoint)}

omit [DecidableEq Endpoint] in
/-- A nonce is stored, but where one that is the same is. -/
theorem storeNonce_spec (h : Stored n.enableLoopback n.nonces alive) :
    n.storeNonce c = (false, n.fault .storeNonce) ∨
      ∃ nonces, n.storeNonce c = (true, { n with nonces := nonces }) ∧
        Stored n.enableLoopback nonces (c :: alive) := by
  unfold storeNonce
  by_cases hskip : (n.enableLoopback || c.inbound) = true
  · rw [if_pos hskip]
    refine .inr ⟨n.nonces, rfl, (stored_cons_of_not ?_).mpr h⟩
    unfold PeerChannel.stores
    rw [hskip]
    rfl
  · rw [if_neg hskip]
    by_cases hmem : c.nonce ∈ n.nonces
    · rw [if_pos hmem]
      exact .inl rfl
    · rw [if_neg hmem]
      refine .inr ⟨_, rfl, h.insert ?_ hmem⟩
      unfold PeerChannel.stores
      rw [Bool.eq_false_of_not_eq_true hskip]
      rfl

omit [DecidableEq Endpoint] in
/-- The nonce of a channel that is under way is found. -/
theorem unstoreNonce_spec (h : Stored n.enableLoopback n.nonces (c :: alive)) :
    ∃ nonces, n.unstoreNonce c = (true, { n with nonces := nonces }) ∧
      Stored n.enableLoopback nonces alive := by
  unfold unstoreNonce
  by_cases hskip : (n.enableLoopback || c.inbound) = true
  · rw [if_pos hskip]
    refine ⟨n.nonces, rfl, (stored_cons_of_not ?_).mp h⟩
    unfold PeerChannel.stores
    rw [hskip]
    rfl
  · rw [if_neg hskip]
    have hstores : c.stores n.enableLoopback = true := by
      unfold PeerChannel.stores
      rw [Bool.eq_false_of_not_eq_true hskip]
      rfl
    obtain ⟨hmem, herase⟩ := h.erase hstores
    rw [if_pos hmem]
    exact ⟨_, rfl, herase⟩

/-! ### Counted channels -/

/-- The records in which channels are counted are those of the channels. -/
structure Tallied (n : Records Endpoint) (started : List (PeerChannel Endpoint)) : Prop where
  actives : n.actives.Perm (started.map (·.identifier))
  identifiers : (started.map (·.identifier)).Nodup
  endpoints : ∀ host, host ∈ n.endpoints ↔ ∃ c ∈ started, c.endpoint = host
  distinct : (started.map (·.endpoint)).Nodup
  endpointsCount : n.endpointsCount = started.length % 2 ^ 64
  inbound : n.inboundChannelCount = started.countP (·.inbound)
  inboundBound : n.inboundChannelCount < 2 ^ 64
  total : n.totalChannelCount = started.countP (fun c => !c.quiet)
  totalBound : n.totalChannelCount < 2 ^ 64

omit [DecidableEq Endpoint] in
theorem Tallied.perm {started' : List (PeerChannel Endpoint)} (h : n.Tallied started)
    (hperm : started.Perm started') : n.Tallied started' where
  actives := h.actives.trans (hperm.map _)
  identifiers := (hperm.map _).nodup_iff.mp h.identifiers
  endpoints host := by
    rw [h.endpoints host]
    constructor
    · rintro ⟨c, hmem, hc⟩
      exact ⟨c, hperm.subset hmem, hc⟩
    · rintro ⟨c, hmem, hc⟩
      exact ⟨c, hperm.symm.subset hmem, hc⟩
  distinct := (hperm.map _).nodup_iff.mp h.distinct
  endpointsCount := by rw [h.endpointsCount, hperm.length_eq]
  inbound := h.inbound.trans (hperm.countP_eq _)
  inboundBound := h.inboundBound
  total := h.total.trans (hperm.countP_eq _)
  totalBound := h.totalBound

end Records

theorem add1_eq {value : ℕ} (hbound : value < 2 ^ 64) (h : add1 value ≠ 0) :
    add1 value = value + 1 ∧ value + 1 < 2 ^ 64 := by
  unfold add1 at h ⊢
  omega

theorem sub1_succ (value : ℕ) : sub1 (value + 1) = value := by
  unfold sub1
  rw [if_neg (Nat.succ_ne_zero _), Nat.add_sub_cancel]

theorem add1_mod (value : ℕ) : add1 (value % 2 ^ 64) = (value + 1) % 2 ^ 64 := by
  unfold add1
  omega

theorem sub1_mod (value : ℕ) : sub1 ((value + 1) % 2 ^ 64) = value % 2 ^ 64 := by
  unfold sub1
  split <;> omega

namespace Records
variable {n : Records Endpoint} {c : PeerChannel Endpoint} {started : List (PeerChannel Endpoint)}

omit [DecidableEq Endpoint] in
/-- A count that goes up for some of the channels. -/
theorem count_up {value : ℕ} {p : PeerChannel Endpoint → Bool} (hvalue : value = started.countP p)
    (hbound : value < 2 ^ 64) (hup : ¬(p c && add1 value == 0) = true) :
    (if p c then add1 value else value) = (c :: started).countP p ∧
      (if p c then add1 value else value) < 2 ^ 64 := by
  rw [List.countP_cons, ← hvalue]
  cases hp : p c with
  | false => exact ⟨rfl, hbound⟩
  | true =>
    rw [hp, Bool.true_and, beq_iff_eq] at hup
    obtain ⟨hadd, hless⟩ := add1_eq hbound hup
    rw [if_pos rfl, if_pos rfl, hadd]
    exact ⟨rfl, hless⟩

omit [DecidableEq Endpoint] in
/-- A count that goes down for the same channels is not zero. -/
theorem count_down {value : ℕ} {p : PeerChannel Endpoint → Bool}
    (hvalue : value = (c :: started).countP p) (hbound : value < 2 ^ 64) :
    (p c && value == 0) = false ∧ (if p c then sub1 value else value) = started.countP p ∧
      (if p c then sub1 value else value) < 2 ^ 64 := by
  rw [List.countP_cons] at hvalue
  cases hp : p c with
  | false =>
    rw [hp, if_neg Bool.false_ne_true, Nat.add_zero] at hvalue
    rw [if_neg Bool.false_ne_true]
    exact ⟨Bool.false_and _, hvalue, hbound⟩
  | true =>
    rw [hp, if_pos rfl] at hvalue
    have hsub : sub1 value = started.countP p := by
      rw [hvalue, sub1_succ]
    have hzero : (value == 0) = false := by
      rw [hvalue]
      exact beq_false_of_ne (Nat.succ_ne_zero _)
    rw [if_pos rfl, hsub, hzero]
    rw [hvalue] at hbound
    exact ⟨rfl, rfl, Nat.lt_of_succ_lt hbound⟩

/-- The records behind the guards of `count_channel`. -/
def counted (n : Records Endpoint) (c : PeerChannel Endpoint) : Records Endpoint :=
  { n with
    endpoints := insert c.endpoint n.endpoints
    endpointsCount := add1 n.endpointsCount
    inboundChannelCount := if c.inbound then add1 n.inboundChannelCount else n.inboundChannelCount
    totalChannelCount := if !c.quiet then add1 n.totalChannelCount else n.totalChannelCount
    actives := n.actives ++ [c.identifier]
    accounts := n.accounts ++ [.counted c.identifier] }

/-- The records behind `uncount_channel`, where neither count is zero. -/
def uncounted (n : Records Endpoint) (c : PeerChannel Endpoint) (sent received : ℕ) :
    Records Endpoint :=
  { n with
    endpoints := n.endpoints.erase c.endpoint
    endpointsCount := sub1 n.endpointsCount
    peerSent := ceilingedAdd n.peerSent sent
    peerReceived := ceilingedAdd n.peerReceived received
    inboundChannelCount := if c.inbound then sub1 n.inboundChannelCount else n.inboundChannelCount
    totalChannelCount := if !c.quiet then sub1 n.totalChannelCount else n.totalChannelCount
    actives := n.actives.filter (· ≠ c.identifier)
    accounts := n.accounts ++ [.uncounted c.identifier] }

/-- What `count_channel` does: a channel that it refuses changes nothing, but that an
overflow is logged, and one that it counts is not of a nonce that is stored. -/
theorem countChannel_cases (n : Records Endpoint) (c : PeerChannel Endpoint) :
    (∃ code more, n.countChannel c = (code, { n with faults := n.faults ++ more }) ∧
      code ≠ .success ∧ ∀ fault ∈ more, fault = .inboundOverflow ∨ fault = .totalOverflow) ∨
    (n.countChannel c = (.success, n.counted c) ∧ n.isLoopback c = false ∧
      c.endpoint ∉ n.endpoints ∧ ¬(c.inbound && add1 n.inboundChannelCount == 0) = true ∧
      ¬(!c.quiet && add1 n.totalChannelCount == 0) = true) := by
  unfold countChannel
  have hsame : n = { n with faults := n.faults ++ [] } := by rw [List.append_nil]
  by_cases hclosed : n.closed = true
  · rw [if_pos hclosed]
    exact .inl ⟨_, [], by rw [← hsame], by decide, by simp⟩
  rw [if_neg hclosed]
  by_cases hloop : n.isLoopback c = true
  · rw [if_pos hloop]
    exact .inl ⟨_, [], by rw [← hsame], by decide, by simp⟩
  rw [if_neg hloop]
  by_cases hinbound : (c.inbound && add1 n.inboundChannelCount == 0) = true
  · rw [if_pos hinbound]
    exact .inl ⟨_, [.inboundOverflow], rfl, by decide, by simp⟩
  rw [if_neg hinbound]
  by_cases htotal : (!c.quiet && add1 n.totalChannelCount == 0) = true
  · rw [if_pos htotal]
    exact .inl ⟨_, [.totalOverflow], rfl, by decide, by simp⟩
  rw [if_neg htotal]
  unfold reserve
  by_cases hmem : c.endpoint ∈ n.endpoints
  · rw [if_pos hmem]
    exact .inl ⟨_, [], by rw [← hsame], by decide, by simp⟩
  rw [if_neg hmem]
  refine .inr ⟨?_, Bool.eq_false_of_not_eq_true hloop, hmem, hinbound, htotal⟩
  unfold counted
  cases c.inbound <;> cases c.quiet <;> rfl

theorem Tallied.counted (h : n.Tallied started) (hfresh : c.identifier ∉ started.map (·.identifier))
    (hendpoint : c.endpoint ∉ n.endpoints)
    (hinbound : ¬(c.inbound && add1 n.inboundChannelCount == 0) = true)
    (htotal : ¬(!c.quiet && add1 n.totalChannelCount == 0) = true) :
    (n.counted c).Tallied (c :: started) where
  actives := (List.perm_append_singleton _ _).trans (h.actives.cons _)
  identifiers := List.nodup_cons.mpr ⟨hfresh, h.identifiers⟩
  endpoints host := by
    show host ∈ insert c.endpoint n.endpoints ↔ _
    rw [Finset.mem_insert, h.endpoints host]
    constructor
    · rintro (rfl | ⟨d, hd, hhost⟩)
      · exact ⟨c, List.mem_cons_self, rfl⟩
      · exact ⟨d, List.mem_cons_of_mem _ hd, hhost⟩
    · rintro ⟨d, hd, hhost⟩
      rcases List.mem_cons.mp hd with rfl | hd
      · exact .inl hhost.symm
      · exact .inr ⟨d, hd, hhost⟩
  distinct := by
    refine List.nodup_cons.mpr ⟨?_, h.distinct⟩
    intro hmem
    obtain ⟨d, hd, hhost⟩ := List.mem_map.mp hmem
    exact hendpoint ((h.endpoints _).mpr ⟨d, hd, hhost⟩)
  endpointsCount := by
    show add1 n.endpointsCount = _
    rw [h.endpointsCount, add1_mod]
    rfl
  inbound := (count_up h.inbound h.inboundBound hinbound).1
  inboundBound := (count_up h.inbound h.inboundBound hinbound).2
  total := (count_up (p := fun d => !d.quiet) h.total h.totalBound htotal).1
  totalBound := (count_up (p := fun d => !d.quiet) h.total h.totalBound htotal).2

/-- Where a channel is counted, `uncount_channel` finds neither count at zero. -/
theorem uncountChannel_eq (h : n.Tallied (c :: started)) (sent received : ℕ) :
    n.uncountChannel c sent received = n.uncounted c sent received := by
  have hendpoint : c.endpoint ∈ n.endpoints :=
    (h.endpoints _).mpr ⟨c, List.mem_cons_self, rfl⟩
  have hinbound := (count_down h.inbound h.inboundBound).1
  have htotal := (count_down (p := fun d => !d.quiet) h.total h.totalBound).1
  have hunreserve : (n.account (.uncounted c.identifier)).unreserve c.endpoint =
      (true, { n.account (.uncounted c.identifier) with
        endpoints := n.endpoints.erase c.endpoint, endpointsCount := sub1 n.endpointsCount }) := by
    unfold unreserve
    exact if_pos hendpoint
  unfold uncountChannel
  dsimp only
  rw [hunreserve]
  refine (if_neg (Bool.eq_false_iff.mp hinbound)).trans
    ((if_neg (Bool.eq_false_iff.mp htotal)).trans ?_)
  unfold uncounted
  cases c.inbound <;> cases c.quiet <;> rfl

theorem Tallied.uncounted (h : n.Tallied (c :: started)) (sent received : ℕ) :
    (n.uncounted c sent received).Tallied started where
  actives := by
    have hactives := h.actives.filter (fun identifier => decide (identifier ≠ c.identifier))
    have hfresh := (List.nodup_cons.mp h.identifiers).1
    rw [List.map_cons, List.filter_cons, if_neg (by simp)] at hactives
    have hrest : (started.map (·.identifier)).filter
        (fun identifier => decide (identifier ≠ c.identifier)) = started.map (·.identifier) := by
      refine List.filter_eq_self.mpr ?_
      intro identifier hmem
      refine decide_eq_true ?_
      rintro rfl
      exact hfresh hmem
    rw [hrest] at hactives
    exact hactives
  identifiers := (List.nodup_cons.mp h.identifiers).2
  endpoints host := by
    show host ∈ n.endpoints.erase c.endpoint ↔ _
    rw [Finset.mem_erase, h.endpoints host]
    constructor
    · rintro ⟨hne, d, hd, hhost⟩
      rcases List.mem_cons.mp hd with rfl | hd
      · exact absurd hhost.symm hne
      · exact ⟨d, hd, hhost⟩
    · rintro ⟨d, hd, rfl⟩
      refine ⟨?_, d, List.mem_cons_of_mem _ hd, rfl⟩
      intro heq
      exact (List.nodup_cons.mp h.distinct).1 (List.mem_map.mpr ⟨d, hd, heq⟩)
  distinct := (List.nodup_cons.mp h.distinct).2
  endpointsCount := by
    show sub1 n.endpointsCount = _
    rw [h.endpointsCount, List.length_cons, sub1_mod]
  inbound := (count_down h.inbound h.inboundBound).2.1
  inboundBound := (count_down h.inbound h.inboundBound).2.2
  total := (count_down (p := fun d => !d.quiet) h.total h.totalBound).2.1
  totalBound := (count_down (p := fun d => !d.quiet) h.total h.totalBound).2.2

end Records

end BitcoinNetwork.Net
