import BitcoinNetwork.Net.Growth
import BitcoinNetwork.Zmtp.Exchange

/-!
# Keepalive of a zmtp channel (net/proxy_actions.cpp)

What is read is absorbed by the proxy if its method is ping or pong, and is otherwise
delivered to the channel. A ping is answered by a pong of the write queue.
-/

namespace BitcoinNetwork.Zmtp
open Async Binary Net
open Http (ascii)

/-- What was read and accepted, and whether the channel was stopped by then. -/
structure Receipt where
  handed : Handed
  request : Request
  stopped : Bool

/-- A pong for the write queue, by the number of its entry. -/
structure Pong where
  number : ℕ
  request : Request
  stopped : Bool

/-- A zmtp channel: its socket, with the parts of a message that is read, its proxy, and the
request that is read into. What was received, delivered to the channel and answered, in
order; and whether a read has failed, behind which the channel reads no more. -/
structure Channel where
  role : Role
  identity : Bytes
  proxy : Proxy
  parts : List Frame := []
  request : Request := {}
  failed : Bool := false
  received : List Receipt := []
  delivered : List Receipt := []
  pongs : List Pong := []

/-- `to_context`. -/
def toContext : Option Params → Value
  | some (.array (_ :: context :: _)) => context
  | _ => .null

/-- The pong that `absorb_keepalive` makes. -/
def makeAnswer (ping : Request) : Request where
  method := methodPong
  params := some (.array [toContext ping.params])

namespace Channel

/-- `absorb_keepalive`, if it returns true. -/
def absorbKeepalive (ch : Channel) (value : Request) : Option Channel :=
  if value.method = methodPing then
    let pong := Pong.mk ch.proxy.count (makeAnswer value) ch.proxy.stopped
    some { ch with proxy := ch.proxy.call (.message true 0), pongs := ch.pongs ++ [pong] }
  else if value.method = methodPong then some ch
  else none

/-- `handle_rpc_read` of a zmtp socket. A read that is delivered is followed by the next, into
a new request. -/
def handleRpcRead (ch : Channel) (handed : Handed) : Channel :=
  match handed.request ch.request ch.role ch.identity with
  | .error _ => { ch with failed := true }
  | .ok value =>
    let receipt := Receipt.mk handed value ch.proxy.stopped
    let ch := { ch with received := ch.received ++ [receipt] }
    match ch.absorbKeepalive value with
    | some ch => { ch with request := value }
    | none => { ch with request := {}, delivered := ch.delivered ++ [receipt] }

/-- A frame is read, or the proxy does something else. -/
inductive Event
  | frame (frame : Frame)
  | proxy (event : Proxy.Event)

def step (ch : Channel) : Event → Channel
  | .frame frame =>
    if ch.failed then ch
    else
      match handleZmtpRead ch.parts frame with
      | .inl parts => { ch with parts := parts }
      | .inr handed => handleRpcRead { ch with parts := [] } handed
  | .proxy event => { ch with proxy := ch.proxy.step event }

/-- A channel before anything is read. -/
def create (role : Role) (identity : Bytes) (maximumBacklog : ℕ) : Channel where
  role := role
  identity := identity
  proxy := Proxy.create false true maximumBacklog

end Channel

/-! ### Keepalive -/

/-- A PING command of the content. -/
def Pings (handed : Handed) (content : Bytes) : Prop :=
  ∃ frame, handed = .command frame ∧ nameOf frame.body = some (commandPing, content)

def IsPing : Handed → Bool
  | .command frame => ((nameOf frame.body).map Prod.fst) == some commandPing
  | _ => false

/-- A PING or a PONG command. -/
def IsKeepalive : Handed → Bool
  | .command frame =>
    ((nameOf frame.body).map Prod.fst) == some commandPing ||
      ((nameOf frame.body).map Prod.fst) == some commandPong
  | _ => false

/-- The pong is written as the PONG command that has the context of the PING. -/
def Answers (role : Role) (receipt : Receipt) (pong : Pong) : Prop :=
  ∃ content out, Pings receipt.handed content ∧
    encodeNotification role pong.request = .ok out ∧
    out.bytes = makeCommand commandPong ((content.drop ttlSize).take maximumPingContext)

/-- Everything but PING and PONG commands is delivered to the channel. Each PING is answered
by one pong, in order, which is queued in order unless the bound of the backlog drops it. -/
structure Told (ch : Channel) : Prop where
  delivered : ch.delivered = ch.received.filter fun receipt => !IsKeepalive receipt.handed
  answered : List.Forall₂ (Answers ch.role)
    (ch.received.filter fun receipt => IsPing receipt.handed) ch.pongs
  queued : ((ch.pongs.map Pong.number).filter (· ∉ ch.proxy.refused)).Sublist
    (ch.proxy.queued.map Pending.id)

/-- No message has the method ping or pong, and no PING is read by a channel that is stopped. -/
def Clear (ch : Channel) : Prop :=
  ∀ receipt ∈ ch.received,
    (∀ parts, receipt.handed = .message parts →
      receipt.request.method ≠ methodPing ∧ receipt.request.method ≠ methodPong) ∧
    (IsPing receipt.handed = true → receipt.stopped = false)

/-! ### Methods -/

/-- The method is one that is absorbed. -/
def Absorbs (request : Request) : Bool :=
  request.method == methodPing || request.method == methodPong

theorem commandSubscribe_ne : commandSubscribe ≠ commandPing ∧ commandSubscribe ≠ commandPong ∧
    commandCancel ≠ commandPing ∧ commandCancel ≠ commandPong := by decide

theorem methodSubscribe_ne : methodSubscribe ≠ methodPing ∧ methodSubscribe ≠ methodPong := by
  decide

/-- A command that is accepted has the method of its name. -/
theorem decodeCommand_cases {out request : Request} {role : Role} {frame : Frame}
    (h : decodeCommand out role frame = .ok request) :
    (∃ content ttl, nameOf frame.body = some (commandPing, content) ∧
      request.method = methodPing ∧
      request.params = some (.array [.uint16 ttl, toChunkValue (content.drop ttlSize)])) ∨
    (∃ content, nameOf frame.body = some (commandPong, content) ∧
      request.method = methodPong) ∨
    (∃ name content, nameOf frame.body = some (name, content) ∧ name ≠ commandPing ∧
      name ≠ commandPong ∧ request.method = methodSubscribe) := by
  obtain ⟨hsubping, hsubpong, hcanping, hcanpong⟩ := commandSubscribe_ne
  unfold decodeCommand at h
  split at h
  · cases h
  rename_i name content hname
  split at h
  · rename_i hping
    split at h
    · cases h
    · cases h
      rw [hping] at hname
      exact .inl ⟨content, _, hname, rfl, rfl⟩
  split at h
  · rename_i hpong
    cases h
    rw [hpong] at hname
    exact .inr (.inl ⟨content, hname, rfl⟩)
  rename_i hping hpong
  split at h
  · cases h
    exact .inr (.inr ⟨name, content, hname, hping, hpong, rfl⟩)
  split at h
  · cases h
    exact .inr (.inr ⟨name, content, hname, hping, hpong, rfl⟩)
  · cases h

/-- Of what is accepted a PING or PONG command is told by its method, unless it is a message
of that method. -/
theorem absorbs_iff {out : Request} {role : Role} {identity : Bytes} {receipt : Receipt}
    (h : receipt.handed.request out role identity = .ok receipt.request)
    (hclear : ∀ parts, receipt.handed = .message parts →
      receipt.request.method ≠ methodPing ∧ receipt.request.method ≠ methodPong) :
    Absorbs receipt.request = IsKeepalive receipt.handed ∧
      ((receipt.request.method == methodPing) = IsPing receipt.handed) := by
  unfold Absorbs IsKeepalive IsPing
  cases hhanded : receipt.handed with
  | failed code =>
    rw [hhanded] at h
    cases h
  | message parts =>
    obtain ⟨hping, hpong⟩ := hclear parts hhanded
    simp [hping, hpong]
  | command frame =>
    rw [hhanded] at h
    obtain ⟨content, ttl, hname, hmethod, -⟩ | ⟨content, hname, hmethod⟩ |
      ⟨name, content, hname, hping, hpong, hmethod⟩ := decodeCommand_cases h
    · simp [hname, hmethod]
    · simp [hname, hmethod, methodPing_ne_methodPong.symm, commandPong_ne_commandPing]
    · have hnotPing : (name == commandPing) = false := beq_eq_false_iff_ne.mpr hping
      have hnotPong : (name == commandPong) = false := beq_eq_false_iff_ne.mpr hpong
      have hsubPing : (methodSubscribe == methodPing) = false :=
        beq_eq_false_iff_ne.mpr methodSubscribe_ne.1
      have hsubPong : (methodSubscribe == methodPong) = false :=
        beq_eq_false_iff_ne.mpr methodSubscribe_ne.2
      simp [hname, hmethod, hnotPing, hnotPong, hsubPing, hsubPong]

/-- The answer to a PING. -/
theorem answers_of_pings {out : Request} {role : Role} {identity : Bytes} {receipt : Receipt}
    (h : receipt.handed.request out role identity = .ok receipt.request)
    (hping : IsPing receipt.handed = true) (pong : Pong)
    (hpong : pong.request = makeAnswer receipt.request) : Answers role receipt pong := by
  cases hhanded : receipt.handed with
  | failed code =>
    rw [hhanded] at h
    cases h
  | message parts =>
    rw [hhanded] at hping
    cases hping
  | command frame =>
    rw [hhanded] at h hping
    obtain ⟨content, ttl, hname, -, hparams⟩ | ⟨content, hname, -⟩ |
      ⟨name, content, hname, hne, -, -⟩ := decodeCommand_cases h
    · refine ⟨content, framePacket (makePong (content.drop ttlSize)),
        ⟨frame, hhanded, hname⟩, ?_, framePacket_bytes _⟩
      rw [hpong, makeAnswer, hparams]
      rfl
    · simp [IsPing, hname, commandPong_ne_commandPing] at hping
    · simp [IsPing, hname, hne] at hping

/-! ### Runs -/

/-- What is so of a channel behind any events. -/
structure Settled (ch : Channel) : Prop where
  accepted : ∀ receipt ∈ ch.received,
    ∃ out, receipt.handed.request out ch.role ch.identity = .ok receipt.request
  delivered : ch.delivered = ch.received.filter fun receipt => !Absorbs receipt.request
  answered : List.Forall₂
    (fun receipt pong => pong.request = makeAnswer receipt.request ∧
      pong.stopped = receipt.stopped)
    (ch.received.filter fun receipt => receipt.request.method == methodPing) ch.pongs
  zeromq : ch.proxy.zeromq = true
  inv : Proxy.Inv ch.proxy
  numbers : ∀ pong ∈ ch.pongs, pong.number < ch.proxy.count
  lost : ∀ pong ∈ ch.pongs, pong.stopped = true → pong.number ∉ ch.proxy.ids
  placed : (((ch.pongs.filter fun pong => !pong.stopped).map Pong.number).filter
    (· ∉ ch.proxy.refused)).Sublist (ch.proxy.queued.map Pending.id)

theorem Settled.create (role : Role) (identity : Bytes) (bound : ℕ) :
    Settled (Channel.create role identity bound) where
  accepted := nofun
  delivered := rfl
  answered := .nil
  zeromq := rfl
  inv := Proxy.create_inv false true bound
  numbers := nofun
  lost := nofun
  placed := .slnil

/-- What the proxy does beside. -/
theorem Settled.grown {ch : Channel} (h : Settled ch) {proxy : Proxy}
    (hgrown : Proxy.Grown ch.proxy proxy) (hinv : Proxy.Inv proxy) :
    Settled { ch with proxy := proxy } where
  accepted := h.accepted
  delivered := h.delivered
  answered := h.answered
  zeromq := hgrown.zeromq.trans h.zeromq
  inv := hinv
  numbers pong hpong := (h.numbers pong hpong).trans_le hgrown.count
  lost pong hpong hstopped hid := by
    rcases hgrown.new _ hid with hold | hnew
    · exact h.lost pong hpong hstopped hold
    · exact Nat.not_lt.mpr hnew (h.numbers pong hpong)
  placed := by
    obtain ⟨more, hmore, hids⟩ := hgrown.refused
    have hsame : ∀ id ∈ (ch.pongs.filter fun pong => !pong.stopped).map Pong.number,
        decide (id ∉ proxy.refused) = decide (id ∉ ch.proxy.refused) := by
      intro id hid
      obtain ⟨pong, hpong, rfl⟩ := List.mem_map.mp hid
      have hlt := h.numbers pong (List.mem_filter.mp hpong).1
      have hnot : pong.number ∉ more := fun hmem => Nat.not_lt.mpr (hids _ hmem) hlt
      rw [hmore]
      simp [hnot]
    rw [List.filter_congr hsame]
    exact h.placed.trans (hgrown.queued.sublist.map Pending.id)

/-- A receipt is delivered or absorbed, by its method. -/
theorem Settled.receive {ch : Channel} (h : Settled ch) {receipt : Receipt} {out : Request}
    (haccepted : receipt.handed.request out ch.role ch.identity = .ok receipt.request)
    (hping : receipt.request.method ≠ methodPing) :
    Settled { ch with
      received := ch.received ++ [receipt]
      delivered := if receipt.request.method = methodPong then ch.delivered
        else ch.delivered ++ [receipt] } where
  accepted := List.forall_mem_append.mpr
    ⟨h.accepted, List.forall_mem_singleton.mpr ⟨out, haccepted⟩⟩
  delivered := by
    rw [List.filter_append, List.filter_singleton, ← h.delivered]
    unfold Absorbs
    rw [beq_eq_false_iff_ne.mpr hping, Bool.false_or]
    by_cases hpong : receipt.request.method = methodPong
    · rw [if_pos hpong, beq_iff_eq.mpr hpong]
      exact (List.append_nil _).symm
    · rw [if_neg hpong, beq_eq_false_iff_ne.mpr hpong]
      rfl
  answered := by
    rw [List.filter_append, List.filter_singleton, beq_eq_false_iff_ne.mpr hping, cond_false,
      List.append_nil]
    exact h.answered
  zeromq := h.zeromq
  inv := h.inv
  numbers := h.numbers
  lost := h.lost
  placed := h.placed

/-- A ping is absorbed, and its pong is queued, refused, or lost to a stop. -/
theorem Settled.ping {ch : Channel} (h : Settled ch) {receipt : Receipt} {out : Request}
    (haccepted : receipt.handed.request out ch.role ch.identity = .ok receipt.request)
    (hping : receipt.request.method = methodPing) (hstopped : receipt.stopped = ch.proxy.stopped) :
    Settled { ch with
      received := ch.received ++ [receipt]
      proxy := ch.proxy.call (.message true 0)
      pongs := ch.pongs ++ [⟨ch.proxy.count, makeAnswer receipt.request, ch.proxy.stopped⟩] } := by
  have hcalled := Proxy.call_effect ch.proxy (.message true 0)
  have hgrown := h.grown (Proxy.call_grown ch.proxy (.message true 0)) (hcalled.inv h.inv)
  have hmethod : (receipt.request.method == methodPing) = true := beq_iff_eq.mpr hping
  have hfresh : ch.proxy.count ∉ ch.proxy.ids := fun hmem =>
    Nat.lt_irrefl _ (h.inv.sound.below _ hmem)
  obtain ⟨hcount, hbecomes⟩ := Proxy.message_bounded h.zeromq 0
  refine ⟨?_, ?_, ?_, hgrown.zeromq, hgrown.inv, ?_, ?_, ?_⟩
  · exact List.forall_mem_append.mpr
      ⟨h.accepted, List.forall_mem_singleton.mpr ⟨out, haccepted⟩⟩
  · rw [List.filter_append, List.filter_singleton, Absorbs, hmethod, Bool.true_or]
    exact h.delivered.trans (List.append_nil _).symm
  · rw [List.filter_append, List.filter_singleton, hmethod]
    exact List.rel_append h.answered (.cons ⟨rfl, hstopped.symm⟩ .nil)
  · refine List.forall_mem_append.mpr ⟨hgrown.numbers, List.forall_mem_singleton.mpr ?_⟩
    rw [hcount]
    exact Nat.lt_succ_self _
  · refine List.forall_mem_append.mpr ⟨hgrown.lost, List.forall_mem_singleton.mpr fun hs => ?_⟩
    rcases hbecomes with ⟨-, hids⟩ | ⟨hrunning, -⟩
    · rw [hids]
      exact hfresh
    · rw [show ch.proxy.stopped = true from hs] at hrunning
      cases hrunning
  · rw [List.filter_append, List.map_append, List.filter_append]
    have hplaced := hgrown.placed
    rcases hbecomes with ⟨hs, -⟩ | ⟨hrunning, hrefused | ⟨e, hid, hrefused, hqueued⟩⟩
    · rw [hs]
      exact (List.append_nil _).symm ▸ hplaced
    · rw [hrunning]
      have hdropped : ([ch.proxy.count].filter fun id =>
          decide (id ∉ (ch.proxy.call (.message true 0)).refused)) = [] := by
        rw [hrefused]
        simp
      show (_ ++ ([ch.proxy.count].filter _)).Sublist _
      rw [hdropped, List.append_nil]
      exact hplaced
    · rw [hrunning, hqueued, List.map_append]
      refine List.Sublist.append ?_ ?_
      · rw [hrefused]
        exact h.placed
      · show ([ch.proxy.count].filter _).Sublist [e.id]
        rw [hid]
        exact List.filter_sublist

/-- What the socket keeps for its next read. -/
theorem Settled.reading {ch : Channel} (h : Settled ch) (parts : List Frame) (request : Request)
    (failed : Bool) :
    Settled { ch with parts := parts, request := request, failed := failed } :=
  ⟨h.accepted, h.delivered, h.answered, h.zeromq, h.inv, h.numbers, h.lost, h.placed⟩

theorem Settled.handleRpcRead {ch : Channel} (h : Settled ch) (handed : Handed) :
    Settled (ch.handleRpcRead handed) := by
  unfold Channel.handleRpcRead
  split
  · exact h.reading ch.parts ch.request true
  rename_i value hvalue
  dsimp only
  let receipt := Receipt.mk handed value ch.proxy.stopped
  unfold Channel.absorbKeepalive
  by_cases hping : value.method = methodPing
  · rw [if_pos hping]
    exact (@Settled.ping ch h receipt _ hvalue hping rfl).reading ch.parts value ch.failed
  · rw [if_neg hping]
    have hreceive := @Settled.receive ch h receipt _ hvalue hping
    by_cases hpong : value.method = methodPong
    · rw [if_pos hpong]
      rw [if_pos (show receipt.request.method = methodPong from hpong)] at hreceive
      exact hreceive.reading ch.parts value ch.failed
    · rw [if_neg hpong]
      rw [if_neg (show ¬receipt.request.method = methodPong from hpong)] at hreceive
      exact hreceive.reading ch.parts {} ch.failed

theorem Settled.step {ch : Channel} (h : Settled ch) (e : Channel.Event) :
    Settled (ch.step e) := by
  cases e with
  | proxy event => exact h.grown (Proxy.step_grown ch.proxy event) (h.inv.step event)
  | frame frame =>
    unfold Channel.step
    dsimp only
    split
    · exact h
    · split
      · exact h.reading _ ch.request ch.failed
      · exact (h.reading [] ch.request ch.failed).handleRpcRead _

theorem after_settled (role : Role) (identity : Bytes) (bound : ℕ)
    (events : List Channel.Event) :
    Settled (after Channel.step (Channel.create role identity bound) events) :=
  after_invariant (P := Settled) (fun _ e h => h.step e) (.create role identity bound) events

/-! ### Keepalive is told from data -/

theorem mem_of_forall₂ {α β : Type} {R : α → β → Prop} {as : List α} {bs : List β}
    (h : List.Forall₂ R as bs) : ∀ a ∈ as, ∃ b ∈ bs, R a b := by
  induction h with
  | nil => exact nofun
  | cons hab _ ih =>
    intro a ha
    rcases List.mem_cons.mp ha with rfl | ha
    · exact ⟨_, List.mem_cons_self, hab⟩
    · obtain ⟨b, hb, hr⟩ := ih a ha
      exact ⟨b, List.mem_cons_of_mem _ hb, hr⟩

theorem Settled.told_of_clear {ch : Channel} (h : Settled ch) (hclear : Clear ch) : Told ch := by
  have hsame : ∀ receipt ∈ ch.received, Absorbs receipt.request = IsKeepalive receipt.handed ∧
      (receipt.request.method == methodPing) = IsPing receipt.handed := by
    intro receipt hmem
    obtain ⟨out, haccepted⟩ := h.accepted receipt hmem
    exact absorbs_iff haccepted (hclear receipt hmem).1
  have hanswered := h.answered
  rw [List.filter_congr fun receipt hmem => (hsame receipt hmem).2] at hanswered
  have hrunning : ∀ pong ∈ ch.pongs, pong.stopped = false := by
    intro pong hpong
    obtain ⟨receipt, hmem, -, hstopped⟩ := mem_of_forall₂ hanswered.flip pong hpong
    obtain ⟨hreceived, hping⟩ := List.mem_filter.mp hmem
    rw [hstopped]
    exact (hclear receipt hreceived).2 hping
  refine ⟨?_, ?_, ?_⟩
  · rw [h.delivered]
    exact List.filter_congr fun receipt hmem => by rw [(hsame receipt hmem).1]
  · have hpings : ∀ receipt ∈ ch.received.filter fun receipt => IsPing receipt.handed,
        receipt ∈ ch.received ∧ IsPing receipt.handed = true := fun receipt hmem =>
      List.mem_filter.mp hmem
    refine ((List.forall₂_and_left _ _).mpr ⟨hpings, hanswered⟩).imp ?_
    rintro receipt pong ⟨⟨hmem, hping⟩, hrequest, -⟩
    obtain ⟨out, haccepted⟩ := h.accepted receipt hmem
    exact answers_of_pings haccepted hping pong hrequest
  · have hall : (ch.pongs.filter fun pong => !pong.stopped) = ch.pongs :=
      List.filter_eq_self.mpr fun pong hpong => by rw [hrunning pong hpong]; rfl
    have hplaced := h.placed
    rwa [hall] at hplaced

theorem Settled.clear_of_told {ch : Channel} (h : Settled ch) (htold : Told ch) : Clear ch := by
  intro receipt hmem
  have hdelivered := h.delivered.symm.trans htold.delivered
  constructor
  · intro parts hparts
    -- A message is delivered, and what is delivered is not absorbed.
    have hin : receipt ∈ ch.received.filter fun receipt => !Absorbs receipt.request := by
      rw [hdelivered]
      exact List.mem_filter.mpr ⟨hmem, by rw [hparts]; rfl⟩
    have hnot := (List.mem_filter.mp hin).2
    simpa [Absorbs] using hnot
  · intro hping
    obtain ⟨out, haccepted⟩ := h.accepted receipt hmem
    have hmethod : (receipt.request.method == methodPing) = true := by
      cases hhanded : receipt.handed with
      | message parts =>
        rw [hhanded] at hping
        cases hping
      | failed code =>
        rw [hhanded] at hping
        cases hping
      | command frame =>
        refine (absorbs_iff haccepted fun parts hparts => ?_).2.trans hping
        rw [hhanded] at hparts
        cases hparts
    obtain ⟨pong, hpong, -, hstopped⟩ :=
      mem_of_forall₂ h.answered receipt (List.mem_filter.mpr ⟨hmem, hmethod⟩)
    -- The pong of a PING that is read behind a stop is not queued, nor is it refused.
    by_contra hne
    have hlost := h.lost pong hpong (hstopped.trans (Bool.not_eq_false _ ▸ hne))
    rw [Proxy.mem_ids] at hlost
    have hkept : pong.number ∈
        (ch.pongs.map Pong.number).filter (· ∉ ch.proxy.refused) :=
      List.mem_filter.mpr ⟨List.mem_map_of_mem hpong,
        decide_eq_true fun hid => hlost (.inr (.inr hid))⟩
    exact hlost (.inl (htold.queued.subset hkept))

/-- Keepalive is told from data in every run of a channel, of any role, exactly where no
message has the method of a keepalive and no PING is read by a channel that is stopped. -/
theorem told_iff (role : Role) (identity : Bytes) (bound : ℕ) (events : List Channel.Event) :
    Told (after Channel.step (Channel.create role identity bound) events) ↔
      Clear (after Channel.step (Channel.create role identity bound) events) :=
  ⟨(after_settled role identity bound events).clear_of_told,
    (after_settled role identity bound events).told_of_clear⟩

/-- A message of one part, which is the method of a keepalive. -/
def pingMessage : List Channel.Event := [.frame ⟨0, methodPing⟩]

/-- A puller does not deliver it, and queues a pong. -/
theorem not_told :
    let ch := after Channel.step (Channel.create .puller [] 0) pingMessage
    ch.received.map Receipt.handed = [.message [⟨0, methodPing⟩]] ∧ ch.delivered.length = 0 ∧
      ch.proxy.queued.map Pending.id = ch.pongs.map Pong.number ∧ ch.pongs.length = 1 ∧
      ¬Told ch := by
  refine ⟨by decide, by decide, by decide, by decide,
    fun h => ?_⟩
  have hlength := congrArg List.length h.delivered
  revert hlength
  decide

end BitcoinNetwork.Zmtp
