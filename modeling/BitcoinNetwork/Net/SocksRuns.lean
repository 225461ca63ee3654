import BitcoinNetwork.Net.Socks

/-!
# Runs of the dialogue with a proxy

What was read is what the phase has behind it of the messages of the proxy, and
what was written is a beginning of the messages to it.
-/

namespace BitcoinNetwork.Net.Socks
open Async Binary

/-! ### Messages -/

/-- The address of a socket as it is stored, with ip addresses of version 4 mapped. -/
def Stored : Peer.Address → Prop
  | .of .ipv4 value => value.length = 16 ∧ Peer.isV4 value = true
  | .of .ipv6 value => value.length = 16 ∧ Peer.isV4 value = false
  | _ => True

section Messages
variable (s : Settings) (toHost : Peer.Address → Bytes) (destination : Destination)

/-- What the destination is to the proxy. -/
def Destination.target : Target :=
  match destination.address.address with
  | .of .ipv4 value => .ipv4 (value.drop 12)
  | .of .ipv6 value => .ipv6 value
  | _ => .name (destination.name toHost)

/-- The request of rfc1928 to connect to the destination. -/
def Destination.message : Message :=
  ⟨version, connect, reserved, destination.target toHost, destination.port⟩

/-- What the proxy sends ahead of its reply, of the method and of the authentication. -/
def opening : Bytes :=
  [version, s.method] ++
    if s.method = methodClear then [] else [methodBasicVersion, methodBasicSuccess]

/-- What is written ahead of the request. -/
def prelude : List Bytes :=
  s.greeting :: if s.method = methodClear then [] else [s.authenticator]

/-- The credentials fit what they are written in. -/
def CredentialsFit : Prop :=
  s.method = methodClear ∨ (s.username.length ≤ 255 ∧ s.password.length ≤ 255)

/-- What is written in the dialogue. -/
def messages : List Bytes :=
  prelude s ++ match destination.request toHost with
    | .error _ => []
    | .ok request => [request]

end Messages

variable {s : Settings} {toHost : Peer.Address → Bytes} {destination : Destination}

theorem Destination.request_ip {network : Peer.Network} {value : Bytes}
    (haddress : destination.address.address = .of network value)
    (hnetwork : network = .ipv4 ∨ network = .ipv6) :
    destination.request toHost = .ok ([version, connect, reserved] ++
      (if network = .ipv4 then addressIpv4 else addressIpv6) ::
        denormalize value ++ toBytes 2 destination.port.toNat) := by
  unfold Destination.request
  rcases hnetwork with rfl | rfl
  · rw [haddress]
    rfl
  · rw [haddress]
    rfl

/-- The request is refused, or is the message of the destination. -/
def Destination.Requests (toHost : Peer.Address → Bytes) (destination : Destination) : Prop :=
  (destination.request toHost = .error .socksHostName ∧
    ∃ name, destination.target toHost = .name name ∧ 255 ≤ name.length) ∨
  (destination.request toHost = .ok (destination.message toHost).encode ∧
    (destination.target toHost).Fits ∧
    ∀ name, destination.target toHost = .name name → name.length < 255)

theorem Destination.requests_name
    (htarget : destination.target toHost = .name (destination.name toHost))
    (hrequest : destination.request toHost =
      if isLimited ((destination.name toHost).length + 1) then .error .socksHostName
      else .ok ([version, connect, reserved] ++
        addressFqdn :: UInt8.ofNat (destination.name toHost).length :: destination.name toHost ++
          toBytes 2 destination.port.toNat)) :
    destination.Requests toHost := by
  by_cases hlimited : isLimited ((destination.name toHost).length + 1) = true
  · rw [if_pos hlimited] at hrequest
    refine .inl ⟨hrequest, _, htarget, ?_⟩
    exact Nat.le_of_lt_succ (of_decide_eq_true hlimited)
  · rw [if_neg hlimited] at hrequest
    rw [isLimited, decide_eq_true_eq, not_lt] at hlimited
    refine .inr ⟨?_, ?_, ?_⟩
    · rw [hrequest, Message.encode, Message.header, Destination.message, htarget]
      rfl
    · rw [htarget]
      exact (Nat.le_succ _).trans hlimited
    · intro name hname
      rw [htarget] at hname
      cases hname
      exact hlimited

/-- The octets of an ip address are those that it is stored with. -/
theorem Destination.requests_ip {network : Peer.Network} {value octets : Bytes}
    (haddress : destination.address.address = .of network value)
    (hnetwork : network = .ipv4 ∨ network = .ipv6) (hoctets : denormalize value = octets)
    (htarget : destination.target toHost =
      if network = .ipv4 then .ipv4 octets else .ipv6 octets)
    (hfits : (destination.target toHost).Fits) : destination.Requests toHost := by
  have hrequest := @Destination.request_ip toHost _ _ _ haddress hnetwork
  rw [hoctets] at hrequest
  refine .inr ⟨?_, hfits, ?_⟩
  · rw [hrequest, Message.encode, Message.header, Destination.message, htarget]
    rcases hnetwork with rfl | rfl
    · rfl
    · rfl
  · intro name hname
    rw [htarget] at hname
    split at hname
    · cases hname
    · cases hname

theorem Destination.requests (hstored : Stored destination.address.address) :
    destination.Requests toHost := by
  generalize haddress : destination.address.address = address at hstored
  have hname (hip : ∀ value, address ≠ .of .ipv4 value ∧ address ≠ .of .ipv6 value) :
      destination.Requests toHost := by
    refine Destination.requests_name ?_ ?_
    · unfold Destination.target
      rw [haddress]
      split
      · exact absurd rfl (hip _).1
      · exact absurd rfl (hip _).2
      · rfl
    · unfold Destination.request
      rw [haddress]
      dsimp only
      split
      · exact absurd rfl (hip _).1
      · exact absurd rfl (hip _).2
      · rfl
  cases address with
  | unset => exact hname fun _ => ⟨fun hc => (by cases hc), fun hc => by cases hc⟩
  | of network value =>
    cases network with
    | ipv4 =>
      obtain ⟨hlength, hmapped⟩ := hstored
      have htarget : destination.target toHost = .ipv4 (value.drop 12) := by
        rw [Destination.target, haddress]
      refine Destination.requests_ip haddress (.inl rfl) (if_pos hmapped) htarget ?_
      rw [htarget]
      show (value.drop 12).length = 4
      rw [List.length_drop, hlength]
    | ipv6 =>
      obtain ⟨hlength, hmapped⟩ := hstored
      have htarget : destination.target toHost = .ipv6 value := by
        rw [Destination.target, haddress]
      refine Destination.requests_ip haddress (.inr rfl) (if_neg (Bool.not_eq_true _ ▸ hmapped)) htarget ?_
      rw [htarget]
      exact hlength
    | torv2 => exact hname fun _ => ⟨fun hc => (by cases hc), fun hc => by cases hc⟩
    | torv3 => exact hname fun _ => ⟨fun hc => (by cases hc), fun hc => by cases hc⟩
    | i2p => exact hname fun _ => ⟨fun hc => (by cases hc), fun hc => by cases hc⟩
    | cjdns => exact hname fun _ => ⟨fun hc => (by cases hc), fun hc => by cases hc⟩

/-! ### Phases -/

/-- The bytes of a reply ahead of the last that is read of it, and how many these are. -/
inductive Heads : Bytes → ℕ → Prop
  | ipv4 : Heads [version, 0, reserved, addressIpv4] (4 + portSize)
  | ipv6 : Heads [version, 0, reserved, addressIpv6] (16 + portSize)
  | fqdn (length : UInt8) :
    Heads [version, 0, reserved, addressFqdn, length] (length.toNat + portSize)

/-- Why a dialogue ends short of the reply, by what was read. -/
inductive Cause (s : Settings) (toHost : Peer.Address → Bytes) (destination : Destination)
    (consumed : Bytes) : SocksCode → Prop
  | method (size : consumed.length = 2) (differs : consumed ≠ [version, s.method]) :
    Cause s toHost destination consumed .socksMethod
  | username (method : s.method ≠ methodClear) (long : 255 < s.username.length) :
    Cause s toHost destination consumed .socksUsername
  | password (method : s.method ≠ methodClear) (long : 255 < s.password.length) :
    Cause s toHost destination consumed .socksPassword
  | authentication (response : Bytes) (method : s.method ≠ methodClear)
    (read : consumed = [version, s.method] ++ response) (size : response.length = 2)
    (differs : response ≠ [methodBasicVersion, methodBasicSuccess]) :
    Cause s toHost destination consumed .socksAuthentication
  | hostName (fit : CredentialsFit s) (refused : destination.request toHost = .error .socksHostName) :
    Cause s toHost destination consumed .socksHostName
  | invalid (ver rep rsv atyp : UInt8) (read : consumed = opening s ++ [ver, rep, rsv, atyp])
    (differs : ver ≠ version ∨ rsv ≠ reserved ∨
      (rep = 0 ∧ atyp ≠ addressIpv4 ∧ atyp ≠ addressIpv6 ∧ atyp ≠ addressFqdn)) :
    Cause s toHost destination consumed .socksResponseInvalid
  | refused (rep atyp : UInt8) (read : consumed = opening s ++ [version, rep, reserved, atyp])
    (code : rep ≠ 0) :
    Cause s toHost destination consumed (socksResponse rep)

/-- The reply grants the connect, and is read to its end. -/
def Granted (s : Settings) (consumed : Bytes) : Prop :=
  ∃ reply : Message, reply.target.Fits ∧ reply.version = version ∧ reply.code = 0 ∧
    reply.reserved = reserved ∧ consumed = opening s ++ reply.encode

/-- The codes of a transport that fails, or of a socket that is stopped. -/
def Disturbs (ec : SocksCode) : Prop :=
  ec = .channelStopped ∨ ec = .operationFailed ∨ ∃ value, ec = .other value

section Phases
variable (s : Settings) (toHost : Peer.Address → Bytes) (destination : Destination)

/-- The request was written, and nothing behind it. -/
def Requested (d : Dialogue) : Prop :=
  CredentialsFit s ∧ ∃ request, destination.request toHost = .ok request ∧
    d.written = prelude s ++ [request]

/-- What was read and written in a phase. -/
def Awaits (disturbed : Prop) (d : Dialogue) : Prop :=
  match d.phase with
  | .idle => d.consumed = [] ∧ d.written = []
  | .greetingWrite => d.consumed = [] ∧ d.written = [s.greeting]
  | .methodRead => d.consumed = d.buffer ∧ d.buffer.length < 2 ∧ d.written = [s.greeting]
  | .authenticationWrite =>
    d.consumed = [version, s.method] ∧ s.method ≠ methodClear ∧ CredentialsFit s ∧
      d.written = [s.greeting, s.authenticator]
  | .authenticationRead =>
    d.consumed = [version, s.method] ++ d.buffer ∧ d.buffer.length < 2 ∧ s.method ≠ methodClear ∧
      CredentialsFit s ∧ d.written = [s.greeting, s.authenticator]
  | .connectWrite => d.consumed = opening s ∧ Requested s toHost destination d
  | .responseRead =>
    d.consumed = opening s ++ d.buffer ∧ d.buffer.length < 4 ∧ Requested s toHost destination d
  | .lengthRead =>
    d.consumed = opening s ++ ([version, 0, reserved, addressFqdn] ++ d.buffer) ∧
      d.buffer.length < 1 ∧ Requested s toHost destination d
  | .addressRead size =>
    ∃ head, Heads head size ∧ d.consumed = opening s ++ (head ++ d.buffer) ∧
      d.buffer.length < size ∧ Requested s toHost destination d
  | .finished ec =>
    (ec = .success ∧ Granted s d.consumed ∧ Requested s toHost destination d) ∨
      Cause s toHost destination d.consumed ec ∨ (disturbed ∧ Disturbs ec)

structure Base (disturbed : Prop) (d : Dialogue) : Prop where
  written : d.written <+: messages s toHost destination
  stopped : d.stopped = true → disturbed

structure Inv (disturbed : Prop) (d : Dialogue) : Prop extends Base s toHost destination disturbed d where
  awaits : Awaits s toHost destination disturbed d

end Phases

section Steps
variable {disturbed : Prop} {d : Dialogue} {ec : SocksCode}

theorem Inv.initial : Inv s toHost destination disturbed {} :=
  ⟨⟨List.nil_prefix, nofun⟩, rfl, rfl⟩

theorem Base.finish (h : Base s toHost destination disturbed d)
    (hcause : Cause s toHost destination d.consumed ec ∨ (disturbed ∧ Disturbs ec)) :
    Inv s toHost destination disturbed (d.finish ec) :=
  ⟨⟨h.written, h.stopped⟩, .inr hcause⟩

/-- A handler goes on where the socket is not stopped and nothing failed. -/
theorem Base.guard (h : Base s toHost destination disturbed d)
    (hec : ec ≠ .success → disturbed ∧ Disturbs ec) {next : Dialogue}
    (hnext : ec = .success → Inv s toHost destination disturbed next) :
    Inv s toHost destination disturbed
      (if d.result ec ≠ .success then d.finish (d.result ec) else next) := by
  unfold Dialogue.result
  by_cases hstopped : d.stopped = true
  · rw [if_pos hstopped, if_pos (by decide)]
    exact h.finish (.inr ⟨h.stopped hstopped, .inl rfl⟩)
  · rw [if_neg hstopped]
    split
    · rename_i hfailed
      exact h.finish (.inr (hec hfailed))
    · rename_i hsuccess
      exact hnext (not_not.mp hsuccess)

theorem Base.read (h : Base s toHost destination disturbed d) (phase : Phase) :
    Base s toHost destination disturbed (d.tcpRead phase) := ⟨h.written, h.stopped⟩

theorem prelude_clear (hmethod : s.method = methodClear) : prelude s = [s.greeting] := by
  rw [prelude, if_pos hmethod]

theorem prelude_basic (hmethod : s.method ≠ methodClear) :
    prelude s = [s.greeting, s.authenticator] := by
  rw [prelude, if_neg hmethod]

theorem opening_clear (hmethod : s.method = methodClear) : opening s = [version, s.method] := by
  rw [opening, if_pos hmethod, List.append_nil]

theorem opening_basic (hmethod : s.method ≠ methodClear) :
    opening s = [version, s.method] ++ [methodBasicVersion, methodBasicSuccess] := by
  rw [opening, if_neg hmethod]

/-- The request is written behind what is written ahead of it, or is refused. -/
theorem Base.request (h : Base s toHost destination disturbed d) (hfit : CredentialsFit s)
    (hwritten : d.written = prelude s) (hconsumed : d.consumed = opening s)
    (hrequests : destination.Requests toHost) :
    Inv s toHost destination disturbed (d.doSocksConnectWrite toHost destination) := by
  unfold Dialogue.doSocksConnectWrite
  rcases hrequests with ⟨hrefused, -⟩ | ⟨hok, -⟩
  · rw [hrefused]
    exact h.finish (.inl (.hostName hfit hrefused))
  · rw [hok]
    have hmessages : messages s toHost destination
        = prelude s ++ [(destination.message toHost).encode] := by
      rw [messages, hok]
    refine ⟨⟨?_, h.stopped⟩, hconsumed, hfit, _, hok, ?_⟩
    · rw [hmessages]
      show d.written ++ _ <+: _
      rw [hwritten]
    · show d.written ++ _ = _
      rw [hwritten]

theorem Inv.handleWrite (h : Inv s toHost destination disturbed d)
    (hec : ec ≠ .success → disturbed ∧ Disturbs ec) {size : ℕ}
    (hsize : size ≠ (d.written.getLastD []).length → disturbed) :
    Inv s toHost destination disturbed (d.handleWrite s ec size) := by
  have hawaits := h.awaits
  have hshort {expected : Bytes} (hlast : d.written.getLastD [] = expected) {next : Dialogue}
      (hnext : Inv s toHost destination disturbed next) :
      Inv s toHost destination disturbed
        (if size ≠ expected.length then d.finish .operationFailed else next) := by
    split
    · rename_i hdiffers
      exact h.finish (.inr ⟨hsize (hlast ▸ hdiffers), .inr (.inl rfl)⟩)
    · exact hnext
  unfold Dialogue.handleWrite
  cases hphase : d.phase with
  | greetingWrite =>
    rw [Awaits, hphase] at hawaits
    obtain ⟨hconsumed, hwritten⟩ := hawaits
    refine h.guard hec fun _ => hshort (by rw [hwritten]; rfl) ⟨h.read _, hconsumed, Nat.two_pos, hwritten⟩
  | authenticationWrite =>
    rw [Awaits, hphase] at hawaits
    obtain ⟨hconsumed, hmethod, hfit, hwritten⟩ := hawaits
    refine h.guard hec fun _ => hshort (by rw [hwritten]; rfl)
      ⟨h.read _, ?_, Nat.two_pos, hmethod, hfit, hwritten⟩
    exact hconsumed
  | connectWrite =>
    rw [Awaits, hphase] at hawaits
    obtain ⟨hconsumed, hrequested⟩ := hawaits
    refine h.guard hec fun _ => hshort rfl ⟨h.read _, ?_, Nat.succ_pos 3, hrequested⟩
    exact hconsumed.trans (List.append_nil _).symm
  | _ => exact h

/-- A read that fails ends the dialogue. -/
theorem Inv.handleRead_fails (h : Inv s toHost destination disturbed d) (hdisturbed : disturbed)
    (value : ℕ) :
    Inv s toHost destination disturbed (d.handleRead s toHost destination (.other value)) := by
  have hguard (next : Dialogue) := @Base.guard s toHost destination disturbed d (.other value)
    h.toBase (fun _ => ⟨hdisturbed, .inr (.inr ⟨value, rfl⟩)⟩) next nofun
  unfold Dialogue.handleRead
  cases d.phase with
  | methodRead => exact hguard _
  | authenticationRead => exact hguard _
  | responseRead => exact hguard _
  | lengthRead => exact hguard _
  | addressRead size => exact hguard _
  | _ => exact h

/-! ### Reads that are full -/

theorem Base.methodRead (h : Base s toHost destination disturbed d)
    (hrequests : destination.Requests toHost) (hconsumed : d.consumed = d.buffer)
    (hsize : d.buffer.length = 2) (hwritten : d.written = [s.greeting]) :
    Inv s toHost destination disturbed
      (d.handleSocksMethodRead s toHost destination .success) := by
  refine h.guard (absurd rfl) fun _ => ?_
  by_cases hmethod : d.buffer = [version, s.method]
  · rw [if_neg (not_not.mpr hmethod)]
    split_ifs with hclear hname hpass
    · exact h.request (.inl hclear) (by rw [hwritten, prelude_clear hclear])
        (by rw [hconsumed, hmethod, opening_clear hclear]) hrequests
    · exact h.finish (.inl (.username hclear (of_decide_eq_true hname)))
    · exact h.finish (.inl (.password hclear (of_decide_eq_true hpass)))
    · rw [isLimited, decide_eq_true_eq, not_lt] at hname hpass
      refine ⟨⟨?_, h.stopped⟩, hconsumed.trans hmethod, hclear, .inr ⟨hname, hpass⟩, ?_⟩
      · show d.written ++ [s.authenticator] <+: _
        rw [hwritten, messages, prelude_basic hclear]
        exact List.prefix_append _ _
      · show d.written ++ [s.authenticator] = _
        rw [hwritten]
        rfl
  · rw [if_pos hmethod]
    exact h.finish (.inl (.method (hconsumed ▸ hsize) (hconsumed ▸ hmethod)))

theorem Base.authenticationRead (h : Base s toHost destination disturbed d)
    (hrequests : destination.Requests toHost)
    (hconsumed : d.consumed = [version, s.method] ++ d.buffer) (hsize : d.buffer.length = 2)
    (hmethod : s.method ≠ methodClear) (hfit : CredentialsFit s)
    (hwritten : d.written = [s.greeting, s.authenticator]) :
    Inv s toHost destination disturbed
      (d.handleSocksAuthenticationRead toHost destination .success) := by
  refine h.guard (absurd rfl) fun _ => ?_
  by_cases hresponse : d.buffer = [methodBasicVersion, methodBasicSuccess]
  · rw [if_neg (not_not.mpr hresponse)]
    exact h.request hfit (by rw [hwritten, prelude_basic hmethod])
      (by rw [hconsumed, hresponse, opening_basic hmethod]) hrequests
  · rw [if_pos hresponse]
    exact h.finish (.inl (.authentication d.buffer hmethod hconsumed hsize hresponse))

theorem socksResponse_success (rep : UInt8) : socksResponse rep = .success ↔ rep = 0 := by
  constructor
  · intro hsuccess
    unfold socksResponse at hsuccess
    split_ifs at hsuccess with hzero
    exact hzero
  · rintro rfl
    rfl

theorem Base.responseRead (h : Base s toHost destination disturbed d)
    (hconsumed : d.consumed = opening s ++ d.buffer) (hsize : d.buffer.length = 4)
    (hrequested : Requested s toHost destination d) :
    Inv s toHost destination disturbed (d.handleSocksResponseRead .success) := by
  refine h.guard (absurd rfl) fun _ => ?_
  obtain ⟨ver, rep, rsv, atyp, hbuffer⟩ : ∃ ver rep rsv atyp, d.buffer = [ver, rep, rsv, atyp] := by
    match d.buffer, hsize with
    | [ver, rep, rsv, atyp], _ => exact ⟨ver, rep, rsv, atyp, rfl⟩
  rw [hbuffer] at hconsumed ⊢
  dsimp only
  split_ifs with hinvalid hrefused hv4 hv6 hname
  · refine h.finish (.inl (.invalid ver rep rsv atyp hconsumed ?_))
    exact hinvalid.imp_right .inl
  · obtain ⟨rfl, rfl⟩ : ver = version ∧ rsv = reserved := by
      rw [not_or, not_not, not_not] at hinvalid
      exact hinvalid
    exact h.finish (.inl (.refused rep atyp hconsumed (mt (socksResponse_success rep).mpr hrefused)))
  all_goals
    obtain ⟨rfl, rfl⟩ : ver = version ∧ rsv = reserved := by
      rw [not_or, not_not, not_not] at hinvalid
      exact hinvalid
    obtain rfl := (socksResponse_success rep).mp (not_not.mp hrefused)
  · subst hv4
    exact ⟨h.read _, _, .ipv4, hconsumed.trans (congrArg _ (List.append_nil _).symm), Nat.succ_pos _,
      hrequested⟩
  · subst hv6
    exact ⟨h.read _, _, .ipv6, hconsumed.trans (congrArg _ (List.append_nil _).symm), Nat.succ_pos _,
      hrequested⟩
  · subst hname
    exact ⟨h.read _, hconsumed.trans (congrArg _ (List.append_nil _).symm), Nat.one_pos, hrequested⟩
  · exact h.finish (.inl (.invalid _ _ _ atyp hconsumed (.inr (.inr ⟨rfl, hv4, hv6, hname⟩))))

theorem Base.lengthRead (h : Base s toHost destination disturbed d)
    (hconsumed : d.consumed = opening s ++ ([version, 0, reserved, addressFqdn] ++ d.buffer))
    (hsize : d.buffer.length = 1) (hrequested : Requested s toHost destination d) :
    Inv s toHost destination disturbed (d.handleSocksLengthRead .success) := by
  refine h.guard (absurd rfl) fun _ => ?_
  obtain ⟨length, hbuffer⟩ := List.length_eq_one_iff.mp hsize
  rw [hbuffer] at hconsumed ⊢
  exact ⟨h.read _, _, .fqdn length, hconsumed.trans (congrArg _ (List.append_nil _).symm),
    Nat.succ_pos _, hrequested⟩

/-- The bytes behind a head are those of an address and a port. -/
theorem Heads.reply {head bytes : Bytes} {size : ℕ} (h : Heads head size)
    (hsize : bytes.length = size) :
    ∃ reply : Message, reply.target.Fits ∧ reply.version = version ∧ reply.code = 0 ∧
      reply.reserved = reserved ∧ head ++ bytes = reply.encode := by
  set port : ℕ → UInt16 := fun count => UInt16.ofNat (ofBytes (bytes.drop count)) with hnumber
  have hport (count : ℕ) (hcount : bytes.length = count + portSize) :
      toBytes 2 (port count).toNat = bytes.drop count := by
    have hlength : (bytes.drop count).length = 2 := by
      rw [List.length_drop, hcount, portSize, Nat.add_sub_cancel_left]
    have hlt := ofBytes_lt (bytes.drop count)
    rw [hlength] at hlt
    rw [hnumber, UInt16.toNat_ofNat_of_lt' hlt]
    have hbytes := toBytes_ofBytes (bytes.drop count)
    rwa [hlength] at hbytes
  have htake (count : ℕ) (hcount : bytes.length = count + portSize) :
      (bytes.take count).length = count :=
    List.length_take_of_le (hcount ▸ Nat.le_add_right _ _)
  cases h with
  | ipv4 =>
    refine ⟨⟨version, 0, reserved, .ipv4 (bytes.take 4), port 4⟩, htake 4 hsize, rfl, rfl, rfl, ?_⟩
    rw [Message.encode, hport 4 hsize]
    show _ = _ ++ (bytes.take 4 ++ bytes.drop 4)
    rw [List.take_append_drop]
    rfl
  | ipv6 =>
    refine ⟨⟨version, 0, reserved, .ipv6 (bytes.take 16), port 16⟩, htake 16 hsize, rfl, rfl, rfl,
      ?_⟩
    rw [Message.encode, hport 16 hsize]
    show _ = _ ++ (bytes.take 16 ++ bytes.drop 16)
    rw [List.take_append_drop]
    rfl
  | fqdn length =>
    have hname := htake length.toNat hsize
    refine ⟨⟨version, 0, reserved, .name (bytes.take length.toNat), port length.toNat⟩, ?_, rfl,
      rfl, rfl, ?_⟩
    · show (bytes.take length.toNat).length ≤ 255
      rw [hname]
      exact Nat.le_of_lt_succ length.toNat_lt
    · rw [Message.encode, hport length.toNat hsize, Target.encode, hname, UInt8.ofNat_toNat]
      show _ = _ ++ (length :: (bytes.take length.toNat ++ bytes.drop length.toNat))
      rw [List.take_append_drop]
      rfl

theorem Base.addressRead (h : Base s toHost destination disturbed d) {head : Bytes} {size : ℕ}
    (hhead : Heads head size) (hconsumed : d.consumed = opening s ++ (head ++ d.buffer))
    (hsize : d.buffer.length = size) (hrequested : Requested s toHost destination d) :
    Inv s toHost destination disturbed (d.handleSocksAddressRead .success size) := by
  refine h.guard (absurd rfl) fun _ => ?_
  rw [if_neg (not_not.mpr hsize)]
  obtain ⟨reply, hfits, hversion, hcode, hreserved, hreply⟩ := hhead.reply hsize
  refine ⟨⟨h.written, h.stopped⟩, .inl ⟨rfl, ⟨reply, hfits, hversion, hcode, hreserved, ?_⟩,
    hrequested⟩⟩
  rw [← hreply]
  exact hconsumed

/-- A dialogue with some more bytes in the buffer of its read. -/
def moved (d : Dialogue) (bytes rest : Bytes) : Dialogue :=
  { d with
    buffer := d.buffer ++ bytes
    consumed := d.consumed ++ bytes
    available := rest }

/-- A transfer moves bytes that have arrived, and no more than are asked for. -/
theorem transfer_eq (d : Dialogue) {size : ℕ} (hreads : d.phase.reads = some size)
    (hsize : d.buffer.length ≤ size) (count : ℕ) :
    ∃ bytes rest, d.available = bytes ++ rest ∧ (d.buffer ++ bytes).length ≤ size ∧
      d.transfer s toHost destination count =
        if (d.buffer ++ bytes).length = size then
          (moved d bytes rest).handleRead s toHost destination .success
        else moved d bytes rest := by
  refine ⟨d.available.take (min count (size - d.buffer.length)),
    d.available.drop (min count (size - d.buffer.length)), (List.take_append_drop _ _).symm, ?_, ?_⟩
  · rw [List.length_append, List.length_take]
    omega
  · unfold Dialogue.transfer
    rw [hreads]
    rfl

theorem Inv.transfer (h : Inv s toHost destination disturbed d)
    (hrequests : destination.Requests toHost) (count : ℕ) :
    Inv s toHost destination disturbed (d.transfer s toHost destination count) := by
  have hawaits := h.awaits
  have hbase (bytes rest : Bytes) : Base s toHost destination disturbed (moved d bytes rest) :=
    ⟨h.written, h.stopped⟩
  have hread {size : ℕ} (hreads : d.phase.reads = some size) (hsize : d.buffer.length < size)
      (hfull : ∀ bytes rest, (d.buffer ++ bytes).length = size → Inv s toHost destination disturbed
        ((moved d bytes rest).handleRead s toHost destination .success))
      (hmore : ∀ bytes rest, (d.buffer ++ bytes).length < size →
        Awaits s toHost destination disturbed (moved d bytes rest)) :
      Inv s toHost destination disturbed (d.transfer s toHost destination count) := by
    obtain ⟨bytes, rest, -, hle, heq⟩ :=
      @transfer_eq s toHost destination d size hreads hsize.le count
    rw [heq]
    split
    · rename_i hequal
      exact hfull bytes rest hequal
    · rename_i hshort
      exact ⟨hbase bytes rest, hmore bytes rest (Nat.lt_of_le_of_ne hle hshort)⟩
  have hhandle (bytes rest : Bytes) : (moved d bytes rest).phase = d.phase := rfl
  cases hphase : d.phase with
  | methodRead =>
    rw [Awaits, hphase] at hawaits
    obtain ⟨hconsumed, hsize, hwritten⟩ := hawaits
    have hmoved (bytes rest : Bytes) :
        (moved d bytes rest).consumed = (moved d bytes rest).buffer := congrArg (· ++ bytes) hconsumed
    refine hread (by rw [hphase]; rfl) hsize (fun bytes rest hfull => ?_) fun bytes rest hshort => ?_
    · rw [Dialogue.handleRead, hhandle, hphase]
      exact (hbase bytes rest).methodRead hrequests (hmoved bytes rest) hfull hwritten
    · rw [Awaits, hhandle, hphase]
      exact ⟨hmoved bytes rest, hshort, hwritten⟩
  | authenticationRead =>
    rw [Awaits, hphase] at hawaits
    obtain ⟨hconsumed, hsize, hmethod, hfit, hwritten⟩ := hawaits
    have hmoved (bytes rest : Bytes) : (moved d bytes rest).consumed =
        [version, s.method] ++ (moved d bytes rest).buffer := by
      show d.consumed ++ bytes = _ ++ (d.buffer ++ bytes)
      rw [hconsumed, List.append_assoc]
    refine hread (by rw [hphase]; rfl) hsize (fun bytes rest hfull => ?_) fun bytes rest hshort => ?_
    · rw [Dialogue.handleRead, hhandle, hphase]
      exact (hbase bytes rest).authenticationRead hrequests (hmoved bytes rest) hfull hmethod hfit
        hwritten
    · rw [Awaits, hhandle, hphase]
      exact ⟨hmoved bytes rest, hshort, hmethod, hfit, hwritten⟩
  | responseRead =>
    rw [Awaits, hphase] at hawaits
    obtain ⟨hconsumed, hsize, hrequested⟩ := hawaits
    have hmoved (bytes rest : Bytes) : (moved d bytes rest).consumed =
        opening s ++ (moved d bytes rest).buffer := by
      show d.consumed ++ bytes = _ ++ (d.buffer ++ bytes)
      rw [hconsumed, List.append_assoc]
    refine hread (by rw [hphase]; rfl) hsize (fun bytes rest hfull => ?_) fun bytes rest hshort => ?_
    · rw [Dialogue.handleRead, hhandle, hphase]
      exact (hbase bytes rest).responseRead (hmoved bytes rest) hfull hrequested
    · rw [Awaits, hhandle, hphase]
      exact ⟨hmoved bytes rest, hshort, hrequested⟩
  | lengthRead =>
    rw [Awaits, hphase] at hawaits
    obtain ⟨hconsumed, hsize, hrequested⟩ := hawaits
    have hmoved (bytes rest : Bytes) : (moved d bytes rest).consumed =
        opening s ++ ([version, 0, reserved, addressFqdn] ++ (moved d bytes rest).buffer) := by
      show d.consumed ++ bytes = _ ++ (_ ++ (d.buffer ++ bytes))
      rw [hconsumed, List.append_assoc, List.append_assoc]
    refine hread (by rw [hphase]; rfl) hsize (fun bytes rest hfull => ?_) fun bytes rest hshort => ?_
    · rw [Dialogue.handleRead, hhandle, hphase]
      exact (hbase bytes rest).lengthRead (hmoved bytes rest) hfull hrequested
    · rw [Awaits, hhandle, hphase]
      exact ⟨hmoved bytes rest, hshort, hrequested⟩
  | addressRead size =>
    rw [Awaits, hphase] at hawaits
    obtain ⟨head, hhead, hconsumed, hsize, hrequested⟩ := hawaits
    have hmoved (bytes rest : Bytes) : (moved d bytes rest).consumed =
        opening s ++ (head ++ (moved d bytes rest).buffer) := by
      show d.consumed ++ bytes = _ ++ (_ ++ (d.buffer ++ bytes))
      rw [hconsumed, List.append_assoc, List.append_assoc]
    refine hread (by rw [hphase]; rfl) hsize (fun bytes rest hfull => ?_) fun bytes rest hshort => ?_
    · rw [Dialogue.handleRead, hhandle, hphase]
      exact (hbase bytes rest).addressRead hhead (hmoved bytes rest) hfull hrequested
    · rw [Awaits, hhandle, hphase]
      exact ⟨head, hhead, hmoved bytes rest, hshort, hrequested⟩
  | _ =>
    unfold Dialogue.transfer
    rw [hphase]
    exact h

/-- An event by which nothing fails. -/
def Event.Smooth : Event → Prop
  | .connected ec => ec = none
  | .arrives _ | .transfers _ | .flushes => True
  | .writes _ _ | .fails _ | .stop => False

theorem transportCode_disturbs {ec : Option ℕ} (h : transportCode ec ≠ .success) :
    ec ≠ none ∧ Disturbs (transportCode ec) := by
  cases ec with
  | none => exact absurd rfl h
  | some value => exact ⟨Option.some_ne_none _, .inr (.inr ⟨value, rfl⟩)⟩

theorem Inv.step (h : Inv s toHost destination disturbed d)
    (hrequests : destination.Requests toHost) {event : Event} (hevent : ¬event.Smooth → disturbed) :
    Inv s toHost destination disturbed (d.step s toHost destination event) := by
  cases event with
  | connected ec =>
    show Inv s toHost destination disturbed
      (if d.phase = .idle then d.doSocksGreetingWrite s (transportCode ec) else d)
    split
    · rename_i hphase
      have hawaits := h.awaits
      rw [Awaits, hphase] at hawaits
      obtain ⟨hconsumed, hwritten⟩ := hawaits
      refine h.guard (fun hfailed => ?_) fun _ => ?_
      · obtain ⟨hsome, hdisturbs⟩ := transportCode_disturbs hfailed
        exact ⟨hevent hsome, hdisturbs⟩
      · refine ⟨⟨?_, h.stopped⟩, hconsumed, ?_⟩
        · show d.written ++ [s.greeting] <+: _
          rw [hwritten, messages, prelude]
          exact ⟨_, rfl⟩
        · show d.written ++ [s.greeting] = _
          rw [hwritten]
          rfl
    · exact h
  | arrives segment => exact ⟨⟨h.written, h.stopped⟩, h.awaits⟩
  | transfers count => exact h.transfer hrequests count
  | flushes => exact h.handleWrite (absurd rfl) (absurd rfl)
  | writes ec size =>
    have hdisturbed : disturbed := hevent not_false
    exact h.handleWrite (fun hfailed => ⟨hdisturbed, (transportCode_disturbs hfailed).2⟩)
      fun _ => hdisturbed
  | fails ec => exact h.handleRead_fails (hevent not_false) ec
  | stop => exact ⟨⟨h.written, fun _ => hevent not_false⟩, h.awaits⟩

end Steps

/-- What holds of the dialogue behind any events. -/
theorem inv_run (hrequests : destination.Requests toHost) (events : List Event) :
    Inv s toHost destination (∃ event ∈ events, ¬event.Smooth)
      (Dialogue.run s toHost destination events) := by
  have hrun (disturbed : Prop) (hevents : ∀ event ∈ events, ¬event.Smooth → disturbed) :
      Inv s toHost destination disturbed (Dialogue.run s toHost destination events) := by
    unfold Dialogue.run
    have hinitial : Inv s toHost destination disturbed {} := .initial
    generalize ({} : Dialogue) = d at hinitial ⊢
    induction events generalizing d with
    | nil => exact hinitial
    | cons event events ih =>
      exact ih (fun later hlater => hevents later (List.mem_cons_of_mem _ hlater)) _
        (hinitial.step hrequests (hevents event List.mem_cons_self))
  exact hrun _ fun event hevent hsmooth => ⟨event, hevent, hsmooth⟩

end BitcoinNetwork.Net.Socks
