import BitcoinNetwork.Net.SocksRuns

/-!
# The reply of a proxy

In a run in which nothing fails a reply is read as it arrives, in any segments: to
its end, behind which the stream is that of the peer, or to the code that it refuses by.
-/

namespace BitcoinNetwork.Net.Socks
open Async Binary

variable {s : Settings} {toHost : Peer.Address → Bytes} {destination : Destination}

/-! ### What has arrived -/

/-- The bytes that arrive. -/
def arrived (events : List Event) : Bytes :=
  events.flatMap fun event => match event with
    | .arrives segment => segment
    | _ => []

theorem handleRead_input (d : Dialogue) (ec : SocksCode) :
    (d.handleRead s toHost destination ec).consumed = d.consumed ∧
      (d.handleRead s toHost destination ec).available = d.available := by
  unfold Dialogue.handleRead Dialogue.handleSocksMethodRead Dialogue.handleSocksAuthenticationRead
    Dialogue.handleSocksResponseRead Dialogue.handleSocksLengthRead Dialogue.handleSocksAddressRead
    Dialogue.doSocksConnectWrite
  repeat' split
  all_goals exact ⟨rfl, rfl⟩

theorem handleWrite_input (d : Dialogue) (ec : SocksCode) (size : ℕ) :
    (d.handleWrite s ec size).consumed = d.consumed ∧
      (d.handleWrite s ec size).available = d.available := by
  unfold Dialogue.handleWrite Dialogue.handleSocksGreetingWrite
    Dialogue.handleSocksAuthenticationWrite Dialogue.handleSocksConnectWrite
  repeat' split
  all_goals exact ⟨rfl, rfl⟩

theorem transfer_input (d : Dialogue) (count : ℕ) :
    (d.transfer s toHost destination count).consumed ++
      (d.transfer s toHost destination count).available = d.consumed ++ d.available := by
  unfold Dialogue.transfer
  split
  · rfl
  · dsimp only
    split
    · rw [(handleRead_input _ _).1, (handleRead_input _ _).2, List.append_assoc,
        List.take_append_drop]
    · rw [List.append_assoc, List.take_append_drop]

theorem step_input (d : Dialogue) (event : Event) :
    (d.step s toHost destination event).consumed ++ (d.step s toHost destination event).available
      = d.consumed ++ d.available ++ arrived [event] := by
  cases event with
  | connected ec =>
    rw [Dialogue.step, arrived, List.flatMap_singleton, List.append_nil]
    unfold Dialogue.doSocksGreetingWrite
    split
    · split
      · rfl
      · rfl
    · rfl
  | arrives segment =>
    rw [arrived, List.flatMap_singleton, List.append_assoc]
    rfl
  | transfers count =>
    rw [arrived, List.flatMap_singleton, List.append_nil]
    exact transfer_input d count
  | flushes =>
    rw [Dialogue.step, (handleWrite_input _ _ _).1, (handleWrite_input _ _ _).2, arrived,
      List.flatMap_singleton, List.append_nil]
  | writes ec size =>
    rw [Dialogue.step, (handleWrite_input _ _ _).1, (handleWrite_input _ _ _).2, arrived,
      List.flatMap_singleton, List.append_nil]
  | fails ec =>
    rw [Dialogue.step, (handleRead_input _ _).1, (handleRead_input _ _).2, arrived,
      List.flatMap_singleton, List.append_nil]
  | stop =>
    rw [arrived, List.flatMap_singleton, List.append_nil]
    rfl

/-- What has arrived was read, or is there to be read. -/
theorem run_input (events : List Event) :
    (Dialogue.run s toHost destination events).consumed ++
      (Dialogue.run s toHost destination events).available = arrived events := by
  have hrun (d : Dialogue) :
      (after (Dialogue.step s toHost destination) d events).consumed ++
        (after (Dialogue.step s toHost destination) d events).available
          = d.consumed ++ d.available ++ arrived events := by
    induction events generalizing d with
    | nil => exact (List.append_nil _).symm
    | cons event events ih =>
      rw [after_cons, ih, step_input, List.append_assoc, arrived, arrived, arrived,
        ← List.flatMap_append]
      rfl
  exact hrun {}

/-! ### The dialogue -/

/-- Nothing is to be done before more bytes arrive. -/
def Settled (d : Dialogue) : Prop :=
  d.phase ≠ .idle ∧ d.phase.writes = false ∧ (d.phase.reads.isSome = true → d.available = [])

/-- The proxy sends its method and authentication, and a reply of version 5. -/
structure Replies (s : Settings) (events : List Event) (reply : Message) (rest : Bytes) : Prop where
  fits : reply.target.Fits
  version : reply.version = version
  reserved : reply.reserved = reserved
  arrived : arrived events = opening s ++ (reply.encode ++ rest)

/-- The dialogue is that of rfc1928. -/
structure Exact (s : Settings) (toHost : Peer.Address → Bytes) (destination : Destination) : Prop where
  /-- What is written behind the greeting and authentication is the request. -/
  request (events : List Event) :
    ∀ bytes ∈ (Dialogue.run s toHost destination events).written.drop (prelude s).length,
      Message.decode bytes = some (destination.message toHost, [])
  /-- A name is refused for its length only. -/
  refuses (events : List Event)
    (refused : (Dialogue.run s toHost destination events).phase = .finished .socksHostName) :
    ∃ name, destination.target toHost = .name name ∧ 255 < name.length
  /-- Success is of a reply that grants the connect, and the reply is what was read. -/
  success (events : List Event)
    (finished : (Dialogue.run s toHost destination events).phase = .finished .success) :
    ∃ reply, Replies s events reply (Dialogue.run s toHost destination events).available ∧
      reply.code = 0
  /-- A reply that grants the connect ends the dialogue with success. -/
  completes (events : List Event) (reply : Message) (rest : Bytes)
    (smooth : ∀ event ∈ events, event.Smooth) (replies : Replies s events reply rest)
    (granted : reply.code = 0) (fit : CredentialsFit s)
    (named : ∀ name, destination.target toHost = .name name → name.length ≤ 255)
    (settled : Settled (Dialogue.run s toHost destination events)) :
    (Dialogue.run s toHost destination events).phase = .finished .success ∧
      (Dialogue.run s toHost destination events).available = rest
  /-- Any other reply ends the dialogue with its code. -/
  fails (events : List Event) (reply : Message) (rest : Bytes)
    (smooth : ∀ event ∈ events, event.Smooth) (replies : Replies s events reply rest)
    (denied : reply.code ≠ 0) (fit : CredentialsFit s)
    (named : ∀ name, destination.target toHost = .name name → name.length ≤ 255)
    (settled : Settled (Dialogue.run s toHost destination events)) :
    (Dialogue.run s toHost destination events).phase = .finished (socksResponse reply.code) ∧
      rest <:+ (Dialogue.run s toHost destination events).available

theorem Message.encode_length (message : Message) : 6 ≤ message.encode.length := by
  rw [Message.encode, List.length_append, List.length_append, toBytes_length, Message.header]
  show 6 ≤ 4 + _
  omega

/-- A reply is not ended in the middle of its address. -/
theorem Heads.append_ne {head buffer rest : Bytes} {size : ℕ} (h : Heads head size)
    (hshort : buffer.length < size) {reply : Message} (hfits : reply.target.Fits) :
    head ++ buffer ≠ reply.encode ++ rest := by
  intro heq
  set more := List.replicate (size - buffer.length) (0 : UInt8)
  have hmore : more.length = size - buffer.length := List.length_replicate
  have hfull : (buffer ++ more).length = size := by
    rw [List.length_append, hmore]
    omega
  obtain ⟨whole, hwhole, -, -, -, hencode⟩ := h.reply hfull
  have hsame : whole.encode ++ [] = reply.encode ++ (rest ++ more) := by
    rw [List.append_nil, ← hencode, ← List.append_assoc, heq, List.append_assoc]
  obtain ⟨-, hnone⟩ := Message.encode_append_inj hwhole hfits hsame
  have hlength := congrArg List.length hnone
  rw [List.length_append, hmore] at hlength
  simp only [List.length_nil] at hlength
  omega

/-- A reply in a run in which nothing fails is taken to its end, or as far as its code. -/
theorem settled_reply (hrequests : destination.Requests toHost) {events : List Event}
    {reply : Message} {rest : Bytes} (smooth : ∀ event ∈ events, event.Smooth)
    (replies : Replies s events reply rest) (fit : CredentialsFit s)
    (requested : ∃ request, destination.request toHost = .ok request)
    (settled : Settled (Dialogue.run s toHost destination events)) :
    (reply.code = 0 ∧ (Dialogue.run s toHost destination events).phase = .finished .success ∧
      (Dialogue.run s toHost destination events).available = rest) ∨
    (reply.code ≠ 0 ∧
      (Dialogue.run s toHost destination events).phase = .finished (socksResponse reply.code) ∧
      rest <:+ (Dialogue.run s toHost destination events).available) := by
  have hawaits := (inv_run (s := s) hrequests events).awaits
  have hinput := @run_input s toHost destination events
  rw [replies.arrived] at hinput
  obtain ⟨hbegun, hwrites, hreads⟩ := settled
  have hsize := reply.encode_length
  have hsmooth : ¬∃ event ∈ events, ¬event.Smooth :=
    fun ⟨event, hevent, hnot⟩ => hnot (smooth event hevent)
  set d := Dialogue.run s toHost destination events
  have hstart : opening s = [version, s.method] ++ (opening s).drop 2 := rfl
  have hbasic (hmethod : s.method ≠ methodClear) :
      opening s = [version, s.method] ++ [methodBasicVersion, methodBasicSuccess] :=
    opening_basic hmethod
  have hlength := congrArg List.length hinput
  simp only [List.length_append] at hlength
  unfold Awaits at hawaits
  cases hphase : d.phase with
  | idle => exact absurd hphase hbegun
  | greetingWrite => rw [hphase] at hwrites; cases hwrites
  | authenticationWrite => rw [hphase] at hwrites; cases hwrites
  | connectWrite => rw [hphase] at hwrites; cases hwrites
  | methodRead =>
    rw [hphase] at hawaits hreads
    obtain ⟨hconsumed, hshort, -⟩ := hawaits
    rw [hreads rfl, hconsumed, List.length_nil] at hlength
    omega
  | authenticationRead =>
    rw [hphase] at hawaits hreads
    obtain ⟨hconsumed, hshort, hmethod, -⟩ := hawaits
    rw [hreads rfl, hconsumed, hbasic hmethod] at hlength
    simp only [List.length_append, List.length_cons, List.length_nil] at hlength
    omega
  | responseRead =>
    rw [hphase] at hawaits hreads
    obtain ⟨hconsumed, hshort, -⟩ := hawaits
    rw [hreads rfl, hconsumed] at hlength
    simp only [List.length_append, List.length_nil] at hlength
    omega
  | lengthRead =>
    rw [hphase] at hawaits hreads
    obtain ⟨hconsumed, hshort, -⟩ := hawaits
    rw [hreads rfl, hconsumed] at hlength
    simp only [List.length_append, List.length_cons, List.length_nil] at hlength
    omega
  | addressRead size =>
    rw [hphase] at hawaits hreads
    obtain ⟨head, hhead, hconsumed, hshort, -⟩ := hawaits
    rw [hreads rfl, hconsumed, List.append_nil] at hinput
    exact absurd (List.append_cancel_left hinput) (hhead.append_ne hshort replies.fits)
  | finished ec =>
    rw [hphase] at hawaits
    rcases hawaits with ⟨rfl, ⟨reply', hfits, -, hcode, -, hconsumed⟩, -⟩ | hcause | hdisturbed
    · rw [hconsumed, List.append_assoc] at hinput
      obtain ⟨rfl, hrest⟩ :=
        Message.encode_append_inj hfits replies.fits (List.append_cancel_left hinput)
      exact .inl ⟨hcode, rfl, hrest⟩
    · cases hcause with
      | method size differs =>
        rw [hstart, List.append_assoc] at hinput
        exact absurd (List.append_inj_left hinput size) differs
      | username method long =>
        exact absurd long (Nat.not_lt.mpr (fit.resolve_left method).1)
      | password method long =>
        exact absurd long (Nat.not_lt.mpr (fit.resolve_left method).2)
      | authentication response method read size differs =>
        rw [read, hbasic method, List.append_assoc, List.append_assoc] at hinput
        exact absurd (List.append_inj_left (List.append_cancel_left hinput) size) differs
      | hostName _ refused =>
        obtain ⟨request, hrequest⟩ := requested
        rw [refused] at hrequest
        cases hrequest
      | invalid ver rep rsv atyp read differs =>
        rw [read, List.append_assoc] at hinput
        have hheader : [ver, rep, rsv, atyp] = reply.header := by
          have heads := List.append_cancel_left hinput
          rw [Message.encode, List.append_assoc] at heads
          exact List.append_inj_left heads rfl
        injection hheader with hver hheader
        injection hheader with hrep hheader
        injection hheader with hrsv hheader
        injection hheader with hatyp
        rcases differs with hdiffers | hdiffers | ⟨-, hv4, hv6, hname⟩
        · exact absurd (hver.trans replies.version) hdiffers
        · exact absurd (hrsv.trans replies.reserved) hdiffers
        · rw [hatyp] at hv4 hv6 hname
          cases htarget : reply.target with
          | ipv4 octets => rw [htarget] at hv4; exact absurd rfl hv4
          | name octets => rw [htarget] at hname; exact absurd rfl hname
          | ipv6 octets => rw [htarget] at hv6; exact absurd rfl hv6
      | refused rep atyp read code =>
        rw [read, List.append_assoc] at hinput
        have heads := List.append_cancel_left hinput
        rw [Message.encode, List.append_assoc] at heads
        obtain ⟨hheader, hrest⟩ := List.append_inj heads rfl
        injection hheader with hver hheader
        injection hheader with hrep hheader
        subst hrep
        exact .inr ⟨code, rfl, _, hrest.symm⟩
    · exact absurd hdisturbed.1 hsmooth

/-- The method of the proxy is read. -/
theorem run_method :
    Dialogue.run s toHost destination
        [.connected none, .flushes, .arrives [version, s.method], .transfers 2] =
      ({ phase := .methodRead, buffer := [version, s.method], written := [s.greeting]
         consumed := [version, s.method] } : Dialogue).handleSocksMethodRead s toHost destination
        .success := by
  unfold Dialogue.run
  simp only [after_cons, after_nil]
  rfl

/-- A dialogue that comes to a request that is refused. -/
theorem run_refused (fit : CredentialsFit s)
    (refused : destination.request toHost = .error .socksHostName) :
    ∃ events, (Dialogue.run s toHost destination events).phase = .finished .socksHostName := by
  have hresult (d : Dialogue) (hstopped : d.stopped = false) : ¬d.result .success ≠ .success := by
    rw [Dialogue.result, hstopped]
    exact not_not.mpr rfl
  have hrefused (d : Dialogue) :
      (d.doSocksConnectWrite toHost destination).phase = .finished .socksHostName := by
    rw [Dialogue.doSocksConnectWrite, refused]
    rfl
  by_cases hmethod : s.method = methodClear
  · refine ⟨_, congrArg Dialogue.phase run_method |>.trans ?_⟩
    unfold Dialogue.handleSocksMethodRead
    rw [if_neg (hresult _ rfl), if_neg (not_not.mpr rfl), if_pos hmethod]
    exact hrefused _
  · obtain ⟨hname, hpass⟩ := fit.resolve_left hmethod
    refine ⟨[.connected none, .flushes, .arrives [version, s.method], .transfers 2] ++
      [.flushes, .arrives [methodBasicVersion, methodBasicSuccess], .transfers 2], ?_⟩
    rw [Dialogue.run, after_append]
    have hwrite := @run_method s toHost destination
    unfold Dialogue.handleSocksMethodRead at hwrite
    rw [if_neg (hresult _ rfl), if_neg (not_not.mpr rfl), if_neg hmethod,
      if_neg (by rw [isLimited, decide_eq_true_eq]; omega),
      if_neg (by rw [isLimited, decide_eq_true_eq]; omega), Dialogue.run] at hwrite
    rw [hwrite]
    set d : Dialogue := ({ phase := .methodRead, buffer := [version, s.method]
                           written := [s.greeting], consumed := [version, s.method] } :
      Dialogue).tcpWrite .authenticationWrite s.authenticator with hd
    have hflush : d.step s toHost destination .flushes = d.tcpRead .authenticationRead := by
      show d.handleSocksAuthenticationWrite s .success (d.written.getLastD []).length = _
      have hlast : d.written.getLastD [] = s.authenticator := rfl
      rw [Dialogue.handleSocksAuthenticationWrite, if_neg (hresult _ rfl), hlast,
        if_neg (not_not.mpr rfl)]
    simp only [after_cons, after_nil]
    rw [hflush]
    exact hrefused _

/-- The dialogue is exact but for a name of 255 bytes, which would fit. -/
theorem dialogue_exact_iff (hstored : Stored destination.address.address) :
    Exact s toHost destination ↔
      ¬(CredentialsFit s ∧ ∃ name, destination.target toHost = .name name ∧ name.length = 255) := by
  have hrequests : destination.Requests toHost := Destination.requests hstored
  constructor
  · rintro hexact ⟨fit, name, htarget, hlength⟩
    have hrefused : destination.request toHost = .error .socksHostName := by
      rcases hrequests with ⟨hrefused, -⟩ | ⟨-, -, hshort⟩
      · exact hrefused
      · exact absurd (hshort name htarget) (by omega)
    obtain ⟨events, hphase⟩ := run_refused fit hrefused
    obtain ⟨name', htarget', hlong⟩ := hexact.refuses events hphase
    rw [htarget] at htarget'
    cases htarget'
    omega
  · intro hfits
    have hok (fit : CredentialsFit s)
        (named : ∀ name, destination.target toHost = .name name → name.length ≤ 255) :
        ∃ request, destination.request toHost = .ok request := by
      rcases hrequests with ⟨-, name, htarget, hlong⟩ | ⟨hok, -⟩
      · exact absurd ⟨fit, name, htarget, le_antisymm (named name htarget) hlong⟩ hfits
      · exact ⟨_, hok⟩
    constructor
    · intro events bytes hbytes
      have hprefix := (inv_run (s := s) hrequests events).written.drop (prelude s).length
      rw [messages, List.drop_left] at hprefix
      have hmem := hprefix.subset hbytes
      rcases hrequests with ⟨hrefused, -⟩ | ⟨hrequest, hfit, -⟩
      · rw [hrefused] at hmem
        cases hmem
      · rw [hrequest] at hmem
        rw [List.mem_singleton.mp hmem]
        exact Message.decode_iff.mpr ⟨hfit, (List.append_nil _).symm⟩
    · intro events hphase
      have hawaits := (inv_run (s := s) hrequests events).awaits
      rw [Awaits, hphase] at hawaits
      rcases hawaits with ⟨hsuccess, -⟩ | hcause | ⟨-, hdisturbs⟩
      · cases hsuccess
      · generalize hcode : SocksCode.socksHostName = code at hcause
        cases hcause with
        | hostName fit refused =>
          rcases hrequests with ⟨-, name, htarget, hlong⟩ | ⟨hrequest, -⟩
          · refine ⟨name, htarget, lt_of_le_of_ne hlong fun hequal => ?_⟩
            exact hfits ⟨fit, name, htarget, hequal.symm⟩
          · rw [refused] at hrequest
            cases hrequest
        | refused rep atyp read code =>
          unfold socksResponse at hcode
          split_ifs at hcode
        | _ => cases hcode
      · rcases hdisturbs with hcode | hcode | ⟨value, hcode⟩
        · cases hcode
        · cases hcode
        · cases hcode
    · intro events hphase
      have hawaits := (inv_run (s := s) hrequests events).awaits
      rw [Awaits, hphase] at hawaits
      rcases hawaits with ⟨-, ⟨reply, hfit, hversion, hcode, hreserved, hconsumed⟩, -⟩ | hcause |
        ⟨-, hdisturbs⟩
      · refine ⟨reply, ⟨hfit, hversion, hreserved, ?_⟩, hcode⟩
        rw [← @run_input s toHost destination, hconsumed,
          List.append_assoc]
      · generalize hcode : SocksCode.success = code at hcause
        cases hcause with
        | refused rep atyp read code => exact absurd ((socksResponse_success rep).mp hcode.symm) code
        | _ => cases hcode
      · rcases hdisturbs with hcode | hcode | ⟨value, hcode⟩
        · cases hcode
        · cases hcode
        · cases hcode
    · intro events reply rest smooth replies granted fit named settled
      rcases settled_reply hrequests smooth replies fit (hok fit named) settled with hreply | hreply
      · exact hreply.2
      · exact absurd granted hreply.1
    · intro events reply rest smooth replies denied fit named settled
      rcases settled_reply hrequests smooth replies fit (hok fit named) settled with hreply | hreply
      · exact absurd hreply.1 denied
      · exact hreply.2

/-- A destination by its endpoint alone. -/
def named (host : Bytes) (port : UInt16) : Destination := ⟨⟨0, 0, .unset, 0⟩, host, port⟩

/-- A destination by its address. -/
def addressed (octets : Bytes) (port : UInt16) : Destination :=
  ⟨⟨0, 0, .of .ipv4 (Peer.mappedPrefix ++ octets), port⟩, [], port⟩

theorem dialogue_exact_iff_ipv4 : Exact ⟨[], []⟩ (fun _ => []) (addressed [1, 2, 3, 4] 8333) := by
  have hstored : Stored (addressed [1, 2, 3, 4] 8333).address.address := ⟨rfl, by decide⟩
  refine (dialogue_exact_iff hstored).mpr ?_
  rintro ⟨-, name, htarget, -⟩
  cases htarget

/-- A name of 255 bytes is refused. -/
theorem not_dialogue_exact : ¬Exact ⟨[], []⟩ (fun _ => []) (named (List.replicate 255 0x68) 42) := by
  intro hexact
  have hrefused : (named (List.replicate 255 0x68) 42).request (fun _ => [])
      = .error .socksHostName := by decide +kernel
  obtain ⟨events, hphase⟩ := @run_refused ⟨[], []⟩ _ _ (.inl rfl) hrefused
  obtain ⟨name, htarget, hlong⟩ := hexact.refuses events hphase
  have hname : (named (List.replicate 255 0x68) 42).target (fun _ => [])
      = .name (List.replicate 255 0x68) := rfl
  rw [hname] at htarget
  cases htarget
  rw [List.length_replicate] at hlong
  exact absurd hlong (lt_irrefl 255)

end BitcoinNetwork.Net.Socks
