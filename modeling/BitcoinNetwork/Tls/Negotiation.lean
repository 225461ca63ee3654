import BitcoinNetwork.Tls.ClientHello
import BitcoinNetwork.Tls.Gate

/-!
# Negotiation (tls/server.cpp)

What a server does of a ClientHello, the first or one behind a retry: it goes on
exactly where the ClientHello is well formed and offers what is needed, with the
suite and the group that are preferred.
-/

namespace BitcoinNetwork.Tls
open Binary Connection

variable {Certificate : Type} (config : Config Certificate)

/-! ### Choices -/

/-- A share that the exchange of its group agrees to. -/
def ValidShare (group : UInt16) (share : Bytes) : Prop :=
  if group = secp256r1Group then
    share.length = config.crypto.pointSize .secp256r1 ∧
      (config.crypto.agree .secp256r1 (config.generate .secp256r1) share).isSome = true
  else if group = secp384r1Group then
    share.length = config.crypto.pointSize .secp384r1 ∧
      (config.crypto.agree .secp384r1 (config.generate .secp384r1) share).isSome = true
  else share.length = 32 ∧ (config.crypto.multiply config.ephemeral share).isSome = true

/-- A ClientHello is accepted with the share of a group, or retried for a group. -/
inductive Choice where
  | accept (group : UInt16) (share : Bytes)
  | retry (group : UInt16)

/-- The preferred mutual group with a share, or the preferred mutual one without any. -/
def Chooses (hello : ClientHello) : Choice → Prop
  | .accept group share =>
    Preferred hello.Shared preferredGroups group ∧ hello.Share group share ∧
      ValidShare config group share
  | .retry group =>
    (∀ group ∈ preferredGroups, ¬hello.Shared group) ∧
      Preferred hello.Mutual preferredGroups group

/-- The hello that is sent, and what the connection agrees on and awaits. -/
def Negotiated (hello : ClientHello) (suite : UInt16) (s s' : Connection Certificate) :
    Choice → Prop
  | .accept group share =>
    s'.suite = suite ∧ s'.group = group ∧
      s'.state = (if config.context.request then .clientCertificate else .clientFinished) ∧
      ∃ shared own, exchange config group share = some (shared, own) ∧
        greetingsOf s'.log = greetingsOf s.log ++ [helloMessage suite config.random hello.session
          (write16 group ++ writeVector16 own)]
  | .retry group =>
    s'.suite = suite ∧ s'.group = group ∧ s'.state = .retryHello ∧
      greetingsOf s'.log =
        greetingsOf s.log ++ [helloMessage suite retryRandom hello.session (write16 group)]

variable {config}

theorem shareOf_iff (hello : ClientHello) (suite group : UInt16) {share : Bytes} (h : share ≠ []) :
    (hello.offer suite).shareOf group = share ↔ hello.Share group share := by
  have hfind : hello.shares.find? (fun entry => entry.1 == group) = some (group, share) ↔
      hello.Share group share := by
    rw [List.find?_eq_some_iff_append]
    constructor
    · rintro ⟨-, before, after, heq, hbefore⟩
      refine ⟨h, before, after, heq, fun entry hentry hsame => ?_⟩
      have hfirst := hbefore entry hentry
      rw [hsame, beq_self_eq_true] at hfirst
      exact absurd hfirst (by decide)
    · rintro ⟨-, before, after, heq, hbefore⟩
      refine ⟨beq_self_eq_true _, before, after, heq, fun entry hentry => ?_⟩
      rw [beq_eq_false_iff_ne.mpr (hbefore entry hentry)]
      rfl
  rw [← hfind]
  unfold Offer.shareOf ClientHello.offer
  dsimp only
  cases hentry : hello.shares.find? fun entry => entry.1 == group with
  | none => exact ⟨fun hnone => absurd hnone.symm h, fun hc => by cases hc⟩
  | some entry =>
    have hsame : (entry.1 == group) = true :=
      List.find?_some (p := fun entry : UInt16 × Bytes => entry.1 == group) hentry
    obtain rfl := beq_iff_eq.mp hsame
    constructor
    · rintro rfl
      rfl
    · intro heq
      exact congrArg Prod.snd (Option.some.inj heq)

theorem withShare_iff (hello : ClientHello) (suite group : UInt16) :
    (hello.offer suite).withShare group = true ↔ hello.Shared group := by
  unfold Offer.withShare
  rw [Bool.and_eq_true, isMutual_iff, Bool.not_eq_true', List.isEmpty_eq_false_iff]
  refine and_congr_right fun _ => ⟨fun hsome => ?_, ?_⟩
  · exact ⟨_, (shareOf_iff hello suite group hsome).mp rfl⟩
  · rintro ⟨share, hshare⟩
    rw [(shareOf_iff hello suite group hshare.1).mpr hshare]
    exact hshare.1

theorem group_iff (hello : ClientHello) (suite group : UInt16) :
    (hello.offer suite).group = some group ↔ Preferred hello.Shared preferredGroups group :=
  preferred_iff (withShare_iff hello suite) _ _

theorem group_none (hello : ClientHello) (suite : UInt16) :
    (hello.offer suite).group = none ↔ ∀ group ∈ preferredGroups, ¬hello.Shared group := by
  unfold Offer.group
  rw [List.find?_eq_none]
  simp only [withShare_iff]

theorem nistExchange_iff
    (hown : ∀ curve, (config.crypto.publicKey curve (config.generate curve)).isSome = true) (curve : Curve) (share : Bytes) :
    (nistExchange config curve share).isSome = true ↔
      share.length = config.crypto.pointSize curve ∧
        (config.crypto.agree curve (config.generate curve) share).isSome = true := by
  obtain ⟨point, hpoint⟩ := Option.isSome_iff_exists.mp (hown curve)
  unfold nistExchange
  rw [hpoint]
  split
  · rename_i hsize
    exact ⟨nofun, fun h => absurd h.1 hsize⟩
  · rename_i hsize
    rw [and_iff_right (not_not.mp hsize)]
    cases config.crypto.agree curve (config.generate curve) share with
    | none => exact Iff.rfl
    | some value => exact Iff.rfl

/-- The exchange succeeds with the shares that are valid. -/
theorem exchange_iff
    (hown : ∀ curve, (config.crypto.publicKey curve (config.generate curve)).isSome = true) (group : UInt16) (share : Bytes) :
    (exchange config group share).isSome = true ↔ ValidShare config group share := by
  unfold exchange ValidShare
  split
  · exact nistExchange_iff hown _ share
  · split
    · exact nistExchange_iff hown _ share
    · split
      · rename_i hsize
        exact ⟨nofun, fun h => absurd h.1 hsize⟩
      · rename_i hsize
        rw [Option.isSome_map]
        exact (and_iff_right (not_not.mp hsize)).symm

/-! ### Hellos -/

/-- What an accepted ClientHello agrees on. -/
theorem Agreed.negotiated {s accepted : Connection Certificate} {g : Greeting}
    (hagreed : Agreed config g accepted) {hello : ClientHello} {suite : UInt16} {share : Bytes}
    (hoffer : g.offer = hello.offer suite) (hshare : g.offer.shareOf g.group = share)
    (hlog : greetingsOf s.log = g.opening.drop 1) :
    Negotiated config hello suite s { accepted with
      state := if config.context.request then .clientCertificate else .clientFinished }
      (.accept g.group share) := by
  refine ⟨?_, hagreed.group, rfl, g.shared, g.own, ?_, ?_⟩
  · exact hagreed.suite.trans (congrArg Offer.suite hoffer)
  · rw [← hshare]
    exact hagreed.valid.exchange
  · rw [hlog]
    refine hagreed.greetings.trans ?_
    rw [Greeting.serverHello, hoffer]
    rfl

theorem Negotiated.isFailed {hello : ClientHello} {suite : UInt16} {s s' : Connection Certificate}
    {choice : Choice} (h : Negotiated config hello suite s s' choice) : s'.isFailed = false := by
  cases choice with
  | accept group share =>
    rw [Connection.isFailed, h.2.2.1]
    split
    · rfl
    · rfl
  | retry group =>
    rw [Connection.isFailed, h.2.2.1]
    rfl

theorem fail_closed {s : Connection Certificate} {alert : UInt8}
    (h : (s.fail config alert).isFailed = false) : False := by
  rw [isFailed, (fail_same config s alert).2.1] at h
  exact absurd h (by decide)

section Hellos
variable (hown : ∀ curve, (config.crypto.publicKey curve (config.generate curve)).isSome = true)
include hown

/-- The first ClientHello is followed by what it chooses. -/
theorem first_negotiated {s : Connection Certificate} (h : Inv config s)
    (hstate : s.state = .clientHello) {hello : ClientHello} {suite : UInt16} {choice : Choice}
    (hoffers : hello.Offers config.context.curve suite) (hchooses : Chooses config hello choice) :
    Negotiated config hello suite s
      (s.handleClientHello config (makeMessage typeClientHello hello.encode) hello.encode) choice := by
  have hp := h.progress
  rw [Progress, hstate] at hp
  obtain ⟨-, hclear, hlog⟩ := hp
  have hretried : (s.state == State.retryHello) = false := by rw [hstate]; rfl
  obtain ⟨retry, hretry⟩ := Preferred.exists hoffers.group
  have hread := @readOffer_complete config.context.curve none hello suite retry hoffers
    (fun _ hmem => by cases hmem) hretry
  unfold handleClientHello
  simp only [hretried, Bool.false_eq_true, reduceIte, false_and, hread]
  cases choice with
  | accept group share =>
    obtain ⟨hgroup, hshare, hvalid⟩ := hchooses
    have hoffer := (group_iff hello suite group).mpr hgroup
    have hfirst := (shareOf_iff hello suite group hshare.1).mpr hshare
    obtain ⟨⟨shared, own⟩, hexchange⟩ :=
      Option.isSome_iff_exists.mp ((exchange_iff hown group share).mpr hvalid)
    simp only [hoffer, hfirst, hexchange]
    set reset : Connection Certificate :=
      { s with suite := suite, transcript := .reset suite, group := group }
    set g : Greeting := ⟨[], none, hello.encode, hello.offer suite, group, shared, own⟩
    have hvalid : g.Valid config :=
      ⟨.first, ⟨retry, hread⟩, hoffer, fun _ hmem => (by cases hmem),
        (congrArg _ hfirst).trans hexchange⟩
    obtain ⟨accepted, heq, hkeyed, -⟩ :=
      @acceptHello_spec _ config reset g hvalid rfl rfl rfl hclear hlog
    have hanswer := @Agreed.negotiated _ config s accepted g hkeyed.agreed hello suite share rfl
      hfirst hlog
    rw [← heq] at hanswer
    exact hanswer
  | retry group =>
    obtain ⟨hnone, hgroup⟩ := hchooses
    obtain rfl := hretry.unique hgroup
    simp only [(group_none hello suite).mpr hnone]
    obtain ⟨output, send, flag, log, heq, -, hsent⟩ := @sendRetry_spec _ config
      { s with suite := suite, transcript := .reset suite, group := retry }
      (makeMessage typeClientHello hello.encode) hello.session hclear
    have hanswer : Negotiated config hello suite s
        (({ s with suite := suite, transcript := .reset suite, group := retry } :
          Connection Certificate).sendRetry config (makeMessage typeClientHello hello.encode)
            hello.session) (.retry retry) := by
      rw [heq]
      exact ⟨rfl, rfl, rfl, hsent⟩
    exact hanswer

/-- The first ClientHello is refused, or it offers what is needed and chooses. -/
theorem first_offers {s : Connection Certificate} (hstate : s.state = .clientHello) {body : Bytes}
    (hopen : (s.handleClientHello config (makeMessage typeClientHello body) body).isFailed = false) :
    ∃ hello suite choice, ClientHello.encode hello = body ∧
      hello.Offers config.context.curve suite ∧ Chooses config hello choice := by
  have hretried : (s.state == State.retryHello) = false := by rw [hstate]; rfl
  unfold handleClientHello at hopen
  simp only [hretried, Bool.false_eq_true, reduceIte, false_and] at hopen
  cases hread : readOffer config.context.curve none body with
  | error alert =>
    rw [hread] at hopen
    exact (fail_closed hopen).elim
  | ok result =>
    obtain ⟨offer, retry⟩ := result
    obtain ⟨hello, hbody, hoffers, -, hoffer, hretry⟩ := readOffer_sound hread
    rw [hread] at hopen
    dsimp only at hopen
    cases hgroup : offer.group with
    | none =>
      rw [hoffer] at hgroup
      exact ⟨hello, _, .retry retry, hbody, hoffers, (group_none hello _).mp hgroup, hretry⟩
    | some group =>
      rw [hgroup] at hopen
      dsimp only at hopen
      have hpreferred : Preferred hello.Shared preferredGroups group := by
        rw [hoffer] at hgroup
        exact (group_iff hello _ group).mp hgroup
      obtain ⟨-, share, hshare⟩ := hpreferred.mem.2
      have hfirst : offer.shareOf group = share := by
        rw [hoffer]
        exact (shareOf_iff hello _ group hshare.1).mpr hshare
      cases hexchange : exchange config group (offer.shareOf group) with
      | none =>
        rw [hexchange] at hopen
        exact (fail_closed hopen).elim
      | some keys =>
        rw [hfirst] at hexchange
        have hvalid := (exchange_iff hown group share).mp (by rw [hexchange]; rfl)
        exact ⟨hello, _, .accept group share, hbody, hoffers, hpreferred, hshare, hvalid⟩

/-- A ClientHello behind a retry is followed by what it chooses. -/
theorem second_negotiated {s : Connection Certificate} (h : Inv config s)
    (hstate : s.state = .retryHello) {hello : ClientHello} {share : Bytes}
    (hoffers : hello.Offers config.context.curve s.suite)
    (hearly : extensionEarlyData ∉ hello.types)
    (hchooses : Chooses config hello (.accept s.group share)) :
    Negotiated config hello s.suite s
      (s.handleClientHello config (makeMessage typeClientHello hello.encode) hello.encode)
        (.accept s.group share) := by
  have hp := h.progress
  rw [Progress, hstate] at hp
  obtain ⟨-, hclear, opening, hopening, habsorbed, hlog⟩ := hp
  have hretried : (s.state == State.retryHello) = true := by rw [hstate]; rfl
  obtain ⟨retry, hretry⟩ := Preferred.exists hoffers.group
  have hagrees : hello.Agrees (some s.suite) s.suite := by
    rintro first ⟨⟩
    exact ⟨rfl, hearly⟩
  have hread := readOffer_complete hoffers hagrees hretry
  obtain ⟨hgroup, hshare, hvalid⟩ := hchooses
  have hoffer := (group_iff hello s.suite s.group).mpr hgroup
  have hfirst := (shareOf_iff hello s.suite s.group hshare.1).mpr hshare
  obtain ⟨⟨shared, own⟩, hexchange⟩ :=
    Option.isSome_iff_exists.mp ((exchange_iff hown s.group share).mpr hvalid)
  unfold handleClientHello
  simp only [hretried, reduceIte, true_and, hread, hoffer, ne_eq, not_true_eq_false, hfirst,
    hexchange]
  set g : Greeting := ⟨opening, some s.group, hello.encode, hello.offer s.suite, s.group, shared, own⟩
  have hvalid : g.Valid config := by
    refine ⟨hopening, ⟨retry, hread⟩, hoffer, ?_, (congrArg _ hfirst).trans hexchange⟩
    rintro group ⟨⟩
    rfl
  obtain ⟨accepted, heq, hkeyed, -⟩ :=
    @acceptHello_spec _ config s g hvalid rfl rfl habsorbed hclear hlog
  have hanswer := @Agreed.negotiated _ config s accepted g hkeyed.agreed hello s.suite share rfl
    hfirst hlog
  rw [← heq] at hanswer
  exact hanswer

/-- A ClientHello behind a retry is refused, or it offers what is needed of the suite and the
group of the retry. -/
theorem second_offers {s : Connection Certificate} (hstate : s.state = .retryHello) {body : Bytes}
    (hopen : (s.handleClientHello config (makeMessage typeClientHello body) body).isFailed = false) :
    ∃ hello share, ClientHello.encode hello = body ∧ hello.Offers config.context.curve s.suite ∧
      extensionEarlyData ∉ hello.types ∧ Chooses config hello (.accept s.group share) := by
  have hretried : (s.state == State.retryHello) = true := by rw [hstate]; rfl
  unfold handleClientHello at hopen
  simp only [hretried, reduceIte, true_and] at hopen
  cases hread : readOffer config.context.curve (some s.suite) body with
  | error alert =>
    rw [hread] at hopen
    exact (fail_closed hopen).elim
  | ok result =>
    obtain ⟨offer, retry⟩ := result
    obtain ⟨hello, hbody, hoffers, hagrees, hoffer, -⟩ := readOffer_sound hread
    obtain ⟨hsuite, hearly⟩ := hagrees s.suite rfl
    rw [hread] at hopen
    dsimp only at hopen
    cases hgroup : offer.group with
    | none =>
      rw [hgroup] at hopen
      exact (fail_closed hopen).elim
    | some group =>
      rw [hgroup] at hopen
      dsimp only at hopen
      have hpreferred : Preferred hello.Shared preferredGroups group := by
        rw [hoffer] at hgroup
        exact (group_iff hello _ group).mp hgroup
      obtain ⟨-, share, hshare⟩ := hpreferred.mem.2
      have hfirst : offer.shareOf group = share := by
        rw [hoffer]
        exact (shareOf_iff hello _ group hshare.1).mpr hshare
      by_cases hsame : group = s.group
      · rw [if_neg (not_not.mpr hsame)] at hopen
        rw [hsame] at hopen hfirst hpreferred hshare
        cases hexchange : exchange config s.group (offer.shareOf s.group) with
        | none =>
          rw [hexchange] at hopen
          exact (fail_closed hopen).elim
        | some keys =>
          rw [hfirst] at hexchange
          have hvalid := (exchange_iff hown s.group share).mp (by rw [hexchange]; rfl)
          rw [hsuite] at hoffers
          exact ⟨hello, share, hbody, hoffers, hearly, hpreferred, hshare, hvalid⟩
      · rw [if_pos hsame] at hopen
        exact (fail_closed hopen).elim

/-- In a run a first ClientHello is accepted or retried, and one behind a retry is accepted, of
those that are well formed and offer what is needed. -/
theorem clientHello_negotiated (calls : List Server.Call) (body : Bytes) :
    let s := (Server.run config calls).connection
    let s' := s.handleClientHello config (makeMessage typeClientHello body) body
    (s.state = .clientHello →
      (s'.isFailed = false ↔ ∃ hello suite choice, ClientHello.encode hello = body ∧
        hello.Offers config.context.curve suite ∧ Chooses config hello choice) ∧
      ∀ hello suite choice, ClientHello.encode hello = body →
        hello.Offers config.context.curve suite → Chooses config hello choice →
          Negotiated config hello suite s s' choice) ∧
    (s.state = .retryHello →
      (∃ first : ClientHello, first.Offers config.context.curve s.suite ∧
        Chooses config first (.retry s.group) ∧
        Absorbed s [hashMessage config.crypto s.suite (makeMessage typeClientHello first.encode),
          helloMessage s.suite retryRandom first.session (write16 s.group)]) ∧
      (s'.isFailed = false ↔ ∃ hello share, ClientHello.encode hello = body ∧
        hello.Offers config.context.curve s.suite ∧ extensionEarlyData ∉ hello.types ∧
          Chooses config hello (.accept s.group share)) ∧
      ∀ hello share, ClientHello.encode hello = body →
        hello.Offers config.context.curve s.suite → extensionEarlyData ∉ hello.types →
          Chooses config hello (.accept s.group share) →
            Negotiated config hello s.suite s s' (.accept s.group share)) := by
  intro s s'
  have h : Inv config s := inv_run calls
  refine ⟨fun hstate => ⟨⟨first_offers hown hstate, ?_⟩, ?_⟩,
    fun hstate => ⟨?_, ⟨second_offers hown hstate, ?_⟩, ?_⟩⟩
  · rintro ⟨hello, suite, choice, rfl, hoffers, hchooses⟩
    exact (first_negotiated hown h hstate hoffers hchooses).isFailed
  · rintro hello suite choice rfl hoffers hchooses
    exact first_negotiated hown h hstate hoffers hchooses
  · have hp := h.progress
    rw [Progress, hstate] at hp
    obtain ⟨-, -, opening, hopening, habsorbed, -⟩ := hp
    generalize hsuite : s.suite = suite at hopening ⊢
    generalize hgroup : some s.group = retried at hopening
    cases hopening with
    | first => cases hgroup
    | retried offered unshared =>
      obtain ⟨hello, rfl, hoffers, -, hoffer, hretry⟩ := readOffer_sound offered
      obtain rfl := Option.some.inj hgroup
      refine ⟨hello, hoffers, ⟨?_, hretry⟩, ?_⟩
      · rw [hoffer] at unshared
        exact (group_none hello _).mp unshared
      · rw [hoffer] at habsorbed
        exact habsorbed
  · rintro ⟨hello, share, rfl, hoffers, hearly, hchooses⟩
    exact (second_negotiated hown h hstate hoffers hearly hchooses).isFailed
  · rintro hello share rfl hoffers hearly hchooses
    exact second_negotiated hown h hstate hoffers hearly hchooses

end Hellos

/-! ### Runs -/

/-- A first ClientHello without shares is retried, and one behind it is accepted. -/
theorem clientHello_negotiated_retried :
    let shared := plainHello (write16 secp256r1Group ++ writeVector16 [8])
    let first : Connection Bytes := {}
    let second := (Server.run plainConfig (plainCalls.take 1)).connection
    (∃ hello suite choice, ClientHello.encode hello = plainHello [] ∧
      hello.Offers .secp256r1 suite ∧ Chooses plainConfig hello choice ∧
      Negotiated plainConfig hello suite first
        (first.handleClientHello plainConfig (makeMessage typeClientHello (plainHello []))
          (plainHello [])) choice) ∧
    ∃ hello share, ClientHello.encode hello = shared ∧ hello.Offers .secp256r1 second.suite ∧
      Chooses plainConfig hello (.accept second.group share) := by
  intro shared first second
  have hstart := (@clientHello_negotiated _ plainConfig (fun _ => rfl) [] (plainHello [])).1 rfl
  obtain ⟨hello, suite, choice, hbody, hoffers, hchooses⟩ := hstart.1.mp (by decide)
  refine ⟨⟨hello, suite, choice, hbody, hoffers, hchooses,
    hstart.2 hello suite choice hbody hoffers hchooses⟩, ?_⟩
  have hretry := (@clientHello_negotiated _ plainConfig (fun _ => rfl) (plainCalls.take 1) shared).2 (by decide +kernel)
  obtain ⟨hello, share, hbody, hoffers, -, hchooses⟩ := hretry.2.1.mp (by decide +kernel)
  exact ⟨hello, share, hbody, hoffers, hchooses⟩

/-- A ClientHello with a share that is empty, which a share must not be, is retried. -/
theorem not_clientHello_negotiated :
    ¬∀ body, (({} : Connection Bytes).handleClientHello plainConfig (makeMessage typeClientHello body)
        body).isFailed = false ↔
      ∃ hello suite choice, ClientHello.encode hello = body ∧
        (∀ entry ∈ hello.shares, entry.2 ≠ []) ∧
        hello.Offers plainConfig.context.curve suite ∧ Chooses plainConfig hello choice := by
  intro hexact
  set body := plainHello (write16 secp256r1Group ++ writeVector16 []) with hbody
  obtain ⟨hello, suite, choice, hencode, hsome, hoffers, -⟩ := (hexact body).mp (by decide)
  obtain ⟨retry, hretry⟩ := Preferred.exists hoffers.group
  have hread := @readOffer_complete _ none hello suite retry hoffers nofun hretry
  rw [hencode] at hread
  have hshares : (readOffer plainConfig.context.curve none body).toOption.map (·.1.shares)
      = some [(secp256r1Group, [])] := by decide
  rw [hread] at hshares
  have hempty : hello.shares = [(secp256r1Group, [])] := Option.some.inj hshares
  exact hsome (secp256r1Group, []) (hempty ▸ List.mem_singleton_self _) rfl

end BitcoinNetwork.Tls
