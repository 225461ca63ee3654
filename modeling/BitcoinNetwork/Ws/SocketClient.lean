import BitcoinNetwork.Ws.Fragments
import BitcoinNetwork.Ws.SocketRuns

/-!
# What a client reads of an upgraded socket (net/socket_ws.cpp, ws/reader.cpp)

As long as its writes succeed, what a socket has written are frames that follow each other,
the data frames in the order of the fragments, the pongs in that of the pings.
-/

namespace BitcoinNetwork.Ws
open Async Net Incremental

def WsFrame.frame (frame : WsFrame) : Frame := ⟨frame.code, frame.finish, frame.body⟩

def WsFrame.pong? (frame : WsFrame) : Option Bytes := frame.frame.pong?

namespace Socket

/-- The frames that were written or wait for it, in order. -/
def frames (s : Socket) : List WsFrame := s.written ++ s.waiting

theorem frames_wsWriteNext (s : Socket) : s.wsWriteNext.frames = s.frames := by
  cases hw : s.writing with
  | true => rw [wsWriteNext_writing hw]
  | false =>
    cases hq : s.queue with
    | nil => rw [wsWriteNext_nil hq]
    | cons frame frames =>
      rw [wsWriteNext_cons hw hq, Socket.frames, Socket.frames, waiting, waiting, if_pos rfl, hw,
        hq, List.append_assoc]
      rfl

/-- What a socket sends: the fragments of its callers, and the control frames of its own. Its
pongs answer pings in order, the last of them the last, and a pong that may be replaced
has none behind it. -/
structure Sends (s : Socket) : Prop where
  data : (s.frames.map WsFrame.frame).filter (fun frame => !frame.code.isControl) =
    fragmentFrames false s.fragments
  continuing : s.continuing = continued false s.fragments
  control : ∀ frame ∈ s.frames, frame.code.isControl = true → frame.frame.MayControl
  pongs : List.Sublist (s.frames.filterMap WsFrame.pong?) s.pings
  last : (s.frames.filterMap WsFrame.pong?).getLast? = s.pings.getLast?
  pong : ∀ id, s.pong = some id → ∃ before frame behind, s.waiting = before ++ frame :: behind ∧
    frame.id = id ∧ frame.code = .pong ∧ frame.data = [] ∧ ∀ other ∈ behind, other.code ≠ .pong
  closes : (s.frames.filter fun frame => frame.code = .close).length ≤ if s.closing then 1 else 0

namespace Sends

/-- The write of the front frame is started, if none is under way. -/
theorem wsWriteNext {s : Socket} (h : Sends s) : Sends s.wsWriteNext := by
  have hframes := frames_wsWriteNext s
  cases hw : s.writing with
  | true => rwa [wsWriteNext_writing hw]
  | false =>
    cases hq : s.queue with
    | nil => rwa [wsWriteNext_nil hq]
    | cons first rest =>
      rw [wsWriteNext_cons hw hq] at hframes ⊢
      refine ⟨hframes ▸ h.data, h.continuing, hframes ▸ h.control, hframes ▸ h.pongs,
        hframes ▸ h.last, fun id hp => ?_, hframes ▸ h.closes⟩
      dsimp only at hp
      split at hp
      · cases hp
      · next hne =>
        obtain ⟨before, frame, behind, hwaiting, hid, hrest⟩ := h.pong id hp
        rw [waiting, hw, hq] at hwaiting
        rw [waiting, if_pos rfl, hq]
        cases before with
        | nil =>
          cases hwaiting
          exact absurd (hp.trans (congrArg some hid.symm)) hne
        | cons _ before =>
          cases hwaiting
          exact ⟨before, frame, behind, rfl, hid, hrest⟩

/-- A frame is queued: of a fragment, of a close or of a pong. -/
theorem push {s : Socket} (h : Sends s) (hf : s.writing = true → s.queue ≠ []) {frame : WsFrame}
    {s' : Socket} (hqueue : s'.queue = s.queue) (hwriting : s'.writing = s.writing)
    (hwritten : s'.written = s.written)
    (hdata : fragmentFrames false s.fragments ++
      [frame.frame].filter (fun frame => !frame.code.isControl) = fragmentFrames false s'.fragments)
    (hcontinuing : s'.continuing = continued false s'.fragments)
    (hcontrol : frame.code.isControl = true → frame.frame.MayControl)
    (hpings : s'.pings = s.pings ++ frame.pong?.toList)
    (hpong : s'.pong = s.pong ∧ frame.code ≠ .pong ∨
      s'.pong = some frame.id ∧ frame.code = .pong ∧ frame.data = [])
    (hclosing : s'.closing = s.closing ∧ frame.code ≠ .close ∨
      s.closing = false ∧ s'.closing = true) :
    Sends (s'.push frame) := by
  set s'' : Socket :=
    { s' with
      queue := s'.queue ++ [frame]
      queued := s'.queued ++ frame.handler.toList
      count := s'.count + 1 }
  have hwaiting : s''.waiting = s.waiting ++ [frame] := by
    simp only [waiting, s'', hwriting, hqueue]
    split
    · next hw => exact List.tail_append_of_ne_nil (hf hw)
    · rfl
  have hframes : s''.frames = s.frames ++ [frame] := by
    rw [frames, frames, hwaiting, ← List.append_assoc]
    exact congrArg (· ++ s.waiting ++ [frame]) hwritten
  have hpongs : (s.frames ++ [frame]).filterMap WsFrame.pong? =
      s.frames.filterMap WsFrame.pong? ++ frame.pong?.toList := by
    rw [List.filterMap_append]
    cases hp : frame.pong? <;> simp [hp]
  have hsends : Sends s'' := by
    refine ⟨?_, hcontinuing, fun other hmem => ?_, ?_, ?_, fun id hp => ?_, ?_⟩
    · rw [hframes, List.map_append, List.filter_append, h.data]
      exact hdata
    · rw [hframes] at hmem
      rcases List.mem_append.mp hmem with hmem | hmem
      · exact h.control other hmem
      · rw [List.mem_singleton.mp hmem]
        exact hcontrol
    · rw [hframes, hpongs, hpings]
      exact h.pongs.append (List.Sublist.refl _)
    · rw [hframes, hpongs, hpings]
      cases frame.pong? with
      | none => simpa using h.last
      | some payload => simp
    · rcases hpong with ⟨hsame, hnot⟩ | ⟨hnew, hcode, hempty⟩
      · obtain ⟨before, other, behind, hsplit, hid, hcode, hempty, hbehind⟩ :=
          h.pong id (hsame ▸ hp)
        refine ⟨before, other, behind ++ [frame], ?_, hid, hcode, hempty, fun last hmem => ?_⟩
        · rw [hwaiting, hsplit, List.append_assoc, List.cons_append]
        · rcases List.mem_append.mp hmem with hmem | hmem
          · exact hbehind last hmem
          · exact List.mem_singleton.mp hmem ▸ hnot
      · cases hnew.symm.trans hp
        exact ⟨s.waiting, frame, [], hwaiting, rfl, hcode, hempty, List.forall_mem_nil _⟩
    · have hcloses := h.closes
      rw [hframes, List.filter_append, List.length_append]
      rcases hclosing with ⟨hsame, hnot⟩ | ⟨hold, hnew⟩
      · have hnone : [frame].filter (fun frame => frame.code = .close) = [] := by simp [hnot]
        rw [hnone]
        exact hsame ▸ hcloses
      · have hone := [frame].length_filter_le fun frame => frame.code = .close
        rw [hold] at hcloses
        simp only [Bool.false_eq_true, reduceIte, List.length_singleton] at hcloses hone
        show _ ≤ if s'.closing then 1 else 0
        rw [hnew, if_pos rfl]
        omega
  exact hsends.wsWriteNext

/-- What is not sent may change. -/
theorem congr {s s' : Socket} (h : Sends s) (hframes : s'.frames = s.frames)
    (hwaiting : s'.waiting = s.waiting) (hfragments : s'.fragments = s.fragments)
    (hcontinuing : s'.continuing = s.continuing) (hpings : s'.pings = s.pings)
    (hpong : s'.pong = s.pong) (hclosing : s'.closing = s.closing) : Sends s' := by
  obtain ⟨data, continuing, control, pongs, last, pong, closes⟩ := h
  rw [← hframes] at data control pongs last closes
  rw [← hwaiting, ← hpong] at pong
  rw [← hfragments] at data continuing
  rw [← hcontinuing] at continuing
  rw [← hpings] at pongs last
  rw [← hclosing] at closes
  exact ⟨data, continuing, control, pongs, last, pong, closes⟩

theorem replace_split {before behind : List WsFrame} {frame : WsFrame}
    (hids : ((before ++ frame :: behind).map WsFrame.id).Pairwise (· < ·)) (payload : Bytes) :
    Socket.replace frame.id payload (before ++ frame :: behind) =
      before ++ { frame with payload := payload } :: behind := by
  rw [List.map_append, List.map_cons, List.pairwise_append, List.pairwise_cons] at hids
  obtain ⟨-, ⟨hbehind, -⟩, hbefore⟩ := hids
  have hkeep {frames : List WsFrame} (hne : ∀ other ∈ frames, other.id ≠ frame.id) :
      Socket.replace frame.id payload frames = frames := by
    refine (List.map_congr_left fun other hmem => ?_).trans (List.map_id frames)
    exact if_neg (hne other hmem)
  have hleft : Socket.replace frame.id payload before = before := hkeep fun other hmem =>
    (hbefore _ (List.mem_map_of_mem hmem) _ List.mem_cons_self).ne
  have hright : Socket.replace frame.id payload behind = behind := hkeep fun other hmem =>
    (hbehind _ (List.mem_map_of_mem hmem)).ne'
  rw [Socket.replace, List.map_append, List.map_cons, if_pos rfl]
  exact congrArg₂ (· ++ { frame with payload := payload } :: ·) hleft hright

/-- A pong that waits answers the latest ping. -/
theorem replace {s : Socket} (h : Sends s) (hf : Flight s) {id : ℕ} (hp : s.pong = some id)
    {payload : Bytes} (hsize : payload.length ≤ maximumControl) : Sends { s with
      queue := Socket.replace id payload s.queue
      inflight := Socket.replace id payload s.inflight
      pings := s.pings ++ [payload] } := by
  obtain ⟨before, frame, behind, hwaiting, rfl, hcode, hempty, hbehind⟩ := h.pong id hp
  set s' : Socket := { s with
    queue := Socket.replace frame.id payload s.queue
    inflight := Socket.replace frame.id payload s.inflight
    pings := s.pings ++ [payload] }
  set pong : WsFrame := { frame with payload := payload }
  have hbody : pong.body = payload := by
    unfold WsFrame.body
    split
    · next hnil => exact hempty.trans hnil.symm
    · rfl
  have hids : (s.waiting.map WsFrame.id).Pairwise (· < ·) := by
    unfold waiting
    split
    · rw [List.map_tail]
      exact hf.ids.tail
    · exact hf.ids
  have hnew : s'.waiting = before ++ pong :: behind := by
    rw [hwaiting] at hids
    rw [← replace_split hids payload, ← hwaiting]
    unfold waiting
    split
    · exact List.map_tail.symm
    · rfl
  have hold : s.frames = s.written ++ before ++ frame :: behind := by
    rw [frames, hwaiting, List.append_assoc]
  have hframes : s'.frames = s.written ++ before ++ pong :: behind := by
    rw [frames, hnew, List.append_assoc]
  have hmem : frame ∈ s.frames := hold ▸ List.mem_append_right _ List.mem_cons_self
  have hcontrol : frame.code.isControl = true := hcode ▸ rfl
  have hnone : behind.filterMap WsFrame.pong? = [] :=
    List.filterMap_eq_nil_iff.mpr fun other hother => if_neg (hbehind other hother)
  have hpongs {other : WsFrame} (ho : other.code = .pong) :
      (s.written ++ before ++ other :: behind).filterMap WsFrame.pong? =
        (s.written ++ before).filterMap WsFrame.pong? ++ [other.body] := by
    have hsome : other.pong? = some other.body := if_pos ho
    rw [List.filterMap_append, List.filterMap_cons_some hsome, hnone]
  have hpong := @hpongs pong hcode
  rw [hbody] at hpong
  have hlast := h.last
  have hsublist := h.pongs
  rw [hold, hpongs hcode] at hlast hsublist
  refine ⟨?_, h.continuing, fun other hother => ?_, ?_, ?_, fun id hid => ?_, ?_⟩
  · have hdata := h.data
    rw [hold, List.map_append, List.map_cons, List.filter_append,
      List.filter_cons_of_neg (by simp [WsFrame.frame, hcontrol])] at hdata
    rw [hframes, List.map_append, List.map_cons, List.filter_append,
      List.filter_cons_of_neg (by simp [WsFrame.frame, pong, hcontrol])]
    exact hdata
  · rw [hframes] at hother
    have hcase : other = pong ∨ other ∈ s.frames := by
      rw [hold]
      simp only [List.mem_append, List.mem_cons] at hother ⊢
      tauto
    rcases hcase with rfl | hother
    · obtain ⟨hfin, -, -⟩ := h.control frame hmem hcontrol
      refine fun _ => ⟨hfin, ?_, fun hc => ?_⟩
      · exact (congrArg List.length hbody).trans_le hsize
      · exact absurd (hcode.symm.trans hc) Opcode.noConfusion
    · exact h.control other hother
  · rw [hframes, hpong]
    exact ((List.sublist_append_left _ _).trans hsublist).append (List.Sublist.refl _)
  · rw [hframes, hpong, List.getLast?_concat, List.getLast?_concat]
  · cases hp.symm.trans hid
    exact ⟨before, pong, behind, hnew, rfl, hcode, hempty, hbehind⟩
  · have hcloses := h.closes
    rw [hold, List.filter_append, List.filter_cons_of_neg (by simp [hcode])] at hcloses
    rw [hframes, List.filter_append, List.filter_cons_of_neg (by simp [pong, hcode])]
    exact hcloses

theorem wsPong {s : Socket} (h : Sends s) (hf : Flight s) {payload : Bytes}
    (hsize : payload.length ≤ maximumControl) : Sends (s.wsPong payload) := by
  cases hp : s.pong with
  | some id =>
    rw [wsPong_some hp]
    exact h.replace hf hp hsize
  | none =>
    rw [wsPong_none hp]
    have hbody : (WsFrame.body { id := s.count, code := .pong, payload }) = payload := by
      unfold WsFrame.body
      split
      · next hnil => exact hnil.symm
      · rfl
    refine h.push (fun hw => (hf.front hw).1) rfl rfl rfl (List.append_nil _) h.continuing
      (fun _ => ⟨rfl, (congrArg List.length hbody).trans_le hsize, Opcode.noConfusion⟩) ?_ (.inr ⟨rfl, rfl, rfl⟩)
      (.inl ⟨rfl, Opcode.noConfusion⟩)
    rw [WsFrame.pong?, Frame.pong?, WsFrame.frame, if_pos rfl, hbody]
    rfl

theorem write {s : Socket} (h : Sends s) (hf : Flight s) (data : Bytes) (binary finish : Bool)
    (handler : Handler) : Sends (s.wsSendData data binary finish handler) := by
  rw [wsSendData]
  set fragment := Fragment.mk data binary finish
  set frame : WsFrame :=
    { id := s.count
      code := if s.continuing then .continuation else if binary then .binary else .text
      finish := finish
      data := data
      handler := some handler } with hframe
  have hview : frame.frame = fragment.frame s.continuing := by
    simp [WsFrame.frame, WsFrame.body, Fragment.frame, frame, fragment]
  have hcode : frame.code.isControl = false := by
    simp only [hframe]
    cases s.continuing <;> cases binary <;> rfl
  have hnot {code : Opcode} (hc : code.isControl = true) : frame.code ≠ code := fun heq => by
    rw [← heq, hcode] at hc
    cases hc
  refine h.push (fun hw => (hf.front hw).1) rfl rfl rfl ?_ (continued_append _ _ fragment).symm
    (fun hc => absurd (hcode.symm.trans hc) Bool.false_ne_true) ?_ (.inl ⟨rfl, hnot rfl⟩)
    (.inl ⟨rfl, hnot rfl⟩)
  · rw [List.filter_cons_of_pos (by rw [WsFrame.frame, hcode]; rfl), hview, h.continuing,
      fragmentFrames_append]
    rfl
  · have hpong : frame.pong? = none := if_neg (hnot rfl)
    rw [hpong]
    exact (List.append_nil _).symm

theorem sendClose {s s' : Socket} (h : Sends s) (hf : Flight s) {payload : Bytes}
    {handler : Handler} (hc : s.closing = false) (hc' : s'.closing = true)
    (hsame : s'.queue = s.queue ∧ s'.writing = s.writing ∧ s'.written = s.written ∧
      s'.fragments = s.fragments ∧ s'.continuing = s.continuing ∧ s'.pings = s.pings ∧
      s'.pong = s.pong)
    (hsize : payload.length ≤ maximumControl) (hvalid : ValidClose payload) :
    Sends (s'.wsSend .close payload handler) := by
  obtain ⟨hqueue, hwriting, hwritten, hfragments, hcontinuing, hpings, hpong⟩ := hsame
  have hbody (id : ℕ) : (WsFrame.body { id, code := .close, payload, handler := some handler })
      = payload := by
    unfold WsFrame.body
    split
    · next hnil => exact hnil.symm
    · rfl
  rw [wsSend]
  refine h.push (fun hw => (hf.front hw).1) hqueue hwriting hwritten ?_ ?_ (fun _ => ⟨rfl, ?_, ?_⟩)
    ?_ (.inl ⟨hpong, Opcode.noConfusion⟩) (.inr ⟨hc, hc'⟩)
  · rw [hfragments]
    exact List.append_nil _
  · rw [hfragments, hcontinuing, h.continuing]
  · exact (congrArg List.length (hbody _)).trans_le hsize
  · exact fun _ => (congrArg ValidClose (hbody _)).mpr hvalid
  · rw [hpings]
    exact (List.append_nil _).symm

theorem move {s s' : Socket} (hmove : Move s s') (hf : Flight s) (h : Sends s) : Sends s' := by
  cases hmove with
  | write data binary finish => exact h.write hf data binary finish _
  | echo hc hr hsize hvalid =>
    exact h.sendClose hf hc rfl ⟨rfl, rfl, rfl, rfl, rfl, rfl, rfl⟩ hsize hvalid
  | close hs hc =>
    exact h.sendClose hf hc rfl ⟨rfl, rfl, rfl, rfl, rfl, rfl, rfl⟩ (by decide)
      (.inr ⟨_, _, [], rfl, by decide, ⟨[], rfl⟩⟩)
  | ping hsize => exact h.wsPong hf hsize
  | closed | begin | put | answer => exact h.congr rfl rfl rfl rfl rfl rfl rfl

end Sends

/-! ### Runs of which no write fails -/

/-- The action is not the failure of a write. -/
def Action.Succeeds : Action → Prop
  | .sent _ ec _ => ec = .success
  | _ => True

theorem Sends.told (s : Socket) (told shut reading answered tlsStops) (h : Sends s) : Sends
    { s with
      told := told, shut := shut, reading := reading, answered := answered, tlsStops := tlsStops } :=
  h.congr rfl rfl rfl rfl rfl rfl rfl

theorem Sends.moves {s s' : Socket} (hmoves : Moves s s') (hf : Flight s) (h : Sends s) :
    Sends s' :=
  (hmoves.keeps (P := fun s => Flight s ∧ Sends s)
    (fun _ _ hmove hp => ⟨hp.1.move hmove, hp.2.move hmove hp.1⟩) ⟨hf, h⟩).2

theorem Sends.sent {s : Socket} (h : Sends s) (hi : Inv s) {index : ℕ} {frame : WsFrame}
    (hinflight : s.inflight[index]? = some frame) (made : List (List Call)) :
    Sends ({ s with inflight := s.inflight.eraseIdx index }.handleWsFrame .success frame made) := by
  obtain ⟨hw, frames, hq, herase⟩ := hi.inflight hinflight
  unfold handleWsFrame
  dsimp only
  rw [if_neg (nofun : Code.success ≠ .operationCanceled), if_pos rfl, herase]
  have hpopped := hi.flight.popped hw
  have hwaiting : s.waiting = s.queue.tail := if_pos hw
  have hsends : Sends { s with inflight := [], writing := false, queue := s.queue.tail } := by
    refine h.congr ?_ hwaiting.symm rfl rfl rfl rfl rfl
    rw [Socket.frames, Socket.frames, hwaiting]
    rfl
  obtain ⟨⟨-, hsends⟩, -⟩ := invoke_keeps (P := fun s => Flight s ∧ Sends s)
    (fun _ _ hmove hp => ⟨hp.1.move hmove, hp.2.move hmove hp.1⟩)
    (fun s _ _ _ _ _ hp => ⟨hp.1.told s _ _ _ _ _, hp.2.told s _ _ _ _ _⟩)
    (s := { s with inflight := [], writing := false, queue := s.queue.tail }) hi.sound
    ⟨hpopped, hsends⟩ frame.handler .success frame.body.length (made.headD [])
  exact hsends.wsWriteNext

theorem Sends.step {s : Socket} (h : Sends s) (hi : Inv s) {action : Action}
    (ha : action.Succeeds) : Sends (s.step action) := by
  cases action with
  | call c => exact h.moves (call_moves hi.sound c) hi.flight
  | received ec bytes =>
    rw [Socket.step]
    split
    · next hr => exact h.moves (received_moves hi.sound hr ec bytes) hi.flight
    · exact h
  | sent index ec made =>
    rw [Socket.step]
    cases hframe : s.inflight[index]? with
    | none => exact h
    | some frame =>
      cases (ha : ec = .success)
      exact h.sent hi hframe made

theorem sends_after (maximum limit : ℕ) {actions : List Action}
    (h : ∀ action ∈ actions, action.Succeeds) :
    Sends (after step (upgraded maximum limit) actions) := by
  have hrun {s : Socket} (hi : Inv s) (hs : Sends s) : Sends (after step s actions) := by
    induction actions generalizing s with
    | nil => exact hs
    | cons action actions ih =>
      exact ih (fun other hmem => h other (List.mem_cons_of_mem _ hmem)) (hi.step action)
        (hs.step hi (h action List.mem_cons_self))
  refine hrun (inv_upgraded maximum limit) ⟨rfl, rfl, nofun, .slnil, rfl, nofun, ?_⟩
  exact Nat.zero_le _

/-! ### The client -/

theorem encodes_written {maximum : ℕ} (hmaximum : maximum < 2 ^ 63) {frames : List WsFrame}
    {last : Option Partial} {events : List Event}
    (h : FollowAll maximum none (frames.map WsFrame.frame) last events) :
    Encodes false (frames.map WsFrame.frame) (frames.flatMap WsFrame.bytes) := by
  have hsize := h.size
  clear h
  induction frames with
  | nil => exact .nil
  | cons frame frames ih =>
    have hlen := hsize frame.frame (List.mem_map_of_mem List.mem_cons_self)
    have hcontrol : maximumControl < 2 ^ 63 := by decide
    refine @Encodes.cons false _ _ _ none rfl (by omega) ?_
    exact ih fun other hmem => hsize other (List.mem_cons_of_mem _ hmem)

/-- The messages of a client are those of the fragments. -/
theorem message_events (messages : List Partial) :
    (messages.map fun message => Event.message message.binary message.bytes).filterMap
      Event.message? = messages := by
  rw [List.filterMap_map]
  exact List.filterMap_some

theorem close_count (frames : List WsFrame) :
    (frames.filterMap (Frame.close? ∘ WsFrame.frame)).length =
      (frames.filter fun frame => frame.code = .close).length := by
  induction frames with
  | nil => rfl
  | cons frame frames ih =>
    by_cases hc : frame.code = .close
    · have hsome : (Frame.close? ∘ WsFrame.frame) frame = some frame.body := if_pos hc
      rw [List.filterMap_cons_some hsome, List.filter_cons_of_pos (by simpa), List.length_cons,
        List.length_cons, ih]
    · have hnone : (Frame.close? ∘ WsFrame.frame) frame = none := if_neg hc
      rw [List.filterMap_cons_none hnone, List.filter_cons_of_neg (by simpa), ih]

/-- As long as no write fails, and its callers write messages that the client takes, the client
reads what was sent without an error, whatever the pieces: the messages in order, a pong for
the latest ping at each time, and one close at most. Once all is sent there are all messages,
and the last ping is answered. -/
theorem client_reads {maximum limit : ℕ} (h : maximum ≤ limit) (hmaximum : maximum < 2 ^ 63)
    (own bound : ℕ) {actions : List Action} (hok : ∀ action ∈ actions, action.Succeeds)
    (hspeaks : Speaks maximum
      (spoken none (after step (upgraded own bound) actions).fragments)) {pieces : List Bytes}
    (hpieces : pieces.flatten <+:
      (after step (upgraded own bound) actions).written.flatMap WsFrame.bytes) :
    let s := after step (upgraded own bound) actions
    ∃ events, readPieces maximum limit false pieces = (events, .needMore) ∧
      events.filterMap Event.message? <+: (spoken none s.fragments).1 ∧
      List.Sublist (events.filterMap Event.pong?) s.pings ∧
      (events.filterMap Event.close?).length ≤ 1 ∧
      (s.queue = [] → pieces.flatten = s.written.flatMap WsFrame.bytes →
        events.filterMap Event.message? = (spoken none s.fragments).1 ∧
        (events.filterMap Event.pong?).getLast? = s.pings.getLast?) := by
  intro s
  have hsends : Sends s := sends_after own bound hok
  obtain ⟨bytes, hbytes⟩ := hpieces
  have hdata := hspeaks.follow
  rw [Option.isSome_none, ← hsends.data] at hdata
  obtain ⟨all, hall, hmessages, hpongs, hcloses⟩ := hdata.interleave fun frame hmem hc => by
    obtain ⟨before, hbefore, rfl⟩ := List.mem_map.mp hmem
    exact hsends.control before hbefore hc
  rw [message_events] at hmessages
  rw [List.filterMap_map] at hpongs hcloses
  -- what was written is in front of what waits
  rw [frames, List.map_append] at hall
  obtain ⟨mid, first, rest, hwritten, hwaiting, rfl⟩ := hall.split
  have hbits := encodes_written hmaximum hwritten
  have hread : readPieces maximum limit false (pieces ++ [bytes]) = (first, .needMore) := by
    refine hwritten.reads h ?_
    rwa [List.flatten_append, List.flatten_singleton, hbytes]
  have hwhole : read limit (pieces ++ [bytes]) { maximum, server := false } [] [] =
      (first, (read limit (pieces ++ [bytes]) { maximum, server := false } [] []).2.1,
        .needMore) :=
    Prod.ext (Prod.ext_iff.mp hread).1 (Prod.ext rfl (Prod.ext_iff.mp hread).2)
  obtain ⟨events, left, hevents, hprefix⟩ := read_prefix hwhole
  have hpieces : readPieces maximum limit false pieces = (events, .needMore) := by
    rw [readPieces, hevents]
  have hfront := hprefix.trans (List.prefix_append first rest)
  refine ⟨events, hpieces, hmessages ▸ hfront.filterMap _, ?_, ?_, fun hqueue hwhole => ?_⟩
  · exact (hfront.filterMap Event.pong?).sublist.trans (hpongs ▸ hsends.pongs)
  · refine (hfront.filterMap Event.close?).length_le.trans ?_
    rw [hcloses, close_count]
    refine hsends.closes.trans ?_
    split <;> omega
  · have hempty : s.waiting = [] := by
      rw [waiting, hqueue]
      exact ite_self _
    rw [hempty] at hwaiting
    cases hwaiting
    rw [List.append_nil] at hmessages hpongs
    have hsame : events = first := by
      have hall := hwritten.reads h (hwhole ▸ hbits)
      exact (Prod.ext_iff.mp (hpieces.symm.trans hall)).1
    rw [hsame]
    exact ⟨hmessages, (congrArg List.getLast? hpongs).trans hsends.last⟩

/-- A text in two fragments, with a ping received between them. -/
theorem client_reads_fragments :
    let actions : List Action :=
      [.call .read, .call (.write [0x61] false false),
        .received .success [0x89, 0x81, 0, 0, 0, 0, 7], .call (.write [0x62] false true),
        .sent 0 .success [], .sent 0 .success [], .sent 0 .success []]
    let s := after step (upgraded 100 100) actions
    ∃ events, readPieces 100 100 false [[0x01, 1], [0x61, 0x8a], [1, 7, 0x80, 1, 0x62]] =
        (events, .needMore) ∧
      events.filterMap Event.message? <+: (spoken none s.fragments).1 ∧
      List.Sublist (events.filterMap Event.pong?) s.pings ∧
      (events.filterMap Event.close?).length ≤ 1 ∧
      (s.queue = [] → [[0x01, 1], [0x61, 0x8a], [1, 7, 0x80, 1, 0x62]].flatten =
          s.written.flatMap WsFrame.bytes →
        events.filterMap Event.message? = (spoken none s.fragments).1 ∧
        (events.filterMap Event.pong?).getLast? = s.pings.getLast?) := by
  refine client_reads le_rfl (by decide) 100 100 (fun action hmem => ?_) ⟨?_, ?_⟩ (by decide)
  · simp only [List.mem_cons, List.not_mem_nil, or_false] at hmem
    rcases hmem with rfl | rfl | rfl | rfl | rfl | rfl | rfl <;> first | exact trivial | exact rfl
  · intro message hmem
    cases List.mem_singleton.mp hmem
    exact ⟨by decide, fun _ => ⟨['a', 'b'], by decide⟩⟩
  · exact nofun

end Socket

end BitcoinNetwork.Ws
