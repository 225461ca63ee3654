import BitcoinNetwork.Ws.SocketMoves

/-!
# Runs of an upgraded socket (net/socket_ws.cpp)

Each invariant is kept by a move, by the start and by the completion of a write, and so along
every run.
-/

namespace BitcoinNetwork.Ws
open Async Net

namespace Socket

/-! ### The write that is under way -/

/-- The frames that are queued of which the write is not started. -/
def waiting (s : Socket) : List WsFrame := if s.writing then s.queue.tail else s.queue

/-- One write is under way, of the front frame, or there is none. -/
structure Flight (s : Socket) : Prop where
  ids : (s.queue.map WsFrame.id).Pairwise (· < ·)
  fresh : ∀ frame ∈ s.queue, frame.id < s.count
  inflight : s.inflight = if s.writing then s.queue.head?.toList else []
  front : s.writing = true → s.queue ≠ [] ∧ s.queue.head? = s.written.getLast?
  pong : ∀ id, s.pong = some id →
    ∃ frame ∈ s.waiting, frame.id = id ∧ frame.code = .pong ∧ frame.handler = none

namespace Flight

/-- The frame is queued, before a write is started. -/
theorem append {s : Socket} (h : Flight s) {frame : WsFrame} (hid : frame.id = s.count)
    {pong : Option ℕ} (hpong : pong = s.pong ∨
      pong = some s.count ∧ frame.code = .pong ∧ frame.handler = none) (queued : List Handler) :
    Flight { s with
      queue := s.queue ++ [frame], queued := queued, count := s.count + 1, pong := pong } := by
  have hwaiting : ({ s with queue := s.queue ++ [frame] } : Socket).waiting
      = s.waiting ++ [frame] := by
    unfold waiting
    split
    · next hw => exact List.tail_append_of_ne_nil (h.front hw).1
    · rfl
  refine ⟨?_, ?_, ?_, fun hw => ?_, fun id hp => ?_⟩
  · simp only [List.map_append, List.map_cons, List.map_nil, List.pairwise_append]
    refine ⟨h.ids, List.pairwise_singleton _ _, fun id hmem other hother => ?_⟩
    obtain ⟨before, hbefore, rfl⟩ := List.mem_map.mp hmem
    rw [List.mem_singleton.mp hother, hid]
    exact h.fresh before hbefore
  · intro other hmem
    rcases List.mem_append.mp hmem with hmem | hmem
    · exact Nat.lt_succ_of_lt (h.fresh other hmem)
    · rw [List.mem_singleton.mp hmem, hid]
      exact Nat.lt_succ_self _
  · rw [h.inflight]
    cases hw : s.writing with
    | false => rfl
    | true =>
      simp only [reduceIte]
      rw [List.head?_append_of_ne_nil _ (h.front hw).1]
  · obtain ⟨hne, hlast⟩ := h.front hw
    refine ⟨List.append_ne_nil_of_left_ne_nil hne _, ?_⟩
    rw [← hlast]
    exact List.head?_append_of_ne_nil _ hne
  · have hmem : ∃ other ∈ s.waiting ++ [frame], other.id = id ∧ other.code = .pong ∧
        other.handler = none := by
      rcases hpong with rfl | ⟨rfl, hcode, hnone⟩
      · obtain ⟨other, hother, hrest⟩ := h.pong id hp
        exact ⟨other, List.mem_append_left _ hother, hrest⟩
      · cases hp
        exact ⟨frame, List.mem_append_right _ List.mem_cons_self, hid, hcode, hnone⟩
    rw [← hwaiting] at hmem
    exact hmem

/-- The write of the front frame is started, if none is under way. -/
theorem wsWriteNext {s : Socket} (h : Flight s) : Flight s.wsWriteNext := by
  cases hw : s.writing with
  | true => rwa [wsWriteNext_writing hw]
  | false =>
    cases hq : s.queue with
    | nil => rwa [wsWriteNext_nil hq]
    | cons frame frames =>
      rw [wsWriteNext_cons hw hq]
      refine ⟨h.ids, h.fresh, ?_, fun _ => ⟨?_, ?_⟩, fun id hp => ?_⟩
      · simp only [h.inflight, hw, hq, Bool.false_eq_true, reduceIte, List.nil_append,
          List.head?_cons, Option.toList_some]
      · rw [hq]
        exact List.cons_ne_nil _ _
      · rw [hq]
        exact List.getLast?_concat.symm
      · dsimp only at hp
        split at hp
        · cases hp
        · next hne =>
          obtain ⟨other, hmem, hid, hrest⟩ := h.pong id hp
          refine ⟨other, ?_, hid, hrest⟩
          rw [waiting, hw, hq] at hmem
          rcases List.mem_cons.mp hmem with rfl | hmem
          · exact absurd (hp.trans (congrArg some hid.symm)) hne
          · rw [waiting, if_pos rfl, hq]
            exact hmem

theorem push {s : Socket} (h : Flight s) {frame : WsFrame} (hid : frame.id = s.count) :
    Flight (s.push frame) :=
  (h.append hid (.inl rfl) _).wsWriteNext

/-- What is not of the queue may change. -/
theorem congr {s s' : Socket} (h : Flight s) (hqueue : s'.queue = s.queue)
    (hpong : s'.pong = s.pong) (hwriting : s'.writing = s.writing)
    (hinflight : s'.inflight = s.inflight) (hwritten : s'.written = s.written)
    (hcount : s'.count = s.count) : Flight s' := by
  obtain ⟨ids, fresh, inflight, front, pong⟩ := h
  unfold waiting at pong
  rw [← hqueue, ← hwriting] at *
  rw [← hinflight] at inflight
  rw [← hwritten] at front
  rw [← hcount] at fresh
  rw [← hpong] at pong
  exact ⟨ids, fresh, inflight, front, pong⟩

/-- A frame that waits has another payload. -/
theorem replace {s : Socket} (h : Flight s) {id : ℕ} (hp : s.pong = some id) (payload : Bytes)
    (pings : List Bytes) : Flight { s with
      queue := Socket.replace id payload s.queue
      inflight := Socket.replace id payload s.inflight
      pings := pings } := by
  have hid (frame : WsFrame) :
      (if frame.id = id then { frame with payload := payload } else frame).id = frame.id := by
    split <;> rfl
  have hids : (Socket.replace id payload s.queue).map WsFrame.id = s.queue.map WsFrame.id := by
    rw [Socket.replace, List.map_map]
    exact List.map_congr_left fun frame _ => hid frame
  obtain ⟨pong, hmem, hpong, -⟩ := h.pong id hp
  -- the frame of the write that is under way is another
  have hfront : s.writing = true → ∀ frame ∈ s.queue.head?, frame.id ≠ id := by
    intro hw frame hframe
    cases hq : s.queue with
    | nil => rw [hq] at hframe; cases hframe
    | cons first rest =>
      rw [hq] at hframe
      cases hframe
      have hall := h.ids
      rw [hq, List.map_cons, List.pairwise_cons] at hall
      rw [waiting, hw, hq] at hmem
      exact (hpong ▸ hall.1 _ (List.mem_map_of_mem hmem)).ne
  have hhead : s.writing = true → (Socket.replace id payload s.queue).head? = s.queue.head? := by
    intro hw
    have hkeep := hfront hw
    rw [Socket.replace, List.head?_map]
    cases hq : s.queue.head? with
    | none => rfl
    | some frame => rw [Option.map_some, if_neg (hkeep frame hq)]
  refine ⟨hids ▸ h.ids, ?_, ?_, fun hw => ⟨?_, (hhead hw).trans (h.front hw).2⟩, fun other ho => ?_⟩
  · intro frame hframe
    obtain ⟨before, hbefore, rfl⟩ := List.mem_map.mp hframe
    exact (hid before).trans_lt (h.fresh before hbefore)
  · dsimp only
    rw [h.inflight]
    cases hw : s.writing with
    | false => rfl
    | true =>
      simp only [reduceIte]
      rw [hhead hw]
      cases hq : s.queue.head? with
      | none => rfl
      | some frame =>
        have hne := hfront hw frame hq
        simp only [Option.toList_some, Socket.replace, List.map_cons, List.map_nil, if_neg hne]
  · exact fun hnil => (h.front hw).1 (List.map_eq_nil_iff.mp hnil)
  · obtain ⟨frame, hframe, hrest⟩ := h.pong other ho
    refine ⟨if frame.id = id then { frame with payload := payload } else frame, ?_, ?_⟩
    · unfold waiting at hframe ⊢
      dsimp only
      split
      · next hw =>
        rw [if_pos hw] at hframe
        rw [Socket.replace, ← List.map_tail]
        exact List.mem_map_of_mem hframe
      · next hw =>
        rw [if_neg hw] at hframe
        exact List.mem_map_of_mem hframe
    · split
      · exact hrest
      · exact hrest

theorem wsPong {s : Socket} (h : Flight s) (payload : Bytes) : Flight (s.wsPong payload) := by
  cases hp : s.pong with
  | some id =>
    rw [wsPong_some hp]
    exact h.replace hp payload _
  | none =>
    rw [wsPong_none hp, Socket.push]
    have happend := @append s h { id := s.count, code := .pong, payload } rfl _
      (.inr ⟨rfl, rfl, rfl⟩) s.queued
    refine Flight.wsWriteNext (happend.congr ?_ ?_ ?_ ?_ ?_ ?_) <;> rfl

theorem move {s s' : Socket} (hmove : Move s s') (h : Flight s) : Flight s' := by
  cases hmove with
  | write | echo | close =>
    refine push (h.congr ?_ ?_ ?_ ?_ ?_ ?_) rfl <;> rfl
  | ping => exact h.wsPong _
  | closed | begin | put | answer => exact h.congr rfl rfl rfl rfl rfl rfl

/-- The write is complete, whose frame is removed. -/
theorem popped {s : Socket} (h : Flight s) (hw : s.writing = true) : Flight
    { s with inflight := [], writing := false, queue := s.queue.tail } := by
  refine ⟨?_, fun frame hmem => h.fresh frame (List.mem_of_mem_tail hmem), rfl, nofun,
    fun id hp => ?_⟩
  · have hids := h.ids.tail
    rwa [← List.map_tail] at hids
  · have hpong := h.pong id hp
    rwa [waiting, if_pos hw] at hpong

/-- A write has failed, and the frames that follow it are removed. -/
theorem failed {s : Socket} : Flight
    { s with inflight := [], writing := false, queue := [], pong := none } :=
  ⟨.nil, nofun, rfl, nofun, nofun⟩

end Flight

/-! ### The handlers -/

/-- The handlers of the frames that are queued. -/
def handlers (s : Socket) : List Handler := s.queue.filterMap WsFrame.handler

/-- The handlers that were invoked and those that are pending are all, in order. There is
one close at most, a read is answered once, and the stop goes on once. -/
structure Tidy (pending : List Handler) (s : Socket) : Prop where
  told : s.told.map Prod.fst ++ pending = s.queued
  fresh : ∀ id, Handler.caller id ∈ s.queued → id < s.count
  nodup : s.queued.Nodup
  closing : s.closing = false → .echo ∉ s.queued ∧ .close ∉ s.queued
  once : ¬(.echo ∈ s.queued ∧ .close ∈ s.queued)
  stopped : .close ∈ s.queued → s.stopped = true
  reads : s.begun = s.answered.length + if s.reading = .idle then 0 else 1
  echoing : s.reading = .echoing ↔ .echo ∈ pending
  tls : s.tlsStops + pending.count Handler.close = if s.stopped then 1 else 0

theorem handlers_push (s : Socket) (frame : WsFrame) :
    (s.push frame).handlers = s.handlers ++ frame.handler.toList := by
  rw [handlers, push_eq, handlers, List.filterMap_append]
  cases hh : frame.handler <;> simp [hh]

theorem handlers_wsPong (s : Socket) (payload : Bytes) :
    (s.wsPong payload).handlers = s.handlers := by
  cases hp : s.pong with
  | some id =>
    rw [wsPong_some hp, handlers, replace, List.filterMap_map, handlers]
    refine List.filterMap_congr fun frame _ => ?_
    dsimp only [Function.comp]
    split <;> rfl
  | none =>
    rw [wsPong_none hp, handlers_push]
    exact List.append_nil _

namespace Tidy
variable {pending : List Handler} {s : Socket}

theorem mem_queued (h : Tidy pending s) {handler : Handler} (hmem : handler ∈ pending) :
    handler ∈ s.queued := h.told ▸ List.mem_append_right _ hmem

theorem caller_not_mem (h : Tidy pending s) : .caller s.count ∉ s.queued := fun hmem =>
  (h.fresh _ hmem).ne rfl

/-- What is not told of may change. -/
theorem congr {s' : Socket} (h : Tidy pending s) (htold : s'.told = s.told)
    (hqueued : s'.queued = s.queued) (hcount : s.count ≤ s'.count)
    (hclosing : s'.closing = s.closing) (hstopped : s'.stopped = s.stopped)
    (hreading : s'.reading = s.reading) (hbegun : s'.begun = s.begun)
    (hanswered : s'.answered = s.answered) (htls : s'.tlsStops = s.tlsStops) :
    Tidy pending s' := by
  obtain ⟨told, fresh, nodup, closing, once, stopped, reads, echoing, tls⟩ := h
  rw [← hqueued] at *
  rw [← htold] at told
  rw [← hclosing] at closing
  rw [← hstopped] at stopped tls
  rw [← hreading] at reads echoing
  rw [← hbegun, ← hanswered] at reads
  rw [← htls] at tls
  exact ⟨told, fun id hmem => (fresh id hmem).trans_le hcount, nodup, closing, once, stopped,
    reads, echoing, tls⟩

theorem write (h : Tidy pending s) (data : Bytes) (binary finish : Bool) :
    Tidy (pending ++ [.caller s.count]) (s.wsSendData data binary finish (.caller s.count)) := by
  have hfresh := h.caller_not_mem
  rw [wsSendData, push_eq]
  refine ⟨?_, fun id hmem => ?_, ?_, fun hc => ?_, ?_, fun hmem => ?_, h.reads, ?_, ?_⟩
  · rw [← List.append_assoc, h.told]
    rfl
  · rcases List.mem_append.mp hmem with hmem | hmem
    · exact Nat.lt_succ_of_lt (h.fresh id hmem)
    · cases List.mem_singleton.mp hmem
      exact Nat.lt_succ_self _
  · exact List.nodup_append.mpr ⟨h.nodup, List.nodup_singleton _, fun handler hmem other hother =>
      fun heq => hfresh (List.mem_singleton.mp hother ▸ heq ▸ hmem)⟩
  · simpa using h.closing hc
  · simpa using h.once
  · exact h.stopped (by simpa using hmem)
  · simpa using h.echoing
  · simpa using h.tls

theorem echo (h : Tidy pending s) (hc : s.closing = false) (hr : s.reading = .receiving)
    (payload : Bytes) : Tidy (pending ++ [.echo])
      ({ s with closing := true, reading := .echoing }.wsSend .close payload .echo) := by
  obtain ⟨hecho, hclose⟩ := h.closing hc
  have hpending : .close ∉ pending := fun hmem => hclose (h.mem_queued hmem)
  rw [wsSend, push_eq]
  refine ⟨?_, fun id hmem => ?_, ?_, fun hc => (by cases hc), ?_, fun hmem => ?_, ?_, ?_, ?_⟩
  · rw [← List.append_assoc, h.told]
    rfl
  · exact Nat.lt_succ_of_lt (h.fresh id (by simpa using hmem))
  · exact List.nodup_append.mpr ⟨h.nodup, List.nodup_singleton _, fun handler hmem other hother =>
      fun heq => hecho (List.mem_singleton.mp hother ▸ heq ▸ hmem)⟩
  · simpa using hclose
  · exact absurd (by simpa using hmem) hclose
  · have hreads := h.reads
    rw [hr] at hreads
    exact hreads
  · simp
  · simpa using h.tls

theorem close (h : Tidy pending s) (hs : s.stopped = false) (hc : s.closing = false)
    (payload : Bytes) : Tidy (pending ++ [.close])
      ({ s with stopped := true, closing := true }.wsSend .close payload .close) := by
  obtain ⟨hecho, hclose⟩ := h.closing hc
  have hpending : .close ∉ pending := fun hmem => hclose (h.mem_queued hmem)
  rw [wsSend, push_eq]
  refine ⟨?_, fun id hmem => ?_, ?_, fun hc => (by cases hc), ?_, fun _ => rfl, h.reads, ?_, ?_⟩
  · rw [← List.append_assoc, h.told]
    rfl
  · exact Nat.lt_succ_of_lt (h.fresh id (by simpa using hmem))
  · exact List.nodup_append.mpr ⟨h.nodup, List.nodup_singleton _, fun handler hmem other hother =>
      fun heq => hclose (List.mem_singleton.mp hother ▸ heq ▸ hmem)⟩
  · simpa using hecho
  · simpa using h.echoing
  · have htls := h.tls
    rw [List.count_eq_zero_of_not_mem hpending, hs] at htls
    simpa [List.count_eq_zero_of_not_mem hpending] using htls

theorem ping (h : Tidy pending s) (payload : Bytes) : Tidy pending (s.wsPong payload) := by
  cases hp : s.pong with
  | some id =>
    rw [wsPong_some hp]
    exact h.congr rfl rfl le_rfl rfl rfl rfl rfl rfl rfl
  | none =>
    rw [wsPong_none hp, push_eq]
    refine h.congr rfl ?_ (Nat.le_succ _) rfl rfl rfl rfl rfl rfl
    exact List.append_nil _

/-- The stop goes on at once if a close was sent. -/
theorem closed (h : Tidy pending s) (hs : s.stopped = false) :
    Tidy pending ({ s with stopped := true }.doTlsStop) := by
  have hclose : .close ∉ pending := fun hmem => by
    have hstopped := h.stopped (h.mem_queued hmem)
    rw [hs] at hstopped
    cases hstopped
  refine ⟨h.told, h.fresh, h.nodup, h.closing, h.once, fun _ => rfl, h.reads, h.echoing, ?_⟩
  have htls := h.tls
  rw [List.count_eq_zero_of_not_mem hclose, hs] at htls
  rw [List.count_eq_zero_of_not_mem hclose]
  exact congrArg (· + 1) htls

theorem begin (h : Tidy pending s) (hr : s.reading = .idle) (message : Bytes) : Tidy pending
    { s with message := message, reading := .receiving, begun := s.begun + 1 } := by
  refine ⟨h.told, h.fresh, h.nodup, h.closing, h.once, h.stopped, ?_, ?_, h.tls⟩
  · have hreads := h.reads
    rw [hr] at hreads
    exact congrArg (· + 1) hreads
  · have hecho := h.echoing
    rw [hr] at hecho
    exact ⟨nofun, fun hmem => nomatch hecho.mpr hmem⟩

theorem answer (h : Tidy pending s) (code : ReadCode) (hr : s.reading = .receiving) :
    Tidy pending (s.answer code) := by
  refine ⟨h.told, h.fresh, h.nodup, h.closing, h.once, h.stopped, ?_, ?_, h.tls⟩
  · have hreads := h.reads
    rw [hr] at hreads
    simpa [Socket.answer] using hreads
  · have hecho := h.echoing
    rw [hr] at hecho
    exact ⟨nofun, fun hmem => nomatch hecho.mpr hmem⟩

theorem move {rest : List Handler} {s' : Socket} (hmove : Move s s')
    (h : Tidy (rest ++ s.handlers) s) : Tidy (rest ++ s'.handlers) s' := by
  cases hmove with
  | write data binary finish =>
    have hwrite := h.write data binary finish
    rw [wsSendData] at hwrite ⊢
    rwa [handlers_push, ← List.append_assoc]
  | @echo payload hc hr =>
    have hecho := @echo _ _ h hc hr payload
    rw [wsSend] at hecho ⊢
    rwa [handlers_push, ← List.append_assoc]
  | close hs hc =>
    have hclose := h.close hs hc closePayload
    rw [wsSend] at hclose ⊢
    rwa [handlers_push, ← List.append_assoc]
  | ping =>
    rw [handlers_wsPong]
    exact h.ping _
  | closed hs => exact h.closed hs
  | begin hr => exact h.begin hr _
  | put => exact h.congr rfl rfl le_rfl rfl rfl rfl rfl rfl rfl
  | answer code hr => exact h.answer code hr

/-- A handler that is first is not among those behind it. -/
theorem not_mem_tail {handler : Handler} (h : Tidy (handler :: pending) s) : handler ∉ pending := by
  have hnodup := h.nodup
  rw [← h.told] at hnodup
  exact (List.nodup_cons.mp (List.nodup_append.mp hnodup).2.1).1

theorem tell_caller {id : ℕ} (h : Tidy (.caller id :: pending) s) (code : Code) (size : ℕ) :
    Tidy pending { s with told := s.told ++ [(Handler.caller id, code, size)] } := by
  refine ⟨?_, h.fresh, h.nodup, h.closing, h.once, h.stopped, h.reads, ?_, ?_⟩
  · simpa using h.told
  · simpa using h.echoing
  · simpa using h.tls

theorem tell_echo (h : Tidy (.echo :: pending) s) (code : Code) (size : ℕ) :
    Tidy pending ({ s with told := s.told ++ [(Handler.echo, code, size)], shut := true }.answer
      .websocketClosed) := by
  have hnot := h.not_mem_tail
  have hr : s.reading = .echoing := h.echoing.mpr List.mem_cons_self
  refine ⟨?_, h.fresh, h.nodup, h.closing, h.once, h.stopped, ?_, ?_, ?_⟩
  · simpa [Socket.answer] using h.told
  · have hreads := h.reads
    rw [hr] at hreads
    simpa [Socket.answer] using hreads
  · exact ⟨nofun, fun hmem => absurd hmem hnot⟩
  · have htls := h.tls
    rw [List.count_cons_of_ne Handler.noConfusion] at htls
    exact htls

theorem tell_close (h : Tidy (.close :: pending) s) (code : Code) (size : ℕ) :
    Tidy pending { s with told := s.told ++ [(Handler.close, code, size)] }.doTlsStop := by
  have hnot := h.not_mem_tail
  refine ⟨?_, h.fresh, h.nodup, h.closing, h.once, h.stopped, h.reads, ?_, ?_⟩
  · simpa [doTlsStop] using h.told
  · simpa [doTlsStop] using h.echoing
  · have htls := h.tls
    rw [List.count_cons_self, List.count_eq_zero_of_not_mem hnot] at htls
    rwa [List.count_eq_zero_of_not_mem hnot]

end Tidy

/-! ### Completions -/

/-- What moves keep, whatever the handlers were told, is kept where one is invoked. -/
theorem invoke_keeps {P : Socket → Prop} (hmove : ∀ s s', Move s s' → P s → P s')
    (hsame : ∀ (s : Socket) told shut reading answered tlsStops, P s →
      P { s with
        told := told, shut := shut, reading := reading, answered := answered, tlsStops := tlsStops })
    {s : Socket} (hs : s.reader.Sound) (h : P s) (handler : Option Handler) (code : Code) (size : ℕ)
    (made : List Call) :
    P (s.invoke handler code size made) ∧ (s.invoke handler code size made).reader.Sound := by
  cases handler with
  | none => exact ⟨h, hs⟩
  | some handler =>
    cases handler with
    | caller id =>
      have hmoves := @calls_moves { s with told := s.told ++ [(Handler.caller id, code, size)] } hs made
      exact ⟨hmoves.keeps hmove (hsame s _ s.shut s.reading s.answered s.tlsStops h),
        hmoves.sound hs⟩
    | echo =>
      have hmoves := @calls_moves ({ s with
        told := s.told ++ [(Handler.echo, code, size)], shut := true }.answer .websocketClosed) hs made
      exact ⟨hmoves.keeps hmove (hsame s _ true .idle _ s.tlsStops h), hmoves.sound hs⟩
    | close => exact ⟨hsame s _ s.shut s.reading s.answered _ h, hs⟩

theorem invokeAll_keeps {P : Socket → Prop} (hmove : ∀ s s', Move s s' → P s → P s')
    (hsame : ∀ (s : Socket) told shut reading answered tlsStops, P s →
      P { s with
        told := told, shut := shut, reading := reading, answered := answered, tlsStops := tlsStops })
    {s : Socket} (hs : s.reader.Sound) (h : P s) (code : Code) (frames : List WsFrame)
    (made : List (List Call)) :
    P (invokeAll code s frames made) ∧ (invokeAll code s frames made).reader.Sound := by
  induction frames generalizing s made with
  | nil => exact ⟨h, hs⟩
  | cons frame frames ih =>
    obtain ⟨hnext, hsound⟩ := invoke_keeps hmove hsame hs h frame.handler code 0 (made.headD [])
    exact ih hsound hnext made.tail

theorem Flight.told (s : Socket) (told shut reading answered tlsStops) (h : Flight s) : Flight
    { s with
      told := told, shut := shut, reading := reading, answered := answered, tlsStops := tlsStops } :=
  h.congr rfl rfl rfl rfl rfl rfl

/-- The handler of the first frame is invoked. -/
theorem Tidy.invoke {s : Socket} {handler : Option Handler} {rest : List Handler}
    (h : Tidy (handler.toList ++ rest ++ s.handlers) s) (hs : s.reader.Sound) (code : Code)
    (size : ℕ) (made : List Call) :
    Tidy (rest ++ (s.invoke handler code size made).handlers) (s.invoke handler code size made) := by
  have hkeeps (s s' : Socket) (hmove : Move s s') (h : Tidy (rest ++ s.handlers) s) :=
    h.move hmove
  cases handler with
  | none => exact h
  | some handler =>
    cases handler with
    | caller id =>
      refine Moves.keeps (P := fun s => Tidy (rest ++ s.handlers) s) hkeeps
        (@calls_moves { s with told := s.told ++ [(Handler.caller id, code, size)] } hs made) ?_
      exact h.tell_caller code size
    | echo =>
      refine Moves.keeps (P := fun s => Tidy (rest ++ s.handlers) s) hkeeps (@calls_moves
        ({ s with told := s.told ++ [(Handler.echo, code, size)], shut := true }.answer
          .websocketClosed) hs made) ?_
      exact h.tell_echo code size
    | close => exact h.tell_close code size

theorem Tidy.invokeAll {s : Socket} {frames : List WsFrame} (hs : s.reader.Sound)
    (h : Tidy (frames.filterMap WsFrame.handler ++ s.handlers) s) (code : Code)
    (made : List (List Call)) :
    Tidy (Socket.invokeAll code s frames made).handlers (Socket.invokeAll code s frames made) := by
  induction frames generalizing s made with
  | nil => exact h
  | cons frame frames ih =>
    have hfirst : Tidy (frame.handler.toList ++ frames.filterMap WsFrame.handler ++ s.handlers) s := by
      rw [List.filterMap_cons] at h
      cases hh : frame.handler <;> rw [hh] at h <;> exact h
    have hsound := (invoke_keeps (P := fun s => s.reader.Sound) (fun _ _ => Move.sound)
      (fun _ _ _ _ _ _ h => h) hs hs frame.handler code 0 (made.headD [])).2
    exact ih hsound (hfirst.invoke hs code 0 (made.headD [])) made.tail

/-- A write is under way as long as there are frames. -/
def Busy (s : Socket) : Prop := s.writing = false → s.queue = []

theorem wsWriteNext_busy (s : Socket) : s.wsWriteNext.Busy := by
  intro hw
  cases hwriting : s.writing with
  | true =>
    rw [wsWriteNext_writing hwriting, hwriting] at hw
    cases hw
  | false =>
    cases hq : s.queue with
    | nil => rw [wsWriteNext_nil hq, hq]
    | cons frame frames =>
      rw [wsWriteNext_cons hwriting hq] at hw
      cases hw

theorem Move.busy {s s' : Socket} (hmove : Move s s') (h : s.Busy) : s'.Busy := by
  cases hmove with
  | write | echo | close => exact wsWriteNext_busy _
  | ping =>
    cases hp : s.pong with
    | some id =>
      rw [wsPong_some hp]
      intro hw
      dsimp only
      rw [h hw]
      rfl
    | none =>
      rw [wsPong_none hp]
      exact wsWriteNext_busy _
  | closed | begin | put | answer => exact h

/-- What holds of a socket between its actions. -/
structure Inv (s : Socket) : Prop where
  flight : Flight s
  sound : s.reader.Sound
  busy : s.Busy
  tidy : Tidy s.handlers s

theorem Inv.moves {s s' : Socket} (h : Inv s) (hmoves : Moves s s') : Inv s' := by
  refine hmoves.keeps (fun s s' hmove hi => ?_) h
  exact ⟨hi.flight.move hmove, hmove.sound hi.sound, hmove.busy hi.busy,
    @Tidy.move s [] s' hmove hi.tidy⟩

theorem Tidy.wsWriteNext {s : Socket} (h : Tidy s.handlers s) :
    Tidy s.wsWriteNext.handlers s.wsWriteNext := by
  have hhandlers : s.wsWriteNext.handlers = s.handlers := by
    rw [wsWriteNext_eq]
    rfl
  rw [hhandlers, wsWriteNext_eq]
  exact h.congr rfl rfl le_rfl rfl rfl rfl rfl rfl rfl

theorem Inv.inflight {s : Socket} (h : Inv s) {index : ℕ} {frame : WsFrame}
    (hi : s.inflight[index]? = some frame) : s.writing = true ∧
      ∃ frames, s.queue = frame :: frames ∧ s.inflight.eraseIdx index = [] := by
  have hinflight := h.flight.inflight
  cases hw : s.writing with
  | false =>
    rw [hw] at hinflight
    rw [hinflight] at hi
    cases hi
  | true =>
    rw [hw, if_pos rfl] at hinflight
    cases hq : s.queue with
    | nil =>
      rw [hinflight, hq] at hi
      cases hi
    | cons first frames =>
      rw [hq] at hinflight
      rw [hinflight] at hi ⊢
      cases index with
      | zero =>
        cases hi
        exact ⟨rfl, frames, rfl, rfl⟩
      | succ index => cases hi

/-- The completion of the write that is under way. -/
theorem Inv.sent {s : Socket} (h : Inv s) {index : ℕ} {frame : WsFrame}
    (hi : s.inflight[index]? = some frame) (ec : Code) (made : List (List Call)) :
    Inv ({ s with inflight := s.inflight.eraseIdx index }.handleWsFrame ec frame made) := by
  obtain ⟨hw, frames, hq, herase⟩ := h.inflight hi
  have hhandlers : s.handlers = frame.handler.toList ++ frames.filterMap WsFrame.handler := by
    rw [handlers, hq, List.filterMap_cons]
    cases frame.handler <;> rfl
  have htidy := h.tidy
  rw [hhandlers] at htidy
  unfold handleWsFrame
  generalize (if ec = .operationCanceled then .channelStopped else ec : Code) = code
  dsimp only
  rw [herase]
  split
  · have hpopped := h.flight.popped hw
    obtain ⟨hflight, hsound⟩ := invoke_keeps (P := Flight) (fun _ _ => Flight.move) Flight.told
      (s := { s with inflight := [], writing := false, queue := s.queue.tail }) h.sound
      hpopped frame.handler code frame.body.length (made.headD [])
    have htold := @Tidy.invoke { s with inflight := [], writing := false, queue := s.queue.tail }
      frame.handler [] (by
        rw [List.append_nil, handlers]
        dsimp only
        rw [hq]
        exact htidy.congr rfl rfl le_rfl rfl rfl rfl rfl rfl rfl)
      h.sound code frame.body.length (made.headD [])
    refine ⟨hflight.wsWriteNext, ?_, wsWriteNext_busy _, htold.wsWriteNext⟩
    rw [wsWriteNext_eq]
    exact hsound
  · set last : Socket := { s with inflight := [], writing := false, pong := none, queue := [] }
    have hflight : Flight last := Flight.failed
    have hbusy : last.Busy := fun _ => rfl
    have htold : Tidy (frame.handler.toList ++ frames.filterMap WsFrame.handler ++ last.handlers)
        last := by
      rw [handlers, List.filterMap_nil, List.append_nil]
      exact htidy.congr rfl rfl le_rfl rfl rfl rfl rfl rfl rfl
    have hfirst := htold.invoke h.sound code frame.body.length (made.headD [])
    obtain ⟨⟨hflight, hbusy⟩, hsound⟩ := invoke_keeps (P := fun s => Flight s ∧ s.Busy)
      (fun _ _ hmove hp => ⟨hp.1.move hmove, hmove.busy hp.2⟩)
      (fun s _ _ _ _ _ hp => ⟨hp.1.told s _ _ _ _ _, hp.2⟩) (s := last) h.sound ⟨hflight, hbusy⟩
      frame.handler code frame.body.length (made.headD [])
    obtain ⟨⟨hflight, hbusy⟩, hlast⟩ := invokeAll_keeps (P := fun s => Flight s ∧ s.Busy)
      (fun _ _ hmove hp => ⟨hp.1.move hmove, hmove.busy hp.2⟩)
      (fun s _ _ _ _ _ hp => ⟨hp.1.told s _ _ _ _ _, hp.2⟩) hsound ⟨hflight, hbusy⟩
      code s.queue.tail made.tail
    refine ⟨hflight, hlast, hbusy, ?_⟩
    have htail : s.queue.tail = frames := by rw [hq, List.tail_cons]
    rw [htail]
    exact Tidy.invokeAll hsound hfirst code made.tail

theorem received_moves {s : Socket} (hs : s.reader.Sound) (hr : s.reading = .receiving) (ec : Code)
    (bytes : Bytes) : Moves s (s.handleWsReadMessage ec bytes) := by
  unfold handleWsReadMessage
  split
  · exact .single (.answer s _ hr)
  split
  · exact .single (.answer s _ hr)
  · exact .head (.put s s.reader s.message _ hs) (readLoop_moves _ hs hr)

theorem Inv.step {s : Socket} (h : Inv s) (action : Action) : Inv (s.step action) := by
  cases action with
  | call c => exact h.moves (call_moves h.sound c)
  | received ec bytes =>
    rw [Socket.step]
    split
    · next hr => exact h.moves (received_moves h.sound hr ec bytes)
    · exact h
  | sent index ec made =>
    rw [Socket.step]
    cases hi : s.inflight[index]? with
    | none => exact h
    | some frame => exact h.sent hi ec made

theorem inv_upgraded (maximum limit : ℕ) : Inv (upgraded maximum limit) where
  flight := ⟨.nil, nofun, rfl, nofun, nofun⟩
  sound := .of_not rfl
  busy _ := rfl
  tidy := ⟨rfl, nofun, .nil, fun _ => ⟨nofun, nofun⟩, nofun, nofun, rfl, ⟨nofun, nofun⟩, rfl⟩

theorem inv_after (maximum limit : ℕ) (actions : List Action) :
    Inv (after step (upgraded maximum limit) actions) :=
  after_invariant (fun _ action h => h.step action) (inv_upgraded maximum limit) actions

/-- Whatever the callers, the peer and the writes do, handlers are told in the order of their
frames and each is told once, at most one write is under way, that of the front frame, at most
one close is sent, each read is answered once, and a stop goes on once. -/
theorem handlers_told_in_order (maximum limit : ℕ) (actions : List Action) :
    let s := after step (upgraded maximum limit) actions
    s.told.map Prod.fst ++ s.queue.filterMap WsFrame.handler = s.queued ∧ s.queued.Nodup ∧
    s.inflight = s.queue.head?.toList ∧ (s.queue ≠ [] → s.queue.head? = s.written.getLast?) ∧
    ¬(.echo ∈ s.queued ∧ .close ∈ s.queued) ∧
    s.begun = s.answered.length + (if s.reading = .idle then 0 else 1) ∧
    (s.reading = .echoing ↔ .echo ∈ s.queue.filterMap WsFrame.handler) ∧
    s.tlsStops + (s.queue.filterMap WsFrame.handler).count .close =
      (if s.stopped then 1 else 0) := by
  intro s
  obtain ⟨hflight, -, hbusy, htidy⟩ : Inv s := inv_after maximum limit actions
  refine ⟨htidy.told, htidy.nodup, ?_, fun hne => ?_, htidy.once, htidy.reads, htidy.echoing,
    htidy.tls⟩
  · rw [hflight.inflight]
    cases hw : s.writing with
    | true => rfl
    | false =>
      rw [hbusy hw]
      rfl
  · cases hw : s.writing with
    | true => exact (hflight.front hw).2
    | false => exact absurd (hbusy hw) hne

end Socket

end BitcoinNetwork.Ws
