import BitcoinNetwork.Tls.Gate
import BitcoinNetwork.Tls.Output
import BitcoinNetwork.Tls.Stream

/-!
# The flushes of a stream (tls/stream.cpp)

What the server produces is handed to the socket in order, and each handler of a flush is
invoked once. A handler that waits behind a write that fails may be given success.
-/

namespace BitcoinNetwork.Tls
open Binary Async

/-- How many results at the front are successes. -/
def front (results : List Bool) : ℕ := (results.takeWhile id).length

/-- The flush that is posted. -/
def Posted.flushes : Posted → Option Flush
  | .reply _ => none
  | .flush posted => some posted

/-- The flushes that a loop has yet to answer. -/
def Loop.flushes : Option Loop → List Flush
  | some (.wrote handlers _) => handlers
  | _ => []

/-- Those of them that it answers with success. -/
def Loop.granted : Option Loop → List Flush
  | some (.wrote handlers .success) => handlers
  | _ => []

namespace Stream
variable {Certificate : Type} {config : Config Certificate}

/-- What was handed to the socket, in order. -/
def handed (s : Stream Certificate) : Bytes := s.written.flatMap Prod.fst ++ s.sending

/-- Whether each byte of the writes that are complete was written. -/
def results (s : Stream Certificate) : List Bool :=
  s.written.flatMap fun write => List.replicate write.1.length write.2

/-- How many bytes at the front of the output were all written. -/
def delivered (s : Stream Certificate) : ℕ := front s.results

/-- The flushes whose handlers are posted. -/
def posting (s : Stream Certificate) : List Flush := s.posted.filterMap Posted.flushes

/-- The flushes, by where their handlers are. -/
def flushing (s : Stream Certificate) : List Flush :=
  s.answered.map Prod.fst ++ Loop.flushes s.loop ++ s.carried ++ s.waiting ++ s.posting

/-- The flushes whose handlers are given success, or are about to be. -/
def granted (s : Stream Certificate) : List Flush :=
  (s.answered.filter fun answer => answer.2 = .success).map Prod.fst ++ Loop.granted s.loop ++
    s.posting

/-- The output is handed to the socket in order, and each flush is in one place: when nothing
is in progress, its handler was invoked once. Success is given only if all output before the
flush was written. -/
structure Flushed (config : Config Certificate) (s : Stream Certificate) : Prop where
  ordered : s.handed ++ s.output = s.produced config
  once : (s.flushing.map Flush.number).Perm (List.range s.flushes)
  answered : s.writing = false → s.loop = none → s.posted = [] →
    (s.answered.map fun answer => answer.1.number).Perm (List.range s.flushes)
  truthful : ∀ flush ∈ s.granted, flush.preceding ≤ s.delivered

/-- All that was handed to the socket in writes that are complete was written, or all of it
that precedes the flush. -/
def Clean (s : Stream Certificate) (flush : Flush) : Prop :=
  s.delivered = s.results.length ∨ flush.preceding ≤ s.delivered

/-- No flush is completed with success behind the bytes of a write that failed: neither by a
write that succeeds, nor where it finds no output that is left to write. -/
def Sound (s : Stream Certificate) : Event → Prop
  | .wrote ec => s.writing = true → s.loop = none → ec = .success →
      ∀ flush ∈ s.carried, s.Clean flush
  | .resume => (∃ ec, s.loop = some (.wrote [] ec)) → s.writing = false → s.output = [] →
      ∀ flush ∈ s.waiting, s.Clean flush
  | .shutdown => s.server.connection.isFailed = false → s.server.connection.closeSent = true →
      s.writing = false → s.output = [] → s.delivered = s.results.length
  | _ => True

/-! ### Bytes that are written -/

theorem front_append (results more : List Bool) :
    front (results ++ more) =
      if front results = results.length then results.length + front more else front results := by
  unfold front
  rw [List.takeWhile_append]
  split
  · rw [List.length_append]
  · rfl

theorem front_le (results : List Bool) : front results ≤ results.length :=
  (List.takeWhile_prefix id).length_le

theorem front_replicate (size : ℕ) : front (List.replicate size true) = size := by
  unfold front
  rw [List.takeWhile_replicate_eq_filter, List.filter_replicate_of_pos rfl, List.length_replicate]

theorem front_le_append (results more : List Bool) : front results ≤ front (results ++ more) := by
  rw [front_append]
  split
  · exact Nat.le_add_right_of_le (front_le results)
  · exact Nat.le_refl _

theorem results_length (s : Stream Certificate) :
    s.results.length = (s.written.flatMap Prod.fst).length := by
  unfold results
  rw [List.length_flatMap, List.length_flatMap]
  simp only [List.length_replicate]

/-! ### Invariant -/

/-- What holds of a stream between the parts of its functions. -/
structure Core (config : Config Certificate) (s : Stream Certificate) : Prop where
  undrained : Server.run config s.calls = s.server.behind s.handed
  idle : s.writing = false → s.sending = [] ∧ s.carried = []
  covered : ∀ flush ∈ s.carried, flush.preceding ≤ s.handed.length
  within : ∀ flush ∈ s.waiting, flush.preceding ≤ s.handed.length + s.output.length
  once : (s.flushing.map Flush.number).Perm (List.range s.flushes)
  truthful : ∀ flush ∈ s.granted, flush.preceding ≤ s.delivered

/-- And between its functions: a flush waits only for a write, or for the loop behind one. -/
structure Inv (config : Config Certificate) (s : Stream Certificate) : Prop extends
    Core config s where
  queued : s.waiting ≠ [] → s.writing = true ∨ ∃ handlers ec, s.loop = some (.wrote handlers ec)

theorem create_inv : Inv config ({} : Stream Certificate) where
  undrained := rfl
  idle _ := ⟨rfl, rfl⟩
  covered _ h := nomatch h
  within _ h := nomatch h
  once := .nil
  truthful _ h := nomatch h
  queued h := absurd rfl h

theorem Core.ordered {s : Stream Certificate} (h : Core config s) :
    s.handed ++ s.output = s.produced config := by
  unfold produced
  rw [h.undrained]
  rfl

theorem Inv.flushed {s : Stream Certificate} (h : Inv config s) : Flushed config s where
  ordered := h.ordered
  once := h.once
  answered hwriting hloop hposted := by
    have hwaiting : s.waiting = [] := by
      by_contra hne
      rcases h.queued hne with hbusy | ⟨handlers, ec, hwrote⟩
      · rw [hwriting] at hbusy
        cases hbusy
      · rw [hloop] at hwrote
        cases hwrote
    have honce := h.once
    unfold flushing posting at honce
    rw [hloop, hposted, hwaiting, (h.idle hwriting).2] at honce
    simp only [Loop.flushes, List.filterMap_nil, List.append_nil, List.map_map] at honce
    exact honce
  truthful := h.truthful

section
variable {s : Stream Certificate}

/-! ### Calls of the server -/

/-- The server adds to its output. -/
theorem call_output (s : Stream Certificate) {c : Server.Call} (hc : ∀ size, c ≠ .consume size) :
    s.output.length ≤ (s.call config c).output.length := by
  have hbehind := @Server.call_behind _ config s.clearOutput.server s.output c hc
  have hkept : s.clearOutput.server.behind s.output = s.server := by
    unfold clearOutput Server.behind Connection.behind output
    simp only [List.append_nil]
  rw [hkept] at hbehind
  have houtput : (s.call config c).output = s.output
      ++ (s.clearOutput.server.call config c).connection.output :=
    congrArg (fun server => server.connection.output) hbehind
  rw [houtput, List.length_append]
  exact Nat.le_add_right _ _

theorem Core.call (h : Core config s) {c : Server.Call} (hc : ∀ size, c ≠ .consume size) :
    Core config (s.call config c) where
  undrained := by
    have hcalls : Server.run config (s.call config c).calls
        = (Server.run config s.calls).call config c := List.foldl_append
    rw [hcalls, h.undrained]
    exact Server.call_behind s.server s.handed c hc
  idle := h.idle
  covered := h.covered
  within flush hf :=
    (h.within flush hf).trans (Nat.add_le_add_left (call_output s hc) s.handed.length)
  once := h.once
  truthful := h.truthful

theorem Inv.call (h : Inv config s) {c : Server.Call} (hc : ∀ size, c ≠ .consume size) :
    Inv config (s.call config c) where
  toCore := h.toCore.call hc
  queued := h.queued

/-! ### Handlers -/

theorem Inv.reply (h : Inv config s) (r : Reply) : Inv config (s.reply r) := { h with }

theorem Inv.post (h : Inv config s) (r : Reply) : Inv config (s.post r) := by
  have hposting : (s.post r).posting = s.posting := by
    unfold posting Stream.post
    rw [List.filterMap_append]
    simp only [List.filterMap_cons, Posted.flushes, List.filterMap_nil, List.append_nil]
  have hflushing : (s.post r).flushing = s.flushing :=
    congrArg (s.answered.map Prod.fst ++ Loop.flushes s.loop ++ s.carried ++ s.waiting ++ ·)
      hposting
  have hgranted : (s.post r).granted = s.granted :=
    congrArg ((s.answered.filter fun answer => answer.2 = .success).map Prod.fst ++
      Loop.granted s.loop ++ ·) hposting
  exact { h with
    once := hflushing ▸ h.once
    truthful := hgranted ▸ h.truthful }

theorem Inv.receive (h : Inv config s) (handler : Handler) : Inv config (s.receive handler) := by
  unfold Stream.receive
  dsimp only
  split
  · exact { h with }
  · exact { h with }

theorem Inv.tryRead (h : Inv config s) (size : ℕ) : Inv config (s.tryRead config size).2 := by
  unfold Stream.tryRead
  split
  · exact h
  split
  · exact h.call nofun
  split
  · exact h
  split
  · exact h
  · exact h

theorem Inv.handleHandshake (h : Inv config s) (ec : Code) : Inv config (s.handleHandshake ec) := by
  unfold Stream.handleHandshake
  split
  · exact h.reply _
  split
  · exact h.reply _
  split
  · exact h.reply _
  split
  · exact h.reply _
  · exact h.receive _

theorem Inv.handleReadSome (h : Inv config s) (ec : Code) (size : ℕ) :
    Inv config (s.handleReadSome config ec size) := by
  unfold Stream.handleReadSome
  split
  · exact h.reply _
  have hread := h.tryRead size
  split
  · rename_i heq
    rw [heq] at hread
    exact hread.reply _
  · rename_i heq
    rw [heq] at hread
    exact hread.receive _

theorem Inv.handleCloseReceived (h : Inv config s) (ec : Code) :
    Inv config (s.handleCloseReceived ec) := by
  unfold Stream.handleCloseReceived
  split
  · exact h.reply _
  split
  · exact h.reply _
  split
  · exact h.reply _
  · exact h.receive _

theorem Inv.invoke (h : Inv config s) (ec : Code) (handler : Handler) :
    Inv config (s.invoke config ec handler) := by
  cases handler with
  | handshake => exact h.handleHandshake ec
  | readSome size => exact h.handleReadSome ec size
  | writeSome size => exact h.reply _
  | closeSent =>
    show Inv config (s.handleCloseSent ec)
    unfold Stream.handleCloseSent
    split
    · exact h.reply _
    · exact h.handleCloseReceived ec
  | closeReceived => exact h.handleCloseReceived ec

/-! ### Flushes -/

/-- A handler that is posted is one that waited. -/
theorem filterMap_flushes (handlers : List Flush) :
    (handlers.map Posted.flush).filterMap Posted.flushes = handlers := by
  rw [List.filterMap_map]
  exact List.filterMap_some

/-- A handler that is clean finds all that precedes it written, once all is handed. -/
theorem Clean.delivered {flush : Flush} (hclean : s.Clean flush)
    (h : flush.preceding ≤ s.results.length) : flush.preceding ≤ s.delivered := by
  rcases hclean with hintact | hbelow
  · rw [hintact]
    exact h
  · exact hbelow

/-- All output is handed to the socket, with the handlers that wait. -/
theorem Core.hand (h : Core config s) (hwriting : s.writing = false) :
    Inv config { s.clearOutput with
      waiting := [], writing := true, sending := s.output, carried := s.waiting } := by
  obtain ⟨hsending, hcarried⟩ := h.idle hwriting
  have hhanded : s.handed ++ s.output = s.written.flatMap Prod.fst ++ s.output := by
    unfold handed
    rw [hsending, List.append_nil]
  refine ⟨⟨?_, nofun, fun flush hf => ?_, nofun, ?_, h.truthful⟩, fun hne => absurd rfl hne⟩
  · have hbehind : s.clearOutput.server.behind (s.handed ++ s.output)
        = s.server.behind s.handed := by
      unfold clearOutput Server.behind Connection.behind output
      simp only [List.append_nil]
    rw [hhanded] at hbehind
    exact h.undrained.trans hbehind.symm
  · show flush.preceding ≤ (s.written.flatMap Prod.fst ++ s.output).length
    rw [← hhanded, List.length_append]
    exact h.within flush hf
  · have honce := h.once
    unfold flushing at honce ⊢
    rw [hcarried] at honce
    refine List.Perm.trans (List.perm_iff_count.mpr fun n => ?_) honce
    simp only [clearOutput, posting, List.map_append, List.count_append, List.map_nil,
      List.count_nil]
    omega

theorem Core.writeNext (h : Core config s) (hwriting : s.writing = false)
    (hclean : s.output = [] → ∀ flush ∈ s.waiting, s.Clean flush) :
    Inv config s.writeNext := by
  obtain ⟨hsending, hcarried⟩ := h.idle hwriting
  have hhanded : s.handed = s.written.flatMap Prod.fst := by
    unfold handed
    rw [hsending, List.append_nil]
  unfold Stream.writeNext
  dsimp only
  split
  · rename_i hempty
    have hempty' : s.output = [] := hempty
    have hposting : ({ s with waiting := [], posted := s.posted ++ s.waiting.map .flush }
        : Stream Certificate).posting = s.posting ++ s.waiting := by
      unfold posting
      rw [List.filterMap_append, filterMap_flushes]
    refine ⟨{ h with within := nofun, once := ?_, truthful := ?_ }, fun hne => absurd rfl hne⟩
    · have honce := h.once
      unfold flushing at honce ⊢
      rw [hposting]
      refine List.Perm.trans (List.perm_iff_count.mpr fun n => ?_) honce
      simp only [List.map_append, List.count_append, List.map_nil, List.count_nil]
      omega
    · intro flush hf
      unfold granted at hf
      rw [hposting, ← List.append_assoc, List.mem_append] at hf
      rcases hf with hold | hnew
      · exact h.truthful flush hold
      · refine (hclean hempty' flush hnew).delivered ?_
        have hwithin := h.within flush hnew
        rw [hempty', List.length_nil, Nat.add_zero, hhanded, ← results_length] at hwithin
        exact hwithin
  · exact h.hand hwriting

/-- A flush waits, behind those that do. -/
theorem Core.push (h : Core config s) (handler : Handler) :
    Core config { s with
      waiting := s.waiting ++ [⟨s.flushes, (s.produced config).length, handler⟩]
      flushes := s.flushes + 1 } := by
  refine { h with within := fun flush hf => ?_, once := ?_ }
  · rcases List.mem_append.mp hf with hold | hnew
    · exact h.within flush hold
    · rw [List.mem_singleton.mp hnew, ← h.ordered, List.length_append]
      exact Nat.le_refl _
  · have honce := h.once
    unfold flushing at honce ⊢
    rw [List.range_succ]
    refine List.Perm.trans (List.perm_iff_count.mpr fun n => ?_)
      (honce.append_right [s.flushes])
    simp only [posting, List.map_append, List.count_append, List.map_cons, List.map_nil]
    omega

theorem Inv.flush (h : Inv config s) (handler : Handler)
    (hclean : s.writing = false → s.output = [] → s.delivered = s.results.length) :
    Inv config (s.flush config handler) := by
  have hpushed := h.toCore.push handler
  unfold Stream.flush
  dsimp only
  split
  · rename_i hwriting
    exact ⟨hpushed, fun _ => .inl hwriting⟩
  · rename_i hwriting
    exact hpushed.writeNext (Bool.eq_false_iff.mpr hwriting) fun hempty flush _ =>
      .inl (hclean (Bool.eq_false_iff.mpr hwriting) hempty)

/-- A flush of output leaves a write in progress. -/
theorem flush_writing (s : Stream Certificate) (handler : Handler)
    (h : s.writing = true ∨ s.output ≠ []) : (s.flush config handler).writing = true := by
  unfold Stream.flush Stream.writeNext
  dsimp only
  split
  · rename_i hwriting
    exact hwriting
  · rename_i hwriting
    have houtput : s.output ≠ [] := h.resolve_left hwriting
    split
    · rename_i hempty
      exact absurd hempty houtput
    · rfl

/-! ### Events -/

theorem Inv.doReadSome (h : Inv config s) (size : ℕ) : Inv config (s.doReadSome config size) := by
  have hread := h.tryRead size
  unfold Stream.doReadSome
  split
  · rename_i heq
    rw [heq] at hread
    exact hread.post _
  · rename_i heq
    rw [heq] at hread
    exact hread.receive _

/-- A record that is sealed is output. -/
theorem sealRecord_ne (s : Connection Certificate) (type : UInt8) (content : Bytes) :
    (s.sealRecord config type content).output ≠ [] := by
  have hrecord : (s.send.sealContent config.crypto type content).1 ≠ [] := by
    unfold Record.sealContent
    split
    · exact List.cons_ne_nil _ _
    · exact List.cons_ne_nil _ _
  intro hempty
  exact hrecord (List.append_eq_nil_iff.mp hempty).2

theorem sendContent_ne (s : Connection Certificate) (type : UInt8) {data : Bytes}
    (hdata : data ≠ []) : (s.sendContent config type data).output ≠ [] := by
  have hrest (parts : List Bytes) (t : Connection Certificate) (ht : t.output ≠ []) :
      (parts.foldl (fun s part => s.sealRecord config type part) t).output ≠ [] := by
    induction parts generalizing t with
    | nil => exact ht
    | cons part parts ih => exact ih _ (sealRecord_ne t type part)
  unfold Connection.sendContent
  obtain ⟨byte, rest, rfl⟩ := List.exists_cons_of_ne_nil hdata
  unfold Connection.fragments
  rw [List.length_cons]
  dsimp only
  rw [if_neg (List.cons_ne_nil _ _), List.foldl_cons]
  exact hrest _ _ (sealRecord_ne s type _)

/-- What the server writes is output. -/
theorem write_output_ne (s : Stream Certificate) {data : Bytes} (hdata : data ≠ [])
    (hwritten : (s.server.connection.write config data).2 = true) :
    (s.call config (.write data)).output ≠ [] := by
  show (s.server.connection.write config data).1.output ≠ []
  unfold Connection.write at hwritten ⊢
  split
  · rename_i hrefused
    rw [if_pos hrefused] at hwritten
    cases hwritten
  · exact sendContent_ne _ _ hdata

theorem take_ne {data : Bytes} (hdata : data ≠ []) : data.take maximumPlaintext ≠ [] := by
  obtain ⟨byte, rest, rfl⟩ := List.exists_cons_of_ne_nil hdata
  exact List.cons_ne_nil _ _

theorem Inv.doWriteSome (h : Inv config s) (data : Bytes) :
    Inv config (s.doWriteSome config data) := by
  unfold Stream.doWriteSome
  split
  · exact h.post _
  rename_i hdata
  have hcalled : Inv config (s.call config (.write (data.take maximumPlaintext))) := h.call nofun
  dsimp only
  split
  · exact hcalled.post _
  · rename_i hwritten
    exact hcalled.flush _ fun _ hempty =>
      absurd hempty (write_output_ne s (take_ne hdata) (not_not.mp hwritten))

/-- The results of a write are behind those before it. -/
theorem results_append (s : Stream Certificate) (bytes : Bytes) (success : Bool) :
    ({ s with written := s.written ++ [(bytes, success)] } : Stream Certificate).results
      = s.results ++ List.replicate bytes.length success := by
  unfold results
  rw [List.flatMap_append, List.flatMap_singleton]

/-- A blocking write takes all output, with that of the flushes that wait. -/
theorem Inv.write (h : Inv config s) (hwriting : s.writing = false) (success : Bool) :
    Inv config ({ s with written := s.written ++ [(s.output, success)] }
      : Stream Certificate).clearOutput := by
  obtain ⟨hsending, hcarried⟩ := h.idle hwriting
  set next := ({ s with written := s.written ++ [(s.output, success)] }
    : Stream Certificate).clearOutput with hnext
  have hhanded : next.handed = s.handed ++ s.output := by
    have hflat : next.handed = (s.written ++ [(s.output, success)]).flatMap Prod.fst ++ s.sending :=
      rfl
    rw [hflat]
    unfold handed
    rw [hsending, List.flatMap_append, List.flatMap_singleton, List.append_nil, List.append_nil]
  have hresults : next.results = s.results ++ List.replicate s.output.length success :=
    results_append s s.output success
  refine ⟨⟨?_, fun _ => ⟨hsending, hcarried⟩, fun flush hf => ?_, fun flush hf => ?_, h.once,
    fun flush hf => ?_⟩, h.queued⟩
  · have hbehind : s.clearOutput.server.behind (s.handed ++ s.output)
        = s.server.behind s.handed := by
      unfold clearOutput Server.behind Connection.behind output
      simp only [List.append_nil]
    rw [hhanded]
    exact h.undrained.trans hbehind.symm
  · have hmember : flush ∈ s.carried := hf
    rw [hcarried] at hmember
    cases hmember
  · rw [hhanded, List.length_append]
    exact (h.within flush hf).trans (Nat.le_add_right _ _)
  · show flush.preceding ≤ front next.results
    rw [hresults]
    exact (h.truthful flush hf).trans (front_le_append _ _)

theorem Inv.doWrite (h : Inv config s) (data : Bytes) (ec : Code) :
    Inv config (s.doWrite config data ec) := by
  unfold Stream.doWrite
  split
  · exact h.reply _
  rename_i hwriting
  split
  · exact h.reply _
  have hcalled : Inv config (s.call config (.write (data.take maximumPlaintext))) := h.call nofun
  dsimp only
  split
  · exact hcalled.reply _
  · exact (hcalled.write (Bool.eq_false_iff.mpr hwriting) _).reply _

/-- A close that sends nothing was sent before. -/
theorem close_output (s : Stream Certificate) (hfailed : s.server.connection.isFailed = false)
    (hempty : (s.call config .close).output = []) :
    s.server.connection.closeSent = true ∧ s.output = [] := by
  have hclosed : (s.server.connection.close config).output = [] := hempty
  unfold Connection.close at hclosed
  split at hclosed
  · rename_i hquiet
    rw [hfailed] at hquiet
    exact ⟨hquiet.resolve_right Bool.false_ne_true, hclosed⟩
  · exact absurd hclosed (sealRecord_ne s.server.connection _ _)

theorem Inv.asyncShutdown (h : Inv config s) (hsound : s.Sound .shutdown) :
    Inv config (s.asyncShutdown config) := by
  unfold Stream.asyncShutdown
  split
  · exact h.post _
  · rename_i hfailed
    have hcalled : Inv config (s.call config .close) := h.call nofun
    refine hcalled.flush _ fun hwriting hempty => ?_
    obtain ⟨hsent, houtput⟩ := close_output s (Bool.eq_false_iff.mpr hfailed) hempty
    exact hsound (Bool.eq_false_iff.mpr hfailed) hsent hwriting houtput

/-- Handlers are flushed behind output. -/
theorem Inv.flushes (h : Inv config s) (hbusy : s.writing = true ∨ s.output ≠ [])
    (handlers : List Handler) : Inv config (handlers.foldl (Stream.flush config) s) := by
  induction handlers generalizing s with
  | nil => exact h
  | cons handler handlers ih =>
    have hflushed := h.flush handler fun hwriting hempty => by
      rcases hbusy with hbusy | hbusy
      · rw [hwriting] at hbusy
        cases hbusy
      · exact absurd hempty hbusy
    exact ih hflushed (.inl (flush_writing s handler hbusy))

/-- Loops over receivers have no flush to answer. -/
theorem Inv.relooped (h : Inv config s) {loop : Option Loop}
    (hs : ∀ handlers ec, s.loop ≠ some (.wrote handlers ec)) (hflushes : Loop.flushes loop = [])
    (hgranted : Loop.granted loop = []) : Inv config { s with loop := loop } := by
  have hnone : Loop.flushes s.loop = [] ∧ Loop.granted s.loop = [] := by
    cases hloop : s.loop with
    | none => exact ⟨rfl, rfl⟩
    | some running =>
      cases running with
      | received handlers ec => exact ⟨rfl, rfl⟩
      | wrote handlers ec => exact absurd hloop (hs handlers ec)
  have honce := h.once
  have htruthful := h.truthful
  unfold flushing at honce
  unfold granted at htruthful
  rw [hnone.1, ← hflushes] at honce
  rw [hnone.2, ← hgranted] at htruthful
  refine ⟨{ h with once := honce, truthful := htruthful }, fun hne => ?_⟩
  rcases h.queued hne with hbusy | ⟨handlers, ec, hwrote⟩
  · exact .inl hbusy
  · exact absurd hwrote (hs handlers ec)

theorem Inv.handleReceive (h : Inv config s) (hloop : s.loop = none) (ec : Code) (data : Bytes) :
    Inv config (s.handleReceive config ec data) := by
  have hjoined : Inv config { s with receiving := false, receivers := [] } := { h with }
  unfold Stream.handleReceive
  dsimp only
  split
  · exact hjoined.relooped (fun _ _ hwrote => nomatch hloop.symm.trans hwrote) rfl rfl
  have hcalled : Inv config (Stream.call config { s with receiving := false, receivers := [] }
    (.receive data)) := hjoined.call nofun
  split
  · exact hcalled.relooped (fun _ _ hwrote => nomatch hloop.symm.trans hwrote) rfl rfl
  · rename_i houtput
    exact hcalled.flushes (.inr houtput) _

/-- What a write that is complete adds to what is delivered. -/
theorem delivered_append (s : Stream Certificate) (success : Bool) :
    front (s.results ++ List.replicate s.sending.length success) =
      if s.delivered = s.results.length
      then s.results.length + front (List.replicate s.sending.length success)
      else s.delivered := front_append _ _

theorem Inv.handleWrite (h : Inv config s) (hwriting : s.writing = true) (hloop : s.loop = none)
    {ec : Code} (hsound : s.Sound (.wrote ec)) : Inv config (s.handleWrite ec) := by
  have hhanded : (s.handleWrite ec).handed = s.handed := by
    unfold handed Stream.handleWrite
    dsimp only
    rw [List.flatMap_append, List.flatMap_singleton, List.append_nil]
  have hresults : (s.handleWrite ec).results
      = s.results ++ List.replicate s.sending.length (decide (ec = Code.success)) :=
    results_append s s.sending _
  have hlength : s.handed.length = s.results.length + s.sending.length := by
    unfold handed
    rw [List.length_append, results_length]
  refine ⟨⟨?_, fun _ => ⟨rfl, rfl⟩, nofun, fun flush hf => ?_, ?_, fun flush hf => ?_⟩,
    fun _ => .inr ⟨s.carried, ec, rfl⟩⟩
  · rw [hhanded]
    exact h.undrained
  · rw [hhanded]
    exact h.within flush hf
  · have honce := h.once
    unfold flushing at honce ⊢
    rw [hloop] at honce
    refine List.Perm.trans (List.perm_iff_count.mpr fun n => ?_) honce
    simp only [Stream.handleWrite, Loop.flushes, posting, List.map_append, List.count_append,
      List.map_nil, List.count_nil]
    omega
  · show flush.preceding ≤ front (s.handleWrite ec).results
    have hgranted : flush ∈ s.granted ∨ (ec = .success ∧ flush ∈ s.carried) := by
      unfold granted at hf ⊢
      rw [hloop]
      rw [List.mem_append, List.mem_append] at hf
      rw [List.mem_append, List.mem_append]
      rcases hf with (hanswered | hcarried) | hposted
      · exact .inl (.inl (.inl hanswered))
      · right
        unfold Stream.handleWrite Loop.granted at hcarried
        dsimp only at hcarried
        split at hcarried
        · rename_i handlers heq
          cases heq
          exact ⟨rfl, hcarried⟩
        · cases hcarried
      · exact .inl (.inr hposted)
    rw [hresults]
    rcases hgranted with hold | ⟨rfl, hcarried⟩
    · exact (h.truthful flush hold).trans (front_le_append _ _)
    · rw [decide_eq_true rfl, delivered_append, front_replicate]
      split
      · rw [← hlength]
        exact h.covered flush hcarried
      · rename_i hlost
        exact (hsound hwriting hloop rfl flush hcarried).resolve_left hlost

/-- The loop behind a write answers the next flush. -/
theorem Inv.answerNext (h : Inv config s) {flush : Flush} {handlers : List Flush} {ec : Code}
    (hloop : s.loop = some (.wrote (flush :: handlers) ec)) :
    Inv config { s with
      loop := some (.wrote handlers ec), answered := s.answered ++ [(flush, ec)] } := by
  refine ⟨{ h with once := ?_, truthful := fun next hnext => h.truthful next ?_ },
    fun _ => .inr ⟨handlers, ec, rfl⟩⟩
  · have honce := h.once
    unfold flushing at honce ⊢
    rw [hloop] at honce
    refine List.Perm.trans (List.perm_iff_count.mpr fun n => ?_) honce
    simp only [Loop.flushes, posting, List.map_append, List.count_append, List.map_cons,
      List.map_nil, List.count_cons, List.count_nil]
    omega
  · unfold granted at hnext ⊢
    rw [hloop]
    by_cases hec : ec = .success
    · subst hec
      simp only [Loop.granted, List.filter_append, List.filter_singleton, decide_true, cond_true,
        List.map_append, List.map_cons, List.map_nil, List.append_assoc, List.singleton_append]
        at hnext ⊢
      exact hnext
    · have hungranted (handlers : List Flush) : Loop.granted (some (.wrote handlers ec)) = [] := by
        cases ec with
        | success => exact absurd rfl hec
        | _ => rfl
      rw [hungranted] at hnext ⊢
      simp only [List.filter_append, List.filter_singleton, hec, decide_false, cond_false,
        List.append_nil] at hnext ⊢
      exact hnext

/-- The executor answers a flush that is posted. -/
theorem Inv.answerPosted (h : Inv config s) {flush : Flush} {posted : List Posted}
    (hposted : s.posted = .flush flush :: posted) :
    Inv config { s with
      posted := posted, answered := s.answered ++ [(flush, .success)] } := by
  refine ⟨{ h with once := ?_, truthful := fun next hnext => h.truthful next ?_ }, h.queued⟩
  · have honce := h.once
    unfold flushing posting at honce ⊢
    rw [hposted] at honce
    refine List.Perm.trans (List.perm_iff_count.mpr fun n => ?_) honce
    simp only [Posted.flushes, List.filterMap_cons, List.map_append, List.count_append,
      List.map_cons, List.map_nil, List.count_cons, List.count_nil]
    omega
  · unfold granted posting at hnext ⊢
    rw [hposted]
    simp only [Posted.flushes, List.filterMap_cons, List.filter_append, List.filter_singleton,
      decide_true, cond_true, List.map_append, List.map_cons, List.map_nil, List.mem_append,
      List.mem_cons] at hnext ⊢
    grind

theorem Inv.resume (h : Inv config s) (hsound : s.Sound .resume) : Inv config (s.resume config) := by
  unfold Stream.resume
  cases hloop : s.loop with
  | none => exact h
  | some running =>
    cases running with
    | received handlers ec =>
      have hreceived (waiters : List Flush) (wrote : Code) :
          s.loop ≠ some (.wrote waiters wrote) := by
        rw [hloop]
        nofun
      cases handlers with
      | nil => exact h.relooped hreceived rfl rfl
      | cons handler handlers =>
        have hnext : Inv config { s with loop := some (.received handlers ec) } :=
          h.relooped hreceived rfl rfl
        exact hnext.invoke ec handler
    | wrote handlers ec =>
      cases handlers with
      | nil =>
        have honce := h.once
        have htruthful := h.truthful
        have hgranted : Loop.granted (some (.wrote [] ec)) = [] := by
          unfold Loop.granted
          split
          · rename_i heq
            cases heq
            rfl
          · rfl
        unfold flushing at honce
        unfold granted at htruthful
        rw [hloop] at honce htruthful
        rw [hgranted] at htruthful
        have hended : Core config { s with loop := none } :=
          { h.toCore with once := honce, truthful := htruthful }
        dsimp only
        split
        · rename_i hnext
          exact hended.writeNext hnext.1 (hsound ⟨ec, hloop⟩ hnext.1)
        · rename_i hquiet
          refine ⟨hended, fun hne => .inl ?_⟩
          by_contra hwriting
          exact hquiet ⟨Bool.eq_false_iff.mpr hwriting, hne⟩
      | cons flush handlers => exact (h.answerNext hloop).invoke ec flush.handler

theorem Inv.runPosted (h : Inv config s) : Inv config (s.runPosted config) := by
  unfold Stream.runPosted
  cases hposted : s.posted with
  | nil => exact h
  | cons first posted =>
    cases first with
    | reply r =>
      have honce := h.once
      have htruthful := h.truthful
      unfold flushing posting at honce
      unfold granted posting at htruthful
      rw [hposted] at honce htruthful
      have hrun : Inv config { s with posted := posted } :=
        { h with once := honce, truthful := htruthful }
      exact hrun.reply r
    | flush flush => exact (h.answerPosted hposted).invoke .success flush.handler

/-! ### Runs -/

theorem step_inv (ready : Bool) (e : Event) (h : Inv config s) (hsound : s.Sound e) :
    Inv config (s.step config ready e) := by
  cases e with
  | handshake =>
    show Inv config (s.asyncHandshake ready)
    unfold Stream.asyncHandshake
    split
    · exact h.receive _
    · exact h.post _
  | read size => exact h.doReadSome size
  | write data => exact h.doWriteSome data
  | writeNow data ec => exact h.doWrite data ec
  | shutdown => exact h.asyncShutdown hsound
  | received ec data =>
    unfold step
    dsimp only
    split
    · rename_i hready
      exact h.handleReceive hready.2 ec data
    · exact h
  | wrote ec =>
    unfold step
    dsimp only
    split
    · rename_i hready
      exact h.handleWrite hready.1 hready.2 hsound
    · exact h
  | resume => exact h.resume hsound
  | posted =>
    unfold step
    dsimp only
    split
    · exact h.runPosted
    · exact h

theorem sound_of_wrote (ready : Bool) {ec : Code}
    (h : Flushed config (s.step config ready (.wrote ec))) : s.Sound (.wrote ec) := by
  rintro hwriting hloop rfl flush hf
  have hstep : s.step config ready (.wrote .success) = s.handleWrite .success :=
    if_pos ⟨hwriting, hloop⟩
  rw [hstep] at h
  have hgranted : flush ∈ (s.handleWrite .success).granted := by
    unfold granted
    exact List.mem_append_left _ (List.mem_append_right _ hf)
  have htruthful : flush.preceding ≤ front (s.handleWrite .success).results :=
    h.truthful flush hgranted
  have hresults : (s.handleWrite .success).results
      = s.results ++ List.replicate s.sending.length true := results_append s s.sending true
  rw [hresults, delivered_append] at htruthful
  by_cases hintact : s.delivered = s.results.length
  · exact .inl hintact
  · rw [if_neg hintact] at htruthful
    exact .inr htruthful

theorem sound_of_resume (ready : Bool) (h : Flushed config (s.step config ready .resume)) :
    s.Sound .resume := by
  rintro ⟨ec, hloop⟩ hwriting hempty flush hf
  have hne : s.waiting ≠ [] := List.ne_nil_of_mem hf
  have hstep : s.step config ready .resume = { s with
      loop := none, waiting := [], posted := s.posted ++ s.waiting.map .flush } := by
    show s.resume config = _
    unfold Stream.resume
    rw [hloop]
    dsimp only
    rw [if_pos ⟨hwriting, hne⟩]
    exact if_pos hempty
  rw [hstep] at h
  right
  refine h.truthful flush ?_
  unfold granted posting
  dsimp only
  rw [List.filterMap_append, filterMap_flushes]
  exact List.mem_append_right _ (List.mem_append_right _ hf)

theorem sound_of_shutdown (ready : Bool) (hinv : Inv config s)
    (h : Flushed config (s.step config ready .shutdown)) : s.Sound .shutdown := by
  intro hfailed hsent hwriting hempty
  have hclosed : (s.call config .close).server = s.server := by
    show ({ s.server with connection := s.server.connection.close config } : Server Certificate) = _
    unfold Connection.close
    rw [if_pos (.inl hsent)]
  have hcalled : Inv config (s.call config .close) := hinv.call nofun
  set new : Flush := ⟨s.flushes, ((s.call config .close).produced config).length, .closeSent⟩
    with hnew
  have hstep : s.step config ready .shutdown = { s.call config .close with
      flushes := s.flushes + 1, waiting := []
      posted := s.posted ++ (s.waiting ++ [new]).map .flush } := by
    show s.asyncShutdown config = _
    unfold Stream.asyncShutdown Stream.flush
    rw [if_neg (Bool.eq_false_iff.mp hfailed)]
    dsimp only
    have hidle : (s.call config .close).writing = false := hwriting
    rw [if_neg (Bool.eq_false_iff.mp hidle)]
    refine if_pos ?_
    show (s.call config .close).server.connection.output = []
    rw [hclosed]
    exact hempty
  rw [hstep] at h
  have hgranted : new.preceding ≤ s.delivered := by
    refine h.truthful new ?_
    unfold granted posting
    dsimp only
    rw [List.filterMap_append, filterMap_flushes]
    exact List.mem_append_right _
      (List.mem_append_right _ (List.mem_append_right _ (List.mem_singleton_self _)))
  have hlength : new.preceding = s.results.length := by
    have hordered := hcalled.ordered
    have houtput : (s.call config .close).output = [] := by
      show (s.call config .close).server.connection.output = []
      rw [hclosed]
      exact hempty
    have hhanded : (s.call config .close).handed = s.written.flatMap Prod.fst := by
      show s.written.flatMap Prod.fst ++ s.sending = _
      rw [(hinv.idle hwriting).1, List.append_nil]
    rw [houtput, hhanded, List.append_nil] at hordered
    rw [hnew, ← hordered, results_length]
  exact Nat.le_antisymm (front_le _) (hlength ▸ hgranted)

theorem sound_of_flushed (ready : Bool) (e : Event) (hinv : Inv config s)
    (h : Flushed config (s.step config ready e)) : s.Sound e := by
  cases e with
  | wrote ec => exact sound_of_wrote ready h
  | resume => exact sound_of_resume ready h
  | shutdown => exact sound_of_shutdown ready hinv h
  | _ => trivial

/-- The flushes of a run are in order in all its states exactly where its steps are sound. -/
theorem flushed_iff (config : Config Certificate) (ready : Bool) (events : List Event) :
    (∀ n ≤ events.length, Flushed config (after (step config ready) {} (events.take n))) ↔
      Along (step config ready) Sound {} events :=
  along_iff (P := Sound) (I := Inv config) (Q := Flushed config)
    (fun _ e h hsound => step_inv ready e h hsound) (fun _ => Inv.flushed)
    (fun _ e h hflushed => sound_of_flushed ready e h hflushed) create_inv events

end

/-- A handshake, behind which a read and a shutdown wait for the peer, whose record is
refused: the alert is not written. -/
def refusedEvents : List Event :=
  [.handshake,
   .received .success (clearRecord (makeMessage typeClientHello
      (plainHello (write16 secp256r1Group ++ writeVector16 [8]))) ++
    protectedRecord contentHandshake (makeMessage typeCertificate
      (writeVector8 [] ++ writeVector24 (writeVector24 [4] ++ write16 0))) ++
    protectedRecord contentHandshake (makeMessage typeCertificateVerify
      (write16 ecdsaSecp256r1Sha256 ++ writeVector16 (List.replicate 32 0))) ++
    protectedRecord contentHandshake (makeMessage typeFinished (List.replicate 32 0))),
   .wrote .success, .resume, .resume,
   .read 1, .shutdown, .wrote .success, .resume, .resume,
   .received .success (clearRecord []),
   .wrote (.other 1), .resume, .resume]

/-- The read is flushed with the shutdown, and is given success without the alert. -/
theorem not_flushed :
    ¬∀ events : List Event, Flushed plainConfig (after (step plainConfig true) {} events) := by
  intro h
  have htruthful := (h refusedEvents).truthful
  revert htruthful
  decide +kernel

end Stream

end BitcoinNetwork.Tls
