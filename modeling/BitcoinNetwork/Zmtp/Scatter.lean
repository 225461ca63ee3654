import BitcoinNetwork.Zmtp.Exchange

/-!
# Buffers within a packet (net/socket_zmtp.cpp)

`frame_parts` sizes its packet in one loop over the parts and fills it in another, which
also references it and the shared parts. The packet is not moved, and what is referenced of
it is not written again.
-/

namespace BitcoinNetwork.Zmtp
open Binary

/-- A writer over storage of a fixed size, from its front. -/
structure Sink where
  storage : Bytes
  position : ℕ
  good : Bool

/-- A write that there is no room for fails the writer. -/
def Sink.write (sink : Sink) (bytes : Bytes) : Sink :=
  if sink.good ∧ sink.position + bytes.length ≤ sink.storage.length then
    { sink with
      storage := sink.storage.take sink.position ++ bytes ++
        sink.storage.drop (sink.position + bytes.length)
      position := sink.position + bytes.length }
  else { sink with good := false }

/-- The size of the body of the frame of a part. -/
def Part.body (part : Part) : ℕ := (part.share.map List.length).getD part.size

/-- The first loop of `frame_parts`. -/
def packetSize (message : List Part) : ℕ :=
  message.foldl (fun size part =>
    let size := size + frameSize part.body
    if part.share.isSome then size - part.body else size) 0

/-- The state of the second loop, where `shared` are the parts that are retained. -/
structure Scatter where
  sink : Sink
  buffers : List Buffered := []
  shared : List Bytes := []
  cut : ℕ := 0
  position : ℕ := 0

namespace Scatter

/-- One turn of the second loop. -/
def frame (s : Scatter) (part : Part) (more : Bool) : Scatter :=
  let sink := s.sink.write (frameHead part.body false more)
  let position := s.position + (frameSize part.body - part.body)
  match part.share with
  | some share =>
    { sink
      buffers := s.buffers ++ cutPacket s.cut position ++ [.shared share]
      shared := s.shared ++ [share]
      cut := position
      position }
  | none => { s with sink := sink.write part.write, position := position + part.body }

/-- The second loop, for a number of the parts that remain. -/
def frames : ℕ → List Part → Scatter → Scatter
  | 0, _, s => s
  | _, [], s => s
  | count + 1, part :: parts, s => frames count parts (s.frame part (parts ≠ []))

/-- The packet once it is sized. -/
def create (message : List Part) : Scatter where
  sink := ⟨List.replicate (packetSize message) 0, 0, true⟩

/-- `frame_parts`, which fails if its writer does. -/
def frameParts (message : List Part) : Scatter :=
  let s := frames message.length message (create message)
  { s with buffers := s.buffers ++ cutPacket s.cut s.position }

/-- What a buffer references was written, and is what it is at last. -/
def Complete (s final : Scatter) : Buffered → Prop
  | .packet offset size => offset + size ≤ s.sink.position ∧
      (final.sink.storage.drop offset).take size = (s.sink.storage.drop offset).take size
  | .shared bytes => bytes ∈ s.shared

end Scatter

/-- The shared part that a buffer references. -/
def Buffered.share : Buffered → Option Bytes
  | .packet _ _ => none
  | .shared bytes => some bytes

/-- The buffers of a message are the frames of its parts. The packet has the size that is
written, from first to last, and what a buffer references of it is complete by then. -/
structure Scattered (message : List Part) : Prop where
  success : (Scatter.frameParts message).sink.good = true
  bytes : WriteState.bytes ⟨(Scatter.frameParts message).sink.storage,
    (Scatter.frameParts message).buffers⟩ = frameMessage (message.map Part.content)
  filled : (Scatter.frameParts message).sink.position = packetSize message
  fixed : ∀ count, (Scatter.frames count message (Scatter.create message)).sink.storage.length
    = packetSize message
  complete : ∀ count, ∀ buffer ∈ (Scatter.frames count message (Scatter.create message)).buffers,
    Scatter.Complete (Scatter.frames count message (Scatter.create message))
      (Scatter.frameParts message) buffer
  last : ∀ buffer ∈ (Scatter.frameParts message).buffers,
    Scatter.Complete (Scatter.frameParts message) (Scatter.frameParts message) buffer
  retained : (Scatter.frameParts message).buffers.filterMap Buffered.share
    = (Scatter.frameParts message).shared

/-! ### Sizes -/

/-- What a part has in the packet. -/
def Part.packed (part : Part) : ℕ :=
  (frameSize part.body - part.body) + if part.share.isSome then 0 else part.body

theorem packetSize_eq (message : List Part) :
    packetSize message = (message.map Part.packed).sum := by
  have hfold (size : ℕ) : message.foldl (fun size part =>
      let size := size + frameSize part.body
      if part.share.isSome then size - part.body else size) size
        = size + (message.map Part.packed).sum := by
    induction message generalizing size with
    | nil => rfl
    | cons part parts ih =>
      have hle : part.body ≤ frameSize part.body := Nat.le_add_left _ _
      have hstep : (let size := size + frameSize part.body
          if part.share.isSome then size - part.body else size) = size + part.packed := by
        unfold Part.packed
        dsimp only
        split
        · omega
        · omega
      rw [List.foldl_cons, hstep, ih, List.map_cons, List.sum_cons, Nat.add_assoc]
  exact (hfold 0).trans (Nat.zero_add _)

theorem packetSize_cons (part : Part) (parts : List Part) :
    packetSize (part :: parts) = part.packed + packetSize parts := by
  rw [packetSize_eq, packetSize_eq, List.map_cons, List.sum_cons]

theorem frameHead_body (body : ℕ) (more : Bool) :
    (frameHead body false more).length = frameSize body - body := frameHead_length body false more

/-- A part that is not shared writes its body. -/
theorem Part.write_length {part : Part} (h : part.share = none) :
    part.write.length = part.body := by
  have hbody : part.body = part.size := by
    unfold Part.body
    rw [h]
    rfl
  rw [hbody]
  cases part with
  | bytes data => rfl
  | chunk data => cases h
  | value data => exact data.sized

/-! ### Writes -/

/-- There is room for the bytes. -/
def Sink.Room (sink : Sink) (size : ℕ) : Prop :=
  sink.good = true ∧ sink.position + size ≤ sink.storage.length

theorem Sink.write_eq {sink : Sink} {bytes : Bytes} (h : sink.Room bytes.length) :
    sink.write bytes = { sink with
      storage := sink.storage.take sink.position ++ bytes ++
        sink.storage.drop (sink.position + bytes.length)
      position := sink.position + bytes.length } := if_pos h

theorem Sink.write_length {sink : Sink} {bytes : Bytes} (h : sink.Room bytes.length) :
    (sink.write bytes).storage.length = sink.storage.length := by
  have hroom := h.2
  rw [Sink.write_eq h]
  simp only [List.length_append, List.length_take, List.length_drop]
  omega

/-- What is written is behind what was. -/
theorem Sink.write_take {sink : Sink} {bytes : Bytes} (h : sink.Room bytes.length) :
    (sink.write bytes).storage.take (sink.position + bytes.length)
      = sink.storage.take sink.position ++ bytes := by
  have hroom := h.2
  have hlength : (sink.storage.take sink.position ++ bytes).length
      = sink.position + bytes.length := by
    rw [List.length_append, List.length_take]
    omega
  rw [Sink.write_eq h, ← hlength]
  exact List.take_left

namespace Scatter

/-! ### The loop -/

/-- The storage has what remains, behind what is written of it. -/
structure Inv (s : Scatter) (parts : List Part) : Prop where
  good : s.sink.good = true
  position : s.sink.position = s.position
  cut : s.cut ≤ s.position
  length : s.sink.storage.length = s.position + packetSize parts
  within : ∀ offset size, .packet offset size ∈ s.buffers → offset + size ≤ s.position
  retained : s.buffers.filterMap Buffered.share = s.shared

/-- The state that another leads to: what it wrote and referenced is kept. -/
structure Leads (s t : Scatter) : Prop where
  position : s.position ≤ t.position
  storage : t.sink.storage.take s.position = s.sink.storage.take s.position
  length : t.sink.storage.length = s.sink.storage.length
  buffers : s.buffers <+: t.buffers

theorem Leads.refl (s : Scatter) : Leads s s := ⟨Nat.le_refl _, rfl, rfl, List.prefix_refl _⟩

theorem Leads.trans {s t u : Scatter} (h : Leads s t) (h' : Leads t u) : Leads s u where
  position := h.position.trans h'.position
  storage := by
    have htake := congrArg (List.take s.position) h'.storage
    rw [List.take_take, List.take_take, Nat.min_eq_left h.position] at htake
    exact htake.trans h.storage
  length := h'.length.trans h.length
  buffers := h.buffers.trans h'.buffers

theorem create_inv (message : List Part) : Inv (create message) message where
  good := rfl
  position := rfl
  cut := Nat.le_refl _
  length := by
    unfold create
    simp only [List.length_replicate, Nat.zero_add]
  within _ _ h := nomatch h
  retained := rfl

theorem mem_cutPacket {offset size cut position : ℕ}
    (h : Buffered.packet offset size ∈ cutPacket cut position) : offset + size = position := by
  unfold cutPacket at h
  split at h
  · cases List.mem_singleton.mp h
    omega
  · cases h

theorem cutPacket_share (cut position : ℕ) :
    (cutPacket cut position).filterMap Buffered.share = [] := by
  unfold cutPacket
  split <;> rfl

/-- A turn writes a frame but for what is shared of it, which it references. -/
theorem Inv.frame {s : Scatter} {part : Part} {parts : List Part} (h : Inv s (part :: parts))
    (more : Bool) :
    Inv (s.frame part more) parts ∧ Leads s (s.frame part more) ∧
      (s.frame part more).sink.storage.take (s.frame part more).position
        = s.sink.storage.take s.position ++ frameHead part.body false more ++
          if part.share.isSome then [] else part.write := by
  have hlength := h.length
  rw [packetSize_cons] at hlength
  have hhead := frameHead_body part.body more
  have hroom : s.sink.Room (frameHead part.body false more).length := by
    refine ⟨h.good, ?_⟩
    rw [hlength, h.position, hhead]
    unfold Part.packed
    omega
  have htaken := Sink.write_take hroom
  have hkept := Sink.write_length hroom
  have hwritten := Sink.write_eq hroom
  set sink := s.sink.write (frameHead part.body false more) with hsink
  have hgood : sink.good = true := by
    rw [hwritten]
    exact h.good
  have hposition : sink.position = s.position + (frameSize part.body - part.body) := by
    rw [hwritten]
    dsimp only
    rw [h.position, hhead]
  rw [h.position, hhead] at htaken
  have hprefix (storage : Bytes) (more : Bytes)
      (htake : storage.take (s.position + (frameSize part.body - part.body))
        = s.sink.storage.take s.position ++ more) :
      storage.take s.position = s.sink.storage.take s.position := by
    have hshort := congrArg (List.take s.position) htake
    rw [List.take_take, Nat.min_eq_left (Nat.le_add_right _ _), List.take_append_of_le_length
      (by rw [List.length_take]; omega), List.take_take, Nat.min_self] at hshort
    exact hshort
  unfold Scatter.frame
  dsimp only
  rw [← hsink]
  cases hshare : part.share with
  | some share =>
    have hpacked : part.packed = frameSize part.body - part.body := by
      unfold Part.packed
      rw [hshare]
      rfl
    dsimp only
    refine ⟨⟨hgood, hposition, Nat.le_refl _, ?_, fun offset size hmem => ?_, ?_⟩,
      ⟨Nat.le_add_right _ _, hprefix _ _ htaken, hkept, ?_⟩, ?_⟩
    · dsimp only
      rw [hkept, hlength, hpacked]
      omega
    · rcases List.mem_append.mp hmem with hmem | hmem
      · rcases List.mem_append.mp hmem with hmem | hmem
        · exact (h.within offset size hmem).trans (Nat.le_add_right _ _)
        · exact Nat.le_of_eq (mem_cutPacket hmem)
      · cases List.mem_singleton.mp hmem
    · show (s.buffers ++ cutPacket s.cut _ ++ [Buffered.shared share]).filterMap Buffered.share = _
      rw [List.filterMap_append, List.filterMap_append, h.retained, cutPacket_share,
        List.append_nil]
      rfl
    · exact ⟨cutPacket s.cut _ ++ [Buffered.shared share], (List.append_assoc _ _ _).symm⟩
    · rw [if_pos Option.isSome_some, List.append_nil]
      exact htaken
  | none =>
    have hpacked : part.packed = frameSize part.body - part.body + part.body := by
      unfold Part.packed
      rw [hshare]
      rfl
    have hbody := Part.write_length hshare
    have hroom' : sink.Room part.write.length := by
      refine ⟨hgood, ?_⟩
      rw [hposition, hkept, hlength, hpacked, hbody]
      omega
    have htaken' := Sink.write_take hroom'
    have hkept' := Sink.write_length hroom'
    have hwritten' := Sink.write_eq hroom'
    rw [hposition, htaken, hbody] at htaken'
    dsimp only
    refine ⟨⟨?_, ?_, h.cut.trans ?_, ?_, fun offset size hmem => ?_, h.retained⟩,
      ⟨?_, ?_, ?_, List.prefix_refl _⟩, ?_⟩
    · rw [hwritten']
      exact hgood
    · rw [hwritten']
      dsimp only
      rw [hposition, hbody]
    · dsimp only
      omega
    · dsimp only
      rw [hkept', hkept, hlength, hpacked]
      omega
    · have hbefore := h.within offset size hmem
      dsimp only
      omega
    · dsimp only
      omega
    · have hhanded : (s.sink.storage.take s.position ++ frameHead part.body false more).length
          = s.position + (frameSize part.body - part.body) := by
        rw [List.length_append, List.length_take, hhead]
        omega
      have hshort := congrArg
        (List.take (s.position + (frameSize part.body - part.body))) htaken'
      rw [List.take_take, Nat.min_eq_left (Nat.le_add_right _ _), List.take_left' hhanded] at hshort
      exact hprefix _ _ hshort
    · exact hkept'.trans hkept
    · rw [htaken', if_neg (by simp)]

theorem Inv.frames {s : Scatter} {parts : List Part} (h : Inv s parts) (count : ℕ) :
    Inv (frames count parts s) (parts.drop count) ∧ Leads s (frames count parts s) := by
  induction count generalizing s parts with
  | zero => exact ⟨h, .refl s⟩
  | succ count ih =>
    cases parts with
    | nil => exact ⟨h, .refl s⟩
    | cons part parts =>
      obtain ⟨hnext, hleads, -⟩ := h.frame (parts ≠ [])
      obtain ⟨hlast, hrest⟩ := ih hnext
      exact ⟨hlast, hleads.trans hrest⟩

/-- Any turns are followed by those that remain. -/
theorem frames_leads {s : Scatter} {parts : List Part} (h : Inv s parts) (count : ℕ) :
    Leads (frames count parts s) (frames parts.length parts s) := by
  induction count generalizing s parts with
  | zero => exact (h.frames _).2
  | succ count ih =>
    cases parts with
    | nil => exact .refl s
    | cons part parts =>
      obtain ⟨hnext, -⟩ := h.frame (parts ≠ [])
      exact ih hnext

/-- The packet that is sized and filled is the one that grows as it is written. -/
theorem frames_refines {s : Scatter} {parts : List Part} (h : Inv s parts) :
    framePartsFrom parts (s.sink.storage.take s.position) s.buffers s.cut s.position =
      ⟨(frames parts.length parts s).sink.storage,
        (frames parts.length parts s).buffers ++
          cutPacket (frames parts.length parts s).cut (frames parts.length parts s).position⟩ := by
  induction parts generalizing s with
  | nil =>
    have hlength : s.sink.storage.length = s.position := h.length
    rw [framePartsFrom, ← hlength, List.take_length]
    show _ = WriteState.mk s.sink.storage (s.buffers ++ cutPacket s.cut s.position)
    rw [hlength]
  | cons part parts ih =>
    obtain ⟨hnext, -, hwritten⟩ := h.frame (parts ≠ [])
    have hrest := ih hnext
    rw [hwritten] at hrest
    show _ = WriteState.mk (frames parts.length parts (s.frame part (parts ≠ []))).sink.storage _
    rw [framePartsFrom]
    refine Eq.trans ?_ hrest
    unfold Scatter.frame Part.body
    cases hshare : part.share with
    | some share =>
      simp only [Option.map_some, Option.getD_some, Option.isSome_some, reduceIte, List.append_nil]
    | none =>
      simp only [Option.map_none, Option.getD_none, Option.isSome_none, Bool.false_eq_true,
        reduceIte]

theorem Inv.within_take {s : Scatter} {parts : List Part} (h : Inv s parts) {final : Scatter}
    (hleads : final.sink.storage.take s.position = s.sink.storage.take s.position)
    {buffer : Buffered} (hmem : buffer ∈ s.buffers) : Complete s final buffer := by
  cases buffer with
  | packet offset size =>
    have hwithin := h.within offset size hmem
    refine ⟨h.position.symm ▸ hwithin, ?_⟩
    have hpart (storage : Bytes) : (storage.drop offset).take size
        = ((storage.take s.position).drop offset).take size := by
      rw [List.drop_take, List.take_take, Nat.min_eq_left (by omega)]
    rw [hpart, hpart s.sink.storage, hleads]
  | shared bytes =>
    show bytes ∈ s.shared
    rw [← h.retained]
    exact List.mem_filterMap.mpr ⟨.shared bytes, hmem, rfl⟩

end Scatter

/-- The buffers of any message are its frames, by a packet that is complete. -/
theorem message_scattered (message : List Part) : Scattered message := by
  have hcreated := Scatter.create_inv message
  obtain ⟨hlast, hleads⟩ := hcreated.frames message.length
  have hrefines := Scatter.frames_refines hcreated
  rw [List.drop_length] at hlast
  have hfilled := hlast.length
  have hsized : (Scatter.create message).sink.storage.length = packetSize message :=
    List.length_replicate
  set done := Scatter.frames message.length message (Scatter.create message) with hdone
  have hparts : Scatter.frameParts message
      = { done with buffers := done.buffers ++ cutPacket done.cut done.position } := rfl
  have hclosed : Scatter.Inv (Scatter.frameParts message) [] := by
    rw [hparts]
    refine { hlast with within := fun offset size hmem => ?_, retained := ?_ }
    · rcases List.mem_append.mp hmem with hmem | hmem
      · exact hlast.within offset size hmem
      · exact Nat.le_of_eq (Scatter.mem_cutPacket hmem)
    · dsimp only
      rw [List.filterMap_append, Scatter.cutPacket_share, List.append_nil]
      exact hlast.retained
  refine ⟨hlast.good, ?_, ?_, fun count => ?_, fun count buffer hmem => ?_,
    fun buffer hmem => hclosed.within_take rfl hmem, hclosed.retained⟩
  · have hframes : frameParts message = ⟨done.sink.storage,
        done.buffers ++ cutPacket done.cut done.position⟩ := hrefines
    rw [hparts]
    dsimp only
    rw [← hframes]
    exact frameParts_bytes message
  · show done.sink.position = _
    rw [hlast.position, ← hsized, ← hleads.length, hfilled]
    rfl
  · rw [← hsized]
    exact (hcreated.frames count).2.length
  · exact (hcreated.frames count).1.within_take (Scatter.frames_leads hcreated count).storage hmem

end BitcoinNetwork.Zmtp
