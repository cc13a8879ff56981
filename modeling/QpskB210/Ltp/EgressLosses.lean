import QpskB210.Ltp.TcpEgress

/-!
# LTP — Egress losses

Which blocks the egress server loses. A frame leaves `deliver` or the buffer
by `write_to_clients`, whatever the clients took of it; `Taken` is the
condition under which one of them took it all. A run loses nothing exactly if
every call in it meets that condition.
-/

namespace QpskB210.Ltp

/-- The frame an event is about. -/
def EgressEvent.frame : EgressEvent → Frame
  | .wrote _ frame _ => frame
  | .discarded frame => frame

namespace TcpEgress

/-- Written completely to a client, still in the buffer, or discarded by the
capacity loop. -/
def Accounted (t : TcpEgress) (frame : Frame) : Prop :=
  (∃ client, .wrote client frame frame.bytes.length ∈ t.trace) ∨ frame ∈ t.buffer ∨
    .discarded frame ∈ t.trace

/-- Every frame delivered so far can be accounted for. -/
def LosesNothing (t : TcpEgress) : Prop := ∀ frame ∈ t.delivered, t.Accounted frame

/-- Some client takes the whole of what a call writes: the block delivered to
connected clients, or everything in the buffer when a client connects. -/
def Taken (t : TcpEgress) : EgressCall → Prop
  | .deliver data answers =>
    t.clients = [] ∨ ∃ client ∈ t.clients, Takes answers (t.nextFrame data) client
  | .connect answers =>
    ∃ client ∈ t.clients ++ [t.accepted], ∀ frame ∈ t.buffer, Takes answers frame client

/-- Every call of a run is `Taken`, in the state it is made in. -/
def AllTaken (t : TcpEgress) : List EgressCall → Prop
  | [] => True
  | call :: calls => t.Taken call ∧ (t.exec call).AllTaken calls

/-- Frames have numbers of their own, and nothing happened yet to those in
the buffer. -/
structure FramesInv (t : TcpEgress) : Prop where
  numbered : ∀ frame ∈ t.delivered, frame.number < t.delivered.length
  known : ∀ event ∈ t.trace, event.frame ∈ t.delivered
  buffered : ∀ frame ∈ t.buffer, frame ∈ t.delivered
  nodup : t.buffer.Nodup
  untouched : ∀ frame ∈ t.buffer, ∀ event ∈ t.trace, event.frame ≠ frame

variable {t t' : TcpEgress} {answers : Answers} {frame : Frame} {data : List UInt8}

theorem FramesInv.nextFrame_notMem (h : t.FramesInv) (data : List UInt8) :
    t.nextFrame data ∉ t.delivered := by
  intro hmem
  exact absurd (h.numbered _ hmem) (Nat.lt_irrefl _)

/-- The events of one `write_to_clients`. -/
def Writes (t t' : TcpEgress) (answers : Answers) (frame : Frame) : Prop :=
  t'.trace = t.trace ++ t.clients.map fun client =>
    .wrote client frame (writeLoop (answers frame client) frame.bytes.length)

theorem writes_writeToClients (t : TcpEgress) (answers : Answers) (frame : Frame) :
    Writes t (t.writeToClients answers frame) answers frame := rfl

/-- What becomes of the frame written: it is accounted for if a client took it. -/
theorem Writes.accounted_same (h : Writes t t' answers frame)
    (hfresh : ∀ event ∈ t.trace, event.frame ≠ frame) (hgone : frame ∉ t'.buffer) :
    t'.Accounted frame ↔ ∃ client ∈ t.clients, Takes answers frame client := by
  rw [Accounted, h]
  constructor
  · intro haccounted
    rcases haccounted with ⟨client, hwrote⟩ | hbuffer | hdiscarded
    · rcases List.mem_append.mp hwrote with hold | hnew
      · exact absurd rfl (hfresh _ hold)
      · obtain ⟨c, hc, heq⟩ := List.mem_map.mp hnew
        injection heq with _ _ hcount
        exact ⟨c, hc, takes_iff.mpr hcount⟩
    · exact absurd hbuffer hgone
    · rcases List.mem_append.mp hdiscarded with hold | hnew
      · exact absurd rfl (hfresh _ hold)
      · obtain ⟨c, -, heq⟩ := List.mem_map.mp hnew
        cases heq
  · intro htaken
    obtain ⟨client, hclient, htakes⟩ := htaken
    refine .inl ⟨client, List.mem_append_right _ (List.mem_map.mpr ⟨client, hclient, ?_⟩)⟩
    rw [takes_iff.mp htakes]

/-- ... and what becomes of every other frame. -/
theorem Writes.accounted_other (h : Writes t t' answers frame) {other : Frame}
    (hne : other ≠ frame) (hbuffer : other ∈ t'.buffer ↔ other ∈ t.buffer) :
    t'.Accounted other ↔ t.Accounted other := by
  have hold (event : EgressEvent) (hevent : event.frame = other) :
      event ∈ t'.trace ↔ event ∈ t.trace := by
    rw [h, List.mem_append]
    refine ⟨fun hmem => hmem.resolve_right fun hnew => ?_, .inl⟩
    obtain ⟨c, -, rfl⟩ := List.mem_map.mp hnew
    exact hne hevent.symm
  rw [Accounted, Accounted, hbuffer, hold (.discarded other) rfl]
  exact or_congr_left (exists_congr fun client => hold (.wrote client other _) rfl)

/-! ## Writing a frame -/

theorem FramesInv.write (h : t.FramesInv) (hwrites : Writes t t' answers frame)
    (hdelivered : t'.delivered = t.delivered) (hframe : frame ∈ t.delivered)
    (hbuffer : t'.buffer.Sublist t.buffer) (hgone : frame ∉ t'.buffer) : t'.FramesInv where
  numbered := by
    rw [hdelivered]
    exact h.numbered
  known := by
    intro event hevent
    rw [hdelivered]
    rw [hwrites] at hevent
    rcases List.mem_append.mp hevent with hold | hnew
    · exact h.known event hold
    · obtain ⟨client, -, rfl⟩ := List.mem_map.mp hnew
      exact hframe
  buffered := by
    intro other hother
    rw [hdelivered]
    exact h.buffered other (hbuffer.subset hother)
  nodup := h.nodup.sublist hbuffer
  untouched := by
    intro other hother event hevent heq
    rw [hwrites] at hevent
    rcases List.mem_append.mp hevent with hold | hnew
    · exact h.untouched other (hbuffer.subset hother) event hold heq
    · obtain ⟨client, -, rfl⟩ := List.mem_map.mp hnew
      have hsame : frame = other := heq
      exact hgone (hsame ▸ hother)

/-- The state once `deliver` has framed its data. -/
def declare (t : TcpEgress) (data : List UInt8) : TcpEgress :=
  { t with delivered := t.delivered ++ [t.nextFrame data] }

theorem mem_declare : frame ∈ (t.declare data).delivered ↔
    frame ∈ t.delivered ∨ frame = t.nextFrame data := by
  rw [declare, List.mem_append, List.mem_singleton]

theorem FramesInv.declare (h : t.FramesInv) (data : List UInt8) : (t.declare data).FramesInv where
  numbered := by
    intro frame hframe
    rw [TcpEgress.declare, List.length_append]
    rcases mem_declare.mp hframe with hold | rfl
    · exact Nat.lt_add_right 1 (h.numbered frame hold)
    · exact Nat.lt_succ_self _
  known := fun event hevent => mem_declare.mpr (.inl (h.known event hevent))
  buffered := fun frame hframe => mem_declare.mpr (.inl (h.buffered frame hframe))
  nodup := h.nodup
  untouched := h.untouched

theorem FramesInv.nextFrame_untouched (h : t.FramesInv) (data : List UInt8) :
    ∀ event ∈ t.trace, event.frame ≠ t.nextFrame data := by
  intro event hevent heq
  exact h.nextFrame_notMem data (heq ▸ h.known event hevent)

/-- Nothing is lost of what is delivered: nothing old, and not the new frame. -/
theorem losesNothing_declare (hdelivered : t'.delivered = (t.declare data).delivered)
    (hold : ∀ frame ∈ t.delivered, t'.Accounted frame ↔ t.Accounted frame) :
    t'.LosesNothing ↔ t.LosesNothing ∧ t'.Accounted (t.nextFrame data) := by
  constructor
  · intro hnothing
    refine ⟨fun frame hframe => (hold frame hframe).mp (hnothing frame ?_),
      hnothing _ ?_⟩
    · rw [hdelivered]
      exact mem_declare.mpr (.inl hframe)
    · rw [hdelivered]
      exact mem_declare.mpr (.inr rfl)
  · intro hboth frame hframe
    rw [hdelivered] at hframe
    rcases mem_declare.mp hframe with hmem | rfl
    · exact (hold frame hmem).mpr (hboth.1 frame hmem)
    · exact hboth.2

/-! ## deliver -/

/-- Buffering a frame discards the front of the buffer. -/
theorem bufferFrame_cases (t : TcpEgress) (frame : Frame) :
    ∃ discarded kept, t.buffer = discarded ++ kept ∧
      (t.bufferFrame frame).buffer = kept ++ [frame] ∧
      (t.bufferFrame frame).trace = t.trace ++ discarded.map EgressEvent.discarded :=
  ⟨_, _, (discardLoop_append t.maxBufferBytes frame.size t.buffer t.bufferBytes).symm, rfl, rfl⟩

theorem FramesInv.bufferFrame (h : t.FramesInv) (data : List UInt8) :
    ((t.declare data).bufferFrame (t.nextFrame data)).FramesInv := by
  obtain ⟨discarded, kept, hbuffer, hkept, htrace⟩ :=
    bufferFrame_cases (t.declare data) (t.nextFrame data)
  have hnodup := h.nodup
  rw [show t.buffer = discarded ++ kept from hbuffer] at hnodup
  have hmem {frame : Frame} (hframe : frame ∈ kept) : frame ∈ t.buffer := by
    rw [show t.buffer = discarded ++ kept from hbuffer]
    exact List.mem_append_right _ hframe
  have hdropped {frame : Frame} (hframe : frame ∈ discarded) : frame ∈ t.buffer := by
    rw [show t.buffer = discarded ++ kept from hbuffer]
    exact List.mem_append_left _ hframe
  have hnew := h.nextFrame_notMem data
  refine ⟨(h.declare data).numbered, ?_, ?_, ?_, ?_⟩
  · intro event hevent
    rw [htrace] at hevent
    rcases List.mem_append.mp hevent with hold | hdiscarded
    · exact mem_declare.mpr (.inl (h.known event hold))
    · obtain ⟨frame, hframe, rfl⟩ := List.mem_map.mp hdiscarded
      exact mem_declare.mpr (.inl (h.buffered frame (hdropped hframe)))
  · intro frame hframe
    rw [hkept] at hframe
    rcases List.mem_append.mp hframe with hold | hlast
    · exact mem_declare.mpr (.inl (h.buffered frame (hmem hold)))
    · exact mem_declare.mpr (.inr (List.mem_singleton.mp hlast))
  · rw [hkept]
    apply List.Nodup.append (List.nodup_append.mp hnodup).2.1 (List.nodup_singleton _)
    intro frame hold hlast
    rw [List.mem_singleton.mp hlast] at hold
    exact hnew (h.buffered _ (hmem hold))
  · intro frame hframe event hevent heq
    rw [hkept] at hframe
    rw [htrace] at hevent
    rcases List.mem_append.mp hframe with hframe | hframe
    · rcases List.mem_append.mp hevent with hold | hdiscarded
      · exact h.untouched frame (hmem hframe) event hold heq
      · obtain ⟨other, hother, rfl⟩ := List.mem_map.mp hdiscarded
        have hsame : other = frame := heq
        exact (List.disjoint_of_nodup_append hnodup) (hsame ▸ hother) hframe
    · rw [List.mem_singleton.mp hframe] at heq
      rcases List.mem_append.mp hevent with hold | hdiscarded
      · exact h.nextFrame_untouched data event hold heq
      · obtain ⟨other, hother, rfl⟩ := List.mem_map.mp hdiscarded
        have hsame : other = t.nextFrame data := heq
        exact hnew (h.buffered _ (hdropped (hsame ▸ hother)))

theorem bufferFrame_losesNothing (h : t.FramesInv) (data : List UInt8) :
    ((t.declare data).bufferFrame (t.nextFrame data)).LosesNothing ↔ t.LosesNothing := by
  obtain ⟨discarded, kept, hbuffer, hkept, htrace⟩ :=
    bufferFrame_cases (t.declare data) (t.nextFrame data)
  have hdelivered : ((t.declare data).bufferFrame (t.nextFrame data)).delivered =
      (t.declare data).delivered := rfl
  rw [losesNothing_declare hdelivered, and_iff_left]
  · -- the new frame is in the buffer
    refine .inr (.inl ?_)
    rw [hkept]
    exact List.mem_append_right _ (List.mem_singleton_self _)
  · intro frame hframe
    have hne : frame ≠ t.nextFrame data := fun heq => h.nextFrame_notMem data (heq ▸ hframe)
    rw [Accounted, Accounted, hkept, htrace, show t.buffer = discarded ++ kept from hbuffer]
    simp only [List.mem_append, List.mem_map, List.mem_singleton, hne, or_false,
      EgressEvent.discarded.injEq, exists_eq_right, reduceCtorEq, and_false, exists_false]
    tauto

theorem deliver_of_clients (hclients : t.clients ≠ []) :
    t.deliver data answers = (t.declare data).writeToClients answers (t.nextFrame data) := by
  rw [deliver]
  exact if_neg (by simpa using hclients)

theorem deliver_of_noClients (hclients : t.clients = []) :
    t.deliver data answers = (t.declare data).bufferFrame (t.nextFrame data) := by
  rw [deliver]
  exact if_pos (by simpa using hclients)

theorem FramesInv.deliver (h : t.FramesInv) (data : List UInt8) (answers : Answers) :
    (t.deliver data answers).FramesInv := by
  by_cases hclients : t.clients = []
  · rw [deliver_of_noClients hclients]
    exact h.bufferFrame data
  · rw [deliver_of_clients hclients]
    apply (h.declare data).write (writes_writeToClients _ answers (t.nextFrame data)) rfl
    · exact mem_declare.mpr (.inr rfl)
    · exact List.Sublist.refl _
    · exact fun hmem => h.nextFrame_notMem data (h.buffered _ hmem)

theorem deliver_losesNothing (h : t.FramesInv) :
    (t.deliver data answers).LosesNothing ↔ t.LosesNothing ∧ t.Taken (.deliver data answers) := by
  by_cases hclients : t.clients = []
  · rw [deliver_of_noClients hclients, bufferFrame_losesNothing h, and_iff_left (.inl hclients)]
  · rw [deliver_of_clients hclients, Taken, or_iff_right hclients]
    have hwrites : Writes t ((t.declare data).writeToClients answers (t.nextFrame data)) answers
        (t.nextFrame data) := writes_writeToClients (t.declare data) answers _
    have hdelivered : ((t.declare data).writeToClients answers (t.nextFrame data)).delivered =
        (t.declare data).delivered := rfl
    have hgone : t.nextFrame data ∉ t.buffer :=
      fun hmem => h.nextFrame_notMem data (h.buffered _ hmem)
    rw [← hwrites.accounted_same (h.nextFrame_untouched data) hgone]
    apply losesNothing_declare hdelivered
    intro frame hframe
    apply hwrites.accounted_other _ Iff.rfl
    intro heq
    exact h.nextFrame_notMem data (heq ▸ hframe)

/-! ## Flushing -/

/-- One round of the flush loop. -/
def flushRound (t : TcpEgress) (answers : Answers) (front : Frame) (buffer : List Frame) :
    TcpEgress :=
  { t.writeToClients answers front with
    buffer := buffer, bufferBytes := t.bufferBytes - front.size }

theorem mem_clients_flushRound {front : Frame} {buffer : List Frame} {client : Nat} :
    client ∈ (t.flushRound answers front buffer).clients ↔
      client ∈ t.clients ∧ Takes answers front client :=
  mem_clients_writeToClients

theorem flushLoop_cons (front : Frame) (buffer : List Frame) (hclients : t.clients ≠ []) :
    flushLoop answers (front :: buffer) t =
      flushLoop answers buffer (t.flushRound answers front buffer) := by
  rw [flushLoop]
  exact if_neg (by simpa using hclients)

theorem flushLoop_of_noClients (buffer : List Frame) (hclients : t.clients = []) :
    flushLoop answers buffer t = t := by
  cases buffer with
  | nil => rfl
  | cons front buffer => exact if_pos (by simpa using hclients)

theorem FramesInv.flushRound (h : t.FramesInv) {front : Frame} {buffer : List Frame}
    (hbuffer : t.buffer = front :: buffer) : (t.flushRound answers front buffer).FramesInv := by
  have hnodup := h.nodup
  rw [hbuffer] at hnodup
  have hwrites : Writes t (t.flushRound answers front buffer) answers front :=
    writes_writeToClients t answers front
  apply h.write hwrites rfl
  · exact h.buffered front (by rw [hbuffer]; exact List.mem_cons_self)
  · rw [hbuffer]
    exact List.sublist_cons_self _ _
  · exact (List.nodup_cons.mp hnodup).1

/-- The front of the buffer leaves it, whoever took it. -/
theorem flushRound_losesNothing (h : t.FramesInv) {front : Frame} {buffer : List Frame}
    (hbuffer : t.buffer = front :: buffer) :
    (t.flushRound answers front buffer).LosesNothing ↔
      t.LosesNothing ∧ ∃ client ∈ t.clients, Takes answers front client := by
  have hnodup := h.nodup
  rw [hbuffer] at hnodup
  have hfront : front ∈ t.buffer := by
    rw [hbuffer]
    exact List.mem_cons_self
  have hwrites : Writes t (t.flushRound answers front buffer) answers front :=
    writes_writeToClients t answers front
  have hother (frame : Frame) (hne : frame ≠ front) :
      (t.flushRound answers front buffer).Accounted frame ↔ t.Accounted frame := by
    apply hwrites.accounted_other hne
    rw [hbuffer, List.mem_cons, or_iff_right hne]
    rfl
  rw [← hwrites.accounted_same (h.untouched front hfront) (List.nodup_cons.mp hnodup).1]
  constructor
  · intro hnothing
    refine ⟨fun frame hframe => ?_, hnothing front (h.buffered front hfront)⟩
    by_cases hne : frame = front
    · exact .inr (.inl (hne ▸ hfront))
    · exact (hother frame hne).mp (hnothing frame hframe)
  · intro hboth frame hframe
    by_cases hne : frame = front
    · rw [hne]
      exact hboth.2
    · exact (hother frame hne).mpr (hboth.1 frame hframe)

theorem FramesInv.flushLoop {buffer : List Frame} (h : t.FramesInv) (hbuffer : t.buffer = buffer) :
    (flushLoop answers buffer t).FramesInv := by
  induction buffer generalizing t with
  | nil => exact h
  | cons front buffer ih =>
      by_cases hclients : t.clients = []
      · rwa [flushLoop_of_noClients _ hclients]
      · rw [flushLoop_cons _ _ hclients]
        exact ih (h.flushRound hbuffer) rfl

/-- A flush loses nothing if one client takes everything. -/
theorem flushLoop_losesNothing {buffer : List Frame} (h : t.FramesInv) (hbuffer : t.buffer = buffer)
    (hclients : t.clients ≠ []) :
    (TcpEgress.flushLoop answers buffer t).LosesNothing ↔
      t.LosesNothing ∧ ∃ client ∈ t.clients, ∀ frame ∈ buffer, Takes answers frame client := by
  induction buffer generalizing t with
  | nil =>
      obtain ⟨client, hclient⟩ := List.exists_mem_of_ne_nil _ hclients
      exact (and_iff_left ⟨client, hclient, nofun⟩).symm
  | cons front buffer ih =>
      rw [flushLoop_cons _ _ hclients]
      have hround : (t.flushRound answers front buffer).LosesNothing ↔
          t.LosesNothing ∧ ∃ client ∈ t.clients, Takes answers front client :=
        flushRound_losesNothing h hbuffer
      by_cases hleft : (t.flushRound answers front buffer).clients = []
      · -- nobody took the front, and the loop stops
        have hnone : ¬ ∃ client ∈ t.clients, Takes answers front client := by
          intro hsome
          obtain ⟨client, hclient, htakes⟩ := hsome
          have hmem : client ∈ (t.flushRound answers front buffer).clients :=
            mem_clients_flushRound.mpr ⟨hclient, htakes⟩
          rw [hleft] at hmem
          cases hmem
        rw [flushLoop_of_noClients _ hleft, hround]
        refine and_congr_right fun _ => iff_of_false hnone fun hsome => hnone ?_
        obtain ⟨client, hclient, htakes⟩ := hsome
        exact ⟨client, hclient, htakes front List.mem_cons_self⟩
      · rw [ih (h.flushRound hbuffer) rfl hleft, hround, and_assoc]
        refine and_congr_right fun _ => ⟨fun hboth => ?_, fun hsome => ?_⟩
        · obtain ⟨-, client, hclient, htakes⟩ := hboth
          obtain ⟨hclient, hfront⟩ := mem_clients_flushRound.mp hclient
          exact ⟨client, hclient, List.forall_mem_cons.mpr ⟨hfront, htakes⟩⟩
        · obtain ⟨client, hclient, htakes⟩ := hsome
          obtain ⟨hfront, hrest⟩ := List.forall_mem_cons.mp htakes
          exact ⟨⟨client, hclient, hfront⟩, client,
            mem_clients_flushRound.mpr ⟨hclient, hfront⟩, hrest⟩

/-! ## Runs -/

/-- The accept loop has taken in a client, and not yet flushed. -/
def joined (t : TcpEgress) : TcpEgress :=
  { t with clients := t.clients ++ [t.accepted], accepted := t.accepted + 1 }

theorem FramesInv.joined (h : t.FramesInv) : t.joined.FramesInv :=
  ⟨h.numbered, h.known, h.buffered, h.nodup, h.untouched⟩

theorem FramesInv.exec (h : t.FramesInv) (call : EgressCall) : (t.exec call).FramesInv := by
  cases call with
  | deliver data answers => exact h.deliver data answers
  | connect answers => exact h.joined.flushLoop rfl

/-- A call loses a block exactly if no client takes all that it writes. -/
theorem exec_losesNothing (h : t.FramesInv) (call : EgressCall) :
    (t.exec call).LosesNothing ↔ t.LosesNothing ∧ t.Taken call := by
  cases call with
  | deliver data answers => exact deliver_losesNothing h
  | connect answers => exact flushLoop_losesNothing h.joined rfl (List.concat_ne_nil _ _)

theorem run_losesNothing (h : t.FramesInv) (calls : List EgressCall) :
    (t.run calls).LosesNothing ↔ t.LosesNothing ∧ t.AllTaken calls := by
  induction calls generalizing t with
  | nil => exact (and_iff_left trivial).symm
  | cons call calls ih =>
      have hstep := exec_losesNothing h call
      rw [run, List.foldl_cons]
      exact (ih (h.exec call)).trans (by rw [hstep, and_assoc]; rfl)

theorem framesInv_create (maxBufferBytes : UInt64) : (create maxBufferBytes).FramesInv where
  numbered := nofun
  known := nofun
  buffered := nofun
  nodup := List.nodup_nil
  untouched := nofun

/-- **Egress losses.** After any calls, every delivered block was written
completely to a client, is in the buffer or was discarded, exactly if in each
of the calls some client took all that was written. -/
theorem losesNothing_iff_allTaken (maxBufferBytes : UInt64) (calls : List EgressCall) :
    ((create maxBufferBytes).run calls).LosesNothing ↔
      (create maxBufferBytes).AllTaken calls := by
  have hnothing : (create maxBufferBytes).LosesNothing := nofun
  rw [run_losesNothing (framesInv_create maxBufferBytes), and_iff_right hnothing]

/-- A block is delivered to one client, whose connection is gone. -/
theorem block_lost : ¬ ∀ (maxBufferBytes : UInt64) (calls : List EgressCall),
    ((create maxBufferBytes).run calls).LosesNothing := by
  intro h
  have hlost := h 10485760 [.connect fun _ _ => [], .deliver [7] fun _ _ => []]
    ⟨0, frameMessage [7]⟩ List.mem_cons_self
  rcases hlost with ⟨client, hwrote⟩ | hbuffer | hdiscarded
  · rcases List.mem_cons.mp hwrote with heq | hrest
    · injection heq with _ _ hcount
      exact absurd hcount (by decide)
    · cases hrest
  · cases hbuffer
  · rcases List.mem_cons.mp hdiscarded with heq | hrest
    · cases heq
    · cases hrest

end TcpEgress

end QpskB210.Ltp
