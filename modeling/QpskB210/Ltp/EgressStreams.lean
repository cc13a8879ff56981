import QpskB210.Ltp.EgressBuffer

/-!
# LTP — Egress streams

What is written on the connection of one client of the egress server: whole
frames in the order of their `deliver` calls, and after them at most one that
is cut short, with which the connection is given up. Every frame is written
to all clients at once, and what waits in the buffer goes before what is
delivered later (`StreamOk`).
-/

namespace QpskB210.Ltp

open QpskB210.Lib

/-- What a frame is the frame of. -/
def Frame.data (frame : Frame) : List UInt8 := frame.bytes.drop 4

/-- A write of the whole frame. -/
def Frame.full (frame : Frame) : Frame × Nat := (frame, frame.bytes.length)

/-- The write on the connection of this client. -/
def EgressEvent.writeTo? (client : Nat) : EgressEvent → Option (Frame × Nat)
  | .wrote client' frame count => if client' = client then some (frame, count) else none
  | .discarded _ => none

namespace TcpEgress

/-- The frames written on a connection, each with how much of it. -/
def writes (t : TcpEgress) (client : Nat) : List (Frame × Nat) :=
  t.trace.filterMap (EgressEvent.writeTo? client)

/-- The bytes written on a connection. -/
def stream (t : TcpEgress) (client : Nat) : List UInt8 :=
  (t.writes client).flatMap fun write => write.1.bytes.take write.2

/-- One connection has these whole frames, and then perhaps one that is cut
short. -/
structure Intact (t : TcpEgress) (client : Nat) (whole : List Frame) (cut : Option (Frame × Nat)) :
    Prop where
  writes : t.writes client = whole.map Frame.full ++ cut.toList
  order : (whole ++ cut.toList.map Prod.fst).Sublist t.delivered
  short : ∀ write ∈ cut, write.2 < write.1.bytes.length ∧ client ∉ t.clients

/-- A connected client has whole frames only, all of them delivered before
the pending ones; any other is intact. -/
def StreamOk (t : TcpEgress) (pending : List Frame) (client : Nat) : Prop :=
  if client ∈ t.clients then
    ∃ whole : List Frame,
      t.writes client = whole.map Frame.full ∧ (whole ++ pending).Sublist t.delivered
  else ∃ whole cut, t.Intact client whole cut

structure StreamsInv (t : TcpEgress) (pending : List Frame) : Prop where
  nodup : t.clients.Nodup
  accepted : ∀ client ∈ t.clients, client < t.accepted
  fresh : ∀ client, t.accepted ≤ client → t.writes client = []
  buffered : t.buffer.Sublist t.delivered
  streams : ∀ client, t.StreamOk pending client

variable {t t' : TcpEgress} {answers : Answers} {frame : Frame} {data : List UInt8}
  {client : Nat} {pending : List Frame}

theorem streamOk_of_mem (hclient : client ∈ t.clients) :
    t.StreamOk pending client ↔ ∃ whole : List Frame,
      t.writes client = whole.map Frame.full ∧ (whole ++ pending).Sublist t.delivered := by
  rw [StreamOk, if_pos hclient]

theorem streamOk_of_notMem (hclient : client ∉ t.clients) :
    t.StreamOk pending client ↔ ∃ whole cut, t.Intact client whole cut := by
  rw [StreamOk, if_neg hclient]

theorem StreamOk.intact (h : t.StreamOk pending client) :
    ∃ whole cut, t.Intact client whole cut := by
  by_cases hclient : client ∈ t.clients
  · obtain ⟨whole, hwrites, horder⟩ := (streamOk_of_mem hclient).mp h
    refine ⟨whole, none, ?_, ?_, nofun⟩
    · rw [hwrites, Option.toList_none, List.append_nil]
    · rw [Option.toList_none, List.map_nil, List.append_nil]
      exact (List.sublist_append_left whole pending).trans horder
  · exact (streamOk_of_notMem hclient).mp h

/-! ## One write -/

theorem filterMap_writeTo {clients : List Nat} (hnodup : clients.Nodup) (count : Nat → Nat) :
    (clients.map fun client' => EgressEvent.wrote client' frame (count client')).filterMap
        (EgressEvent.writeTo? client) =
      if client ∈ clients then [(frame, count client)] else [] := by
  induction clients with
  | nil => rfl
  | cons head clients ih =>
      obtain ⟨hhead, htail⟩ := List.nodup_cons.mp hnodup
      rw [List.map_cons, List.filterMap_cons, EgressEvent.writeTo?, ih htail]
      by_cases heq : head = client
      · subst heq
        simp [hhead]
      · have hne : client ≠ head := fun h => heq h.symm
        simp [heq, hne]

theorem writes_of_writes (h : Writes t t' answers frame) (hnodup : t.clients.Nodup)
    (client : Nat) :
    t'.writes client = t.writes client ++
      if client ∈ t.clients then
        [(frame, writeLoop (answers frame client) frame.bytes.length)]
      else [] := by
  rw [writes, h, List.filterMap_append, filterMap_writeTo hnodup]
  rfl

/-- A client that takes the next pending frame has one more whole frame, and
one that does not is cut off. -/
theorem StreamOk.write (h : t.StreamOk (frame :: pending) client)
    (hwrites : Writes t t' answers frame) (hnodup : t.clients.Nodup)
    (hclients : t'.clients = (t.writeToClients answers frame).clients)
    (hdelivered : t'.delivered = t.delivered) : t'.StreamOk pending client := by
  have hmem : client ∈ t'.clients ↔ client ∈ t.clients ∧ Takes answers frame client := by
    rw [hclients, mem_clients_writeToClients]
  have hnew := writes_of_writes hwrites hnodup client
  by_cases hclient : client ∈ t.clients
  · obtain ⟨whole, hold, horder⟩ := (streamOk_of_mem hclient).mp h
    rw [if_pos hclient, hold] at hnew
    by_cases htakes : Takes answers frame client
    · rw [streamOk_of_mem (hmem.mpr ⟨hclient, htakes⟩)]
      refine ⟨whole ++ [frame], ?_, ?_⟩
      · rw [hnew, takes_iff.mp htakes, List.map_append]
        rfl
      · rwa [hdelivered, List.append_assoc]
    · have hgone : client ∉ t'.clients := fun hin => htakes (hmem.mp hin).2
      have hshort : writeLoop (answers frame client) frame.bytes.length < frame.bytes.length := by
        rw [Takes] at htakes
        rw [writeLoop_eq]
        omega
      rw [streamOk_of_notMem hgone]
      refine ⟨whole, some (frame, _), hnew, ?_, ?_⟩
      · rw [hdelivered]
        refine .trans ?_ horder
        simp
      · intro write hwrite
        cases hwrite
        exact ⟨hshort, hgone⟩
  · have hgone : client ∉ t'.clients := fun hin => hclient (hmem.mp hin).1
    obtain ⟨whole, cut, hintact⟩ := (streamOk_of_notMem hclient).mp h
    rw [if_neg hclient, List.append_nil] at hnew
    rw [streamOk_of_notMem hgone]
    refine ⟨whole, cut, hnew.trans hintact.writes, ?_, ?_⟩
    · rw [hdelivered]
      exact hintact.order
    · exact fun write hwrite => ⟨(hintact.short write hwrite).1, hgone⟩

theorem StreamsInv.write (h : t.StreamsInv (frame :: pending))
    (hwrites : Writes t t' answers frame)
    (hclients : t'.clients = (t.writeToClients answers frame).clients)
    (haccepted : t'.accepted = t.accepted) (hdelivered : t'.delivered = t.delivered)
    (hbuffer : t'.buffer.Sublist t.buffer) : t'.StreamsInv pending where
  nodup := by
    rw [hclients]
    exact h.nodup.filter _
  accepted := by
    intro client hclient
    rw [hclients] at hclient
    rw [haccepted]
    exact h.accepted client (mem_clients_writeToClients.mp hclient).1
  fresh := by
    intro client hclient
    rw [haccepted] at hclient
    have hnot : client ∉ t.clients := fun hin => Nat.not_lt.mpr hclient (h.accepted client hin)
    rw [writes_of_writes hwrites h.nodup client, if_neg hnot, List.append_nil]
    exact h.fresh client hclient
  buffered := by
    rw [hdelivered]
    exact hbuffer.trans h.buffered
  streams := fun client => (h.streams client).write hwrites h.nodup hclients hdelivered

/-! ## Calls -/

/-- Any other change: it leaves what was written and who is connected. -/
theorem Intact.mono {whole : List Frame} {cut : Option (Frame × Nat)}
    (h : t.Intact client whole cut) (hwrites : t'.writes client = t.writes client)
    (hdelivered : t.delivered.Sublist t'.delivered)
    (hclients : client ∈ t'.clients → client ∈ t.clients) : t'.Intact client whole cut where
  writes := hwrites.trans h.writes
  order := h.order.trans hdelivered
  short := fun write hwrite =>
    ⟨(h.short write hwrite).1, fun hin => (h.short write hwrite).2 (hclients hin)⟩

theorem StreamsInv.declare (h : t.StreamsInv []) (data : List UInt8) :
    (t.declare data).StreamsInv [t.nextFrame data] where
  nodup := h.nodup
  accepted := h.accepted
  fresh := h.fresh
  buffered := h.buffered.trans (List.sublist_append_left t.delivered _)
  streams := by
    intro client
    by_cases hclient : client ∈ t.clients
    · obtain ⟨whole, hwrites, horder⟩ := (streamOk_of_mem hclient).mp (h.streams client)
      rw [List.append_nil] at horder
      exact (streamOk_of_mem (t := t.declare data) hclient).mpr
        ⟨whole, hwrites, horder.append (List.Sublist.refl _)⟩
    · obtain ⟨whole, cut, hintact⟩ := (streamOk_of_notMem hclient).mp (h.streams client)
      refine (streamOk_of_notMem (t := t.declare data) hclient).mpr ⟨whole, cut, ?_⟩
      exact hintact.mono rfl (List.sublist_append_left t.delivered _) id

theorem writes_bufferFrame (t : TcpEgress) (frame : Frame) (client : Nat) :
    (t.bufferFrame frame).writes client = t.writes client := by
  obtain ⟨discarded, kept, -, -, htrace⟩ := bufferFrame_cases t frame
  have hnone : (discarded.map EgressEvent.discarded).filterMap (EgressEvent.writeTo? client) = [] := by
    simp [EgressEvent.writeTo?]
  rw [writes, htrace, List.filterMap_append, hnone, List.append_nil]
  rfl

theorem StreamsInv.bufferFrame (h : t.StreamsInv []) (hclients : t.clients = [])
    (data : List UInt8) : ((t.declare data).bufferFrame (t.nextFrame data)).StreamsInv [] where
  nodup := h.nodup
  accepted := h.accepted
  fresh := by
    intro client hclient
    rw [writes_bufferFrame]
    exact h.fresh client hclient
  buffered := by
    obtain ⟨discarded, kept, hbuffer, hkept, -⟩ :=
      bufferFrame_cases (t.declare data) (t.nextFrame data)
    rw [hkept]
    refine .append (.trans ?_ h.buffered) (List.Sublist.refl _)
    rw [show t.buffer = discarded ++ kept from hbuffer]
    exact List.sublist_append_right discarded kept
  streams := by
    intro client
    have hclient : client ∉ t.clients := by
      rw [hclients]
      exact List.not_mem_nil
    obtain ⟨whole, cut, hintact⟩ := (streamOk_of_notMem hclient).mp (h.streams client)
    refine (streamOk_of_notMem (t := (t.declare data).bufferFrame (t.nextFrame data)) hclient).mpr
      ⟨whole, cut, ?_⟩
    refine hintact.mono ?_ (List.sublist_append_left t.delivered _) id
    exact writes_bufferFrame (t.declare data) _ client

theorem StreamsInv.deliver (h : t.StreamsInv []) (data : List UInt8) (answers : Answers) :
    (t.deliver data answers).StreamsInv [] := by
  by_cases hclients : t.clients = []
  · rw [deliver_of_noClients hclients]
    exact h.bufferFrame hclients data
  · rw [deliver_of_clients hclients]
    exact (h.declare data).write (writes_writeToClients _ answers _) rfl rfl rfl
      (List.Sublist.refl _)

theorem StreamsInv.nodup_joined (h : t.StreamsInv pending) : t.joined.clients.Nodup := by
  refine h.nodup.append (List.nodup_singleton _) ?_
  intro client hclient hlast
  rw [List.mem_singleton.mp hlast] at hclient
  exact Nat.lt_irrefl _ (h.accepted _ hclient)

/-- Everything in the buffer is pending for a client that joins. -/
theorem StreamsInv.joined (h : t.StreamsInv []) (hidle : t.Idle) :
    t.joined.StreamsInv t.buffer where
  nodup := h.nodup_joined
  accepted := by
    intro client hclient
    rcases List.mem_append.mp hclient with hold | hlast
    · exact Nat.lt_succ_of_lt (h.accepted client hold)
    · rw [List.mem_singleton.mp hlast]
      exact Nat.lt_succ_self _
  fresh := fun client hclient => h.fresh client (Nat.le_of_succ_le hclient)
  buffered := h.buffered
  streams := by
    intro client
    by_cases hnew : client = t.accepted
    · subst hnew
      have hjoined : t.accepted ∈ t.joined.clients :=
        List.mem_append_right _ (List.mem_singleton_self _)
      exact (streamOk_of_mem hjoined).mpr ⟨[], h.fresh _ le_rfl, h.buffered⟩
    · have hmem : client ∈ t.joined.clients ↔ client ∈ t.clients := by
        simp [TcpEgress.joined, hnew]
      by_cases hclient : client ∈ t.clients
      · -- nothing waits as long as somebody is connected
        have hempty : t.buffer = [] := hidle (List.ne_nil_of_mem hclient)
        rw [hempty, streamOk_of_mem (hmem.mpr hclient)]
        exact (streamOk_of_mem hclient).mp (h.streams client)
      · obtain ⟨whole, cut, hintact⟩ := (streamOk_of_notMem hclient).mp (h.streams client)
        rw [streamOk_of_notMem fun hin => hclient (hmem.mp hin)]
        exact ⟨whole, cut, hintact.mono rfl (List.Sublist.refl _) hmem.mp⟩

theorem StreamsInv.drop (h : t.StreamsInv pending) : t.StreamsInv [] where
  nodup := h.nodup
  accepted := h.accepted
  fresh := h.fresh
  buffered := h.buffered
  streams := by
    intro client
    by_cases hclient : client ∈ t.clients
    · obtain ⟨whole, hwrites, horder⟩ := (streamOk_of_mem hclient).mp (h.streams client)
      refine (streamOk_of_mem hclient).mpr ⟨whole, hwrites, ?_⟩
      rw [List.append_nil]
      exact (List.sublist_append_left whole pending).trans horder
    · exact (streamOk_of_notMem hclient).mpr (h.streams client).intact

theorem StreamsInv.exec (h : t.StreamsInv []) (hidle : t.Idle) (call : EgressCall) :
    (t.exec call).StreamsInv [] := by
  cases call with
  | deliver data answers => exact h.deliver data answers
  | connect answers =>
      have hround (t' : TcpEgress) (front : Frame) (buffer : List Frame)
          (hbuffer : t'.buffer = front :: buffer) (_ : t'.clients ≠ [])
          (h' : t'.StreamsInv t'.buffer) : (t'.flushRound answers front buffer).StreamsInv buffer := by
        rw [hbuffer] at h'
        refine h'.write (writes_writeToClients t' answers front) rfl rfl rfl ?_
        rw [hbuffer]
        exact List.sublist_cons_self front buffer
      have hflushed := flushLoop_induction (motive := fun t' => t'.StreamsInv t'.buffer) hround
        (t := t.joined) rfl (h.joined hidle)
      exact hflushed.drop

theorem streamsInv_create (maxBufferBytes : UInt64) : (create maxBufferBytes).StreamsInv [] where
  nodup := List.nodup_nil
  accepted := nofun
  fresh := fun _ _ => rfl
  buffered := List.Sublist.refl _
  streams := by
    intro client
    refine (streamOk_of_notMem List.not_mem_nil).mpr ⟨[], none, rfl, List.Sublist.refl _, nofun⟩

theorem streamsInv_run (h : t.StreamsInv []) (hidle : t.Idle) (calls : List EgressCall) :
    (t.run calls).StreamsInv [] := by
  induction calls generalizing t with
  | nil => exact h
  | cons call calls ih => exact ih (h.exec hidle call) (idle_exec hidle call)

/-! ## A connection that is given up -/

/-- The connection was there, and is not any more. -/
def Gone (t : TcpEgress) (client : Nat) : Prop := client ∉ t.clients ∧ client < t.accepted

theorem Gone.write (h : t.Gone client) (hwrites : Writes t t' answers frame)
    (hnodup : t.clients.Nodup) (hclients : t'.clients = (t.writeToClients answers frame).clients)
    (haccepted : t'.accepted = t.accepted) :
    t'.Gone client ∧ t'.writes client = t.writes client := by
  refine ⟨⟨fun hin => ?_, ?_⟩, ?_⟩
  · rw [hclients] at hin
    exact h.1 (mem_clients_writeToClients.mp hin).1
  · rw [haccepted]
    exact h.2
  · rw [writes_of_writes hwrites hnodup client, if_neg h.1, List.append_nil]

/-- Nothing more is written on it. -/
theorem Gone.exec (h : t.Gone client) (hinv : t.StreamsInv []) (call : EgressCall) :
    (t.exec call).Gone client ∧ (t.exec call).writes client = t.writes client := by
  cases call with
  | deliver data answers =>
      by_cases hclients : t.clients = []
      · rw [TcpEgress.exec, deliver_of_noClients hclients]
        exact ⟨h, writes_bufferFrame (t.declare data) _ client⟩
      · rw [TcpEgress.exec, deliver_of_clients hclients]
        have hdeclared : (t.declare data).Gone client := h
        exact hdeclared.write (writes_writeToClients _ answers _) hinv.nodup rfl rfl
  | connect answers =>
      have hjoined : t.joined.Gone client := by
        refine ⟨fun hin => ?_, Nat.lt_succ_of_lt h.2⟩
        rcases List.mem_append.mp hin with hold | hlast
        · exact h.1 hold
        · exact absurd (List.mem_singleton.mp hlast) h.2.ne
      have hround (t' : TcpEgress) (front : Frame) (buffer : List Frame)
          (_ : t'.buffer = front :: buffer) (_ : t'.clients ≠ [])
          (h' : t'.clients.Nodup ∧ t'.Gone client ∧ t'.writes client = t.writes client) :
          (t'.flushRound answers front buffer).clients.Nodup ∧
            (t'.flushRound answers front buffer).Gone client ∧
              (t'.flushRound answers front buffer).writes client = t.writes client := by
        obtain ⟨hnodup, hgone, hsame⟩ := h'
        have hwrites : Writes t' (t'.flushRound answers front buffer) answers front :=
          writes_writeToClients t' answers front
        have hround := hgone.write hwrites hnodup rfl rfl
        exact ⟨hnodup.filter _, hround.1, hround.2.trans hsame⟩
      exact (flushLoop_induction hround (t := t.joined) rfl
        ⟨hinv.nodup_joined, hjoined, rfl⟩).2

theorem Gone.run (h : t.Gone client) (hinv : t.StreamsInv []) (hidle : t.Idle)
    (calls : List EgressCall) : (t.run calls).writes client = t.writes client := by
  induction calls generalizing t with
  | nil => rfl
  | cons call calls ih =>
      obtain ⟨hgone, hwrites⟩ := h.exec hinv call
      exact (ih hgone (hinv.exec hidle call) (idle_exec hidle call)).trans hwrites

/-! ## What a client receives -/

/-- The bytes of a frame that is cut short. -/
def cutBytes (cut : Option (Frame × Nat)) : List UInt8 :=
  cut.toList.flatMap fun write => write.1.bytes.take write.2

theorem Intact.stream_eq {whole : List Frame} {cut : Option (Frame × Nat)}
    (h : t.Intact client whole cut) :
    t.stream client = whole.flatMap Frame.bytes ++ cutBytes cut := by
  have hwhole : (whole.map Frame.full).flatMap (fun write => write.1.bytes.take write.2) =
      whole.flatMap Frame.bytes := by
    simp [List.flatMap_map, Frame.full]
  rw [stream, h.writes, List.flatMap_append, hwhole]
  rfl

/-- Every frame is that of its data. -/
def Framed (t : TcpEgress) : Prop :=
  ∀ frame ∈ t.delivered, frame.bytes = frameMessage frame.data

theorem framed_exec (h : t.Framed) (call : EgressCall) : (t.exec call).Framed := by
  have hdeclared (data : List UInt8) : (t.declare data).Framed := by
    intro frame hframe
    rcases mem_declare.mp hframe with hold | rfl
    · exact h frame hold
    · rfl
  cases call with
  | connect answers =>
      exact flushLoop_induction (t := t.joined) (motive := Framed) (fun _ _ _ _ _ h => h) rfl h
  | deliver data answers =>
      by_cases hclients : t.clients = []
      · rw [exec, deliver_of_noClients hclients]
        exact hdeclared data
      · rw [exec, deliver_of_clients hclients]
        exact hdeclared data

theorem framed_run (h : t.Framed) (calls : List EgressCall) : (t.run calls).Framed := by
  induction calls generalizing t with
  | nil => exact h
  | cons call calls ih => exact ih (framed_exec h call)

/-- What a receiver makes of the stream: exactly the blocks whose frames are
complete, with the cut frame still in its buffer. -/
theorem Intact.split_stream {whole : List Frame} {cut : Option (Frame × Nat)}
    (h : t.Intact client whole cut) (hframed : t.Framed)
    (hfits : ∀ frame ∈ t.delivered, FitsFrame frame.data) :
    framing.split (t.stream client) =
      { taken := whole.map Frame.data, left := .ok (cutBytes cut) } := by
  have hdelivered (frame : Frame) (hframe : frame ∈ whole) : frame ∈ t.delivered :=
    h.order.subset (List.mem_append_left _ hframe)
  have hencoded : whole.flatMap Frame.bytes = (whole.map Frame.data).flatMap frameMessage := by
    rw [List.flatMap_map]
    exact List.flatMap_congr fun frame hframe => hframed frame (hdelivered frame hframe)
  have hok : ∀ data ∈ whole.map Frame.data, FitsFrame data := by
    intro data hdata
    obtain ⟨frame, hframe, rfl⟩ := List.mem_map.mp hdata
    exact hfits frame (hdelivered frame hframe)
  rw [h.stream_eq, hencoded, framing_reads.split_enc_append hok]
  cases cut with
  | none => simp [cutBytes, Splitter.split_nil, Splitting.after]
  | some write =>
      have hmem : write.1 ∈ t.delivered := by
        refine h.order.subset (List.mem_append_right _ ?_)
        simp
      have hshort := (h.short write rfl).1
      have hwait := framing_reads.wait _ (hfits _ hmem) (cutBytes (some write))
        (by simp [cutBytes, ← hframed _ hmem, List.take_prefix])
        (by simp [cutBytes, ← hframed _ hmem, hshort])
      rw [Splitter.split_wait hwait]
      simp [Splitting.after]

/-- A client that is connected after `deliver` has the whole block. -/
theorem stream_deliver (hnodup : t.clients.Nodup)
    (hclient : client ∈ (t.deliver data answers).clients) :
    (t.deliver data answers).stream client = t.stream client ++ frameMessage data := by
  by_cases hclients : t.clients = []
  · rw [deliver_of_noClients hclients] at hclient
    have hnone : client ∈ t.clients := hclient
    rw [hclients] at hnone
    cases hnone
  · rw [deliver_of_clients hclients] at hclient ⊢
    obtain ⟨hold, htakes⟩ := mem_clients_writeToClients.mp hclient
    have hwrites := writes_of_writes
      (writes_writeToClients (t.declare data) answers (t.nextFrame data)) hnodup client
    rw [if_pos hold, takes_iff.mp htakes] at hwrites
    rw [stream, hwrites, List.flatMap_append]
    simp [nextFrame, stream, writes, declare]

/-- **Egress streams.** After any calls, a connection has whole frames in the
order of their deliver calls, none of them twice, and then at most one that is
cut short, after which nothing is written on it. A client that is connected
after a `deliver` has all of that block. -/
theorem streams_intact (maxBufferBytes : UInt64) (calls : List EgressCall) (client : Nat) :
    let t := (create maxBufferBytes).run calls
    (∃ whole cut, t.Intact client whole cut ∧
        t.stream client = whole.flatMap Frame.bytes ++ cutBytes cut ∧
        (cut ≠ none → ∀ later, (t.run later).stream client = t.stream client) ∧
        ((∀ frame ∈ t.delivered, FitsFrame frame.data) → framing.split (t.stream client) =
          { taken := whole.map Frame.data, left := .ok (cutBytes cut) })) ∧
      ∀ data answers, client ∈ (t.deliver data answers).clients →
        (t.deliver data answers).stream client = t.stream client ++ frameMessage data := by
  intro t
  have hidle₀ : (create maxBufferBytes).Idle := fun _ => rfl
  have hinv : t.StreamsInv [] := streamsInv_run (streamsInv_create maxBufferBytes) hidle₀ calls
  have hidle : t.Idle := idle_run hidle₀ calls
  have hframed : t.Framed := framed_run (t := create maxBufferBytes) nofun calls
  obtain ⟨whole, cut, hintact⟩ := (hinv.streams client).intact
  refine ⟨⟨whole, cut, hintact, hintact.stream_eq, fun hcut later => ?_,
    hintact.split_stream hframed⟩, fun data answers => stream_deliver hinv.nodup⟩
  obtain ⟨write, rfl⟩ := Option.ne_none_iff_exists'.mp hcut
  have hwritten : t.writes client ≠ [] := by
    rw [hintact.writes]
    simp
  have hgone : t.Gone client := by
    refine ⟨(hintact.short write rfl).2, ?_⟩
    by_contra hnot
    exact hwritten (hinv.fresh client (Nat.le_of_not_lt hnot))
  rw [stream, hgone.run hinv hidle later, stream]

end TcpEgress

end QpskB210.Ltp
