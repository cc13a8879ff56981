import Mathlib.Data.List.AList
import Mathlib.Tactic.IntervalCases
import QpskB210.Lib.Splitter
import QpskB210.Ltp.Basic

/-!
# LTP — Framing

Length-prefixed messages on a byte stream, and the two loops that read them:
`ConvergenceLayerAdapter::run_rx`, with one connection at a time, and
`TcpIngress::run`, with one buffer per client. What a loop hands over depends
on the bytes of each connection only, not on how they were cut into reads.
-/

namespace QpskB210.Ltp

open Lib

/-! ## Messages -/

/-- The length prefix, big-endian. -/
def lengthPrefix (len : UInt32) : List UInt8 :=
  [(len >>> 24 &&& 0xFF).toUInt8, (len >>> 16 &&& 0xFF).toUInt8,
    (len >>> 8 &&& 0xFF).toUInt8, (len &&& 0xFF).toUInt8]

/-- `frame_message`. The length is cast to 32 bits. -/
def frameMessage (data : List UInt8) : List UInt8 :=
  lengthPrefix (UInt32.ofNat data.length) ++ data

def readPrefix (b₀ b₁ b₂ b₃ : UInt8) : UInt32 :=
  b₀.toUInt32 <<< 24 ||| b₁.toUInt32 <<< 16 ||| b₂.toUInt32 <<< 8 ||| b₃.toUInt32

/-- `extract_framed_message`: the message and the buffer after it, or nothing
when the buffer holds no complete message. -/
def extractFramedMessage (buffer : List UInt8) : Except Exn (Option (List UInt8 × List UInt8)) :=
  match buffer with
  | b₀ :: b₁ :: b₂ :: b₃ :: _ =>
    let len := readPrefix b₀ b₁ b₂ b₃
    -- `4 + len` is a 32-bit sum; the iterators are not
    if buffer.length < (4 + len).toNat then .ok none
    else do
      let out ← assignRange buffer 4 (4 + len.toNat)
      return some (out, buffer.drop (4 + len.toNat))
  | _ => .ok none

/-- A length for which `4 + len` does not wrap. -/
def FitsFrame (data : List UInt8) : Prop := data.length < 2 ^ 32 - 4

instance (data : List UInt8) : Decidable (FitsFrame data) := Nat.decLt ..

theorem toUInt8_and_ff (n : UInt32) : (n &&& 0xFF).toUInt8 = n.toUInt8 := by
  apply UInt8.toBitVec_inj.mp
  apply BitVec.eq_of_getLsbD_eq
  intro i hi
  interval_cases i <;> simp

theorem readPrefix_lengthPrefix (len : UInt32) :
    readPrefix (len >>> 24 &&& 0xFF).toUInt8 (len >>> 16 &&& 0xFF).toUInt8
      (len >>> 8 &&& 0xFF).toUInt8 (len &&& 0xFF).toUInt8 = len := by
  rw [readPrefix, toUInt8_and_ff, toUInt8_and_ff, toUInt8_and_ff, toUInt8_and_ff]
  apply UInt32.toBitVec_inj.mp
  apply BitVec.eq_of_getLsbD_eq
  intro i hi
  interval_cases i <;> simp [-UInt32.toUInt32_toUInt8]

theorem lengthPrefix_readPrefix (b₀ b₁ b₂ b₃ : UInt8) :
    lengthPrefix (readPrefix b₀ b₁ b₂ b₃) = [b₀, b₁, b₂, b₃] := by
  have hbyte : ∀ {x y : UInt8}, (∀ i < 8, x.toBitVec.getLsbD i = y.toBitVec.getLsbD i) → x = y :=
    fun h => UInt8.toBitVec_inj.mp (BitVec.eq_of_getLsbD_eq h)
  rw [lengthPrefix, toUInt8_and_ff, toUInt8_and_ff, toUInt8_and_ff, toUInt8_and_ff, readPrefix]
  congr 1
  · apply hbyte
    intro i hi
    interval_cases i <;> simp
  congr 1
  · apply hbyte
    intro i hi
    interval_cases i <;> simp
  congr 1
  · apply hbyte
    intro i hi
    interval_cases i <;> simp
  congr 1
  apply hbyte
  intro i hi
  interval_cases i <;> simp

@[simp] theorem length_frameMessage (data : List UInt8) :
    (frameMessage data).length = 4 + data.length := by
  rw [frameMessage, List.length_append]
  rfl

theorem FitsFrame.toNat_length {data : List UInt8} (h : FitsFrame data) :
    (UInt32.ofNat data.length).toNat = data.length := by
  rw [FitsFrame] at h
  rw [UInt32.toNat_ofNat']
  omega

theorem FitsFrame.toNat_length_add {data : List UInt8} (h : FitsFrame data) :
    (4 + UInt32.ofNat data.length).toNat = 4 + data.length := by
  rw [UInt32.toNat_add, h.toNat_length]
  rw [FitsFrame] at h
  show (4 + data.length) % 2 ^ 32 = 4 + data.length
  omega

/-- One message comes off the front, whatever follows it. -/
theorem extractFramedMessage_frameMessage {data : List UInt8} (h : FitsFrame data)
    (more : List UInt8) :
    extractFramedMessage (frameMessage data ++ more) = .ok (some (data, more)) := by
  have hlength := length_frameMessage data
  have hlong : ¬ (frameMessage data ++ more).length < 4 + data.length := by
    rw [List.length_append]
    omega
  rw [frameMessage, lengthPrefix] at hlong ⊢
  simp only [List.cons_append, List.nil_append] at hlong ⊢
  rw [extractFramedMessage, readPrefix_lengthPrefix, h.toNat_length_add, if_neg hlong,
    h.toNat_length]
  apply bind_eq_ok.mpr
  refine ⟨data, assignRange_eq_ok.mpr ⟨by omega, by omega, ?_⟩, ?_⟩
  · rw [Nat.add_sub_cancel_left]
    exact List.take_left.symm
  · rw [Nat.add_comm]
    exact congrArg (fun rest => Except.ok (some (data, rest))) List.drop_left

/-- A message that has not arrived in full stays where it is. -/
theorem extractFramedMessage_short {data buffer : List UInt8} (h : FitsFrame data)
    (hpre : buffer <+: frameMessage data) (hshort : buffer.length < (frameMessage data).length) :
    extractFramedMessage buffer = .ok none := by
  match buffer, hpre with
  | [], _ => rfl
  | [_], _ => rfl
  | [_, _], _ => rfl
  | [_, _, _], _ => rfl
  | b₀ :: b₁ :: b₂ :: b₃ :: tail, hpre =>
    rw [length_frameMessage] at hshort
    simp only [frameMessage, lengthPrefix, List.cons_append, List.cons_prefix_cons] at hpre
    obtain ⟨rfl, rfl, rfl, rfl, -⟩ := hpre
    rw [extractFramedMessage, readPrefix_lengthPrefix, h.toNat_length_add]
    exact if_pos hshort

/-- The comparison with the wrapping sum lets everything through that is
complete, so what decides is the length itself. -/
theorem extractFramedMessage_cons {b₀ b₁ b₂ b₃ : UInt8} {tail data rest : List UInt8} :
    extractFramedMessage (b₀ :: b₁ :: b₂ :: b₃ :: tail) = .ok (some (data, rest)) ↔
      (readPrefix b₀ b₁ b₂ b₃).toNat ≤ tail.length ∧
        data = tail.take (readPrefix b₀ b₁ b₂ b₃).toNat ∧
        rest = tail.drop (readPrefix b₀ b₁ b₂ b₃).toNat := by
  rw [extractFramedMessage]
  generalize readPrefix b₀ b₁ b₂ b₃ = len
  have hsum : (4 + len).toNat ≤ 4 + len.toNat := by
    rw [UInt32.toNat_add]
    exact Nat.mod_le _ _
  have hdrop : (b₀ :: b₁ :: b₂ :: b₃ :: tail).drop (4 + len.toNat) = tail.drop len.toNat := by
    rw [Nat.add_comm]
    rfl
  simp only [List.length_cons, hdrop]
  constructor
  · intro h
    split at h
    · cases h
    · obtain ⟨out, hout, hsome⟩ := bind_eq_ok.mp h
      obtain ⟨-, hlong, rfl⟩ := assignRange_eq_ok.mp hout
      obtain ⟨rfl, rfl⟩ := Prod.mk.inj (Option.some.inj (Except.ok.inj hsome))
      simp only [List.length_cons] at hlong
      rw [Nat.add_sub_cancel_left]
      exact ⟨by omega, rfl, rfl⟩
  · intro h
    obtain ⟨hlong, rfl, rfl⟩ := h
    rw [if_neg (by omega)]
    apply bind_eq_ok.mpr
    refine ⟨_, assignRange_eq_ok.mpr ⟨by omega, ?_, ?_⟩, rfl⟩
    · simp only [List.length_cons]
      omega
    · rw [Nat.add_sub_cancel_left]
      rfl

/-- Nothing comes off the front of less than a length prefix. -/
theorem exists_cons_of_extractFramedMessage {buffer data rest : List UInt8}
    (h : extractFramedMessage buffer = .ok (some (data, rest))) :
    ∃ b₀ b₁ b₂ b₃ tail, buffer = b₀ :: b₁ :: b₂ :: b₃ :: tail := by
  match buffer with
  | [] => cases h
  | [_] => cases h
  | [_, _] => cases h
  | [_, _, _] => cases h
  | b₀ :: b₁ :: b₂ :: b₃ :: tail => exact ⟨b₀, b₁, b₂, b₃, tail, rfl⟩

/-- Whatever comes off the front was framed there. -/
theorem extractFramedMessage_exact {buffer data rest : List UInt8}
    (h : extractFramedMessage buffer = .ok (some (data, rest))) :
    buffer = frameMessage data ++ rest := by
  obtain ⟨b₀, b₁, b₂, b₃, tail, rfl⟩ := exists_cons_of_extractFramedMessage h
  obtain ⟨hlong, rfl, rfl⟩ := extractFramedMessage_cons.mp h
  rw [frameMessage, List.length_take_of_le hlong, UInt32.ofNat_toNat, lengthPrefix_readPrefix,
    List.append_assoc, List.take_append_drop]
  rfl

/-- A complete message comes off whatever arrives after it. -/
theorem extractFramedMessage_append {buffer data rest : List UInt8}
    (h : extractFramedMessage buffer = .ok (some (data, rest))) (more : List UInt8) :
    extractFramedMessage (buffer ++ more) = .ok (some (data, rest ++ more)) := by
  obtain ⟨b₀, b₁, b₂, b₃, tail, rfl⟩ := exists_cons_of_extractFramedMessage h
  obtain ⟨hlong, rfl, rfl⟩ := extractFramedMessage_cons.mp h
  apply extractFramedMessage_cons.mpr
  refine ⟨?_, (List.take_append_of_le_length hlong).symm,
    (List.drop_append_of_le_length hlong).symm⟩
  exact Nat.le_trans hlong (List.length_append ▸ Nat.le_add_right _ _)

/-! ## The receive loop -/

/-- One turn of the extraction loop. -/
def pullMessage (buffer : List UInt8) : Pull UInt8 (List UInt8) Exn :=
  match extractFramedMessage buffer with
  | .ok none => .wait
  | .ok (some (msg, rest)) => .took msg rest
  | .error e => .trap e

theorem pullMessage_eq_took {buffer msg rest : List UInt8} :
    pullMessage buffer = .took msg rest ↔
      extractFramedMessage buffer = .ok (some (msg, rest)) := by
  rw [pullMessage]
  split <;> simp_all

theorem pullMessage_eq_wait {buffer : List UInt8} :
    pullMessage buffer = .wait ↔ extractFramedMessage buffer = .ok none := by
  rw [pullMessage]
  split <;> simp_all

def framing : Splitter UInt8 (List UInt8) Exn where
  next := pullMessage
  nil := rfl
  shrinks := by
    intro buffer msg rest h
    rw [extractFramedMessage_exact (pullMessage_eq_took.mp h), List.length_append,
      length_frameMessage]
    omega
  took_append := by
    intro buffer msg rest more h
    exact pullMessage_eq_took.mpr (extractFramedMessage_append (pullMessage_eq_took.mp h) more)

theorem framing_reads : framing.Reads frameMessage FitsFrame where
  took _ h more := pullMessage_eq_took.mpr (extractFramedMessage_frameMessage h more)
  wait _ h _ hpre hshort :=
    pullMessage_eq_wait.mpr (extractFramedMessage_short h hpre hshort)
  only h := extractFramedMessage_exact (pullMessage_eq_took.mp h)

/-- What the loop has: the messages handed to the callback, and its buffer
unless it read outside it. -/
abbrev RxState : Type := Splitting UInt8 (List UInt8) Exn

/-- What `poll` and `read` bring: bytes, none of them at the end of the
stream, or an error. -/
inductive RxEvent where
  | read (chunk : List UInt8)
  | lost
deriving DecidableEq, Repr

/-- `buffer.clear()`. -/
def clearBuffer (s : RxState) : RxState :=
  match s.left with
  | .error _ => s
  | .ok _ => { s with left := .ok [] }

/-- One turn of `run_rx`. It reconnects at once when the connection is lost. -/
def runRx (s : RxState) : RxEvent → RxState
  | .lost => clearBuffer s
  | .read chunk => if chunk.isEmpty then clearBuffer s else framing.feed s chunk

theorem runRx_error {s : RxState} {e : Exn} (h : s.left = .error e) (event : RxEvent) :
    runRx s event = s := by
  have hclear : clearBuffer s = s := by rw [clearBuffer, h]
  cases event with
  | lost => exact hclear
  | read chunk =>
      rw [runRx]
      split
      · exact hclear
      · exact Splitter.feed_error h chunk

/-! ## TcpIngress -/

/-- `buffers` is the map of the run loop, unless an extraction read outside
its buffer. The callback is not told the client; the messages are kept with
it here so that they can be told apart. -/
structure TcpIngress where
  buffers : Except Exn (AList fun _ : Int => List UInt8) := .ok ∅
  handed : List (Int × List UInt8) := []

inductive IngressEvent where
  | accept (fd : Int)
  | read (fd : Int) (chunk : List UInt8)
  | closed (fd : Int)
deriving DecidableEq, Repr

namespace IngressEvent

def fd : IngressEvent → Int
  | .accept fd => fd
  | .read fd _ => fd
  | .closed fd => fd

/-- The event as the client's own buffer sees it. -/
def toRx : IngressEvent → RxEvent
  | .read _ chunk => .read chunk
  | _ => .lost

end IngressEvent

namespace TcpIngress

/-- One socket event of `TcpIngress::run`. -/
def run (s : TcpIngress) (event : IngressEvent) : TcpIngress :=
  match s.buffers with
  | .error _ => s
  | .ok buffers =>
    match event with
    | .accept fd => { s with buffers := .ok (buffers.insert fd []) }
    | .closed fd => { s with buffers := .ok (buffers.erase fd) }
    | .read fd chunk =>
      if chunk.isEmpty then { s with buffers := .ok (buffers.erase fd) }
      else
        -- `buffers[fd]` makes an empty buffer when there is none
        let later := framing.split ((buffers.lookup fd).getD [] ++ chunk)
        { buffers := later.left.map fun rest => buffers.insert fd rest
          handed := s.handed ++ later.taken.map fun msg => (fd, msg) }

/-- What one client's buffer has handed over and holds. -/
def client (s : TcpIngress) (fd : Int) : RxState :=
  { taken := (s.handed.filter fun m => m.1 = fd).map Prod.snd
    left := s.buffers.map fun buffers => (buffers.lookup fd).getD [] }

theorem client_eq {s : TcpIngress} {buffers : AList fun _ : Int => List UInt8}
    (h : s.buffers = .ok buffers) (fd : Int) :
    s.client fd =
      { taken := (s.handed.filter fun m => m.1 = fd).map Prod.snd
        left := .ok ((buffers.lookup fd).getD []) } := by
  rw [client, h]
  rfl

variable {s : TcpIngress} {buffers : AList fun _ : Int => List UInt8} {fd fd' : Int}

theorem run_error {e : Exn} (h : s.buffers = .error e) (event : IngressEvent) :
    s.run event = s := by
  rw [run, h]

theorem run_read (h : s.buffers = .ok buffers) {chunk : List UInt8} (hchunk : chunk ≠ []) :
    s.run (.read fd chunk) =
      let later := framing.split ((buffers.lookup fd).getD [] ++ chunk)
      { buffers := later.left.map fun rest => buffers.insert fd rest
        handed := s.handed ++ later.taken.map fun msg => (fd, msg) } := by
  rw [run, h]
  exact if_neg (by simpa using hchunk)

/-- A new or a lost client has an empty buffer; the others are as they were. -/
theorem client_cleared (h : s.buffers = .ok buffers)
    {buffers' : AList fun _ : Int => List UInt8} (hself : buffers'.lookup fd' = none ∨
      buffers'.lookup fd' = some [])
    (hother : ∀ fd, fd ≠ fd' → buffers'.lookup fd = buffers.lookup fd) :
    TcpIngress.client { s with buffers := .ok buffers' } fd =
      if fd' = fd then clearBuffer (s.client fd) else s.client fd := by
  rw [client_eq h, client_eq rfl]
  by_cases heq : fd' = fd
  · subst heq
    rw [if_pos rfl]
    rcases hself with hself | hself <;> rw [hself] <;> rfl
  · rw [if_neg heq, hother fd (Ne.symm heq)]

theorem filter_handed (fd' fd : Int) (msgs : List (List UInt8)) :
    ((msgs.map fun msg => (fd', msg)).filter fun m => m.1 = fd).map Prod.snd =
      if fd' = fd then msgs else [] := by
  by_cases heq : fd' = fd
  · rw [if_pos heq, List.filter_eq_self.mpr fun m hm => ?_, List.map_map]
    · exact List.map_id msgs
    · obtain ⟨msg, -, rfl⟩ := List.mem_map.mp hm
      exact decide_eq_true heq
  · rw [if_neg heq, List.filter_eq_nil_iff.mpr fun m hm => ?_, List.map_nil]
    obtain ⟨msg, -, rfl⟩ := List.mem_map.mp hm
    simpa using heq

theorem client_read (h : s.buffers = .ok buffers) {chunk : List UInt8} (hchunk : chunk ≠ [])
    (hok : (s.run (.read fd' chunk)).buffers.isOk = true) :
    (s.run (.read fd' chunk)).client fd =
      if fd' = fd then framing.feed (s.client fd) chunk else s.client fd := by
  rw [run_read h hchunk] at hok ⊢
  generalize hlater : framing.split ((buffers.lookup fd').getD [] ++ chunk) = later at hok ⊢
  obtain ⟨taken, left⟩ := later
  cases left with
  | error e => cases hok
  | ok rest =>
      have hbuffers : (Except.ok rest : Except Exn (List UInt8)).map
          (fun rest => buffers.insert fd' rest) = .ok (buffers.insert fd' rest) := rfl
      rw [client_eq hbuffers, client_eq h]
      dsimp only
      rw [List.filter_append, List.map_append, filter_handed]
      by_cases heq : fd' = fd
      · subst heq
        rw [if_pos rfl, if_pos rfl, Splitter.feed_ok rfl, hlater, AList.lookup_insert]
        rfl
      · rw [if_neg heq, if_neg heq, List.append_nil, AList.lookup_insert_ne (Ne.symm heq)]

/-- **Projection.** An event is one turn of its client's own loop, and leaves
the other clients as they were. -/
theorem client_run {event : IngressEvent} (hok : (s.run event).buffers.isOk = true) :
    (s.run event).client fd =
      if event.fd = fd then runRx (s.client fd) event.toRx else s.client fd := by
  cases hbuffers : s.buffers with
  | error e =>
      rw [run_error hbuffers, hbuffers] at hok
      cases hok
  | ok buffers =>
      have herased : ∀ fd' : Int, TcpIngress.client { s with buffers := .ok (buffers.erase fd') } fd =
          if fd' = fd then clearBuffer (s.client fd) else s.client fd := fun fd' =>
        client_cleared hbuffers (.inl (AList.lookup_erase fd' buffers)) fun _ hne =>
          AList.lookup_erase_ne hne
      cases event with
      | accept fd' =>
          rw [run, hbuffers]
          exact client_cleared hbuffers (.inr (AList.lookup_insert buffers)) fun _ hne =>
            AList.lookup_insert_ne hne
      | closed fd' =>
          rw [run, hbuffers]
          exact herased fd'
      | read fd' chunk =>
          cases chunk with
          | nil =>
              rw [run, hbuffers]
              exact herased fd'
          | cons byte chunk => exact client_read hbuffers (List.cons_ne_nil _ _) hok

/-- No client reads outside its buffer as long as its own loop does not. -/
theorem isOk_run (h : s.buffers = .ok buffers) {event : IngressEvent}
    (hown : (runRx (s.client event.fd) event.toRx).left.isOk = true) :
    (s.run event).buffers.isOk = true := by
  cases event with
  | accept fd => rw [run, h]; rfl
  | closed fd => rw [run, h]; rfl
  | read fd chunk =>
      by_cases hchunk : chunk = []
      · rw [run, h, hchunk]
        rfl
      · have hfeed : runRx (s.client fd) (.read chunk) = framing.feed (s.client fd) chunk :=
          if_neg (by simpa using hchunk)
        have hown : (runRx (s.client fd) (.read chunk)).left.isOk = true := hown
        rw [hfeed, client_eq h, Splitter.feed_ok rfl] at hown
        obtain ⟨rest, hrest⟩ := exists_eq_ok hown
        have hrest : (framing.split ((buffers.lookup fd).getD [] ++ chunk)).left = .ok rest := hrest
        rw [run_read h hchunk]
        dsimp only
        rw [hrest]
        rfl

/-- What one client's own loop makes of the events so far. -/
def clientRx (events : List IngressEvent) (fd : Int) : RxState :=
  ((events.filter fun event => event.fd = fd).map IngressEvent.toRx).foldl runRx { }

theorem clientRx_concat (events : List IngressEvent) (event : IngressEvent) (fd : Int) :
    clientRx (events ++ [event]) fd =
      if event.fd = fd then runRx (clientRx events fd) event.toRx else clientRx events fd := by
  rw [clientRx, List.filter_append, List.map_append, List.foldl_append]
  by_cases heq : event.fd = fd
  · rw [if_pos heq, List.filter_singleton, decide_eq_true heq]
    rfl
  · rw [if_neg heq, List.filter_singleton, decide_eq_false heq]
    rfl

/-- **Isolation.** Over a whole run, each client sees its own loop only. -/
theorem client_foldl (events : List IngressEvent)
    (hown : ∀ fd, (clientRx events fd).left.isOk = true) :
    (events.foldl run { }).buffers.isOk = true ∧
      ∀ fd, (events.foldl run { }).client fd = clientRx events fd := by
  induction events using List.reverseRecOn with
  | nil => exact ⟨rfl, fun fd => rfl⟩
  | append_singleton events event ih =>
      have hbefore : ∀ fd, (clientRx events fd).left.isOk = true := by
        intro fd
        have hfd := hown fd
        rw [clientRx_concat] at hfd
        split at hfd
        · cases hleft : (clientRx events fd).left with
          | error e => rwa [runRx_error hleft, hleft] at hfd
          | ok buffer => rfl
        · exact hfd
      obtain ⟨hok, hclient⟩ := ih hbefore
      obtain ⟨buffers, hbuffers⟩ := exists_eq_ok hok
      rw [List.foldl_append, List.foldl_cons, List.foldl_nil]
      have hrun : ((events.foldl run { }).run event).buffers.isOk = true := by
        apply isOk_run hbuffers
        have hevent := hown event.fd
        rwa [clientRx_concat, if_pos rfl, ← hclient] at hevent
      refine ⟨hrun, fun fd => ?_⟩
      rw [client_run hrun, clientRx_concat, hclient]

end TcpIngress

/-! ## Connections -/

/-- A connection over which messages were sent, and the reads that its
receiver has made: together they returned some prefix of the stream. -/
structure Connection where
  messages : List (List UInt8)
  chunks : List (List UInt8)
  fits : ∀ msg ∈ messages, FitsFrame msg
  nonempty : ∀ chunk ∈ chunks, chunk ≠ []
  cut : chunks.flatten <+: messages.flatMap frameMessage

namespace Connection

/-- The messages whose frames lie wholly inside what was read. -/
def handed (c : Connection) : List (List UInt8) :=
  Splitter.whole frameMessage c.messages c.chunks.flatten.length

/-- The bytes read after the last of these frames. -/
def remaining (c : Connection) : List UInt8 :=
  c.chunks.flatten.drop (c.handed.flatMap frameMessage).length

def reads (c : Connection) : List RxEvent := c.chunks.map .read

theorem foldl_runRx_read (s : RxState) {chunks : List (List UInt8)}
    (hchunks : ∀ chunk ∈ chunks, chunk ≠ []) :
    (chunks.map RxEvent.read).foldl runRx s = chunks.foldl framing.feed s := by
  induction chunks generalizing s with
  | nil => rfl
  | cons chunk chunks ih =>
      obtain ⟨hchunk, hchunks⟩ := List.forall_mem_cons.mp hchunks
      have hread : runRx s (.read chunk) = framing.feed s chunk := by
        rw [runRx, if_neg (by simpa using hchunk)]
      rw [List.map_cons, List.foldl_cons, List.foldl_cons, hread, ih _ hchunks]

/-- The reads of one connection, from an empty buffer. -/
theorem runRx_reads (taken : List (List UInt8)) (c : Connection) :
    c.reads.foldl runRx { taken := taken } =
      { taken := taken ++ c.handed, left := .ok c.remaining } := by
  have hstart : (⟨taken, .ok []⟩ : RxState) = (framing.split []).after taken := by
    rw [Splitter.split_nil, Splitting.after, List.append_nil]
  have hchunks := framing_reads.feed_chunks (x := []) c.fits c.cut
  rw [List.nil_append, framing_reads.split_prefix c.fits c.cut] at hchunks
  rw [reads, foldl_runRx_read _ c.nonempty, hstart, Splitter.feeds_after, hchunks]
  rfl

/-- When the whole stream has been read, nothing is missing and nothing left. -/
theorem handed_of_whole {c : Connection}
    (h : c.chunks.flatten = c.messages.flatMap frameMessage) :
    c.handed = c.messages ∧ c.remaining = [] := by
  have hsplit := framing_reads.split_prefix c.fits c.cut
  rw [h, framing_reads.split_enc c.fits, ← h] at hsplit
  obtain ⟨htaken, hleft⟩ := Splitting.mk.inj hsplit
  exact ⟨htaken.symm, (Except.ok.inj hleft).symm⟩

/-- Connections that were lost, one after the other. -/
def lostEvents (past : List Connection) : List RxEvent :=
  past.flatMap fun c => c.reads ++ [.lost]

theorem runRx_lostEvents (taken : List (List UInt8)) (past : List Connection) :
    (lostEvents past).foldl runRx { taken := taken } =
      { taken := taken ++ past.flatMap handed } := by
  induction past generalizing taken with
  | nil => rw [lostEvents, List.flatMap_nil, List.flatMap_nil, List.append_nil, List.foldl_nil]
  | cons c past ih =>
      have hlost : runRx { taken := taken ++ c.handed, left := .ok c.remaining } .lost =
          { taken := taken ++ c.handed } := rfl
      rw [lostEvents, List.flatMap_cons, List.foldl_append, List.foldl_append, runRx_reads,
        List.foldl_cons, List.foldl_nil, hlost, ← lostEvents, ih, List.flatMap_cons,
        List.append_assoc]

end Connection

/-! ## Clients -/

/-- The connections one file descriptor has stood for. -/
structure Client where
  past : List Connection
  current : Option Connection

namespace Client

/-- What the socket brings of one connection. -/
def opened (fd : Int) (c : Connection) : List IngressEvent :=
  .accept fd :: c.chunks.map (IngressEvent.read fd)

/-- What the socket of the descriptor has brought. -/
def events (fd : Int) (client : Client) : List IngressEvent :=
  client.past.flatMap (fun c => opened fd c ++ [.closed fd]) ++
    (client.current.map (opened fd)).getD []

def handed (client : Client) : List (List UInt8) :=
  client.past.flatMap Connection.handed ++ (client.current.map Connection.handed).getD []

def remaining (client : Client) : List UInt8 :=
  (client.current.map Connection.remaining).getD []

/-- A new connection starts on an empty buffer, as one that was lost leaves
it. -/
theorem runRx_opened (fd : Int) (taken : List (List UInt8)) (c : Connection) :
    ((opened fd c).map IngressEvent.toRx).foldl runRx { taken := taken } =
      { taken := taken ++ c.handed, left := .ok c.remaining } := by
  have haccept : runRx { taken := taken } .lost = { taken := taken } := rfl
  have hreads : (c.chunks.map (IngressEvent.read fd)).map IngressEvent.toRx = c.reads := by
    rw [List.map_map]
    rfl
  rw [opened, List.map_cons, List.foldl_cons, hreads]
  exact Connection.runRx_reads taken c

theorem runRx_past (fd : Int) (taken : List (List UInt8)) (past : List Connection) :
    ((past.flatMap fun c => opened fd c ++ [.closed fd]).map IngressEvent.toRx).foldl runRx
        { taken := taken } =
      { taken := taken ++ past.flatMap Connection.handed } := by
  induction past generalizing taken with
  | nil => rw [List.flatMap_nil, List.flatMap_nil, List.append_nil, List.map_nil, List.foldl_nil]
  | cons c past ih =>
      have hclosed : ([IngressEvent.closed fd].map IngressEvent.toRx).foldl runRx
          { taken := taken ++ c.handed, left := .ok c.remaining } =
            { taken := taken ++ c.handed } := rfl
      rw [List.flatMap_cons, List.map_append, List.map_append, List.foldl_append,
        List.foldl_append, runRx_opened, hclosed, ih, List.flatMap_cons, List.append_assoc]

theorem runRx_events (fd : Int) (client : Client) :
    ((client.events fd).map IngressEvent.toRx).foldl runRx { } =
      { taken := client.handed, left := .ok client.remaining } := by
  have hpast := runRx_past fd [] client.past
  rw [List.nil_append] at hpast
  rw [events, List.map_append, List.foldl_append, hpast, handed, remaining]
  cases client.current with
  | none =>
      simp only [Option.map_none, Option.getD_none, List.append_nil]
      rfl
  | some c => exact runRx_opened fd _ c

end Client

/-- Socket events in any order between the clients, each client's own being
those of its connections. -/
structure Traffic where
  events : List IngressEvent
  clients : Int → Client
  own : ∀ fd, events.filter (fun event => event.fd = fd) = (clients fd).events fd

/-- **Chunking.** However the frames of some messages are cut into reads,
`run_rx` hands over exactly the messages whose frames it has read in full, in
order, and keeps exactly the bytes after them; connections lost before leave
nothing behind. The same holds of each client of `TcpIngress`, whatever the
other clients send meanwhile. -/
theorem framing_independent_of_chunking :
    (∀ (past : List Connection) (c : Connection),
      (Connection.lostEvents past ++ c.reads).foldl runRx { } =
        { taken := past.flatMap Connection.handed ++ c.handed, left := .ok c.remaining }) ∧
      (∀ c : Connection, c.chunks.flatten = c.messages.flatMap frameMessage →
        c.handed = c.messages ∧ c.remaining = []) ∧
      ∀ (t : Traffic) (fd : Int),
        (t.events.foldl TcpIngress.run { }).client fd =
          { taken := (t.clients fd).handed, left := .ok (t.clients fd).remaining } := by
  refine ⟨fun past c => ?_, fun c => Connection.handed_of_whole, fun t fd => ?_⟩
  · rw [List.foldl_append, Connection.runRx_lostEvents, Connection.runRx_reads, List.nil_append]
  · have hclient : ∀ fd, TcpIngress.clientRx t.events fd =
        { taken := (t.clients fd).handed, left := .ok (t.clients fd).remaining } := by
      intro fd
      rw [TcpIngress.clientRx, t.own, Client.runRx_events]
    rw [(TcpIngress.client_foldl t.events fun fd => by rw [hclient]; rfl).2, hclient]

/-- Two messages, the first of them empty, cut inside both length prefixes. -/
def cutInPrefix : Connection where
  messages := [[], [1, 2]]
  chunks := [[0, 0], [0, 0, 0, 0], [0, 2, 1]]
  fits := by decide
  nonempty := by decide
  cut := by decide

/-- The same messages, read to the end. -/
def cutWhole : Connection where
  messages := [[], [1, 2]]
  chunks := [[0, 0, 0], [0, 0, 0], [0, 2], [1, 2]]
  fits := by decide
  nonempty := by decide
  cut := by decide

theorem framing_independent_of_chunking_cutWhole :
    (Connection.lostEvents [cutInPrefix] ++ cutWhole.reads).foldl runRx { } =
        { taken := [[], [], [1, 2]] } ∧
      cutWhole.handed = [[], [1, 2]] ∧ cutWhole.remaining = [] :=
  ⟨framing_independent_of_chunking.1 [cutInPrefix] cutWhole,
    framing_independent_of_chunking.2.1 cutWhole (by decide)⟩

end QpskB210.Ltp
