import QpskB210.Ltp.Framing
import QpskB210.Modem.TcpInputServer

/-!
# LTP — RadioLink

One direction of the radio link between two convergence layer adapters. The
sending adapter writes framed segments as one byte stream; the modem cuts it
into payloads with no regard to the frames, and each payload gets through
whole or not at all; the receiving adapter looks for frames in what is left.
A frame is found there exactly when the bytes in front of it are frames too,
so a segment that lost bytes takes those behind it with it.
-/

namespace QpskB210.Ltp

open Lib Modem

/-! ## Loss -/

/-- The bytes with `true` in `fates`; what is beyond the list is lost. -/
def keep (bytes : List UInt8) (fates : List Bool) : List UInt8 :=
  ((bytes.zip fates).filter Prod.snd).map Prod.fst

theorem keep_append (x y : List UInt8) (fates : List Bool) :
    keep (x ++ y) fates = keep x fates ++ keep y (fates.drop x.length) := by
  induction x generalizing fates with
  | nil => rfl
  | cons b x ih =>
      cases fates with
      | nil => simp [keep]
      | cons fate fates =>
          have := ih fates
          cases fate with
          | false => simpa [keep] using this
          | true => simpa [keep] using this

theorem keep_all {x : List UInt8} {fates : List Bool}
    (h : ∀ j < x.length, fates[j]? = some true) : keep x fates = x := by
  induction x generalizing fates with
  | nil => rfl
  | cons b x ih =>
      cases fates with
      | nil => cases h 0 (Nat.zero_lt_succ _)
      | cons fate fates =>
          obtain rfl : fate = true := Option.some.inj (h 0 (Nat.zero_lt_succ _))
          have hrest : keep x fates = x := ih fun j hj => h (j + 1) (Nat.succ_lt_succ hj)
          simpa [keep] using hrest

/-- A payload gets through whole, or not at all. -/
def payloadFates (payloads : List (List UInt8 × Bool)) : List Bool :=
  payloads.flatMap fun p => List.replicate p.1.length p.2

/-- What gets through of a list of payloads. -/
def delivered (payloads : List (List UInt8 × Bool)) : List UInt8 :=
  (payloads.filter Prod.snd).flatMap Prod.fst

theorem keep_replicate (bytes : List UInt8) (fate : Bool) (more : List Bool) :
    keep bytes (List.replicate bytes.length fate ++ more) = if fate then bytes else [] := by
  induction bytes with
  | nil => cases fate <;> rfl
  | cons b bytes ih =>
      cases fate with
      | false => simpa [keep, List.replicate_succ] using ih
      | true => simpa [keep, List.replicate_succ] using ih

theorem keep_payloadFates (payloads : List (List UInt8 × Bool)) (more : List UInt8) :
    keep (payloads.flatMap Prod.fst ++ more) (payloadFates payloads) = delivered payloads := by
  induction payloads with
  | nil => cases more <;> rfl
  | cons p payloads ih =>
      obtain ⟨bytes, fate⟩ := p
      have hfates : payloadFates ((bytes, fate) :: payloads) =
          List.replicate bytes.length fate ++ payloadFates payloads := rfl
      have hdrop : (List.replicate bytes.length fate ++ payloadFates payloads).drop bytes.length =
          payloadFates payloads := List.drop_left' List.length_replicate
      rw [List.flatMap_cons, List.append_assoc, hfates, keep_append, keep_replicate, hdrop, ih]
      cases fate <;> rfl

/-! ## The link -/

/-- One direction of the link, up to some moment. The receiver has read all
that got through. -/
structure RadioLink where
  segments : List (List UInt8)
  /-- the operations of the sending modem's input thread, and its frame size -/
  ops : List TcpInputServer.InputOp
  frameSize : Nat
  /-- the payloads whose frame was decoded; later ones are still on their way -/
  decoded : List Bool
  reads : List (List UInt8)
  received : ops.flatMap TcpInputServer.InputOp.received <+: segments.flatMap frameMessage
  read : reads.flatten =
    delivered ((TcpInputServer.payloads { frameSize := frameSize } ops).zip decoded)
  nonempty : ∀ chunk ∈ reads, chunk ≠ []
  /-- the size of `read_buf` -/
  small : ∀ chunk ∈ reads, chunk.length ≤ 4096

namespace RadioLink

variable (link : RadioLink)

def payloads : List (List UInt8 × Bool) :=
  (TcpInputServer.payloads { frameSize := link.frameSize } link.ops).zip link.decoded

/-- Which bytes of the stream got through. -/
def fates : List Bool := payloadFates link.payloads

def stream : List UInt8 := link.segments.flatMap frameMessage

/-- Where the frame of segment `i` begins in the stream. -/
def start (i : Nat) : Nat := ((link.segments.take i).flatMap frameMessage).length

/-- All framed bytes of segment `i` lie in payloads that got through. -/
def Whole (i : Nat) : Prop :=
  ∀ j, link.start i ≤ j → j < link.start (i + 1) → link.fates[j]? = some true

/-- What got through of the segments in front of segment `i`. -/
def kept (i : Nat) : List UInt8 := keep ((link.segments.take i).flatMap frameMessage) link.fates

/-- What the receiving adapter has handed to its engine. -/
def handed : List (List UInt8) := ((link.reads.map RxEvent.read).foldl runRx { }).taken

/-- The segment is handed over where it was sent: the messages in front of it
took up exactly the bytes in front of it. -/
def HandedAt (i : Nat) (segment : List UInt8) : Prop :=
  ∃ before after, link.handed = before ++ segment :: after ∧
    (before.flatMap frameMessage).length = (link.kept i).length

/-- **Loss stays local.** Every segment that got through whole is handed over. -/
def LossStaysLocal : Prop :=
  ∀ i segment, link.segments[i]? = some segment → link.Whole i → link.HandedAt i segment

/-- What got through of segments `first` to `i - 1`. -/
def keptBetween (first i : Nat) : List UInt8 :=
  keep (((link.segments.take i).drop first).flatMap frameMessage)
    (link.fates.drop (link.start first))

end RadioLink

/-! ## Messages that fit -/

/-- A buffer waits because it holds less than a length prefix, or less than
the prefix asks for. -/
theorem of_extractFramedMessage_none {buffer : List UInt8}
    (h : extractFramedMessage buffer = .ok none) :
    buffer.length < 4 ∨ ∃ b₀ b₁ b₂ b₃ tail, buffer = b₀ :: b₁ :: b₂ :: b₃ :: tail ∧
      tail.length + 4 < (4 + readPrefix b₀ b₁ b₂ b₃).toNat := by
  match buffer with
  | [] => exact .inl (by simp)
  | [_] => exact .inl (by simp)
  | [_, _] => exact .inl (by simp)
  | [_, _, _] => exact .inl (by simp)
  | b₀ :: b₁ :: b₂ :: b₃ :: tail =>
    refine .inr ⟨b₀, b₁, b₂, b₃, tail, rfl, ?_⟩
    rw [extractFramedMessage] at h
    split at h
    · next hshort => exact hshort
    · obtain ⟨out, -, hsome⟩ := bind_eq_ok.mp h
      cases hsome

/-- A message taken from less than `2 ^ 32` bytes fits. -/
theorem fits_of_short {buffer msg rest : List UInt8} (hshort : buffer.length < 2 ^ 32)
    (h : extractFramedMessage buffer = .ok (some (msg, rest))) : FitsFrame msg := by
  have hlength := congrArg List.length (extractFramedMessage_exact h)
  rw [List.length_append, length_frameMessage] at hlength
  rw [FitsFrame]
  omega

/-- A message completed by one read fits: when its prefix was there before,
the buffer would not have waited for a length that wraps. What follows it
came with this read. -/
theorem fits_of_wait {buffer chunk msg rest : List UInt8} (hchunk : chunk.length ≤ 4096)
    (hwait : extractFramedMessage buffer = .ok none)
    (htook : extractFramedMessage (buffer ++ chunk) = .ok (some (msg, rest))) :
    FitsFrame msg ∧ rest.length ≤ 4096 := by
  have hlength := congrArg List.length (extractFramedMessage_exact htook)
  rw [List.length_append, List.length_append, length_frameMessage] at hlength
  rcases of_extractFramedMessage_none hwait with hshort | ⟨b₀, b₁, b₂, b₃, tail, rfl, hwait⟩
  · refine ⟨fits_of_short ?_ htook, by omega⟩
    rw [List.length_append]
    omega
  · obtain ⟨hle, rfl, rfl⟩ := extractFramedMessage_cons.mp htook
    have hsum := UInt32.toNat_add 4 (readPrefix b₀ b₁ b₂ b₃)
    have hfour : (4 : UInt32).toNat = 4 := rfl
    have hlt := (readPrefix b₀ b₁ b₂ b₃).toNat_lt
    rw [hfour] at hsum
    rw [FitsFrame, List.length_take_of_le hle]
    rw [List.length_take_of_le hle] at hlength
    simp only [List.length_cons] at hlength
    omega

theorem split_fits {x : List UInt8} (h : x.length < 2 ^ 32) :
    ∀ msg ∈ (framing.split x).taken, FitsFrame msg := by
  induction x using framing.split_induction with
  | wait x hnext =>
      rw [Splitter.split_wait hnext]
      exact nofun
  | trap x e hnext =>
      rw [Splitter.split_trap hnext]
      exact nofun
  | took x msg rest hnext ih =>
      have hfits := fits_of_short h (pullMessage_eq_took.mp hnext)
      have hrest := framing.shrinks hnext
      rw [Splitter.split_took hnext]
      exact List.forall_mem_cons.mpr ⟨hfits, ih (by omega)⟩

theorem split_append_fits {buffer chunk : List UInt8} (hchunk : chunk.length ≤ 4096)
    (hwait : extractFramedMessage buffer = .ok none) :
    ∀ msg ∈ (framing.split (buffer ++ chunk)).taken, FitsFrame msg := by
  cases hnext : framing.next (buffer ++ chunk) with
  | wait =>
      rw [Splitter.split_wait hnext]
      exact nofun
  | trap e =>
      rw [Splitter.split_trap hnext]
      exact nofun
  | took msg rest =>
      obtain ⟨hfits, hrest⟩ := fits_of_wait hchunk hwait (pullMessage_eq_took.mp hnext)
      rw [Splitter.split_took hnext]
      exact List.forall_mem_cons.mpr ⟨hfits, split_fits (by omega)⟩

/-- **Reads of 4096 bytes.** Every message handed over fits. -/
theorem feeds_fit {s : RxState} {chunks : List (List UInt8)}
    (hchunks : ∀ chunk ∈ chunks, chunk.length ≤ 4096) (htaken : ∀ msg ∈ s.taken, FitsFrame msg)
    (hleft : ∀ buffer, s.left = .ok buffer → extractFramedMessage buffer = .ok none) :
    ∀ msg ∈ (chunks.foldl framing.feed s).taken, FitsFrame msg := by
  induction chunks generalizing s with
  | nil => exact htaken
  | cons chunk chunks ih =>
      obtain ⟨hchunk, hchunks⟩ := List.forall_mem_cons.mp hchunks
      rw [List.foldl_cons]
      cases hbuffer : s.left with
      | error e =>
          rw [Splitter.feed_error hbuffer]
          exact ih hchunks htaken hleft
      | ok buffer =>
          rw [Splitter.feed_ok hbuffer]
          apply ih hchunks
          · exact List.forall_mem_append.mpr
              ⟨htaken, split_append_fits hchunk (hleft buffer hbuffer)⟩
          · intro left hsplit
            exact pullMessage_eq_wait.mp (Splitter.wait_of_split hsplit)

/-! ## Alignment -/

/-- Nothing but whole frames, each of a length that the receiver can take. -/
def CompleteFrames (bytes : List UInt8) : Prop :=
  ∃ msgs : List (List UInt8), (∀ msg ∈ msgs, FitsFrame msg) ∧ bytes = msgs.flatMap frameMessage

theorem CompleteFrames.append {x y : List UInt8} (hx : CompleteFrames x)
    (hy : CompleteFrames y) : CompleteFrames (x ++ y) := by
  obtain ⟨msgs, hfits, rfl⟩ := hx
  obtain ⟨msgs', hfits', rfl⟩ := hy
  exact ⟨msgs ++ msgs', List.forall_mem_append.mpr ⟨hfits, hfits'⟩, List.flatMap_append.symm⟩

theorem completeFrames_frameMessage {msg : List UInt8} (h : FitsFrame msg) :
    CompleteFrames (frameMessage msg) :=
  ⟨[msg], by simpa using h, by simp⟩

/-- Frames are read in one way only, so they can be cancelled in front. -/
theorem CompleteFrames.of_append {x y : List UInt8} (hx : CompleteFrames x)
    (hxy : CompleteFrames (x ++ y)) : CompleteFrames y := by
  obtain ⟨front, hfront, rfl⟩ := hx
  obtain ⟨msgs, hmsgs, hall⟩ := hxy
  exact framing_reads.enc_of_append hmsgs hfront hall

namespace RadioLink

/-- Between one whole segment, or the start, and the next whole one, what got
through of the damaged segments is whole frames again, if only none. -/
def Aligned (link : RadioLink) : Prop :=
  ∀ first i segment, link.segments[i]? = some segment → link.Whole i → first ≤ i →
    (first = 0 ∨ link.Whole (first - 1)) → (∀ k, first ≤ k → k < i → ¬ link.Whole k) →
      FitsFrame segment ∧ CompleteFrames (link.keptBetween first i)

variable {link : RadioLink} {first i : Nat} {segment : List UInt8}

theorem start_succ (h : link.segments[i]? = some segment) :
    link.start (i + 1) = link.start i + (frameMessage segment).length := by
  rw [start, start, List.take_add_one, h, List.flatMap_append, List.length_append]
  simp

/-- What got through splits at any segment. -/
theorem kept_eq (h : first ≤ i) : link.kept i = link.kept first ++ link.keptBetween first i := by
  have hsplit : link.segments.take i =
      link.segments.take first ++ (link.segments.take i).drop first := by
    have htake := List.take_append_drop first (link.segments.take i)
    rwa [List.take_take, Nat.min_eq_left h, eq_comm] at htake
  rw [kept, hsplit, List.flatMap_append, keep_append]
  rfl

/-- A whole segment gets through as its frame. -/
theorem keptBetween_whole (h : link.segments[i]? = some segment) (hwhole : link.Whole i) :
    link.keptBetween i (i + 1) = frameMessage segment := by
  have hlength : (link.segments.take i).length = i :=
    List.length_take_of_le (Nat.le_of_lt (List.getElem?_eq_some_iff.mp h).1)
  have hone : (link.segments.take (i + 1)).drop i = [segment] := by
    rw [List.take_add_one, h]
    exact List.drop_left' hlength
  rw [keptBetween, hone, List.flatMap_singleton]
  apply keep_all
  intro j hj
  rw [List.getElem?_drop]
  apply hwhole
  · exact Nat.le_add_right _ _
  · rw [start_succ h]
    omega

/-- What the receiver has read is what got through of the stream. -/
theorem reads_eq_keep (link : RadioLink) : link.reads.flatten = keep link.stream link.fates := by
  have hfirst : ∀ (l : List (List UInt8)) (l' : List Bool), (l.zip l').map Prod.fst <+: l := by
    intro l
    induction l with
    | nil => exact fun _ => List.prefix_rfl
    | cons p l ih =>
        intro l'
        cases l' with
        | nil => exact List.nil_prefix
        | cons fate l' => exact List.cons_prefix_cons.mpr ⟨rfl, ih l'⟩
  obtain ⟨unsent, hunsent⟩ :=
    hfirst (TcpInputServer.payloads { frameSize := link.frameSize } link.ops) link.decoded
  obtain ⟨held, hheld⟩ :=
    (TcpInputServer.flatten_payloads_prefix { frameSize := link.frameSize } link.ops).trans
      link.received
  rw [← hunsent, List.flatten_append, ← List.flatMap_def, List.append_assoc] at hheld
  rw [link.read, stream, ← hheld]
  exact (keep_payloadFates link.payloads _).symm

/-- What the receiver has read begins with what got through before segment
`i`, and its frame if it is whole. -/
theorem exists_read_eq (h : link.segments[i]? = some segment) (hwhole : link.Whole i) :
    ∃ more, link.reads.flatten = link.kept i ++ (frameMessage segment ++ more) := by
  have hsplit : link.stream =
      (link.segments.take (i + 1)).flatMap frameMessage ++
        (link.segments.drop (i + 1)).flatMap frameMessage := by
    rw [stream, ← List.flatMap_append, List.take_append_drop]
  refine ⟨keep ((link.segments.drop (i + 1)).flatMap frameMessage)
    (link.fates.drop (link.start (i + 1))), ?_⟩
  rw [reads_eq_keep, hsplit, keep_append, ← List.append_assoc, ← keptBetween_whole h hwhole,
    ← kept_eq (Nat.le_succ i)]
  rfl

theorem handed_eq : link.handed = (link.reads.foldl framing.feed (framing.split [])).taken := by
  rw [handed, Connection.foldl_runRx_read _ link.nonempty]
  rfl

theorem handed_fits : ∀ msg ∈ link.handed, FitsFrame msg := by
  rw [handed_eq]
  apply feeds_fit link.small
  · exact nofun
  · intro buffer hbuffer
    cases hbuffer
    rfl

/-- **Where frames are found.** A whole segment is handed over where it was
sent exactly when what got through in front of it is whole frames. -/
theorem handedAt_iff (h : link.segments[i]? = some segment) (hwhole : link.Whole i) :
    link.HandedAt i segment ↔ FitsFrame segment ∧ CompleteFrames (link.kept i) := by
  obtain ⟨more, hread⟩ := exists_read_eq h hwhole
  constructor
  · intro hhanded
    obtain ⟨before, after, htaken, hlength⟩ := hhanded
    have hfits := link.handed_fits
    rw [htaken] at hfits
    obtain ⟨hbefore, hrest⟩ := List.forall_mem_append.mp hfits
    refine ⟨hrest segment List.mem_cons_self, before, hbefore, ?_⟩
    have hpre := framing_reads.feeds_only (s := framing.split []) (x := []) link.reads
      ⟨[], rfl, fun _ h => (Except.ok.inj h).symm⟩
    rw [← handed_eq, htaken, List.nil_append, hread, List.flatMap_append] at hpre
    have hbefore := (List.prefix_append (before.flatMap frameMessage) _).trans hpre
    exact ((List.prefix_of_prefix_length_le hbefore (List.prefix_append _ _)
      (Nat.le_of_eq hlength)).eq_of_length hlength).symm
  · intro hcond
    obtain ⟨hfits, before, hbefore, hkept⟩ := hcond
    rw [hkept] at hread
    have hall : ∀ msg ∈ before ++ [segment], FitsFrame msg :=
      List.forall_mem_append.mpr ⟨hbefore, by simpa using hfits⟩
    have hpre := framing_reads.prefix_taken hall (x := []) List.nil_prefix
      (by rw [List.nil_append, hread, List.flatMap_append, List.flatMap_singleton,
        List.append_assoc])
    rw [← handed_eq] at hpre
    obtain ⟨after, hafter⟩ := hpre
    exact ⟨before, after, by rw [← hafter, List.append_assoc]; rfl, by rw [hkept]⟩

theorem exists_segment {k : Nat} (h : link.segments[i]? = some segment) (hk : k < i) :
    ∃ before, link.segments[k]? = some before := by
  have hi := (List.getElem?_eq_some_iff.mp h).1
  exact ⟨link.segments[k], List.getElem?_eq_getElem (Nat.lt_trans hk hi)⟩

/-- The last whole segment in front of a segment, or the start. -/
theorem exists_first (link : RadioLink) (i : Nat) :
    ∃ first ≤ i, (first = 0 ∨ link.Whole (first - 1)) ∧
      ∀ k, first ≤ k → k < i → ¬ link.Whole k := by
  induction i with
  | zero => exact ⟨0, Nat.le_refl 0, .inl rfl, fun k _ hk => absurd hk (Nat.not_lt_zero k)⟩
  | succ i ih =>
      by_cases hwhole : link.Whole i
      · exact ⟨i + 1, Nat.le_refl _, .inr hwhole, fun k hk hlt => absurd hlt (Nat.not_lt.mpr hk)⟩
      · obtain ⟨first, hle, hstart, hdamaged⟩ := ih
        refine ⟨first, Nat.le_succ_of_le hle, hstart, fun k hk hlt => ?_⟩
        rcases Nat.lt_succ_iff_lt_or_eq.mp hlt with hlt | rfl
        · exact hdamaged k hk hlt
        · exact hwhole

/-- What got through up to and with a whole segment is whole frames when what
got through in front of it is. -/
theorem completeFrames_kept_succ (h : link.segments[i]? = some segment) (hwhole : link.Whole i)
    (hfits : FitsFrame segment) (hkept : CompleteFrames (link.kept i)) :
    CompleteFrames (link.kept (i + 1)) := by
  rw [kept_eq (Nat.le_succ i), keptBetween_whole h hwhole]
  exact hkept.append (completeFrames_frameMessage hfits)

/-- **Resynchronisation.** Loss stays local exactly when each run of damaged
segments in front of a whole one leaves whole frames, or nothing at all. -/
theorem lossStaysLocal_iff (link : RadioLink) : link.LossStaysLocal ↔ link.Aligned := by
  constructor
  · intro hlocal first i segment h hwhole hle hstart _
    have hat := fun i segment h hwhole => (handedAt_iff h hwhole).mp (hlocal i segment h hwhole)
    obtain ⟨hfits, hkept⟩ := hat i segment h hwhole
    refine ⟨hfits, ?_⟩
    rw [kept_eq hle] at hkept
    apply CompleteFrames.of_append _ hkept
    cases first with
    | zero => exact ⟨[], nofun, rfl⟩
    | succ k =>
        obtain ⟨before, hbefore⟩ := exists_segment h (Nat.lt_of_succ_le hle)
        have hwhole := hstart.resolve_left (Nat.succ_ne_zero k)
        obtain ⟨hfits, hkept⟩ := hat k before hbefore hwhole
        exact completeFrames_kept_succ hbefore hwhole hfits hkept
  · intro haligned i
    -- from whole segment to whole segment, starting at the first
    induction i using Nat.strongRecOn with
    | ind i ih =>
        intro segment h hwhole
        obtain ⟨first, hle, hstart, hdamaged⟩ := link.exists_first i
        obtain ⟨hfits, hbetween⟩ := haligned first i segment h hwhole hle hstart hdamaged
        apply (handedAt_iff h hwhole).mpr
        refine ⟨hfits, ?_⟩
        rw [kept_eq hle]
        apply CompleteFrames.append _ hbetween
        cases first with
        | zero => exact ⟨[], nofun, rfl⟩
        | succ k =>
            obtain ⟨before, hbefore⟩ := exists_segment h (Nat.lt_of_succ_le hle)
            have hwhole := hstart.resolve_left (Nat.succ_ne_zero k)
            have hat := ih k (Nat.lt_of_succ_le hle) before hbefore hwhole
            obtain ⟨hfits, hkept⟩ := (handedAt_iff hbefore hwhole).mp hat
            exact completeFrames_kept_succ hbefore hwhole hfits hkept

/-- Two report acknowledgments, cut into payloads of eight bytes of which the
first is lost: the one byte that is left of the first segment makes the
prefix of the second unreadable. -/
def misaligned : RadioLink where
  segments := [[0x07, 1, 1, 0, 1], [0x07, 1, 1, 0, 2]]
  ops := [.recv [0, 0, 0, 5, 0x07, 1, 1, 0, 1, 0, 0, 0, 5, 0x07, 1, 1, 0, 2],
    .readFrame, .readFrame, .flush]
  frameSize := 8
  decoded := [false, true, true]
  reads := [[1, 0, 0, 0, 5, 0x07, 1, 1], [0, 2]]
  received := by decide
  read := by decide
  nonempty := by decide
  small := by decide

/-- The second segment got through whole, and nothing was handed over. -/
theorem misaligned_lost : misaligned.segments[1]? = some [0x07, 1, 1, 0, 2] ∧
    misaligned.Whole 1 ∧ misaligned.handed = [] := by
  refine ⟨rfl, ?_, by decide +kernel⟩
  have hfates : ∀ j < 18, 9 ≤ j → misaligned.fates[j]? = some true := by decide +kernel
  exact fun j hj hlt => hfates j hlt hj

/-- Loss does not stay local. -/
theorem loss_spreads : ¬ ∀ (link : RadioLink) (i : Nat) (segment : List UInt8),
    link.segments[i]? = some segment → link.Whole i → segment ∈ link.handed := by
  intro h
  obtain ⟨hsegment, hwhole, hhanded⟩ := misaligned_lost
  have := h misaligned 1 _ hsegment hwhole
  rw [hhanded] at this
  cases this

end RadioLink

end QpskB210.Ltp
