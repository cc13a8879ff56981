import QpskB210.Ltp.EgressLosses

/-!
# LTP — Egress buffer

The byte counter and the order of the egress buffer. The capacity loop makes
room for a new frame by discarding old ones; a frame that is too large for
the whole buffer is kept nevertheless. `Fits` rules that out, and a run is
within the bound all the time exactly if each of its calls meets it.
-/

namespace QpskB210.Ltp

/-- The bytes of some frames. -/
def totalBytes (frames : List Frame) : Nat := (frames.map fun frame => frame.bytes.length).sum

@[simp] theorem totalBytes_nil : totalBytes [] = 0 := rfl

@[simp] theorem totalBytes_cons (frame : Frame) (frames : List Frame) :
    totalBytes (frame :: frames) = frame.bytes.length + totalBytes frames := by
  simp [totalBytes]

@[simp] theorem totalBytes_append (frames frames' : List Frame) :
    totalBytes (frames ++ frames') = totalBytes frames + totalBytes frames' := by
  simp [totalBytes]

namespace TcpEgress

/-- The frame that a call delivers while no client is connected. -/
def offlineFrames (t : TcpEgress) : EgressCall → List Frame
  | .deliver data _ => if t.clients.isEmpty then [t.nextFrame data] else []
  | .connect _ => []

/-- All such frames of a run. -/
def offline (t : TcpEgress) : List EgressCall → List Frame
  | [] => []
  | call :: calls => t.offlineFrames call ++ (t.exec call).offline calls

/-- What is in the buffer, of the frames delivered while no client was
connected. -/
structure Bounded (maxBufferBytes : UInt64) (t : TcpEgress) (offline : List Frame) : Prop where
  bufferBytes : t.bufferBytes.toNat = totalBytes t.buffer
  buffer : t.buffer <:+ offline
  bound : t.bufferBytes ≤ maxBufferBytes

/-- A frame to buffer is no larger than the whole buffer may be. (The sum of
the two sizes is that of bytes in memory, it fits 64 bits.) -/
def Fits (t : TcpEgress) : EgressCall → Prop
  | .deliver data _ =>
    t.clients = [] → (frameMessage data).length ≤ t.maxBufferBytes.toNat ∧
      totalBytes t.buffer + (frameMessage data).length < 2 ^ 64
  | .connect _ => True

/-- Every call of a run `Fits`, in the state it is made in. -/
def AllFit (t : TcpEgress) : List EgressCall → Prop
  | [] => True
  | call :: calls => t.Fits call ∧ (t.exec call).AllFit calls

/-- Between two calls there are either no clients or no frames waiting. -/
def Idle (t : TcpEgress) : Prop := t.clients ≠ [] → t.buffer = []

variable {t : TcpEgress} {answers : Answers} {frame : Frame} {data : List UInt8}
  {maxBufferBytes : UInt64} {before : List Frame}

/-! ## Flushing -/

theorem flushLoop_induction {motive : TcpEgress → Prop}
    (hround : ∀ (t : TcpEgress) front buffer, t.buffer = front :: buffer → t.clients ≠ [] →
      motive t → motive (t.flushRound answers front buffer))
    {buffer : List Frame} (hbuffer : t.buffer = buffer) (h : motive t) :
    motive (flushLoop answers buffer t) := by
  induction buffer generalizing t with
  | nil => exact h
  | cons front buffer ih =>
      by_cases hclients : t.clients = []
      · rwa [flushLoop_of_noClients _ hclients]
      · rw [flushLoop_cons _ _ hclients]
        exact ih rfl (hround t front buffer hbuffer hclients h)

theorem idle_flushLoop {buffer : List Frame} (hbuffer : t.buffer = buffer) :
    (flushLoop answers buffer t).Idle := by
  induction buffer generalizing t with
  | nil => exact fun _ => hbuffer
  | cons front buffer ih =>
      by_cases hclients : t.clients = []
      · rw [flushLoop_of_noClients _ hclients]
        exact fun hsome => absurd hclients hsome
      · rw [flushLoop_cons _ _ hclients]
        exact ih rfl

theorem idle_exec (h : t.Idle) (call : EgressCall) : (t.exec call).Idle := by
  cases call with
  | connect answers => exact idle_flushLoop (t := t.joined) rfl
  | deliver data answers =>
      by_cases hclients : t.clients = []
      · rw [exec, deliver_of_noClients hclients]
        exact fun hsome => absurd hclients hsome
      · rw [exec, deliver_of_clients hclients]
        exact fun _ => h hclients

theorem idle_run (h : t.Idle) (calls : List EgressCall) : (t.run calls).Idle := by
  induction calls generalizing t with
  | nil => exact h
  | cons call calls ih => exact ih (idle_exec h call)

@[simp]
theorem maxBufferBytes_exec (call : EgressCall) :
    (t.exec call).maxBufferBytes = t.maxBufferBytes := by
  cases call with
  | connect answers =>
      exact flushLoop_induction (t := t.joined)
        (motive := fun t' => t'.maxBufferBytes = t.maxBufferBytes)
        (fun _ _ _ _ _ h => h) rfl rfl
  | deliver data answers =>
      by_cases hclients : t.clients = []
      · rw [exec, deliver_of_noClients hclients]
        rfl
      · rw [exec, deliver_of_clients hclients]
        rfl

/-- The subtraction of a round does not wrap around. -/
theorem toNat_sub_size {bytes : UInt64} {rest : Nat}
    (h : bytes.toNat = frame.bytes.length + rest) : (bytes - frame.size).toNat = rest := by
  have hlt := bytes.toNat_lt
  have hsize : frame.size.toNat = frame.bytes.length :=
    UInt64.toNat_ofNat_of_lt' (by rw [UInt64.size]; omega)
  rw [UInt64.toNat_sub_of_le _ _ (by rw [UInt64.le_iff_toNat_le]; omega), hsize, h]
  omega

theorem Bounded.flushRound (h : t.Bounded maxBufferBytes before) {front : Frame}
    {buffer : List Frame} (hbuffer : t.buffer = front :: buffer) :
    (t.flushRound answers front buffer).Bounded maxBufferBytes before := by
  have htotal : t.bufferBytes.toNat = front.bytes.length + totalBytes buffer := by
    rw [h.bufferBytes, hbuffer, totalBytes_cons]
  have hrest : (t.flushRound answers front buffer).bufferBytes.toNat = totalBytes buffer :=
    toNat_sub_size htotal
  refine ⟨hrest, ?_, ?_⟩
  · refine .trans ?_ h.buffer
    rw [hbuffer]
    exact List.suffix_cons front buffer
  · have hbound := h.bound
    rw [UInt64.le_iff_toNat_le] at hbound ⊢
    omega

/-! ## Buffering -/

/-- The capacity loop leaves room for a frame that is small enough. -/
theorem discardLoop_spec {framedSize : UInt64} (hfits : framedSize ≤ maxBufferBytes)
    {buffer : List Frame} {bytes : UInt64} (hbytes : bytes.toNat = totalBytes buffer)
    (hroom : bytes.toNat + framedSize.toNat < 2 ^ 64) :
    (discardLoop maxBufferBytes framedSize buffer bytes).2.2.toNat =
        totalBytes (discardLoop maxBufferBytes framedSize buffer bytes).2.1 ∧
      (discardLoop maxBufferBytes framedSize buffer bytes).2.2.toNat + framedSize.toNat ≤
        maxBufferBytes.toNat := by
  rw [UInt64.le_iff_toNat_le] at hfits
  induction buffer generalizing bytes with
  | nil =>
      have hzero : bytes.toNat = 0 := hbytes
      refine ⟨hbytes, ?_⟩
      show bytes.toNat + framedSize.toNat ≤ maxBufferBytes.toNat
      omega
  | cons front buffer ih =>
      rw [discardLoop]
      split
      · rw [totalBytes_cons] at hbytes
        have hrest := toNat_sub_size hbytes
        exact ih hrest (by omega)
      · rename_i hle
        rw [gt_iff_lt, UInt64.not_lt, UInt64.le_iff_toNat_le, UInt64.toNat_add,
          Nat.mod_eq_of_lt hroom] at hle
        exact ⟨hbytes, hle⟩

/-- A frame that is small enough is buffered within the bound. -/
theorem Bounded.bufferFrame (h : t.Bounded t.maxBufferBytes before)
    (hfits : frame.bytes.length ≤ t.maxBufferBytes.toNat)
    (hroom : totalBytes t.buffer + frame.bytes.length < 2 ^ 64) :
    (t.bufferFrame frame).Bounded t.maxBufferBytes (before ++ [frame]) := by
  have hsize : frame.size.toNat = frame.bytes.length :=
    UInt64.toNat_ofNat_of_lt' (Nat.lt_of_le_of_lt (Nat.le_add_left _ _) hroom)
  have hbytes := h.bufferBytes
  have hlt := t.maxBufferBytes.toNat_lt
  have hle : frame.size ≤ t.maxBufferBytes := by
    rw [UInt64.le_iff_toNat_le]
    omega
  obtain ⟨htotal, hbound⟩ := discardLoop_spec hle hbytes (by omega)
  obtain ⟨discarded, kept, hbuffer, hkept, -⟩ := bufferFrame_cases t frame
  have hnew : (t.bufferFrame frame).bufferBytes.toNat =
      (discardLoop t.maxBufferBytes frame.size t.buffer t.bufferBytes).2.2.toNat +
        frame.size.toNat := by
    have hlt := Nat.lt_of_le_of_lt hbound hlt
    exact (UInt64.toNat_add _ _).trans (Nat.mod_eq_of_lt hlt)
  refine ⟨?_, ?_, ?_⟩
  · show _ = totalBytes (_ ++ [frame])
    rw [hnew, htotal, totalBytes_append, hsize]
    simp
  · rw [hkept]
    have hsuffix : kept <:+ before := by
      refine .trans ?_ h.buffer
      rw [hbuffer]
      exact List.suffix_append discarded kept
    obtain ⟨front, rfl⟩ := hsuffix
    exact ⟨front, (List.append_assoc front kept [frame]).symm⟩
  · rw [UInt64.le_iff_toNat_le, hnew]
    exact hbound

theorem discardLoop_of_le {framedSize bytes : UInt64} (h : bytes + framedSize ≤ maxBufferBytes)
    (buffer : List Frame) :
    discardLoop maxBufferBytes framedSize buffer bytes = ([], buffer, bytes) := by
  cases buffer with
  | nil => rfl
  | cons front buffer => exact if_neg (UInt64.not_lt.mpr h)

/-- A sum of sizes that wraps around looks like one that fits. -/
theorem room_of_bounded (h : t.Bounded t.maxBufferBytes before)
    (hafter : (t.bufferFrame frame).Bounded t.maxBufferBytes (before ++ [frame]))
    (hfits : frame.bytes.length ≤ t.maxBufferBytes.toNat) :
    totalBytes t.buffer + frame.bytes.length < 2 ^ 64 := by
  by_contra hwrap
  have hlt := t.maxBufferBytes.toNat_lt
  have hsize : frame.size.toNat = frame.bytes.length :=
    UInt64.toNat_ofNat_of_lt' (Nat.lt_of_le_of_lt hfits hlt)
  have hbytes := h.bufferBytes
  have hbound := h.bound
  rw [UInt64.le_iff_toNat_le] at hbound
  have hle : t.bufferBytes + frame.size ≤ t.maxBufferBytes := by
    rw [UInt64.le_iff_toNat_le, UInt64.toNat_add]
    omega
  have hkept : (t.bufferFrame frame).buffer = t.buffer ++ [frame] := by
    simp only [bufferFrame, discardLoop_of_le hle]
  have htotal := hafter.bufferBytes
  have hword := (t.bufferFrame frame).bufferBytes.toNat_lt
  rw [hkept, totalBytes_append, totalBytes_cons, totalBytes_nil] at htotal
  omega

theorem bounded_bufferFrame_iff (h : t.Bounded t.maxBufferBytes before) :
    (t.bufferFrame frame).Bounded t.maxBufferBytes (before ++ [frame]) ↔
      frame.bytes.length ≤ t.maxBufferBytes.toNat ∧
        totalBytes t.buffer + frame.bytes.length < 2 ^ 64 := by
  constructor
  · intro hafter
    have htotal := hafter.bufferBytes
    have hbound := hafter.bound
    obtain ⟨discarded, kept, hbuffer, hkept, -⟩ := bufferFrame_cases t frame
    rw [hkept, totalBytes_append, totalBytes_cons] at htotal
    rw [UInt64.le_iff_toNat_le] at hbound
    have hfits : frame.bytes.length ≤ t.maxBufferBytes.toNat := by omega
    exact ⟨hfits, room_of_bounded h hafter hfits⟩
  · intro hboth
    exact h.bufferFrame hboth.1 hboth.2

/-! ## Runs -/

theorem exec_bounded (h : t.Bounded t.maxBufferBytes before) (call : EgressCall) :
    (t.exec call).Bounded t.maxBufferBytes (before ++ t.offlineFrames call) ↔ t.Fits call := by
  cases call with
  | connect answers =>
      refine iff_of_true ?_ trivial
      rw [offlineFrames, List.append_nil]
      have hjoined : t.joined.Bounded t.maxBufferBytes before :=
        ⟨h.bufferBytes, h.buffer, h.bound⟩
      exact flushLoop_induction (motive := fun t' => t'.Bounded t.maxBufferBytes before)
        (fun _ _ _ hbuffer _ h => h.flushRound hbuffer) rfl hjoined
  | deliver data answers =>
      by_cases hclients : t.clients = []
      · have hdeclared : (t.declare data).Bounded t.maxBufferBytes before :=
          ⟨h.bufferBytes, h.buffer, h.bound⟩
        rw [exec, deliver_of_noClients hclients, offlineFrames, if_pos (by simp [hclients])]
        refine (bounded_bufferFrame_iff (t := t.declare data) hdeclared).trans ?_
        exact ⟨fun hboth _ => hboth, fun hboth => hboth hclients⟩
      · rw [exec, deliver_of_clients hclients, offlineFrames, if_neg (by simpa using hclients),
          List.append_nil]
        refine iff_of_true ⟨h.bufferBytes, h.buffer, h.bound⟩ ?_
        exact fun hnone => absurd hnone hclients

theorem offline_cons (call : EgressCall) (calls : List EgressCall) :
    t.offline (call :: calls) = t.offlineFrames call ++ (t.exec call).offline calls := rfl

theorem run_bounded (h : t.Bounded t.maxBufferBytes before) (calls : List EgressCall) :
    (∀ first, first <+: calls →
        (t.run first).Bounded t.maxBufferBytes (before ++ t.offline first)) ↔
      t.AllFit calls := by
  induction calls generalizing t before with
  | nil =>
      refine iff_of_true (fun first hfirst => ?_) trivial
      rw [List.prefix_nil.mp hfirst, offline, List.append_nil]
      exact h
  | cons call calls ih =>
      have hstep := exec_bounded h call
      have hrest (hnext : (t.exec call).Bounded t.maxBufferBytes
          (before ++ t.offlineFrames call)) := by
        rw [← maxBufferBytes_exec call] at hnext
        exact ih hnext
      constructor
      · intro hall
        have hnext := hall [call] (List.prefix_append [call] calls)
        rw [offline_cons, offline, List.append_nil] at hnext
        refine ⟨hstep.mp hnext, (hrest hnext).mp fun first hfirst => ?_⟩
        have hlater := hall (call :: first) (List.cons_prefix_cons.mpr ⟨rfl, hfirst⟩)
        rwa [offline_cons, ← List.append_assoc, ← maxBufferBytes_exec call] at hlater
      · intro hfit first hfirst
        cases first with
        | nil =>
            rw [offline, List.append_nil]
            exact h
        | cons call' first =>
            obtain ⟨hcall, htail⟩ := List.cons_prefix_cons.mp hfirst
            subst hcall
            have hlater := (hrest (hstep.mpr hfit.1)).mpr hfit.2 first htail
            rwa [maxBufferBytes_exec, List.append_assoc, ← offline_cons] at hlater

/-- **Egress buffer.** The buffer is accounted for and bounded after every
call of a run exactly if each frame to be buffered fits. -/
theorem bounded_iff_allFit (maxBufferBytes : UInt64) (calls : List EgressCall) :
    (∀ first, first <+: calls → ((create maxBufferBytes).run first).Bounded maxBufferBytes
        ((create maxBufferBytes).offline first)) ↔
      (create maxBufferBytes).AllFit calls := by
  have hempty : (create maxBufferBytes).Bounded maxBufferBytes [] :=
    ⟨rfl, List.suffix_rfl, UInt64.zero_le⟩
  exact run_bounded (t := create maxBufferBytes) hempty calls

/-- A block that is larger than the buffer may be is buffered. -/
theorem oversized_block_buffered :
    ¬∀ (maxBufferBytes : UInt64) (calls : List EgressCall), 0 < maxBufferBytes →
      ((create maxBufferBytes).run calls).Bounded maxBufferBytes
        ((create maxBufferBytes).offline calls) := by
  intro hevery
  have hbound := (hevery 4 [.deliver [7] fun _ _ => []] (by decide)).bound
  exact absurd hbound (by decide)

end TcpEgress

end QpskB210.Ltp
