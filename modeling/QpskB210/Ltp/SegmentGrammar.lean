import QpskB210.Ltp.Segment

/-!
# LTP — Segment grammar

The wire format as languages of byte strings, one per reader of
`LtpSegment.decode` and in the same order, and the byte strings on which the
decoder is left by an exception (`Trap`). `recognises_segment` ties the two
to the code: the decoder accepts exactly the words of `segmentLang` and
throws exactly on those of `segmentTrap`.

A trap has one of two causes, both at a length the input itself announces:
`bytesTrap` (an extension or data length that carries the cursor past
`2 ^ 64`, so the bounds check wraps and `assign` gets a reversed range) and
`reserveTrap` (more claims than a vector can hold, or than there is memory
for).
-/

namespace QpskB210.Ltp.LtpSegment

open QpskB210.Lib

/-- The exits the handler around the content lets through. -/
def Exit.Fatal : Exit → Prop
  | .nullopt => False
  | .thrown e => e.Escapes

/-- The exits by exception, once the handlers have run. -/
def Exit.Thrown (e : Exit) : Prop := e ≠ .nullopt

/-! ## The languages -/

def byteLang : Lang UInt8 UInt8 := fun w byte => w = [byte]

/-- A run of `len` raw bytes. -/
def bytesLang (len : UInt64) : Lang UInt8 (List UInt8) := fun w bytes =>
  w = bytes ∧ bytes.length = len.toNat

/-- Version 0 in the high half of the control byte, a valid type in the low. -/
def controlLang : Lang UInt8 UInt8 := fun w type => w = [type] ∧ SegType.isValid type = true

def countsLang : Lang UInt8 (UInt8 × UInt8) := fun w counts => w = [counts.1, counts.2]

def headerLang : Lang UInt8 LtpSegment :=
  controlLang.bind fun segmentType =>
    Sdnv.lang.bind fun engineId =>
      Sdnv.lang.bind fun sessionNumber =>
        countsLang.bind fun counts =>
          Lang.pure { segmentType := segmentType, engineId := engineId,
                      sessionNumber := sessionNumber, headerExtCount := counts.1,
                      trailerExtCount := counts.2 }

def extensionLang : Lang UInt8 LtpExtension :=
  byteLang.bind fun tag =>
    Sdnv.lang.bind fun len =>
      (bytesLang len).bind fun value => Lang.pure { tag := tag, value := value }

def extensionsLang (count : UInt8) : Lang UInt8 (List LtpExtension) :=
  extensionLang.replicate count.toNat

def serialsLang (type : UInt8) : Lang UInt8 (Option UInt64 × Option UInt64) :=
  if SegType.hasCheckpoint type then
    Sdnv.lang.bind fun checkpointSerial =>
      Sdnv.lang.bind fun reportSerial => Lang.pure (some checkpointSerial, some reportSerial)
  else Lang.pure (none, none)

def dataLang (type : UInt8) : Lang UInt8 SegmentContent :=
  Sdnv.lang.bind fun clientServiceId =>
    Sdnv.lang.bind fun offset =>
      Sdnv.lang.bind fun length =>
        (serialsLang type).bind fun serials =>
          (bytesLang length).bind fun data =>
            Lang.pure (.data { clientServiceId := clientServiceId, offset := offset,
                               length := length, checkpointSerial := serials.1,
                               reportSerial := serials.2, data := data })

def claimLang : Lang UInt8 ReceptionClaim :=
  Sdnv.lang.bind fun offset =>
    Sdnv.lang.bind fun length => Lang.pure { offset := offset, length := length }

def reserveLang (heap : Heap) (claimCount : UInt64) : Lang UInt8 Unit := fun w _ =>
  w = [] ∧ claimCount.toNat ≤ maxClaimsSize ∧ claimCount.toNat ≤ heap.claims

def reportLang (heap : Heap) : Lang UInt8 SegmentContent :=
  Sdnv.lang.bind fun reportSerial =>
    Sdnv.lang.bind fun checkpointSerial =>
      Sdnv.lang.bind fun upperBound =>
        Sdnv.lang.bind fun lowerBound =>
          Sdnv.lang.bind fun claimCount =>
            (reserveLang heap claimCount).bind fun _ =>
              (claimLang.replicate claimCount.toNat).bind fun claims =>
                Lang.pure (.report { reportSerial := reportSerial,
                                     checkpointSerial := checkpointSerial,
                                     upperBound := upperBound, lowerBound := lowerBound,
                                     claims := claims })

def contentLang (heap : Heap) (type : UInt8) : Lang UInt8 SegmentContent :=
  if SegType.isData type then dataLang type
  else if type = SegType.reportSegment then reportLang heap
  else if type = SegType.reportAck then
    Sdnv.lang.bind fun reportSerial => Lang.pure (.rptAck { reportSerial := reportSerial })
  else if type = SegType.cancelBySender ∨ type = SegType.cancelByReceiver then
    byteLang.bind fun reasonCode => Lang.pure (.cancel { reasonCode := reasonCode })
  else if type = SegType.cancelAckToSender ∨ type = SegType.cancelAckToReceiver then
    Lang.pure (.cancel { reasonCode := 0 })
  else fun _ _ => False

def segmentLang (heap : Heap) : Lang UInt8 LtpSegment :=
  headerLang.bind fun seg =>
    (extensionsLang seg.headerExtCount).bind fun headerExtensions =>
      (contentLang heap seg.segmentType).bind fun content =>
        (extensionsLang seg.trailerExtCount).bind fun trailerExtensions =>
          Lang.pure { seg with headerExtensions := headerExtensions, content := content,
                               trailerExtensions := trailerExtensions }

/-! ## The traps -/

/-- The announced bytes would end past `2 ^ 64`. -/
def bytesTrap (len : UInt64) : Trap UInt8 Exit := fun offset w e =>
  w = [] ∧ 2 ^ 64 ≤ offset + len.toNat ∧ e = .thrown .lengthError

/-- More claims are announced than a vector can hold, or than there is memory
for. -/
def reserveTrap (heap : Heap) (claimCount : UInt64) : Trap UInt8 Exit := fun _ w e =>
  w = [] ∧ (maxClaimsSize < claimCount.toNat ∧ e = .thrown .lengthError ∨
    claimCount.toNat ≤ maxClaimsSize ∧ heap.claims < claimCount.toNat ∧ e = .thrown .badAlloc)

def extensionTrap : Trap UInt8 Exit :=
  Trap.after byteLang fun _ => Trap.after Sdnv.lang bytesTrap

def extensionsTrap (count : UInt8) : Trap UInt8 Exit :=
  extensionTrap.replicate extensionLang count.toNat

def dataTrap (type : UInt8) : Trap UInt8 Exit :=
  Trap.after Sdnv.lang fun _ =>
    Trap.after Sdnv.lang fun _ =>
      Trap.after Sdnv.lang fun length =>
        Trap.after (serialsLang type) fun _ => bytesTrap length

def reportTrap (heap : Heap) : Trap UInt8 Exit :=
  Trap.after Sdnv.lang fun _ =>
    Trap.after Sdnv.lang fun _ =>
      Trap.after Sdnv.lang fun _ =>
        Trap.after Sdnv.lang fun _ => Trap.after Sdnv.lang (reserveTrap heap)

def contentTrap (heap : Heap) (type : UInt8) : Trap UInt8 Exit :=
  if SegType.isData type then dataTrap type
  else if type = SegType.reportSegment then reportTrap heap
  else Trap.none

/-- Where `decode` is left by an exception: after the header, at a header
extension, in the content, or at a trailer extension. -/
def segmentTrap (heap : Heap) : Trap UInt8 Exit :=
  Trap.after headerLang fun seg =>
    Trap.bind (extensionsTrap seg.headerExtCount) (extensionsLang seg.headerExtCount) fun _ =>
      Trap.bind (contentTrap heap seg.segmentType) (contentLang heap seg.segmentType) fun _ =>
        extensionsTrap seg.trailerExtCount

/-! ## The primitive readers -/

theorem readByte_eq {data : List UInt8} {offset : Nat} (h : offset < data.length) :
    readByte data offset = .ok (data[offset], offset + 1) := by
  rw [readByte, List.getElem?_eq_getElem h]

theorem singleton_prefix_drop {data : List UInt8} {offset : Nat} (h : offset < data.length)
    (byte : UInt8) : [byte] <+: data.drop offset ↔ byte = data[offset] := by
  rw [List.drop_eq_getElem_cons h, List.cons_prefix_cons]
  simp

variable {fatal : Exit → Prop}

theorem recognises_nextByte (hn : ¬ fatal .nullopt) :
    Recognises objectBound fatal nextByte byteLang Trap.none where
  ok_iff := by
    intro data offset _ hoff byte off'
    rw [nextByte]
    split
    · rename_i hle
      constructor
      · intro h
        cases h
      · intro h
        obtain ⟨w, hw, rfl, -⟩ := h
        rw [List.drop_eq_nil_of_le hle] at hw
        simp at hw
    · rename_i hlt
      rw [readByte_eq (by omega)]
      constructor
      · intro h
        cases h
        exact ⟨_, (singleton_prefix_drop (by omega) _).mpr rfl, rfl, rfl⟩
      · intro h
        obtain ⟨w, hw, rfl, rfl⟩ := h
        rw [(singleton_prefix_drop (by omega) byte).mp hw]
        rfl
  fatal_iff := by
    intro data offset _ hoff e
    constructor
    · intro h
      obtain ⟨h, hf⟩ := h
      rw [nextByte] at h
      split at h
      · cases h
        exact (hn hf).elim
      · rw [readByte_eq (by omega)] at h
        cases h
    · intro h
      obtain ⟨w, -, h⟩ := h
      exact h.elim

theorem extensionCounts_eq (data : List UInt8) (offset : Nat) :
    extensionCounts data offset =
      if h : offset + 2 ≤ data.length then .ok ((data[offset], data[offset + 1]), offset + 2)
      else .error .nullopt := by
  rw [extensionCounts]
  by_cases h : offset + 2 ≤ data.length
  · rw [if_neg (by omega), dif_pos h]
    simp only [Bind.bind, readByte_eq (show offset < data.length by omega),
      readByte_eq (show offset + 1 < data.length by omega)]
    rfl
  · rw [if_pos (by omega), dif_neg h]

theorem recognises_extensionCounts (hn : ¬ fatal .nullopt) :
    Recognises objectBound fatal extensionCounts countsLang Trap.none where
  ok_iff := by
    intro data offset _ hoff counts off'
    rw [extensionCounts_eq]
    split
    · rename_i h
      rw [List.drop_eq_getElem_cons (show offset < data.length by omega),
        List.drop_eq_getElem_cons (show offset + 1 < data.length by omega)]
      constructor
      · intro heq
        cases heq
        exact ⟨_, ⟨_, rfl⟩, rfl, rfl⟩
      · intro h
        obtain ⟨w, hw, rfl, rfl⟩ := h
        obtain ⟨h₁, hw⟩ := List.cons_prefix_cons.mp hw
        obtain ⟨h₂, -⟩ := List.cons_prefix_cons.mp hw
        rw [← h₁, ← h₂]
        rfl
    · rename_i h
      constructor
      · intro heq
        cases heq
      · intro h
        obtain ⟨w, hw, rfl, -⟩ := h
        have := hw.length_le
        simp only [List.length_cons, List.length_nil, List.length_drop] at this
        omega
  fatal_iff := by
    intro data offset _ _ e
    constructor
    · intro h
      obtain ⟨h, hf⟩ := h
      rw [extensionCounts_eq] at h
      split at h
      · cases h
      · cases h
        exact (hn hf).elim
    · intro h
      obtain ⟨w, -, h⟩ := h
      exact h.elim

theorem recognises_sdnv : Recognises objectBound Exit.Fatal sdnv Sdnv.lang Trap.none :=
  (Sdnv.recognises objectBound).mapError_harmless fun _ => id

theorem prefix_drop_iff_take {data w : List UInt8} {offset n : Nat}
    (h : offset + n ≤ data.length) :
    (w <+: data.drop offset ∧ w.length = n) ↔ w = (data.drop offset).take n := by
  constructor
  · intro h
    obtain ⟨hw, rfl⟩ := h
    exact List.prefix_iff_eq_take.mp hw
  · rintro rfl
    exact ⟨List.take_prefix _ _, by rw [List.length_take, List.length_drop]; omega⟩

/-- Below `2 ^ 63` bytes the wrapped check and the reversed range coincide
with the announced end lying past `2 ^ 64`. -/
theorem takeBytes_eq {data : List UInt8} {offset : Nat} (hb : data.length < objectBound)
    (hoff : offset ≤ data.length) (len : UInt64) :
    takeBytes len data offset =
      if 2 ^ 64 ≤ offset + len.toNat then .error (.thrown .lengthError)
      else if offset + len.toNat ≤ data.length then
        .ok ((data.drop offset).take len.toNat, offset + len.toNat)
      else .error .nullopt := by
  have hlen := len.toNat_lt
  rw [objectBound] at hb
  simp only [takeBytes, assignRange]
  by_cases hwrap : 2 ^ 64 ≤ offset + len.toNat
  · have hstop : (offset + len.toNat) % 2 ^ 64 = offset + len.toNat - 2 ^ 64 := by omega
    rw [if_pos hwrap, hstop, if_neg (by omega), if_pos (by omega)]
  · have hstop : (offset + len.toNat) % 2 ^ 64 = offset + len.toNat := by omega
    rw [if_neg hwrap, hstop]
    by_cases hfit : offset + len.toNat ≤ data.length
    · rw [if_neg (by omega), if_pos hfit, if_neg (by omega), if_neg (by omega),
        Nat.add_sub_cancel_left]
    · rw [if_pos (by omega), if_neg hfit]

theorem recognises_takeBytes (hn : ¬ fatal .nullopt) (hl : fatal (.thrown .lengthError))
    (len : UInt64) :
    Recognises objectBound fatal (takeBytes len) (bytesLang len) (bytesTrap len) where
  ok_iff := by
    intro data offset hb hoff bytes off'
    rw [takeBytes_eq hb hoff]
    constructor
    · intro h
      split at h
      · cases h
      · split at h
        · rename_i hfit
          cases h
          obtain ⟨hp, hl⟩ := (prefix_drop_iff_take hfit).mpr rfl
          exact ⟨_, hp, ⟨rfl, hl⟩, by rw [hl]⟩
        · cases h
    · intro h
      obtain ⟨w, hw, ⟨rfl, hl⟩, rfl⟩ := h
      have hfit := prefix_drop_length hw hoff
      rw [hl] at hfit
      rw [objectBound] at hb
      rw [if_neg (by omega), if_pos hfit, ← (prefix_drop_iff_take hfit).mp ⟨hw, hl⟩, hl]
  fatal_iff := by
    intro data offset hb hoff e
    rw [takeBytes_eq hb hoff]
    constructor
    · intro h
      obtain ⟨h, hf⟩ := h
      split at h
      · rename_i hwrap
        cases h
        exact ⟨[], List.nil_prefix, rfl, hwrap, rfl⟩
      · split at h
        · cases h
        · cases h
          exact (hn hf).elim
    · intro h
      obtain ⟨w, -, -, hwrap, rfl⟩ := h
      exact ⟨by rw [if_pos hwrap], hl⟩

theorem recognises_reserveClaims (heap : Heap) (claimCount : UInt64) :
    Recognises objectBound Exit.Fatal (reserveClaims heap claimCount)
      (reserveLang heap claimCount) (reserveTrap heap claimCount) where
  ok_iff := by
    intro data offset _ _ u off'
    rw [reserveClaims]
    constructor
    · intro h
      split at h
      · cases h
      · split at h
        · cases h
        · cases h
          exact ⟨[], List.nil_prefix, ⟨rfl, by omega, by omega⟩, rfl⟩
    · intro h
      obtain ⟨w, -, ⟨rfl, hcount, hroom⟩, rfl⟩ := h
      rw [if_neg (by omega), if_neg (by omega)]
      rfl
  fatal_iff := by
    intro data offset _ _ e
    rw [reserveClaims]
    constructor
    · intro h
      obtain ⟨h, -⟩ := h
      split at h
      · rename_i hgt
        cases h
        exact ⟨[], List.nil_prefix, rfl, .inl ⟨hgt, rfl⟩⟩
      · rename_i hle
        split at h
        · rename_i hfull
          cases h
          exact ⟨[], List.nil_prefix, rfl, .inr ⟨by omega, hfull, rfl⟩⟩
        · cases h
    · intro h
      obtain ⟨w, -, -, ⟨hgt, rfl⟩ | ⟨hle, hfull, rfl⟩⟩ := h
      · exact ⟨by rw [if_pos hgt]; rfl, trivial⟩
      · exact ⟨by rw [if_neg (by omega), if_pos hfull]; rfl, trivial⟩

/-! ## The composite readers -/

theorem decodeControl_eq {data : List UInt8} {offset : Nat} :
    decodeControl data offset = match nextByte data offset with
      | .error e => .error e
      | .ok (control, offset') =>
          if control < 16 ∧ SegType.isValid control then .ok (control, offset')
          else .error .nullopt := by
  have hcontrol := @forall_byte (fun b => ((b >>> 4 &&& 0x0F = 0) ↔ b < 16) ∧
    (b < 16 → b &&& 0x0F = b)) (by decide +kernel)
  simp only [decodeControl, Bind.bind]
  cases nextByte data offset with
  | error e => rfl
  | ok r =>
      obtain ⟨control, offset'⟩ := r
      obtain ⟨hversion, htype⟩ := hcontrol control
      by_cases hlt : control < 16
      · simp only [hversion.mpr hlt, htype hlt, hlt, true_and, ne_eq, not_true_eq_false, if_false]
        by_cases hvalid : SegType.isValid control = true
        · simp only [if_pos hvalid]
          rfl
        · simp only [if_neg hvalid]
          rfl
      · simp only [hlt, false_and, if_false, Ne, hversion, not_false_eq_true, if_true]
        rfl

theorem SegType.lt_of_isValid {type : UInt8} (h : SegType.isValid type = true) : type < 16 := by
  have hall : ∀ b ∈ ([0, 1, 2, 3, 4, 5, 6, 7, 8, 9, 12, 13] : List UInt8), b < 16 := by
    decide +kernel
  exact hall type (of_decide_eq_true h)

theorem recognises_decodeControl (hn : ¬ fatal .nullopt) :
    Recognises objectBound fatal decodeControl controlLang Trap.none where
  ok_iff := by
    intro data offset hb hoff type off'
    have hbyte := (recognises_nextByte hn).ok_iff hb hoff
    rw [decodeControl_eq]
    constructor
    · intro h
      cases hread : nextByte data offset with
      | error e => simp [hread] at h
      | ok r =>
          obtain ⟨control, offset'⟩ := r
          obtain ⟨w, hw, rfl, rfl⟩ := (hbyte control offset').mp hread
          simp only [hread] at h
          split at h
          · rename_i hvalid
            cases h
            exact ⟨_, hw, ⟨rfl, hvalid.2⟩, rfl⟩
          · cases h
    · intro h
      obtain ⟨w, hw, ⟨rfl, hvalid⟩, rfl⟩ := h
      rw [(hbyte type _).mpr ⟨_, hw, rfl, rfl⟩]
      simp [hvalid, SegType.lt_of_isValid hvalid]
  fatal_iff := by
    intro data offset hb hoff e
    rw [decodeControl_eq]
    constructor
    · intro h
      obtain ⟨h, hf⟩ := h
      cases hbyte : nextByte data offset with
      | error e' =>
          simp only [hbyte, Except.error.injEq] at h
          subst h
          exact ((recognises_nextByte hn).fatal_iff hb hoff e').mp ⟨hbyte, hf⟩
      | ok r =>
          simp only [hbyte] at h
          split at h
          · cases h
          · cases h
            exact (hn hf).elim
    · intro h
      obtain ⟨w, -, h⟩ := h
      exact h.elim

theorem catchRuntimeError_of_fatal (e : Exit) (h : e.Fatal) :
    catchRuntimeError e = e ∧ e.Thrown := by
  cases e with
  | nullopt => exact h.elim
  | thrown e => cases e <;> first | exact h.elim | exact ⟨rfl, Exit.noConfusion⟩

theorem fatal_of_catchRuntimeError (e : Exit) (h : (catchRuntimeError e).Thrown) : e.Fatal := by
  cases e with
  | nullopt => exact (h rfl).elim
  | thrown e => cases e <;> first | exact (h rfl).elim | trivial

theorem recognises_decodeHeader :
    Recognises objectBound Exit.Thrown decodeHeader headerLang Trap.none := by
  have hn : ¬ Exit.nullopt.Thrown := fun h => h rfl
  have hsdnv : Recognises objectBound Exit.Thrown (sdnv.mapError catchRuntimeError) Sdnv.lang
      Trap.none :=
    recognises_sdnv.mapError_harmless fatal_of_catchRuntimeError
  have h := (recognises_decodeControl hn).bind_after fun segmentType =>
    hsdnv.bind_after fun engineId =>
      hsdnv.bind_after fun sessionNumber =>
        (recognises_extensionCounts hn).bind_pure fun counts =>
          ({ segmentType := segmentType, engineId := engineId, sessionNumber := sessionNumber,
             headerExtCount := counts.1, trailerExtCount := counts.2 } : LtpSegment)
  exact h.congr_trap fun _ _ _ => by simp [Trap.after, Trap.none]

theorem recognises_decodeExtension :
    Recognises objectBound Exit.Thrown decodeExtension extensionLang extensionTrap :=
  (recognises_nextByte fun h => h rfl).bind_after fun tag =>
    (recognises_sdnv.mapError_harmless fun _ h => (h rfl).elim).bind_after fun len =>
      (recognises_takeBytes (fun h => h rfl) Exit.noConfusion len).bind_pure
        (LtpExtension.mk tag)

theorem recognises_decodeExtensions (count : UInt8) :
    Recognises objectBound Exit.Thrown (decodeExtensions count) (extensionsLang count)
      (extensionsTrap count) :=
  recognises_decodeExtension.replicate count.toNat

theorem recognises_decodeSerials (type : UInt8) :
    Recognises objectBound Exit.Fatal (decodeSerials type) (serialsLang type) Trap.none := by
  have h := Recognises.ite (c := SegType.hasCheckpoint type = true)
    (fun _ => recognises_sdnv.bind_after fun checkpointSerial =>
      recognises_sdnv.bind_pure fun reportSerial => (some checkpointSerial, some reportSerial))
    (fun _ => Recognises.pure (none, none))
  exact h.congr_trap fun _ _ _ => by
    split <;> simp [Trap.after, Trap.none]

theorem recognises_decodeData (type : UInt8) :
    Recognises objectBound Exit.Fatal (decodeData type) (dataLang type) (dataTrap type) :=
  recognises_sdnv.bind_after fun _ =>
    recognises_sdnv.bind_after fun _ =>
      recognises_sdnv.bind_after fun length =>
        (recognises_decodeSerials type).bind_after fun _ =>
          (recognises_takeBytes id trivial length).bind_pure _

theorem recognises_decodeClaim :
    Recognises objectBound Exit.Fatal decodeClaim claimLang Trap.none :=
  (recognises_sdnv.bind_after fun _ => recognises_sdnv.bind_pure _).congr_trap
    fun _ _ _ => by simp [Trap.after, Trap.none]

theorem trap_replicate_none {α : Type} {L : Lang UInt8 α} {n off : Nat} {w : List UInt8}
    {e : Exit} : ¬ Trap.none.replicate L n off w e := by
  induction n generalizing off w with
  | zero => exact id
  | succ n ih =>
      intro h
      rcases h with h | ⟨_, _, _, _, _, h⟩
      · exact h
      · exact ih h

theorem recognises_decodeReport (heap : Heap) :
    Recognises objectBound Exit.Fatal (decodeReport heap) (reportLang heap) (reportTrap heap) := by
  have hclaims (n : Nat) : Recognises objectBound Exit.Fatal (decodeClaim.replicate n)
      (claimLang.replicate n) Trap.none :=
    (recognises_decodeClaim.replicate n).congr_trap
      fun _ _ _ => ⟨fun h => trap_replicate_none h, fun h => h.elim⟩
  have hbody (claimCount : UInt64) (f : List ReceptionClaim → SegmentContent) :=
    ((recognises_reserveClaims heap claimCount).bind fun _ =>
      (hclaims claimCount.toNat).bind_pure f).congr_trap (G := reserveTrap heap claimCount)
        fun _ _ _ => by simp [Trap.bind, Trap.after, Trap.none]
  exact recognises_sdnv.bind_after fun _ =>
    recognises_sdnv.bind_after fun _ =>
      recognises_sdnv.bind_after fun _ =>
        recognises_sdnv.bind_after fun _ =>
          recognises_sdnv.bind_after fun claimCount => hbody claimCount _

theorem recognises_decodeContent (heap : Heap) (type : UInt8) :
    Recognises objectBound Exit.Fatal (decodeContent heap type) (contentLang heap type)
      (contentTrap heap type) := by
  have h := Recognises.ite (c := SegType.isData type = true)
    (fun _ => recognises_decodeData type)
    (fun _ => Recognises.ite (c := type = SegType.reportSegment)
      (fun _ => recognises_decodeReport heap)
      (fun _ => Recognises.ite (c := type = SegType.reportAck)
        (fun _ => recognises_sdnv.bind_pure fun reportSerial =>
          SegmentContent.rptAck { reportSerial := reportSerial })
        (fun _ => Recognises.ite (c := type = SegType.cancelBySender ∨
            type = SegType.cancelByReceiver)
          (fun _ => (recognises_nextByte id).bind_pure fun reasonCode =>
            SegmentContent.cancel { reasonCode := reasonCode })
          (fun _ => Recognises.ite (c := type = SegType.cancelAckToSender ∨
              type = SegType.cancelAckToReceiver)
            (fun _ => Recognises.pure (SegmentContent.cancel { reasonCode := 0 }))
            (fun _ => Recognises.fail (e := Exit.nullopt) id)))))
  exact h.congr_trap fun _ _ _ => by simp only [contentTrap, ite_self]

/-- **The decoder against the grammar.** `decodeSegment` accepts exactly the
words of `segmentLang` and throws exactly on those of `segmentTrap`. -/
theorem recognises_segment (heap : Heap) :
    Recognises objectBound Exit.Thrown (decodeSegment heap) (segmentLang heap)
      (segmentTrap heap) := by
  refine recognises_decodeHeader.bind_after fun seg => ?_
  refine (recognises_decodeExtensions seg.headerExtCount).bind fun headerExtensions => ?_
  refine Recognises.bind ?_ fun content => ?_
  · exact (recognises_decodeContent heap seg.segmentType).mapError catchRuntimeError_of_fatal
      fatal_of_catchRuntimeError
  · exact (recognises_decodeExtensions seg.trailerExtCount).bind_pure _

end QpskB210.Ltp.LtpSegment
