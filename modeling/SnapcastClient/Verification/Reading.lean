import SnapcastClient.Verification.Session
import Mathlib.Tactic.IntervalCases

/-! # A server session reads any byte stream as its specification does

The reference knows no framing and no session: it cuts the stream into headers and announced
payloads, and judges each by the numbers at fixed places. -/

namespace SnapcastClient

/-! ## The reference -/

/-- The little-endian number at a place of a byte string. -/
def field (buf : List UInt8) (start width : ℕ) : ℕ :=
  LittleEndian.ofBytes ((buf.drop start).take width)

/-- Why a stream is not read any further. -/
inductive Refusal where
  | illegalType (code : ℕ)
  | oversized (size : ℕ)
  | unexpectedType (code : ℕ)
  | shortHello
  | helloLength (len : ℕ)
  | helloJson (message : String)
  | shortTime
  | timeBeforeHello
  deriving DecidableEq, Repr

namespace Refusal

def typeNames : List String :=
  ["Base", "CodecHeader", "WireChunk", "ServerSettings", "Time", "Hello", "StreamTags",
    "ClientInfo"]

def text : Refusal → String
  | illegalType code => s!"illegal message type {code}"
  | oversized size => s!"payload size {size} exceeds max"
  | unexpectedType code => "unexpected client message type " ++ typeNames.getD code ""
  | shortHello => "short hello"
  | helloLength len => s!"hello length {len} out of range"
  | helloJson message => message
  | shortTime => "short Time payload"
  | timeBeforeHello => "received a Time request before Hello"

def ending (refusal : Refusal) : ServerSession.Ending :=
  .failed (.error refusal.text)

end Refusal

namespace Reading

def headerRefusal (header : List UInt8) : Option Refusal :=
  if 7 < field header 0 2 then some (.illegalType (field header 0 2))
  else if 2 ^ 20 < field header 22 4 then some (.oversized (field header 22 4))
  else none

/-- The timestamp at a place of a byte string. -/
def timeVal (buf : List UInt8) (start : ℕ) : TimeVal :=
  ⟨(UInt32.ofNat (field buf start 4)).toInt32, (UInt32.ofNat (field buf (start + 4) 4)).toInt32⟩

def hello (json : SerdeJson) (payload : List UInt8) : Except Refusal ClientHello :=
  if payload.length < 4 then .error .shortHello
  else if payload.length - 4 < field payload 0 4 then .error (.helloLength (field payload 0 4))
  else (json.helloFromSlice ((payload.drop 4).take (field payload 0 4))).mapError .helloJson

/-- What a frame of an accepted header comes to. -/
def judge (json : SerdeJson) (greeted : Bool) (header payload : List UInt8) (now : TimeVal) :
    Except Refusal SessionOutput :=
  match field header 0 2 with
  | 5 => (hello json payload).map .hello
  | 4 =>
      if payload.length < 8 then .error .shortTime
      else if greeted then
        .ok (.timeRequest (UInt16.ofNat (field header 2 2)) (timeVal header 6) now)
      else .error .timeBeforeHello
  | code => .error (.unexpectedType code)

/-- `greeted` tells whether a Hello has been accepted before. A frame takes two events, and
the clock of its second one goes into its output. -/
def reading (json : SerdeJson) (greeted : Bool) (bytes : List UInt8) (clock : ℕ → TimeVal) :
    List SessionOutput × ServerSession.Ending :=
  if _hshort : bytes.length < 26 then ([], .endOfStream)
  else
    let header := bytes.take 26
    let rest := bytes.drop 26
    let size := field header 22 4
    match headerRefusal header with
    | some refusal => ([], refusal.ending)
    | none =>
        if rest.length < size then ([], .endOfStream)
        else
          match judge json greeted header (rest.take size) (clock 1) with
          | .error refusal => ([], refusal.ending)
          | .ok out =>
              let (outs, ending) :=
                reading json (greeted || field header 0 2 == 5) (rest.drop size)
                  fun i => clock (i + 2)
              (out :: outs, ending)
termination_by bytes.length
decreasing_by
  simp only [List.length_drop]
  omega

end Reading

/-! ## Numbers at fixed places -/

theorem field_lt (buf : List UInt8) (start width : ℕ) : field buf start width < 256 ^ width :=
  (LittleEndian.ofBytes_lt _).trans_le
    (Nat.pow_le_pow_right (by decide) (List.length_take_le _ _))

theorem slice_width (buf : List UInt8) (start width : ℕ) (h : start + width ≤ buf.length) :
    slice buf start (start + width) = .ok ((buf.drop start).take width) := by
  rw [slice_of_le _ _ _ (Nat.le_add_right start width) h, List.drop_take, Nat.add_sub_cancel_left]

theorem sliceToU16_of_le {buf : List UInt8} (h : 2 ≤ buf.length) :
    sliceToU16 buf = .ok (UInt16.ofNat (LittleEndian.ofBytes (buf.take 2))) := by
  match buf, h with
  | _ :: _ :: _, _ => rfl

theorem sliceToU32_of_le {buf : List UInt8} (h : 4 ≤ buf.length) :
    sliceToU32 buf = .ok (UInt32.ofNat (LittleEndian.ofBytes (buf.take 4))) := by
  match buf, h with
  | _ :: _ :: _ :: _ :: _, _ => rfl

theorem sliceToU16_field (buf : List UInt8) (start : ℕ) (h : start + 2 ≤ buf.length) :
    sliceToU16 ((buf.drop start).take 2) = .ok (UInt16.ofNat (field buf start 2)) := by
  rw [sliceToU16_of_le (by rw [List.length_take, List.length_drop]; omega), List.take_take]
  rfl

theorem sliceToU32_field (buf : List UInt8) (start : ℕ) (h : start + 4 ≤ buf.length) :
    sliceToU32 ((buf.drop start).take 4) = .ok (UInt32.ofNat (field buf start 4)) := by
  rw [sliceToU32_of_le (by rw [List.length_take, List.length_drop]; omega), List.take_take]
  rfl

theorem toNat_field16 (buf : List UInt8) (start : ℕ) :
    (UInt16.ofNat (field buf start 2)).toNat = field buf start 2 :=
  UInt16.toNat_ofNat_of_lt' (field_lt buf start 2)

theorem toNat_field32 (buf : List UInt8) (start : ℕ) :
    (UInt32.ofNat (field buf start 4)).toNat = field buf start 4 :=
  UInt32.toNat_ofNat_of_lt' (field_lt buf start 4)

theorem timeVal_field (buf : List UInt8) (start : ℕ) (h : start + 8 ≤ buf.length) :
    TimeVal.ofSlice ((buf.drop start).take 8) = .ok (Reading.timeVal buf start) := by
  have hlen : ((buf.drop start).take 8).length = 8 := by
    rw [List.length_take, List.length_drop]
    omega
  have hsec : slice ((buf.drop start).take 8) 0 4 = .ok ((buf.drop start).take 4) := by
    rw [slice_of_le _ _ _ (by decide) (by omega), List.take_take]
    rfl
  have husec : slice ((buf.drop start).take 8) 4 8 = .ok ((buf.drop (start + 4)).take 4) := by
    rw [slice_of_le _ _ _ (by decide) (by omega), List.take_take, List.drop_take, List.drop_drop]
    rfl
  simp only [TimeVal.ofSlice, hsec, husec, ok_bind, sliceToI32,
    sliceToU32_field buf start (by omega), sliceToU32_field buf (start + 4) (by omega), pure_eq_ok]
  rfl

/-! ## Headers -/

namespace MessageType

theorem tryFrom_eq_ok {u : UInt16} {mtype : MessageType} :
    tryFrom u = .ok mtype ↔ mtype.toU16 = u := by
  constructor
  · intro h
    unfold tryFrom at h
    split at h <;> cases h <;> rfl
  · rintro rfl
    exact tryFrom_toU16 mtype

theorem exists_tryFrom {u : UInt16} (h : u.toNat ≤ 7) : ∃ mtype, tryFrom u = .ok mtype := by
  rw [← u.ofNat_toNat]
  generalize u.toNat = n at h
  interval_cases n <;> exact ⟨_, rfl⟩

theorem tryFrom_of_lt {u : UInt16} (h : 7 < u.toNat) :
    tryFrom u = bail s!"illegal message type {u}" := by
  unfold tryFrom
  split <;> simp at h ⊢

end MessageType

namespace Reading

variable {json : SerdeJson} {header payload : List UInt8} {refusal : Refusal}

/-- The fields behind the type and the size. -/
def base (mtype : MessageType) (header : List UInt8) : Base :=
  { mtype, id := UInt16.ofNat (field header 2 2), refersTo := UInt16.ofNat (field header 4 2),
    sentTv := timeVal header 6, receivedTv := timeVal header 14,
    size := UInt32.ofNat (field header 22 4) }

/-- Everything that a header parser does not check can be read off a whole header. -/
theorem tryFrom_eq (hlen : Base.baseSize ≤ header.length) :
    Base.tryFrom header = do
      let mtype ← MessageType.tryFrom (UInt16.ofNat (field header 0 2))
      ensure (field header 22 4 ≤ Base.maxPayload)
        s!"payload size {UInt32.ofNat (field header 22 4)} exceeds max"
      return base mtype header := by
  rw [Base.baseSize] at hlen
  have hmtype := slice_width header 0 2 (by omega)
  have hsize := slice_width header 22 4 (by omega)
  have hid := slice_width header 2 2 (by omega)
  have hrefersTo := slice_width header 4 2 (by omega)
  have hsentTv := slice_width header 6 8 (by omega)
  have hreceivedTv := slice_width header 14 8 (by omega)
  rw [Base.tryFrom, ensure_of _ (by rw [Base.baseSize]; omega), ok_bind, hmtype, ok_bind,
    sliceToU16_field header 0 (by omega), ok_bind, hsize]
  simp only [ok_bind, sliceToU32_field header 22 (by omega), hid, hrefersTo, hsentTv, hreceivedTv,
    sliceToU16_field header 2 (by omega), sliceToU16_field header 4 (by omega),
    timeVal_field header 6 (by omega), timeVal_field header 14 (by omega), toNat_field32]
  rfl

theorem toString_field16 (buf : List UInt8) (start : ℕ) :
    toString (UInt16.ofNat (field buf start 2)) = toString (field buf start 2) :=
  congrArg toString (toNat_field16 buf start)

theorem toString_field32 (buf : List UInt8) (start : ℕ) :
    toString (UInt32.ofNat (field buf start 4)) = toString (field buf start 4) :=
  congrArg toString (toNat_field32 buf start)

theorem tryFrom_of_refusal (hlen : Base.baseSize ≤ header.length)
    (h : headerRefusal header = some refusal) : Base.tryFrom header = bail refusal.text := by
  rw [tryFrom_eq hlen]
  rw [headerRefusal] at h
  split at h
  · rename_i hcode
    obtain rfl := Option.some.inj h
    rw [MessageType.tryFrom_of_lt (by rwa [toNat_field16]), toString_field16]
    rfl
  · rename_i hcode
    split at h
    · rename_i hsize
      obtain rfl := Option.some.inj h
      obtain ⟨mtype, hmtype⟩ := MessageType.exists_tryFrom (u := UInt16.ofNat (field header 0 2))
        (by rw [toNat_field16]; omega)
      rw [hmtype, ok_bind, ensure_of_not _ (by rw [Base.maxPayload]; omega), toString_field32]
      rfl
    · cases h

theorem exists_base (hlen : Base.baseSize ≤ header.length) (h : headerRefusal header = none) :
    ∃ mtype : MessageType, mtype.toU16.toNat = field header 0 2 ∧
      Base.tryFrom header = .ok (base mtype header) := by
  rw [headerRefusal] at h
  split at h
  · cases h
  · rename_i hcode
    split at h
    · cases h
    · rename_i hsize
      obtain ⟨mtype, hmtype⟩ := MessageType.exists_tryFrom (u := UInt16.ofNat (field header 0 2))
        (by rw [toNat_field16]; omega)
      refine ⟨mtype, ?_, ?_⟩
      · rw [MessageType.tryFrom_eq_ok.mp hmtype, toNat_field16]
      · rw [tryFrom_eq hlen, hmtype, ok_bind, ensure_of _ (by rw [Base.maxPayload]; omega)]
        rfl

/-! ## Payloads -/

theorem tryFrom_hello (json : SerdeJson) (payload : List UInt8) :
    ClientHello.tryFrom json payload =
      (hello json payload).mapError fun refusal => .error refusal.text := by
  by_cases hfour : payload.length < 4
  · rw [ClientHello.tryFrom, ensure_of_not _ (by omega), hello, if_pos hfour]
    rfl
  have hlen : sliceToU32 payload = .ok (UInt32.ofNat (field payload 0 4)) :=
    sliceToU32_of_le (by omega)
  rw [ClientHello.tryFrom, ensure_of _ (by omega), ok_bind, hlen, ok_bind, hello, if_neg hfour]
  simp only [toNat_field32]
  by_cases hstop : payload.length - 4 < field payload 0 4
  · rw [ensure_of_not _ (by omega), if_pos hstop, toString_field32]
    rfl
  · rw [ensure_of _ (by omega), if_neg hstop, ok_bind, Nat.add_comm,
      slice_width payload 4 _ (by omega), ok_bind]
    cases json.helloFromSlice ((payload.drop 4).take (field payload 0 4)) <;> rfl

theorem tryFrom_time (payload : List UInt8) :
    Time.tryFrom payload = if payload.length < 8 then bail Refusal.shortTime.text
      else .ok ⟨timeVal payload 0⟩ := by
  by_cases hlen : payload.length < 8
  · rw [Time.tryFrom, ensure_of_not _ (by omega), if_pos hlen]
    rfl
  · have hslice := slice_width payload 0 8 (by omega)
    rw [Time.tryFrom, ensure_of _ (by omega), if_neg hlen, ok_bind, hslice, ok_bind,
      timeVal_field payload 0 (by omega)]
    rfl

/-- A session handles the payload of an accepted header as the reference judges it. -/
theorem handleEvent_packet (json : SerdeJson) (s : ServerSession) {mtype : MessageType}
    (hmtype : mtype.toU16.toNat = field header 0 2) (payload : List UInt8) (now : TimeVal) :
    (s.pending (base mtype header)).handleEvent json (.packetReceived payload) now =
      match judge json s.greeted header payload now with
      | .error refusal => (bail refusal.text, ⟨.new, s.greeted⟩)
      | .ok out => (.ok out, ⟨.new, s.greeted || field header 0 2 == 5⟩) := by
  obtain ⟨framing, greeted⟩ := s
  simp only [ServerSession.handleEvent, ServerSession.pending, Framing.takeBase, Base.decodeC, base,
    judge, ← hmtype]
  cases mtype with
  | hello =>
      dsimp only [MessageType.toU16]
      rw [tryFrom_hello]
      cases hello json payload with
      | error refusal => rfl
      | ok h => simp [Except.mapError, Except.map, Framing.new]
  | time =>
      dsimp only [MessageType.toU16]
      rw [tryFrom_time]
      by_cases hlen : payload.length < 8
      · simp only [hlen, if_true]
        rfl
      · cases greeted <;> simp only [hlen, if_false] <;> rfl
  | _ => rfl

/-! ## The run -/

variable {bytes : List UInt8} {greeted : Bool}

theorem drive_header (h : ¬ bytes.length < Base.baseSize) (clock : ℕ → TimeVal) :
    ServerSession.drive json ⟨.new, greeted⟩ bytes clock =
      match Base.tryFrom (bytes.take Base.baseSize) with
      | .error fault => ([], .failed fault)
      | .ok base => ServerSession.drive json ⟨⟨.readingPacket base⟩, greeted⟩
          (bytes.drop Base.baseSize) fun i => clock (i + 1) := by
  have hread : ¬ bytes.length < (ServerSession.mk .new greeted).nextAction.bytes := h
  rw [ServerSession.drive, dif_neg hread]
  simp only [ServerSession.nextAction, Framing.nextAction, Framing.new, ServerSession.handleEvent,
    Action.bytes, Framing.onHeader]
  cases Base.tryFrom (bytes.take Base.baseSize) <;> rfl

theorem drive_packet {base : Base} (h : ¬ bytes.length < base.size.toNat) (clock : ℕ → TimeVal) :
    ServerSession.drive json ⟨⟨.readingPacket base⟩, greeted⟩ bytes clock =
      match ServerSession.handleEvent json ⟨⟨.readingPacket base⟩, greeted⟩
          (.packetReceived (bytes.take base.size.toNat)) (clock 0) with
      | (.error fault, _) => ([], .failed fault)
      | (.ok out, s') =>
          let (outs, ending) := ServerSession.drive json s' (bytes.drop base.size.toNat)
            fun i => clock (i + 1)
          (out :: outs, ending) := by
  have hread : ¬ bytes.length <
      (ServerSession.mk ⟨.readingPacket base⟩ greeted).nextAction.bytes := h
  rw [ServerSession.drive, dif_neg hread]
  dsimp only [ServerSession.nextAction, Framing.nextAction, Action.bytes]
  split
  · rename_i hout
    rw [hout]
  · rename_i hout
    rw [hout]

theorem drive_short {s : ServerSession} (h : bytes.length < s.nextAction.bytes)
    (clock : ℕ → TimeVal) : s.drive json bytes clock = ([], .endOfStream) := by
  rw [ServerSession.drive, dif_pos h]

theorem drive_eq_reading (json : SerdeJson) (greeted : Bool) (bytes : List UInt8)
    (clock : ℕ → TimeVal) :
    ServerSession.drive json ⟨.new, greeted⟩ bytes clock = reading json greeted bytes clock := by
  induction hn : bytes.length using Nat.strong_induction_on generalizing greeted bytes clock with
  | _ n ih =>
  subst hn
  rw [reading]
  by_cases hshort : bytes.length < 26
  · rw [dif_pos hshort, drive_short hshort]
  rw [dif_neg hshort, drive_header hshort]
  have hlen : (bytes.take 26).length = Base.baseSize := List.length_take_of_le (by omega)
  dsimp only
  cases hheader : headerRefusal (bytes.take 26) with
  | some refusal =>
      rw [Base.baseSize] at hlen ⊢
      rw [tryFrom_of_refusal hlen.ge hheader]
      rfl
  | none =>
      obtain ⟨mtype, hmtype, hbase⟩ := exists_base hlen.ge hheader
      rw [Base.baseSize, hbase]
      dsimp only
      have hsize : (base mtype (bytes.take 26)).size.toNat = field (bytes.take 26) 22 4 :=
        toNat_field32 _ _
      by_cases hpayload : (bytes.drop 26).length < field (bytes.take 26) 22 4
      · have hread : (bytes.drop 26).length < (base mtype (bytes.take 26)).size.toNat := by
          rwa [hsize]
        rw [if_pos hpayload]
        exact drive_short hread _
      · rw [if_neg hpayload, drive_packet (hsize ▸ hpayload), hsize]
        have hevent := handleEvent_packet json ⟨.new, greeted⟩ hmtype
          ((bytes.drop 26).take (field (bytes.take 26) 22 4)) (clock 1)
        rw [ServerSession.pending] at hevent
        dsimp only at hevent ⊢
        rw [hevent]
        cases judge json greeted (bytes.take 26) _ (clock 1) with
        | error refusal => rfl
        | ok out =>
            dsimp only
            rw [ih _ ?_ _ _ _ rfl]
            simp only [List.length_drop]
            omega

theorem reading_ending (json : SerdeJson) (greeted : Bool) (bytes : List UInt8)
    (clock : ℕ → TimeVal) :
    (reading json greeted bytes clock).2 = .endOfStream ∨
      ∃ refusal : Refusal, (reading json greeted bytes clock).2 = refusal.ending := by
  fun_induction reading json greeted bytes clock with
  | case1 => exact .inl rfl
  | case2 greeted bytes clock hshort header refusal hheader => exact .inr ⟨refusal, rfl⟩
  | case3 => exact .inl rfl
  | case4 greeted bytes clock hshort header rest size hheader hpayload refusal hjudge =>
      exact .inr ⟨refusal, rfl⟩
  | case5 greeted bytes clock hshort header rest size hheader hpayload out hjudge outs ending
      hrest ih =>
      rwa [hrest] at ih

/-- On any bytes and at any times a session puts out what the reference reads, ends as it
ends, and never panics. -/
theorem drive_refines (json : SerdeJson) (bytes : List UInt8) (clock : ℕ → TimeVal) :
    ServerSession.new.drive json bytes clock = reading json false bytes clock ∧
      ∀ reason, (ServerSession.new.drive json bytes clock).2 ≠ .failed (.panicked reason) := by
  have heq : ServerSession.new.drive json bytes clock = reading json false bytes clock :=
    drive_eq_reading json false bytes clock
  refine ⟨heq, fun reason => ?_⟩
  rw [heq]
  rcases reading_ending json false bytes clock with h | ⟨refusal, h⟩
  · rw [h]
    rintro ⟨⟩
  · rw [h]
    rintro ⟨⟩

end Reading

end SnapcastClient
