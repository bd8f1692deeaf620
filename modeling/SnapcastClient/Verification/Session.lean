import SnapcastClient.Model.ServerSession
import SnapcastClient.Verification.Decode
import SnapcastClient.Verification.SerdeJson

/-! # What a server session makes of a client's frames -/

namespace SnapcastClient

namespace ServerSession

variable {json : SerdeJson}

/-- The session between the two halves of a frame. -/
def pending (s : ServerSession) (base : Base) : ServerSession :=
  { s with framing := ⟨.readingPacket base⟩ }

theorem handleEvent_header (json : SerdeJson) (s : ServerSession) (frame : Frame) (now : TimeVal) :
    s.handleEvent json (.headerReceived frame.header) now =
      (.ok .none, s.pending frame.base) := by
  rw [handleEvent, s.framing.onHeader_frame]
  rfl

/-- Feeding a frame to a session at a frame boundary handles its payload under its header. -/
theorem feed_frame (json : SerdeJson) {s : ServerSession} (hs : s.framing = .new) (frame : Frame)
    (now : TimeVal) :
    s.feed json frame.bytes now =
      (s.pending frame.base).handleEvent json (.packetReceived frame.payload) now := by
  have hn : s.nextAction.bytes = Base.baseSize := by
    rw [nextAction, hs]
    rfl
  have hpayload : (frame.bytes.drop Base.baseSize).take
      (s.pending frame.base).nextAction.bytes = frame.payload := by
    rw [Frame.bytes, List.drop_left' frame.header_length]
    exact List.take_of_length_le frame.payload_length.le
  rw [feed, hn, Frame.bytes, List.take_left' frame.header_length, handleEvent_header,
    ← Frame.bytes]
  dsimp only
  rw [hpayload]

/-- A session fed the bytes it asked for never panics. -/
theorem returns_handleEvent (json : SerdeJson) (s : ServerSession) (bytes : List UInt8)
    (now : TimeVal) : Returns (s.handleEvent json (s.nextAction.event bytes) now).1 := by
  obtain ⟨⟨state⟩, greeted⟩ := s
  cases state with
  | readingHeader =>
      have hheader : Returns (Framing.onHeader ⟨.readingHeader⟩ bytes) :=
        (returns_bind (Base.returns_tryFrom bytes)).mpr fun _ _ => returns_ok _
      change Returns (handleEvent json _ (.headerReceived bytes) now).1
      simp only [handleEvent]
      cases h : Framing.onHeader ⟨.readingHeader⟩ bytes with
      | error fault => exact (h ▸ hheader).of_error
      | ok framing => exact returns_ok _
  | readingPacket base =>
      have hdecode := base.returns_decodeC json bytes
      change Returns (handleEvent json _ (.packetReceived bytes) now).1
      simp only [handleEvent, Framing.takeBase]
      cases h : base.decodeC json bytes with
      | error fault => exact (h ▸ hdecode).of_error
      | ok message =>
          cases message with
          | hello hello => exact returns_ok _
          | time t =>
              by_cases hgreeted : greeted
              · simp only [hgreeted, if_true]
                exact returns_ok _
              · simp only [hgreeted]
                exact returns_bail _

theorem handleEvent_hello {s : ServerSession} {base : Base} (hbase : base.mtype = .hello)
    (payload : List UInt8) (now : TimeVal) (h : ClientHello) :
    ((s.pending base).handleEvent json (.packetReceived payload) now).1 = .ok (.hello h) ↔
      ClientHello.tryFrom json payload = .ok h := by
  simp only [handleEvent, pending, Framing.takeBase, Base.decodeC, hbase]
  cases ClientHello.tryFrom json payload with
  | error fault => simp
  | ok h' => simp

/-- A greeted session echoes the id and the timestamp of a request and adds its own clock. -/
theorem feed_time (id refersTo : UInt16) (sentTv receivedTv latency now : TimeVal) :
    feed json ⟨.new, true⟩ (Time.frame id refersTo sentTv receivedTv latency).bytes now =
      (.ok (.timeRequest id sentTv now), ⟨.new, true⟩) := by
  have hdecode : (Time.frame id refersTo sentTv receivedTv latency).base.decodeC json
      (Time.frame id refersTo sentTv receivedTv latency).payload = .ok (.time ⟨latency⟩) := by
    change ClientMessage.time <$> Time.tryFrom latency.asBuf = _
    rw [Time.tryFrom_asBuf]
    rfl
  rw [feed_frame json rfl]
  simp only [handleEvent, pending, Framing.takeBase, hdecode, if_true]
  rfl

end ServerSession

/-! ## The greeting -/

namespace ClientHello

def encode (text : String) : List UInt8 :=
  u32Bytes (UInt32.ofNat (utf8Bytes text).length) ++ utf8Bytes text

theorem encode_length (text : String) : (encode text).length = 4 + (utf8Bytes text).length := by
  simp only [encode, List.length_append, u32Bytes_length]

/-- The length prefix cuts out the JSON text. -/
theorem tryFrom_encode (json : SerdeJson) {text : String}
    (hlen : (utf8Bytes text).length ≤ Base.maxPayload) :
    tryFrom json (encode text) =
      match json.helloFromSlice (utf8Bytes text) with
      | .ok h => .ok h
      | .error message => bail message := by
  have hsize : sliceToU32 (encode text) = .ok (UInt32.ofNat (utf8Bytes text).length) :=
    sliceToU32_eq_ok.mpr ⟨_, rfl⟩
  have hfour : 4 ≤ (encode text).length := by
    rw [encode_length]
    omega
  have hstop : (utf8Bytes text).length + 4 ≤ (encode text).length := by
    rw [encode_length]
    omega
  have hbuf : encode text =
      u32Bytes (UInt32.ofNat (utf8Bytes text).length) ++ (utf8Bytes text ++ []) := by
    simp [encode]
  have hslice := slice_append 4 ((utf8Bytes text).length + 4) hbuf (by simp)
    (by simp [Nat.add_comm])
  simp only [tryFrom, ensure_of _ hfour, ok_bind, hsize,
    toNat_ofNat_length (lt_size_of_le_maxPayload hlen), ensure_of _ hstop, hslice]
  rfl

/-- The header of a greeting. -/
def base (text : String) : Base :=
  { mtype := .hello, id := 0, refersTo := 0, sentTv := .zero, receivedTv := .zero,
    size := UInt32.ofNat (encode text).length }

theorem asBuf_eq {json : SerdeJson} (hjson : json.HelloLaws) (h : ClientHello) :
    h.asBuf json =
      .ok ((base (h.mapStrings escape).text).header ++ encode (h.mapStrings escape).text) := by
  simp only [asBuf, hjson.print, unwrapJson, ok_bind, Base.asBuf_eq]
  rfl

/-- What an escaped greeting decodes to. -/
theorem tryFrom_encode_iff {json : SerdeJson} (hjson : json.HelloLaws) (h : ClientHello)
    (hlen : (utf8Bytes (h.mapStrings escape).text).length ≤ Base.maxPayload) :
    tryFrom json (encode (h.mapStrings escape).text) = .ok h ↔ h.Plain := by
  rw [tryFrom_encode json hlen]
  constructor
  · intro hok
    by_contra hplain
    obtain ⟨message, herror⟩ := hjson.copy h (exists_backslash_of_not_plain hplain)
    rw [herror] at hok
    cases hok
  · intro hplain
    rw [mapStrings_escape_of_plain hplain, hjson.borrow h hplain]

/-- A greeting always encodes, and when the encoding fits it comes back from a fresh session
exactly when none of its strings needs a JSON escape. -/
theorem feed_asBuf_iff {json : SerdeJson} (hjson : json.HelloLaws) (h : ClientHello) :
    ∃ buf, h.asBuf json = .ok buf ∧ (buf.length ≤ Base.baseSize + Base.maxPayload →
      ∀ now, (ServerSession.new.feed json buf now).1 = .ok (.hello h) ↔ h.Plain) := by
  refine ⟨_, asBuf_eq hjson h, fun hfits now => ?_⟩
  rw [List.length_append, Base.header_length, Nat.add_le_add_iff_left] at hfits
  have hlen : (utf8Bytes (h.mapStrings escape).text).length ≤ Base.maxPayload := by
    rw [encode_length] at hfits
    omega
  let frame := Frame.ofBase (base (h.mapStrings escape).text) (encode (h.mapStrings escape).text)
    (toNat_ofNat_length (lt_size_of_le_maxPayload hfits)).symm hfits
  have hfeed := ServerSession.feed_frame json (s := .new) rfl frame now
  change (ServerSession.new.feed json frame.bytes now).1 = _ ↔ _
  rw [hfeed, ServerSession.handleEvent_hello rfl]
  exact tryFrom_encode_iff hjson h hlen

/-- The greeting of the session tests. -/
def sample : ClientHello :=
  { MAC := "aa:bb:cc:dd:ee:ff", HostName := "test", Version := "0.17.1", ClientName := "test",
    OS := "linux", Arch := "x86_64", Instance := 1, ID := "aa:bb:cc:dd:ee:ff",
    SnapStreamProtocolVersion := 2 }

theorem feed_asBuf_sample :
    ∃ buf, sample.asBuf .compact = .ok buf ∧
      (ServerSession.new.feed .compact buf .zero).1 = .ok (.hello sample) := by
  obtain ⟨buf, hbuf, hfeed⟩ := feed_asBuf_iff SerdeJson.compact_helloLaws sample
  refine ⟨buf, hbuf, (hfeed ?_ .zero).mpr (by decide +kernel)⟩
  obtain rfl := Except.ok.inj ((asBuf_eq SerdeJson.compact_helloLaws sample).symm.trans hbuf)
  decide +kernel

/-- A host name with a double quote is printed with an escape and refused on the way back. -/
theorem feed_asBuf_quote :
    ¬ ∀ (h : ClientHello) (buf : List UInt8), h.asBuf .compact = .ok buf →
      buf.length ≤ Base.baseSize + Base.maxPayload →
      (ServerSession.new.feed .compact buf .zero).1 = .ok (.hello h) := by
  intro hall
  let h := { sample with HostName := "living \x22room\x22" }
  have hfeed := hall h _ (asBuf_eq SerdeJson.compact_helloLaws h) (by decide +kernel)
  revert hfeed
  decide +kernel

end ClientHello

end SnapcastClient
