import SnapcastClient.Model.Registry
import SnapcastClient.Verification.ClientMachine
import SnapcastClient.Verification.Stream

/-! # The buffer time on both sides

The server counts the buffer in `u32` milliseconds, the client in `i32` microseconds. Both mean
the same up to what the smaller of the two can hold. -/

namespace SnapcastClient

theorem toInt_toInt32_eq_ite (x : UInt32) :
    x.toInt32.toInt = if x.toNat < 2147483648 then (x.toNat : ℤ) else x.toNat - 4294967296 := by
  have hlt := x.toNat_lt
  have hx : x.toInt32 = Int32.ofNat x.toNat := by
    rw [← UInt32.toInt32_ofNat', UInt32.ofNat_toNat]
  rw [hx, Int32.toInt_ofNat', Int.bmod_def]
  have hsize : Int32.size = 4294967296 := rfl
  rw [hsize]
  split <;> split <;> omega

/-- The largest number of milliseconds whose microseconds fit an `i32`. -/
def maxMillis : ℕ := 2147483

theorem TimeVal.fromMillis_exact_iff (x : UInt32) :
    (∃ r, fromMillis x.toInt32 = .ok r ∧ r.toMicros = x.toNat * 1000) ↔ x.toNat ≤ maxMillis := by
  have hcast := toInt_toInt32_eq_ite x
  rw [maxMillis]
  constructor
  · rintro ⟨r, hr, hmicros⟩
    have hmem := (fromMillis_eq_ok.mp hr).1
    have hexact := fromMillis_spec hr
    omega
  · intro hx
    rw [if_pos (by omega)] at hcast
    obtain ⟨r, hr⟩ := exists_fromMillis x.toInt32 (by omega)
    exact ⟨r, hr, by rw [fromMillis_spec hr, hcast]⟩

/-- The limit of `broadcast_chunk` in nanoseconds is exact unless doubling overflows. -/
theorem Registry.wedgeLimit_exact_iff (r : Registry) :
    r.wedgeLimit = some (2 * (r.bufferMs.toNat : ℤ) * 1000000) ↔ r.bufferMs.toNat < 2147483648 := by
  rw [wedgeLimit]
  split
  · rename_i h
    refine iff_of_true ?_ (by omega)
    rw [Int.mul_comm 2]
  · rename_i h
    exact iff_of_false nofun (by omega)

namespace ClientMachine

/-- The machine took in the settings, and holds their times exactly. -/
def TakesIn (json : SerdeJson) (m : ClientMachine) (st : ServerSettings) (frame : Frame)
    (nowUs : ℤ) : Prop :=
  ∃ m', (m.pending frame.base).handleEvent json (.packetReceived frame.payload) nowUs =
      (.ok (.serverSettings st), m') ∧
    m'.serverBufferMs.toMicros = st.bufferMs.toNat * 1000 ∧
    m'.localLatency.toMicros = st.latency.toNat * 1000

theorem takesIn_iff {json : SerdeJson} (m : ClientMachine) {st : ServerSettings} {frame : Frame}
    (hdecode : frame.base.decode json frame.payload = .ok (.serverSettings st)) (nowUs : ℤ) :
    m.TakesIn json st frame nowUs ↔
      st.bufferMs.toNat ≤ maxMillis ∧ st.latency.toNat ≤ maxMillis := by
  rw [TakesIn, handleEvent_packet rfl, ← TimeVal.fromMillis_exact_iff,
    ← TimeVal.fromMillis_exact_iff]
  constructor
  · rintro ⟨m', h, hbuffer, hlatency⟩
    simp only [processPacket, hdecode] at h
    split at h
    · cases h
    · rename_i m₁ hsettings
      obtain ⟨-, rfl⟩ := Prod.mk.inj h
      obtain ⟨buffer, hbuffer', hsettings⟩ := bind_eq_ok.mp hsettings
      obtain ⟨latency, hlatency', hsettings⟩ := bind_eq_ok.mp hsettings
      obtain rfl := Except.ok.inj hsettings
      exact ⟨⟨buffer, hbuffer', hbuffer⟩, ⟨latency, hlatency', hlatency⟩⟩
  · rintro ⟨⟨buffer, hbuffer', hbuffer⟩, ⟨latency, hlatency', hlatency⟩⟩
    refine ⟨{ m with framing := .new, serverBufferMs := buffer, localLatency := latency }, ?_,
      hbuffer, hlatency⟩
    simp only [processPacket, hdecode, processSettings, hbuffer', hlatency', ok_bind]
    rfl

/-- The settings a server sends reach the client, and the buffer and the latency mean the same
there, and the wedge limit is twice the buffer, exactly up to 2147483 milliseconds. -/
theorem settings_exact_iff {json : SerdeJson} (hjson : json.SettingsLaws) (m : ClientMachine)
    (r : Registry) (latency : UInt32) (muted : Bool) (volume : UInt8) (id : UInt16)
    (sent : TimeVal) (headerUs nowUs : ℤ) :
    ∃ frame : Frame,
      ServerSettings.asBuf json ⟨r.bufferMs, latency, muted, volume⟩ id sent = .ok frame.bytes ∧
      m.handleEvent json (.headerReceived frame.header) headerUs =
        (.ok .nothing, m.pending frame.base) ∧
      (m.TakesIn json ⟨r.bufferMs, latency, muted, volume⟩ frame nowUs ∧
        r.wedgeLimit = some (2 * (r.bufferMs.toNat : ℤ) * 1000000) ↔
        r.bufferMs.toNat ≤ maxMillis ∧ latency.toNat ≤ maxMillis) := by
  let w : ServerWrite := .serverSettings ⟨r.bufferMs, latency, muted, volume⟩ id sent
  refine ⟨w.frame, w.asBuf_eq hjson, handleEvent_header json m w.frame headerUs, ?_⟩
  rw [takesIn_iff m (w.decode_payload hjson), r.wedgeLimit_exact_iff]
  refine ⟨fun h => h.1, fun h => ⟨h, ?_⟩⟩
  have hbuffer := h.1
  rw [maxMillis] at hbuffer
  omega

theorem settings_exact_default :
    ∃ frame : Frame, ServerSettings.asBuf .compact ⟨1000, 20, false, 100⟩ 0 .zero =
        .ok frame.bytes ∧
      new.TakesIn .compact ⟨1000, 20, false, 100⟩ frame 0 := by
  obtain ⟨frame, hframe, -, hexact⟩ := settings_exact_iff SerdeJson.compact_settingsLaws new
    (.new 1000 100) 20 false 100 0 .zero 0 0
  exact ⟨frame, hframe, (hexact.mpr (by decide)).1⟩

/-- The largest latency comes out as minus one millisecond. -/
theorem settings_wrap :
    ∃ frame : Frame, ServerSettings.asBuf .compact ⟨1000, 4294967295, false, 100⟩ 0 .zero =
        .ok frame.bytes ∧
      ((new.pending frame.base).handleEvent .compact
        (.packetReceived frame.payload) 0).2.localLatency.toMicros = -1000 ∧
      ¬ new.TakesIn .compact ⟨1000, 4294967295, false, 100⟩ frame 0 := by
  let w : ServerWrite := .serverSettings ⟨1000, 4294967295, false, 100⟩ 0 .zero
  refine ⟨w.frame, w.asBuf_eq SerdeJson.compact_settingsLaws, by decide +kernel, ?_⟩
  rw [takesIn_iff new (w.decode_payload SerdeJson.compact_settingsLaws)]
  decide

end ClientMachine

end SnapcastClient
