import SnapcastClient.Library.Channel
import SnapcastClient.Model.Proto

/-! # The server's registry of clients

Threads, channels and connections are named by numbers. Every operation here runs under the
registry's lock. The `u64` of the ids and of the dropped counts is a natural number: neither
grows faster than the steps of a run. -/

namespace SnapcastClient

structure EncodedChunk where
  timestamp : TimeVal
  data : List UInt8
  deriving DecidableEq, Repr

/-- A message queued for one client's writer thread. -/
inductive Outbound where
  | chunk (ec : EncodedChunk)
  | settings (s : ServerSettings)
  | codecHeader
  | timeReply (refersTo : UInt16) (clientSent received : TimeVal)
  deriving DecidableEq, Repr

def opusCodecHeader : CodecHeader where
  codec := "opus"
  metadata := .opus { sampleRate := 48000, bitDepth := 16, channelCount := 2 }

namespace Outbound

/-- The encoding in `run_writer`. -/
def asBuf (json : SerdeJson) (id : UInt16) (now : TimeVal) : Outbound → Outcome (List UInt8)
  | chunk ec => WireChunk.asBuf { timestamp := ec.timestamp, payload := ec.data } id now
  | settings s => s.asBuf json id now
  | codecHeader => opusCodecHeader.asBuf id now
  | timeReply refersTo clientSent received => Time.asBuf id refersTo now received clientSent

/-- The settings a message carries. -/
def settings? : Outbound → Option ServerSettings
  | settings s => some s
  | _ => none

end Outbound

abbrev ClientId := ℕ

abbrev ChannelId := ℕ

abbrev ConnId := ℕ

def channelSlots : ℕ := 16

/-- The sending end of a client's queue, and the connection whose socket it holds. -/
structure ClientHandle where
  tx : ChannelId
  sock : ConnId
  fullSince : Option ℤ
  dropped : ℕ
  deriving DecidableEq, Repr

/-- The handle after a chunk was offered to its queue, and whether the client counts as
wedged. A queue found full is dated `now`, and its age is read at `later`. -/
def ClientHandle.offered (h : ClientHandle) (limit now later : ℤ) :
    SendResult → ClientHandle × Bool
  | .sent => ({ h with fullSince := none }, false)
  | .full =>
      let since := h.fullSince.getD now
      ({ h with dropped := h.dropped + 1, fullSince := some since }, limit < later - since)
  | .disconnected => (h, true)

/-- The handles of the clients, each under an id handed out before. -/
structure Registry where
  clients : List (ClientId × ClientHandle)
  volume : UInt8
  nextId : ClientId
  bufferMs : UInt32
  nodup : (clients.map Prod.fst).Nodup
  fresh : ∀ p ∈ clients, p.1 < nextId

namespace Registry

def new (bufferMs : UInt32) (initialVolume : UInt8) : Registry where
  clients := []
  volume := initialVolume
  nextId := 0
  bufferMs
  nodup := List.nodup_nil
  fresh := by simp

def currentSettings (r : Registry) : ServerSettings where
  bufferMs := r.bufferMs
  latency := 0
  muted := false
  volume := r.volume

def get? (r : Registry) (id : ClientId) : Option ClientHandle :=
  (r.clients.find? (·.1 = id)).map Prod.snd

def register (r : Registry) (tx : ChannelId) (sock : ConnId) : ClientId × Registry :=
  (r.nextId, { r with
    clients := r.clients ++ [(r.nextId, { tx, sock, fullSince := none, dropped := 0 })]
    nextId := r.nextId + 1
    nodup := by
      rw [List.map_append, List.nodup_append]
      refine ⟨r.nodup, by simp, ?_⟩
      intro id hid next hnext
      obtain ⟨p, hp, rfl⟩ := List.mem_map.mp hid
      obtain rfl : next = r.nextId := List.mem_singleton.mp hnext
      exact Nat.ne_of_lt (r.fresh p hp)
    fresh := by
      intro p hp
      rcases List.mem_append.mp hp with hp | hp
      · exact Nat.lt_succ_of_lt (r.fresh p hp)
      · obtain rfl := List.mem_singleton.mp hp
        exact Nat.lt_succ_self _ })

/-- `HashMap::remove`. -/
def remove (r : Registry) (id : ClientId) : Registry :=
  { r with
    clients := r.clients.filter (·.1 ≠ id)
    nodup := r.nodup.sublist (List.filter_sublist.map _)
    fresh := fun p hp => r.fresh p (List.mem_of_mem_filter hp) }

def unregister (r : Registry) (id : ClientId) : Registry :=
  r.remove id

/-- The removal of a wedged client; its socket is shut down as well. -/
def disconnect (r : Registry) (id : ClientId) : Registry :=
  r.remove id

/-- The connection whose socket `disconnect` shuts down. -/
def disconnectShuts (r : Registry) (id : ClientId) : Option ConnId :=
  (r.get? id).map ClientHandle.sock

/-- Write to a handle through `iter_mut`. -/
def setHandle (r : Registry) (id : ClientId) (h : ClientHandle) : Registry :=
  let set (p : ClientId × ClientHandle) := if p.1 = id then (p.1, h) else p
  have hset (p : ClientId × ClientHandle) : (set p).1 = p.1 := by
    by_cases hp : p.1 = id <;> simp [set, hp]
  { r with
    clients := r.clients.map set
    nodup := by
      rw [List.map_map]
      exact (List.map_congr_left fun p _ => hset p) ▸ r.nodup
    fresh := by
      intro p hp
      obtain ⟨q, hq, rfl⟩ := List.mem_map.mp hp
      rw [hset]
      exact r.fresh q hq }

/-- The limit after which a full queue counts as wedged, in nanoseconds, unless doubling the
buffer overflows. -/
def wedgeLimit (r : Registry) : Option ℤ :=
  if r.bufferMs.toNat * 2 < 2 ^ 32 then some (r.bufferMs.toNat * 2 * 1000000) else none

/-- The first half of `broadcast_settings`: store the volume, and list the sends to do. -/
def storeVolume (r : Registry) (volume : UInt8) :
    List (ChannelId × ServerSettings) × Registry :=
  let r := { r with volume }
  (r.clients.map fun p => (p.2.tx, r.currentSettings), r)

end Registry

end SnapcastClient
