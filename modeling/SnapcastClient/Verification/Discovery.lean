import SnapcastClient.Verification.Mdns

/-! # Whose address a response yields

A message may speak of several hosts. What ties an SRV record to an A record is the name of
a host, and the parser skips every name. -/

namespace SnapcastClient

open Dns

variable {message : Dns.Message}

/-! ## Hosts -/

/-- The target of the SRV record, which follows priority, weight and port, is the owner of
the A record. -/
def SameHost (message : Dns.Message) (srv a : Record) : Prop :=
  ∃ (name : Name) (host : List (List UInt8)), srv.rdata.drop 6 = name.encode ∧
    Resolves message.encode name host ∧ Resolves message.encode a.name host

/-- Some host of the message serves at the port and has the address. -/
def Advertises (message : Dns.Message) (addr : SocketAddr) : Prop :=
  ∃ srv ∈ message.records, ∃ a ∈ message.records,
    portOf srv.rtype srv.rdata = some addr.port ∧ addressOf a.rtype a.rdata = some addr.ip ∧
      SameHost message srv a

/-! ## The last records -/

def lastService (message : Dns.Message) : Option Record :=
  (message.records.filter fun r => (portOf r.rtype r.rdata).isSome).getLast?

def lastAddress (message : Dns.Message) : Option Record :=
  (message.records.filter fun r => (addressOf r.rtype r.rdata).isSome).getLast?

/-- The last SRV record and the last A record belong to one host, or else two records with
the same port and the same address do. -/
def LastMatch (message : Dns.Message) : Prop :=
  ∀ srv a, lastService message = some srv → lastAddress message = some a →
    ∃ srv' ∈ message.records, ∃ a' ∈ message.records,
      portOf srv'.rtype srv'.rdata = portOf srv.rtype srv.rdata ∧
        addressOf a'.rtype a'.rdata = addressOf a.rtype a.rdata ∧ SameHost message srv' a'

theorem getLast?_filterMap {α β : Type} (f : α → Option β) (as : List α) :
    (as.filterMap f).getLast? = (as.filter fun a => (f a).isSome).getLast?.bind f := by
  induction as using List.reverseRecOn with
  | nil => rfl
  | append_singleton as a ih =>
      rw [List.filterMap_append, List.filter_append]
      cases h : f a with
      | none => simpa [h] using ih
      | some b => simp [h]

theorem isSome_of_getLast?_filter {α β : Type} {f : α → Option β} {as : List α} {a : α}
    (h : (as.filter fun a => (f a).isSome).getLast? = some a) : ∃ b, f a = some b := by
  have hmem := List.mem_filter.mp (List.mem_of_getLast? h)
  exact Option.isSome_iff_exists.mp hmem.2

theorem advertised_eq_some {ip : Ipv4Addr} {port : UInt16} :
    advertised message = some ⟨ip, port⟩ ↔
      (∃ a, lastAddress message = some a ∧ addressOf a.rtype a.rdata = some ip) ∧
        ∃ srv, lastService message = some srv ∧ portOf srv.rtype srv.rdata = some port := by
  rw [advertised, getLast?_filterMap, getLast?_filterMap]
  simp [lastAddress, lastService, Option.bind_eq_some_iff]

/-- A message that speaks of one host only meets the condition. -/
theorem lastMatch_of_one_host {host : List (List UInt8)}
    (htargets : ∀ r ∈ message.records, (portOf r.rtype r.rdata).isSome →
      ∃ name : Name, r.rdata.drop 6 = name.encode ∧ Resolves message.encode name host)
    (howners : ∀ r ∈ message.records, (addressOf r.rtype r.rdata).isSome →
      Resolves message.encode r.name host) : LastMatch message := by
  intro srv a hsrv ha
  have hsrvMem := List.mem_filter.mp (List.mem_of_getLast? hsrv)
  have haMem := List.mem_filter.mp (List.mem_of_getLast? ha)
  obtain ⟨name, hname, hhost⟩ := htargets srv hsrvMem.1 hsrvMem.2
  exact ⟨srv, hsrvMem.1, a, haMem.1, rfl, rfl, name, host, hname, hhost,
    howners a haMem.1 haMem.2⟩

/-! ## Two hosts in one message -/

def oneByte (b : UInt8) : Label := ⟨[b], by simp, by simp⟩

/-- Hosts `a` and `b` with a service each, and their addresses in the other order: the owner
of an A record is a pointer to the target of an SRV record. -/
def twoHosts : Dns.Message where
  id := 0
  flags := 0x8400
  questions := []
  answers :=
    [{ name := ⟨[oneByte 0x78], .root⟩, rtype := typeSrv, rclass := 1, ttl := 120,
       rdata := [0, 0, 0, 0, 0x06, 0xA8, 1, 0x61, 0], rdata_lt := by decide },
     { name := ⟨[oneByte 0x79], .root⟩, rtype := typeSrv, rclass := 1, ttl := 120,
       rdata := [0, 0, 0, 0, 0x06, 0xA9, 1, 0x62, 0], rdata_lt := by decide }]
  authority := []
  additional :=
    [{ name := ⟨[], .pointer 53⟩, rtype := typeA, rclass := 1, ttl := 120,
       rdata := [10, 0, 0, 2], rdata_lt := by decide },
     { name := ⟨[], .pointer 31⟩, rtype := typeA, rclass := 1, ttl := 120,
       rdata := [10, 0, 0, 1], rdata_lt := by decide }]
  questions_lt := by decide
  answers_lt := by decide
  authority_lt := by decide
  additional_lt := by decide

theorem advertised_twoHosts : advertised twoHosts = some ⟨⟨10, 0, 0, 1⟩, 1705⟩ := by
  decide +kernel

/-- The only SRV record with that port is that of `b`. -/
theorem service_twoHosts {r : Record} (h : r ∈ twoHosts.records)
    (hport : portOf r.rtype r.rdata = some 1705) :
    r.rdata.drop 6 = Name.encode ⟨[oneByte 0x62], .root⟩ := by
  simp only [Dns.Message.records, twoHosts, List.append_nil, List.cons_append, List.nil_append,
    List.mem_cons, List.not_mem_nil, or_false] at h
  rcases h with rfl | rfl | rfl | rfl
  · exact absurd hport (by decide +kernel)
  · rfl
  · exact absurd hport (by decide +kernel)
  · exact absurd hport (by decide +kernel)

/-- The only A record with that address is that of `a`. -/
theorem address_twoHosts {r : Record} (h : r ∈ twoHosts.records)
    (hip : addressOf r.rtype r.rdata = some ⟨10, 0, 0, 1⟩) :
    r.name = ⟨[], .pointer 31⟩ := by
  simp only [Dns.Message.records, twoHosts, List.append_nil, List.cons_append, List.nil_append,
    List.mem_cons, List.not_mem_nil, or_false] at h
  rcases h with rfl | rfl | rfl | rfl
  · exact absurd hip (by decide +kernel)
  · exact absurd hip (by decide +kernel)
  · exact absurd hip (by decide +kernel)
  · rfl

theorem resolves_twoHosts : Resolves twoHosts.encode ⟨[], .pointer 31⟩ [[0x61]] := by
  have hat : At twoHosts.encode 31 (Name.encode ⟨[oneByte 0x61], .root⟩) := by
    unfold At
    decide +kernel
  exact .pointer [] hat (.root [oneByte 0x61])

/-! ## What the parser pairs -/

/-- The parser returns an address and a port of one host exactly when the last records that
it reads them from, or records that say the same, belong to one. -/
theorem parseResponse_pairs_iff (message : Dns.Message) (trailing : List UInt8) :
    (∀ addr, parseResponse (message.encode ++ trailing) = .ok (some addr) →
      Advertises message addr) ↔ LastMatch message := by
  rw [parseResponse_encode]
  constructor
  · intro h srv a hsrv ha
    obtain ⟨port, hport⟩ := isSome_of_getLast?_filter hsrv
    obtain ⟨ip, hip⟩ := isSome_of_getLast?_filter ha
    have hsome := advertised_eq_some.mpr ⟨⟨a, ha, hip⟩, srv, hsrv, hport⟩
    obtain ⟨srv', hsrv', a', ha', hport', hip', hhost⟩ := h _ (congrArg Except.ok hsome)
    exact ⟨srv', hsrv', a', ha', hport'.trans hport.symm, hip'.trans hip.symm, hhost⟩
  · intro h addr haddr
    obtain ⟨⟨a, ha, hip⟩, srv, hsrv, hport⟩ := advertised_eq_some.mp (Except.ok.inj haddr)
    obtain ⟨srv', hsrv', a', ha', hport', hip', hhost⟩ := h srv a hsrv ha
    exact ⟨srv', hsrv', a', ha', hport'.trans hport, hip'.trans hip, hhost⟩

theorem parseResponse_crosses_hosts :
    ¬ ∀ (message : Dns.Message) (trailing : List UInt8) (addr : SocketAddr),
        parseResponse (message.encode ++ trailing) = .ok (some addr) →
          Advertises message addr := by
  intro h
  have hparse : parseResponse (twoHosts.encode ++ []) = .ok (some ⟨⟨10, 0, 0, 1⟩, 1705⟩) := by
    rw [parseResponse_encode, advertised_twoHosts]
  obtain ⟨srv, hsrv, a, ha, hport, hip, name, host, hname, hhost, howner⟩ := h twoHosts [] _ hparse
  rw [service_twoHosts hsrv hport] at hname
  obtain rfl := Name.encode_injective hname
  rw [address_twoHosts ha hip] at howner
  obtain rfl := hhost.unique (.root [oneByte 0x62])
  exact absurd (howner.unique resolves_twoHosts) (by decide)

end SnapcastClient
