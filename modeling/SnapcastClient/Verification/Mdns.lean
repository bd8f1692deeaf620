import SnapcastClient.Library.Dns
import SnapcastClient.Model.Mdns

/-! # mDNS responses follow the DNS grammar -/

namespace SnapcastClient

open Dns

variable {buf front : List UInt8} {pos stop : ℕ}

/-! ## Prefixes -/

theorem getElem?_of_front (hfront : front <+: buf) {i : ℕ} {b : UInt8}
    (h : front[i]? = some b) : buf[i]? = some b := by
  obtain ⟨rest, rfl⟩ := hfront
  rw [List.getElem?_append_left (List.getElem?_eq_some_iff.mp h).1, h]

theorem slice_of_front (hfront : front <+: buf) {start : ℕ} {middle : List UInt8}
    (h : slice front start stop = .ok middle) : slice buf start stop = .ok middle := by
  obtain ⟨rest, rfl⟩ := hfront
  obtain ⟨hle, hlen, rfl⟩ := slice_eq_ok.mp h
  have hlen' : stop ≤ (front ++ rest).length := by
    rw [List.length_append]
    omega
  rw [slice_of_le _ _ _ hle hlen', List.take_append_of_le_length hlen]

/-! ## Names -/

theorem skipName_of_none (h : buf[pos]? = none) : skipName buf pos = none := by
  rw [skipName]
  split
  · rfl
  · rename_i b hb
    rw [h] at hb
    cases hb

theorem skipName_of_some {b : UInt8} (h : buf[pos]? = some b) :
    skipName buf pos =
      if b = 0 then some (pos + 1)
      else if b &&& 0xC0 = 0xC0 then some (pos + 2)
      else skipName buf (pos + (1 + b.toNat)) := by
  rw [skipName]
  split
  · rename_i hb
    rw [h] at hb
    cases hb
  · rename_i b' hb
    obtain rfl := Option.some.inj (h.symm.trans hb)
    rfl

/-- Every turn that goes on has moved towards the end of the slice. -/
theorem skipNameTurns_eq {turns : ℕ} (h : buf.length - pos < turns) :
    skipNameTurns buf turns pos = some (skipName buf pos) := by
  induction turns generalizing pos with
  | zero => omega
  | succ turns ih =>
      rw [skipNameTurns]
      cases hb : buf[pos]? with
      | none => rw [skipName_of_none hb]
      | some b =>
          have hlt := (List.getElem?_eq_some_iff.mp hb).1
          dsimp only
          rw [skipName_of_some hb]
          by_cases hzero : b = 0
          · rw [if_pos hzero, if_pos hzero]
          by_cases hhigh : b &&& 0xC0 = 0xC0
          · rw [if_neg hzero, if_neg hzero, if_pos hhigh, if_pos hhigh]
          · rw [if_neg hzero, if_neg hzero, if_neg hhigh, if_neg hhigh]
            exact ih (by omega)

theorem skipName_label {label : Label} (h : At buf pos label.encode) :
    skipName buf pos = skipName buf (pos + label.encode.length) := by
  have hsize := label.toNat_size
  have hpos := label.bytes_pos
  have hle := label.bytes_le
  have hb : buf[pos]? = some (UInt8.ofNat label.bytes.length) := by
    have hget := h.getElem? (i := 0) (by simp [Label.encode])
    simpa [Label.encode] using hget
  have hzero : UInt8.ofNat label.bytes.length ≠ 0 := by
    intro hzero
    rw [hzero] at hsize
    simp only [UInt8.toNat_zero] at hsize
    omega
  have hhigh : ¬ UInt8.ofNat label.bytes.length &&& 0xC0 = 0xC0 := by
    rw [high_bits_iff]
    omega
  rw [skipName_of_some hb, if_neg hzero, if_neg hhigh, hsize, label.encode_length]

theorem skipName_terminator {terminator : Terminator} (h : At buf pos terminator.encode) :
    skipName buf pos = some (pos + terminator.encode.length) := by
  cases terminator with
  | root =>
      have hb : buf[pos]? = some 0 := h.getElem? (i := 0) (by simp [Terminator.encode])
      rw [skipName_of_some hb, if_pos rfl]
      rfl
  | pointer offset =>
      obtain ⟨hi, lo, hencode, hhi⟩ := pointer_encode offset
      rw [hencode] at h ⊢
      have hb : buf[pos]? = some hi := h.getElem? (i := 0) (by simp)
      have hzero : hi ≠ 0 := by
        rintro rfl
        simp at hhi
      rw [skipName_of_some hb, if_neg hzero, if_pos ((high_bits_iff hi).mpr hhi)]
      rfl

theorem skipName_at {name : Name} (h : At buf pos name.encode) :
    skipName buf pos = some (pos + name.encode.length) := by
  obtain ⟨labels, terminator⟩ := name
  induction labels generalizing pos with
  | nil => exact skipName_terminator h
  | cons label labels ih =>
      have hencode : Name.encode ⟨label :: labels, terminator⟩ =
          label.encode ++ Name.encode ⟨labels, terminator⟩ := by
        simp [Name.encode]
      rw [hencode] at h ⊢
      obtain ⟨hlabel, hrest⟩ := h.of_append
      rw [skipName_label hlabel, ih hrest, List.length_append, Nat.add_assoc]

theorem skipName_front (hfront : front <+: buf) (h : skipName front pos = some stop) :
    skipName buf pos = some stop := by
  fun_induction skipName front pos with
  | case1 pos hb => cases h
  | case2 pos hb =>
      rw [skipName_of_some (getElem?_of_front hfront hb), if_pos rfl]
      exact h
  | case3 pos b hb hzero hhigh =>
      rw [skipName_of_some (getElem?_of_front hfront hb), if_neg hzero, if_pos hhigh]
      exact h
  | case4 pos b hb hzero hhigh ih =>
      rw [skipName_of_some (getElem?_of_front hfront hb), if_neg hzero, if_neg hhigh]
      exact ih h

/-! ## Questions -/

theorem skipQuestions_at {questions : List Question}
    (h : At buf pos (questions.flatMap Question.encode)) :
    skipQuestions buf questions.length pos =
      some (pos + (questions.flatMap Question.encode).length) := by
  induction questions generalizing pos with
  | nil => rfl
  | cons question questions ih =>
      rw [List.flatMap_cons] at h ⊢
      obtain ⟨hquestion, hrest⟩ := h.of_append
      have hname : At buf pos question.name.encode := by
        rw [Question.encode, List.append_assoc] at hquestion
        exact hquestion.of_append.1
      have hlen : question.encode.length = question.name.encode.length + 4 := by
        simp [Question.encode]
      have hpos : pos + question.name.encode.length + 4 = pos + question.encode.length := by
        omega
      rw [List.length_cons, skipQuestions, skipName_at hname]
      dsimp only [Option.bind_eq_bind, Option.bind_some]
      rw [hpos, ih hrest, List.length_append, Nat.add_assoc]

theorem skipQuestions_front (hfront : front <+: buf) {qd : ℕ}
    (h : skipQuestions front qd pos = some stop) : skipQuestions buf qd pos = some stop := by
  induction qd generalizing pos with
  | zero => exact h
  | succ qd ih =>
      obtain ⟨next, hname, hrest⟩ := Option.bind_eq_some_iff.mp h
      exact Option.bind_eq_some_iff.mpr ⟨next, skipName_front hfront hname, ih hrest⟩

/-! ## Records -/

theorem readRecord_eq_some {r : ResourceRecord} :
    readRecord buf pos = some r ↔ ∃ start t₀ t₁ l₀ l₁, skipName buf pos = some start ∧
      buf[start]? = some t₀ ∧ buf[start + 1]? = some t₁ ∧ r.rtype = u16FromBeBytes t₀ t₁ ∧
        buf[start + 8]? = some l₀ ∧ buf[start + 9]? = some l₁ ∧
          r.rdlen = (u16FromBeBytes l₀ l₁).toNat ∧ r.rdataEnd = start + 10 + r.rdlen ∧
            slice buf (start + 10) r.rdataEnd = .ok r.rdata := by
  have hslice : ∀ (x : Outcome (List UInt8)) middle, x.toOption = some middle ↔ x = .ok middle := by
    intro x middle
    cases x <;> simp [Except.toOption]
  obtain ⟨rtype, rdlen, rdata, rdataEnd⟩ := r
  simp only [readRecord, Option.bind_eq_bind, Option.bind_eq_some_iff, hslice, Option.pure_def,
    Option.some.injEq, ResourceRecord.mk.injEq]
  constructor
  · rintro ⟨start, hname, t₀, ht₀, t₁, ht₁, l₀, hl₀, l₁, hl₁, data, hdata, rfl, rfl, rfl, rfl⟩
    exact ⟨start, t₀, t₁, l₀, l₁, hname, ht₀, ht₁, rfl, hl₀, hl₁, rfl, rfl, hdata⟩
  · rintro ⟨start, t₀, t₁, l₀, l₁, hname, ht₀, ht₁, rfl, hl₀, hl₁, rfl, rfl, hdata⟩
    exact ⟨start, hname, t₀, ht₀, t₁, ht₁, l₀, hl₀, l₁, hl₁, rdata, hdata, rfl, rfl, rfl, rfl⟩

theorem u16FromBeBytes_split (n : ℕ) :
    u16FromBeBytes (UInt8.ofNat (n / 256)) (UInt8.ofNat n) = UInt16.ofNat n := by
  apply UInt16.toNat_inj.mp
  have hof : BigEndian.ofBytes [UInt8.ofNat (n / 256), UInt8.ofNat n] =
      n % 256 + 256 * (n / 256 % 256) := by
    simp [BigEndian.ofBytes]
  rw [u16FromBeBytes, hof, UInt16.toNat_ofNat', UInt16.toNat_ofNat']
  omega

theorem u16FromBeBytes_uint16 (x : UInt16) :
    u16FromBeBytes (UInt8.ofNat (x.toNat / 256)) (UInt8.ofNat x.toNat) = x := by
  rw [u16FromBeBytes_split, UInt16.ofNat_toNat]

theorem toNat_u16FromBeBytes_split {n : ℕ} (h : n < 2 ^ 16) :
    (u16FromBeBytes (UInt8.ofNat (n / 256)) (UInt8.ofNat n)).toNat = n := by
  rw [u16FromBeBytes_split, UInt16.toNat_ofNat_of_lt' h]

theorem readRecord_at {record : Record} (h : At buf pos record.encode) :
    readRecord buf pos = some ⟨record.rtype, record.rdata.length, record.rdata,
      pos + record.encode.length⟩ := by
  obtain ⟨hname, htail⟩ := h.of_append
  obtain ⟨hfields, hrdata⟩ := htail.of_append
  rw [Record.fields_length] at hrdata
  have hfield : ∀ i < 10, buf[pos + record.name.encode.length + i]? = record.fields[i]? := by
    intro i hi
    exact hfields.getElem? (by simpa using hi)
  have hend : pos + record.encode.length =
      pos + record.name.encode.length + 10 + record.rdata.length := by
    simp only [Record.encode, List.length_append, Record.fields_length]
    omega
  refine readRecord_eq_some.mpr ⟨pos + record.name.encode.length, _, _, _, _, skipName_at hname,
    hfield 0 (by decide), hfield 1 (by decide), (u16FromBeBytes_uint16 record.rtype).symm,
    hfield 8 (by decide), hfield 9 (by decide),
    (toNat_u16FromBeBytes_split record.rdata_lt).symm, hend, ?_⟩
  have hle := h.le_length (List.ne_nil_of_length_pos (by omega))
  rw [slice_of_le _ _ _ (by omega) hle, hend, hrdata.take_drop]

theorem readRecord_front (hfront : front <+: buf) {r : ResourceRecord}
    (h : readRecord front pos = some r) :
    readRecord buf pos = some r ∧ r.rdataEnd ≤ front.length := by
  obtain ⟨start, t₀, t₁, l₀, l₁, hname, ht₀, ht₁, hrtype, hl₀, hl₁, hrdlen, hend, hrdata⟩ :=
    readRecord_eq_some.mp h
  refine ⟨readRecord_eq_some.mpr ⟨start, t₀, t₁, l₀, l₁, skipName_front hfront hname,
    getElem?_of_front hfront ht₀, getElem?_of_front hfront ht₁, hrtype,
    getElem?_of_front hfront hl₀, getElem?_of_front hfront hl₁, hrdlen, hend,
    slice_of_front hfront hrdata⟩, ?_⟩
  exact (slice_eq_ok.mp hrdata).2.1

theorem rdata_length {r : ResourceRecord} (h : readRecord buf pos = some r) :
    r.rdata.length = r.rdlen := by
  obtain ⟨start, -, -, -, -, -, -, -, -, -, -, -, hend, hrdata⟩ := readRecord_eq_some.mp h
  rw [length_of_slice hrdata, hend]
  omega

/-! ## The address that a message advertises -/

/-- The address in an A record with four bytes of data. -/
def addressOf (rtype : UInt16) (rdata : List UInt8) : Option Ipv4Addr :=
  match rdata with
  | [a, b, c, d] => if rtype = typeA then some ⟨a, b, c, d⟩ else none
  | _ => none

/-- The port in an SRV record with at least six bytes of data, after priority and weight. -/
def portOf (rtype : UInt16) (rdata : List UInt8) : Option UInt16 :=
  if rtype = typeSrv ∧ 6 ≤ rdata.length then
    some (UInt16.ofNat (BigEndian.ofBytes ((rdata.drop 4).take 2)))
  else none

/-- The last address among the records of a message, with the last port. -/
def advertised (message : Dns.Message) : Option SocketAddr := do
  let ip ← (message.records.filterMap fun r => addressOf r.rtype r.rdata).getLast?
  let port ← (message.records.filterMap fun r => portOf r.rtype r.rdata).getLast?
  return ⟨ip, port⟩

/-- What a record leaves of the variables of the loop. -/
def Records.next (s : Records) (rtype : UInt16) (rdata : List UInt8) (stop : ℕ) : Records :=
  ⟨stop, addressOf rtype rdata <|> s.ip, portOf rtype rdata <|> s.port⟩

theorem index_of_getElem? {i : ℕ} {b : UInt8} (h : buf[i]? = some b) : index buf i = .ok b := by
  rw [index, h]

theorem addressOf_of_not {rtype : UInt16} {rdata : List UInt8}
    (h : ¬ (rtype = typeA ∧ rdata.length = 4)) : addressOf rtype rdata = none := by
  unfold addressOf
  split
  · exact if_neg fun htype => h ⟨htype, rfl⟩
  · rfl

theorem portOf_of_not {rtype : UInt16} {rdata : List UInt8}
    (h : ¬ (rtype = typeSrv ∧ 6 ≤ rdata.length)) : portOf rtype rdata = none :=
  if_neg h

theorem matchRecord_eq (s : Records) {r : ResourceRecord} (h : r.rdata.length = r.rdlen) :
    matchRecord s r = .ok (s.next r.rtype r.rdata r.rdataEnd) := by
  obtain ⟨rtype, rdlen, rdata, rdataEnd⟩ := r
  obtain rfl : rdata.length = rdlen := h
  by_cases haddress : rtype = typeA ∧ rdata.length = 4
  · obtain ⟨rfl, hlen⟩ := haddress
    match rdata, hlen with
    | [a, b, c, d], _ => rfl
  · by_cases hport : rtype = typeSrv ∧ 6 ≤ rdata.length
    · rw [matchRecord, if_neg haddress, if_pos hport, Records.next, addressOf_of_not haddress]
      obtain ⟨rfl, hlen⟩ := hport
      match rdata, hlen with
      | _ :: _ :: _ :: _ :: hi :: lo :: _, hlen =>
          rw [portOf, if_pos ⟨rfl, hlen⟩]
          rfl
    · rw [matchRecord, if_neg haddress, if_neg hport, Records.next, addressOf_of_not haddress,
        portOf_of_not hport]
      rfl

/-! ## The record loop -/

theorem readRecords_total (buf : List UInt8) (n : ℕ) (s : Records) :
    ∃ o, readRecords buf n s = .ok o := by
  induction n generalizing s with
  | zero => exact ⟨some s, rfl⟩
  | succ n ih =>
      rw [readRecords]
      cases hr : readRecord buf s.pos with
      | none => exact ⟨none, rfl⟩
      | some r =>
          dsimp only
          rw [matchRecord_eq s (rdata_length hr)]
          exact ih _

/-- What is read from a prefix is read from the whole, and the last record ends inside it. -/
theorem readRecords_front (hfront : front <+: buf) {n : ℕ} {s t : Records}
    (h : readRecords front n s = .ok (some t)) :
    readRecords buf n s = .ok (some t) ∧ (n = 0 ∧ t = s ∨ t.pos ≤ front.length) := by
  induction n generalizing s with
  | zero =>
      obtain rfl : s = t := by simpa [readRecords] using h
      exact ⟨rfl, .inl ⟨rfl, rfl⟩⟩
  | succ n ih =>
      rw [readRecords] at h
      cases hr : readRecord front s.pos with
      | none =>
          rw [hr] at h
          cases h
      | some r =>
          rw [hr] at h
          dsimp only at h
          rw [matchRecord_eq s (rdata_length hr)] at h
          obtain ⟨hbuf, hend⟩ := readRecord_front hfront hr
          obtain ⟨hrest, hpos⟩ := ih h
          refine ⟨?_, .inr ?_⟩
          · rw [readRecords, hbuf]
            dsimp only
            rw [matchRecord_eq s (rdata_length hr)]
            exact hrest
          · rcases hpos with ⟨-, rfl⟩ | hpos
            · exact hend
            · exact hpos

/-- The later of two partial results wins. -/
theorem getLast?_filterMap_cons {α β : Type} (f : α → Option β) (a : α) (as : List α)
    (o : Option β) : (((a :: as).filterMap f).getLast? <|> o) =
      ((as.filterMap f).getLast? <|> (f a <|> o)) := by
  cases h : f a with
  | none =>
      rw [List.filterMap_cons_none h]
      rfl
  | some b =>
      rw [List.filterMap_cons_some h]
      cases as.filterMap f with
      | nil => rfl
      | cons c cs =>
          rw [List.getLast?_cons_cons, List.getLast?_eq_some_getLast (List.cons_ne_nil c cs)]
          rfl

theorem readRecords_at {records : List Record} {s : Records}
    (h : At buf s.pos (records.flatMap Record.encode)) :
    readRecords buf records.length s = .ok (some
      ⟨s.pos + (records.flatMap Record.encode).length,
        (records.filterMap fun r => addressOf r.rtype r.rdata).getLast? <|> s.ip,
        (records.filterMap fun r => portOf r.rtype r.rdata).getLast? <|> s.port⟩) := by
  induction records generalizing s with
  | nil => rfl
  | cons record records ih =>
      rw [List.flatMap_cons] at h ⊢
      obtain ⟨hrecord, hrest⟩ := h.of_append
      rw [List.length_cons, readRecords, readRecord_at hrecord]
      dsimp only
      rw [matchRecord_eq s rfl, ok_bind, ih (s := s.next _ _ _) hrest, Records.next,
        getLast?_filterMap_cons, getLast?_filterMap_cons, List.length_append, Nat.add_assoc]

/-! ## The whole response -/

theorem index_at {bytes : List UInt8} (h : At buf 0 bytes) {i : ℕ} {b : UInt8}
    (hb : bytes[i]? = some b) : index buf i = .ok b := by
  rw [index, ← Nat.zero_add i, h.getElem? (List.getElem?_eq_some_iff.mp hb).1, hb]

/-- Behind the header the two loops run as often as the counts say. -/
theorem parseResponse_of_header {message : Dns.Message} (h : At buf 0 message.header) :
    parseResponse buf =
      match skipQuestions buf message.questions.length 12 with
      | none => .ok none
      | some pos => (fun o => o.bind Records.socketAddr) <$>
          readRecords buf message.records.length ⟨pos, none, none⟩ := by
  have hlen : ¬ buf.length < 12 := by
    have hle := h.le_length (List.ne_nil_of_length_pos (by simp))
    rw [message.header_length] at hle
    omega
  have hrecords : message.answers.length + message.authority.length + message.additional.length =
      message.records.length := by
    simp [Dns.Message.records, Nat.add_assoc]
  rw [parseResponse, if_neg hlen, index_at h (i := 4) rfl, index_at h (i := 5) rfl,
    index_at h (i := 6) rfl, index_at h (i := 7) rfl, index_at h (i := 8) rfl,
    index_at h (i := 9) rfl, index_at h (i := 10) rfl, index_at h (i := 11) rfl]
  simp only [ok_bind]
  rw [toNat_u16FromBeBytes_split message.questions_lt,
    toNat_u16FromBeBytes_split message.answers_lt,
    toNat_u16FromBeBytes_split message.authority_lt,
    toNat_u16FromBeBytes_split message.additional_lt, hrecords]
  cases skipQuestions buf message.questions.length 12 with
  | none => rfl
  | some pos =>
      obtain ⟨o, ho⟩ := readRecords_total buf message.records.length ⟨pos, none, none⟩
      dsimp only
      rw [ho]
      cases o <;> rfl

theorem at_encode (message : Dns.Message) (trailing : List UInt8) :
    At (message.encode ++ trailing) 0 message.encode :=
  List.prefix_append _ _

theorem scan_of_at {message : Dns.Message} (h : At buf 0 message.encode) :
    ∃ pos, skipQuestions buf message.questions.length 12 = some pos ∧
      readRecords buf message.records.length ⟨pos, none, none⟩ = .ok (some
        ⟨message.encode.length,
          (message.records.filterMap fun r => addressOf r.rtype r.rdata).getLast?,
          (message.records.filterMap fun r => portOf r.rtype r.rdata).getLast?⟩) := by
  obtain ⟨-, hbody⟩ := h.of_append
  obtain ⟨hquestions, hrecords⟩ := hbody.of_append
  rw [Dns.Message.header_length, Nat.zero_add] at hquestions hrecords
  refine ⟨_, skipQuestions_at hquestions, ?_⟩
  rw [readRecords_at (s := ⟨_, none, none⟩) hrecords]
  simp [Dns.Message.encode, Nat.add_assoc]

theorem parseResponse_encode (message : Dns.Message) (trailing : List UInt8) :
    parseResponse (message.encode ++ trailing) = .ok (advertised message) := by
  have h := at_encode message trailing
  obtain ⟨pos, hquestions, hrecords⟩ := scan_of_at h
  rw [parseResponse_of_header h.of_append.1, hquestions]
  dsimp only
  rw [hrecords]
  rfl

theorem parseResponse_take {message : Dns.Message} {k : ℕ} (hk : k < message.encode.length) :
    parseResponse (message.encode.take k) = .ok none := by
  have hfront : message.encode.take k <+: message.encode := List.take_prefix _ _
  have hlen : (message.encode.take k).length = k := List.length_take_of_le hk.le
  by_cases hk' : k < 12
  · rw [parseResponse, if_pos (by omega)]
    rfl
  have hheader : At (message.encode.take k) 0 message.header := by
    refine List.prefix_take_iff.mpr ⟨List.prefix_append _ _, ?_⟩
    rw [message.header_length]
    omega
  obtain ⟨pos, hquestions, hrecords⟩ := scan_of_at (List.prefix_refl message.encode)
  rw [parseResponse_of_header hheader]
  cases hscan : skipQuestions (message.encode.take k) message.questions.length 12 with
  | none => rfl
  | some stop =>
      obtain rfl : pos = stop :=
        Option.some.inj (hquestions.symm.trans (skipQuestions_front hfront hscan))
      dsimp only
      obtain ⟨o, ho⟩ := readRecords_total (message.encode.take k) message.records.length
        ⟨pos, none, none⟩
      rw [ho]
      cases o with
      | none => rfl
      | some t =>
          obtain ⟨hwhole, hcut⟩ := readRecords_front hfront ho
          obtain rfl := Option.some.inj (Except.ok.inj (hrecords.symm.trans hwhole))
          rcases hcut with ⟨-, hnone⟩ | hle
          · rw [hnone]
            rfl
          · -- The records of the whole end behind the cut.
            dsimp only at hle
            omega

theorem returns_parseResponse (buf : List UInt8) : Returns (parseResponse buf) := by
  by_cases hlen : buf.length < 12
  · rw [parseResponse, if_pos hlen]
    exact returns_ok _
  have hindex : ∀ i < 12, index buf i = .ok (buf.getD i 0) := by
    intro i hi
    apply index_of_getElem?
    rw [List.getD_eq_getElem?_getD, List.getElem?_eq_getElem (by omega), Option.getD_some]
  rw [parseResponse, if_neg hlen, hindex 4 (by decide), hindex 5 (by decide),
    hindex 6 (by decide), hindex 7 (by decide), hindex 8 (by decide), hindex 9 (by decide),
    hindex 10 (by decide), hindex 11 (by decide)]
  simp only [ok_bind]
  split
  · exact returns_ok _
  · rename_i pos hquestions
    obtain ⟨o, ho⟩ := readRecords_total buf _ ⟨pos, none, none⟩
    rw [ho, ok_bind]
    cases o with
    | none => exact returns_ok _
    | some t => exact returns_ok _

/-- A message yields what it advertises whatever follows it, a message cut short yields
nothing, and no input makes the parser index out of range or loop in a name. -/
theorem parseResponse_grammar :
    (∀ (message : Dns.Message) trailing,
        parseResponse (message.encode ++ trailing) = .ok (advertised message)) ∧
      (∀ (message : Dns.Message) (k : Fin message.encode.length),
        parseResponse (message.encode.take k) = .ok none) ∧
      (∀ buf, Returns (parseResponse buf)) ∧
      ∀ buf pos, skipNameTurns buf (buf.length + 1) pos = some (skipName buf pos) := by
  refine ⟨parseResponse_encode, fun _ k => parseResponse_take k.isLt, returns_parseResponse, ?_⟩
  intro buf pos
  exact skipNameTurns_eq (by omega)

end SnapcastClient
