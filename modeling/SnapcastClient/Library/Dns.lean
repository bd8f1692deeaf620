import SnapcastClient.Library.LittleEndian
import Mathlib.Data.BitVec

/-! # DNS messages

The grammar of a message, its encoding, and what a name stands for. In the grammar a
compression pointer is only one of the two ways in which a name ends; `Resolves` follows it. -/

namespace Dns

structure Label where
  bytes : List UInt8
  bytes_pos : 0 < bytes.length
  bytes_le : bytes.length ≤ 63

inductive Terminator where
  | root
  | pointer (offset : BitVec 14)

structure Name where
  labels : List Label
  terminator : Terminator

structure Question where
  name : Name
  qtype : UInt16
  qclass : UInt16

structure Record where
  name : Name
  rtype : UInt16
  rclass : UInt16
  ttl : UInt32
  rdata : List UInt8
  rdata_lt : rdata.length < 2 ^ 16

/-- A message whose four counts fit their header fields. -/
structure Message where
  id : UInt16
  flags : UInt16
  questions : List Question
  answers : List Record
  authority : List Record
  additional : List Record
  questions_lt : questions.length < 2 ^ 16
  answers_lt : answers.length < 2 ^ 16
  authority_lt : authority.length < 2 ^ 16
  additional_lt : additional.length < 2 ^ 16

/-! ## Encoding -/

def Label.encode (label : Label) : List UInt8 :=
  UInt8.ofNat label.bytes.length :: label.bytes

def Terminator.encode : Terminator → List UInt8
  | root => [0]
  | pointer offset => BigEndian.toBytes 2 (0xC000 + offset.toNat)

def Name.encode (name : Name) : List UInt8 :=
  name.labels.flatMap Label.encode ++ name.terminator.encode

def Question.encode (question : Question) : List UInt8 :=
  question.name.encode ++ BigEndian.toBytes 2 question.qtype.toNat ++
    BigEndian.toBytes 2 question.qclass.toNat

/-- The fields between the name and the data. -/
def Record.fields (record : Record) : List UInt8 :=
  BigEndian.toBytes 2 record.rtype.toNat ++ BigEndian.toBytes 2 record.rclass.toNat ++
    BigEndian.toBytes 4 record.ttl.toNat ++ BigEndian.toBytes 2 record.rdata.length

def Record.encode (record : Record) : List UInt8 :=
  record.name.encode ++ (record.fields ++ record.rdata)

namespace Message

def records (message : Message) : List Record :=
  message.answers ++ message.authority ++ message.additional

def header (message : Message) : List UInt8 :=
  BigEndian.toBytes 2 message.id.toNat ++ BigEndian.toBytes 2 message.flags.toNat ++
    BigEndian.toBytes 2 message.questions.length ++ BigEndian.toBytes 2 message.answers.length ++
      BigEndian.toBytes 2 message.authority.length ++
        BigEndian.toBytes 2 message.additional.length

def encode (message : Message) : List UInt8 :=
  message.header ++ (message.questions.flatMap Question.encode ++
    message.records.flatMap Record.encode)

@[simp] theorem header_length (message : Message) : message.header.length = 12 := by
  simp [header]

end Message

@[simp] theorem Record.fields_length (record : Record) : record.fields.length = 10 := by
  simp [Record.fields]

theorem Label.encode_length (label : Label) :
    label.encode.length = 1 + label.bytes.length := by
  simp [Label.encode, Nat.add_comm]

/-! ## The first byte of a part of a name -/

theorem Label.toNat_size (label : Label) :
    (UInt8.ofNat label.bytes.length).toNat = label.bytes.length := by
  have hle := label.bytes_le
  rw [UInt8.toNat_ofNat']
  omega

/-- The two high bits of a byte tell a pointer from a label. -/
theorem high_bits_iff (b : UInt8) : b &&& 0xC0 = 0xC0 ↔ 192 ≤ b.toNat := by
  have h : ∀ n : Fin 256, UInt8.ofFin n &&& 0xC0 = 0xC0 ↔ 192 ≤ n.val := by decide +kernel
  simpa using h b.toFin

theorem pointer_encode (offset : BitVec 14) : ∃ hi lo : UInt8,
    (Terminator.pointer offset).encode = [hi, lo] ∧ 192 ≤ hi.toNat := by
  have hlt := offset.isLt
  refine ⟨UInt8.ofNat ((0xC000 + offset.toNat) / 256), UInt8.ofNat (0xC000 + offset.toNat),
    rfl, ?_⟩
  rw [UInt8.toNat_ofNat']
  omega

/-! ## Bytes at a position -/

/-- The bytes stand in the buffer, from a position on. -/
def At (buf : List UInt8) (pos : ℕ) (bytes : List UInt8) : Prop :=
  bytes <+: buf.drop pos

variable {buf bytes tail : List UInt8} {pos : ℕ}

theorem At.of_append (h : At buf pos (bytes ++ tail)) :
    At buf pos bytes ∧ At buf (pos + bytes.length) tail := by
  obtain ⟨rest, h⟩ := h
  refine ⟨⟨tail ++ rest, by rw [← h, List.append_assoc]⟩, ⟨rest, ?_⟩⟩
  rw [← List.drop_drop, ← h, List.append_assoc, List.drop_left]

theorem At.getElem? (h : At buf pos bytes) {i : ℕ} (hi : i < bytes.length) :
    buf[pos + i]? = bytes[i]? := by
  obtain ⟨rest, h⟩ := h
  rw [← List.getElem?_drop, ← h, List.getElem?_append_left hi]

theorem At.take_drop (h : At buf pos bytes) :
    (buf.take (pos + bytes.length)).drop pos = bytes := by
  obtain ⟨rest, h⟩ := h
  rw [List.drop_take, Nat.add_sub_cancel_left, ← h, List.take_left]

theorem At.le_length (h : At buf pos bytes) (hpos : bytes ≠ []) :
    pos + bytes.length ≤ buf.length := by
  have hlen := h.length_le
  have hne := List.length_pos_of_ne_nil hpos
  rw [List.length_drop] at hlen
  omega

/-! ## The end of a name -/

theorem Label.eq_of_bytes {label label' : Label} (h : label.bytes = label'.bytes) :
    label = label' := by
  cases label
  cases label'
  obtain rfl := h
  rfl

theorem Label.encode_append_inj {label label' : Label} {t t' : List UInt8}
    (h : label.encode ++ t = label'.encode ++ t') : label = label' ∧ t = t' := by
  obtain ⟨hsize, hrest⟩ := List.cons.inj h
  have hlen : label.bytes.length = label'.bytes.length := by
    rw [← label.toNat_size, ← label'.toNat_size, hsize]
  obtain ⟨hbytes, htail⟩ := List.append_inj hrest hlen
  exact ⟨Label.eq_of_bytes hbytes, htail⟩

theorem Terminator.encode_append_inj {terminator terminator' : Terminator} {t t' : List UInt8}
    (h : terminator.encode ++ t = terminator'.encode ++ t') :
    terminator = terminator' ∧ t = t' := by
  cases terminator with
  | root =>
      cases terminator' with
      | root => exact ⟨rfl, (List.cons.inj h).2⟩
      | pointer offset =>
          obtain ⟨hi, lo, hencode, hhi⟩ := pointer_encode offset
          rw [hencode] at h
          obtain rfl := (List.cons.inj h).1
          exact absurd hhi (by decide)
  | pointer offset =>
      cases terminator' with
      | root =>
          obtain ⟨hi, lo, hencode, hhi⟩ := pointer_encode offset
          rw [hencode] at h
          obtain rfl := (List.cons.inj h).1
          exact absurd hhi (by decide)
      | pointer offset' =>
          obtain ⟨hbytes, htail⟩ := List.append_inj h (by simp [Terminator.encode])
          refine ⟨congrArg _ (BitVec.eq_of_toNat_eq ?_), htail⟩
          have hlt := offset.isLt
          have hlt' := offset'.isLt
          have hvalue := congrArg BigEndian.ofBytes hbytes
          rw [Terminator.encode, Terminator.encode, BigEndian.ofBytes_toBytes_of_lt (by omega),
            BigEndian.ofBytes_toBytes_of_lt (by omega)] at hvalue
          omega

/-- Neither kind of terminator begins like a label. -/
theorem Label.encode_ne_terminator {label : Label} {terminator : Terminator}
    {t t' : List UInt8} (h : label.encode ++ t = terminator.encode ++ t') : False := by
  have hsize := label.toNat_size
  have hpos := label.bytes_pos
  have hle := label.bytes_le
  cases terminator with
  | root =>
      have hzero := (List.cons.inj h).1
      rw [hzero] at hsize
      simp only [UInt8.toNat_zero] at hsize
      omega
  | pointer offset =>
      obtain ⟨hi, lo, hencode, hhi⟩ := pointer_encode offset
      rw [hencode] at h
      obtain rfl := (List.cons.inj h).1
      omega

/-- An encoded name determines both the name and where it ends. -/
theorem Name.encode_append_inj {name name' : Name} {t t' : List UInt8}
    (h : name.encode ++ t = name'.encode ++ t') : name = name' ∧ t = t' := by
  obtain ⟨labels, terminator⟩ := name
  obtain ⟨labels', terminator'⟩ := name'
  simp only [Name.encode, List.append_assoc] at h
  induction labels generalizing labels' with
  | nil =>
      cases labels' with
      | nil =>
          obtain ⟨rfl, htail⟩ := Terminator.encode_append_inj h
          exact ⟨rfl, htail⟩
      | cons label' labels' =>
          rw [List.flatMap_cons, List.append_assoc] at h
          exact (Label.encode_ne_terminator h.symm).elim
  | cons label labels ih =>
      cases labels' with
      | nil =>
          rw [List.flatMap_cons, List.append_assoc] at h
          exact (Label.encode_ne_terminator h).elim
      | cons label' labels' =>
          rw [List.flatMap_cons, List.flatMap_cons, List.append_assoc, List.append_assoc] at h
          obtain ⟨rfl, hrest⟩ := Label.encode_append_inj h
          obtain ⟨hname, htail⟩ := ih labels' hrest
          obtain ⟨rfl, rfl⟩ := Name.mk.inj hname
          exact ⟨rfl, htail⟩

theorem Name.encode_injective : Function.Injective Name.encode :=
  fun _ _ h => (Name.encode_append_inj (congrArg (· ++ []) h)).1

theorem At.name_unique {name name' : Name} (h : At buf pos name.encode)
    (h' : At buf pos name'.encode) : name = name' := by
  obtain ⟨rest, h⟩ := h
  obtain ⟨rest', h'⟩ := h'
  exact (Name.encode_append_inj (h.trans h'.symm)).1

/-! ## Resolution -/

/-- Names are compared without regard to the case of ASCII letters. -/
def foldCase (b : UInt8) : UInt8 :=
  if 0x41 ≤ b ∧ b ≤ 0x5A then b + 0x20 else b

def Label.folded (label : Label) : List UInt8 :=
  label.bytes.map foldCase

/-- The labels that a name in the buffer stands for: its own, and behind a pointer those of
the name at its offset. Pointers that only lead to one another stand for nothing. -/
inductive Resolves (buf : List UInt8) : Name → List (List UInt8) → Prop where
  | root (labels) : Resolves buf ⟨labels, .root⟩ (labels.map Label.folded)
  | pointer (labels) {offset name rest} (hat : At buf offset.toNat name.encode) :
      Resolves buf name rest →
      Resolves buf ⟨labels, .pointer offset⟩ (labels.map Label.folded ++ rest)

/-- A name stands for at most one list of labels. -/
theorem Resolves.unique {name : Name} {host host' : List (List UInt8)}
    (h : Resolves buf name host) (h' : Resolves buf name host') : host = host' := by
  induction h generalizing host' with
  | root labels =>
      cases h'
      rfl
  | pointer labels hat _ ih =>
      cases h' with
      | pointer _ hat' hrest' =>
          obtain rfl := hat.name_unique hat'
          rw [ih hrest']

end Dns
