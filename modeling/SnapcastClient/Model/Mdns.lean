import SnapcastClient.Model.Outcome

/-! # mDNS responses

A slice is at most `isize::MAX` bytes long and a position ends up less than `2 ^ 17` bytes
past it, so no addition overflows a `usize`. -/

namespace SnapcastClient

def typeA : UInt16 := 1

def typeSrv : UInt16 := 33

structure Ipv4Addr where
  a : UInt8
  b : UInt8
  c : UInt8
  d : UInt8
  deriving DecidableEq, Repr

structure SocketAddr where
  ip : Ipv4Addr
  port : UInt16
  deriving DecidableEq, Repr

/-- `buf[i]`. -/
def index (buf : List UInt8) (i : ℕ) : Outcome UInt8 :=
  match buf[i]? with
  | some b => .ok b
  | none => abort .sliceIndex

def u16FromBeBytes (hi lo : UInt8) : UInt16 :=
  UInt16.ofNat (BigEndian.ofBytes [hi, lo])

/-! ## Names -/

def skipName (buf : List UInt8) (pos : ℕ) : Option ℕ :=
  match h : buf[pos]? with
  | none => none
  | some b =>
      if b = 0 then some (pos + 1)
      else if b &&& 0xC0 = 0xC0 then some (pos + 2)
      else skipName buf (pos + (1 + b.toNat))
termination_by buf.length - pos
decreasing_by
  have hlt := (List.getElem?_eq_some_iff.mp h).1
  omega

/-- The first turns of the loop of `skip_name`: `none` when it has not returned by then. -/
def skipNameTurns (buf : List UInt8) : ℕ → ℕ → Option (Option ℕ)
  | 0, _ => none
  | turns + 1, pos =>
      match buf[pos]? with
      | none => some none
      | some b =>
          if b = 0 then some (some (pos + 1))
          else if b &&& 0xC0 = 0xC0 then some (some (pos + 2))
          else skipNameTurns buf turns (pos + (1 + b.toNat))

/-! ## Questions and records -/

def skipQuestions (buf : List UInt8) : ℕ → ℕ → Option ℕ
  | 0, pos => some pos
  | qd + 1, pos => do
      let pos ← skipName buf pos
      skipQuestions buf qd (pos + 4)

structure ResourceRecord where
  rtype : UInt16
  rdlen : ℕ
  rdata : List UInt8
  rdataEnd : ℕ

/-- The record at a position, up to the `match` on its type. -/
def readRecord (buf : List UInt8) (pos : ℕ) : Option ResourceRecord := do
  let pos ← skipName buf pos
  let rtype := u16FromBeBytes (← buf[pos]?) (← buf[pos + 1]?)
  let rdlen := (u16FromBeBytes (← buf[pos + 8]?) (← buf[pos + 9]?)).toNat
  let rdataStart := pos + 10
  let rdataEnd := rdataStart + rdlen
  let rdata ← (slice buf rdataStart rdataEnd).toOption
  return { rtype, rdlen, rdata, rdataEnd }

/-- The variables of the record loop. -/
structure Records where
  pos : ℕ
  ip : Option Ipv4Addr
  port : Option UInt16

/-- `SocketAddr::new(ip?, port?)`. -/
def Records.socketAddr (s : Records) : Option SocketAddr := do
  return ⟨← s.ip, ← s.port⟩

/-- The `match` on the type of a record. -/
def matchRecord (s : Records) (r : ResourceRecord) : Outcome Records :=
  if r.rtype = typeA ∧ r.rdlen = 4 then do
    let a ← index r.rdata 0
    let b ← index r.rdata 1
    let c ← index r.rdata 2
    let d ← index r.rdata 3
    return { s with pos := r.rdataEnd, ip := some ⟨a, b, c, d⟩ }
  else if r.rtype = typeSrv ∧ 6 ≤ r.rdlen then do
    let hi ← index r.rdata 4
    let lo ← index r.rdata 5
    return { s with pos := r.rdataEnd, port := some (u16FromBeBytes hi lo) }
  else return { s with pos := r.rdataEnd }

def readRecords (buf : List UInt8) : ℕ → Records → Outcome (Option Records)
  | 0, s => return some s
  | n + 1, s =>
      match readRecord buf s.pos with
      | none => return none
      | some r => do
          let s ← matchRecord s r
          readRecords buf n s

def parseResponse (buf : List UInt8) : Outcome (Option SocketAddr) :=
  if buf.length < 12 then return none
  else do
    let qd := (u16FromBeBytes (← index buf 4) (← index buf 5)).toNat
    let records := (u16FromBeBytes (← index buf 6) (← index buf 7)).toNat +
      (u16FromBeBytes (← index buf 8) (← index buf 9)).toNat +
        (u16FromBeBytes (← index buf 10) (← index buf 11)).toNat
    match skipQuestions buf qd 12 with
    | none => return none
    | some pos =>
        match ← readRecords buf records ⟨pos, none, none⟩ with
        | none => return none
        | some s => return s.socketAddr

end SnapcastClient
