import SnapcastClient.Model.Proto

/-! # What `serde_json` is documented to do

The compact text it prints for the two messages, and how it reads that text back. A `&str`
field borrows its characters from the input, so the literal it is read from must not hold
an escape. -/

namespace SnapcastClient

/-! ## Printed texts -/

/-- The characters a JSON string literal cannot hold as they are: the double quote, the
backslash and the control characters below the space. -/
def Special (c : Char) : Prop :=
  c = '\x22' ∨ c = '\x5c' ∨ c.toNat < 32

instance (c : Char) : Decidable (Special c) :=
  inferInstanceAs (Decidable (_ ∨ _ ∨ _))

/-- How one character is printed inside a literal. -/
def escapeChar (c : Char) : List Char :=
  if c = '\x22' then ['\x5c', '\x22']
  else if c = '\x5c' then ['\x5c', '\x5c']
  else if c.toNat = 8 then ['\x5c', 'b']
  else if c.toNat = 9 then ['\x5c', 't']
  else if c.toNat = 10 then ['\x5c', 'n']
  else if c.toNat = 12 then ['\x5c', 'f']
  else if c.toNat = 13 then ['\x5c', 'r']
  else if c.toNat < 32 then
    ['\x5c', 'u', '0', '0', Nat.digitChar (c.toNat / 16), Nat.digitChar (c.toNat % 16)]
  else [c]

/-- The text between the quotes of a printed string. -/
def escape (s : String) : String :=
  String.ofList (s.toList.flatMap escapeChar)

/-- The compact JSON object of a `ServerSettings`, in declaration order. -/
def ServerSettings.text (s : ServerSettings) : String :=
  "\x7b\x22bufferMs\x22:" ++ s.bufferMs.toNat.repr ++
    (",\x22latency\x22:" ++ s.latency.toNat.repr ++
      (",\x22muted\x22:" ++ (if s.muted then "true" else "false") ++
        (",\x22volume\x22:" ++ s.volume.toNat.repr ++ "\x7d")))

namespace ClientHello

/-- The string fields, in declaration order. -/
def strings (h : ClientHello) : List String :=
  [h.MAC, h.HostName, h.Version, h.ClientName, h.OS, h.Arch, h.ID]

def mapStrings (f : String → String) (h : ClientHello) : ClientHello :=
  { h with
    MAC := f h.MAC, HostName := f h.HostName, Version := f h.Version,
    ClientName := f h.ClientName, OS := f h.OS, Arch := f h.Arch, ID := f h.ID }

/-- The compact JSON object whose string literals have the given texts between their
quotes. -/
def text (literals : ClientHello) : String :=
  "\x7b\x22MAC\x22:\x22" ++ literals.MAC ++
    ("\x22,\x22HostName\x22:\x22" ++ literals.HostName ++
      ("\x22,\x22Version\x22:\x22" ++ literals.Version ++
        ("\x22,\x22ClientName\x22:\x22" ++ literals.ClientName ++
          ("\x22,\x22OS\x22:\x22" ++ literals.OS ++
            ("\x22,\x22Arch\x22:\x22" ++ literals.Arch ++
              ("\x22,\x22Instance\x22:" ++ literals.Instance.toNat.repr ++
                (",\x22ID\x22:\x22" ++ literals.ID ++
                  ("\x22,\x22SnapStreamProtocolVersion\x22:" ++
                    literals.SnapStreamProtocolVersion.toNat.repr ++ "\x7d"))))))))

/-- No string field holds a character that a JSON literal must escape. -/
def Plain (h : ClientHello) : Prop :=
  ∀ s ∈ h.strings, ∀ c ∈ s.toList, ¬ Special c

instance (h : ClientHello) : Decidable h.Plain :=
  decidable_of_iff (h.strings.all fun s => s.toList.all fun c => ¬ Special c) (by simp [Plain])

end ClientHello

/-! ## Assumptions -/

namespace SerdeJson

/-- Settings print as their compact object, and that text parses back to them. -/
structure SettingsLaws (json : SerdeJson) : Prop where
  print : ∀ s, json.settingsToString s = .ok s.text
  parse : ∀ s, json.settingsFromStr s.text = .ok s

/-- A greeting prints as its compact object with escaped literals. Literals without a
special character are borrowed as they stand; a printed literal with an escape makes the
whole parse fail. -/
structure HelloLaws (json : SerdeJson) : Prop where
  print : ∀ h, json.helloToString h = .ok (h.mapStrings escape).text
  borrow : ∀ h : ClientHello, h.Plain → json.helloFromSlice (utf8Bytes h.text) = .ok h
  copy : ∀ h : ClientHello, (∃ s ∈ h.strings, '\x5c' ∈ (escape s).toList) →
    ∃ message, json.helloFromSlice (utf8Bytes (h.mapStrings escape).text) = .error message

/-! ## A reader of the printed texts -/

/-- The input behind a literal front. -/
def expect : List Char → List Char → Option (List Char)
  | [], input => some input
  | _ :: _, [] => none
  | c :: front, d :: input => if c = d then expect front input else none

/-- A decimal number and the input behind it. -/
def number (input : List Char) : ℕ × List Char :=
  (Nat.ofDigitChars 10 (input.takeWhile Char.isDigit) 0, input.dropWhile Char.isDigit)

/-- The characters up to the closing quote, if none of them is special, and the input from
the quote on. -/
def borrowed : List Char → Option (List Char × List Char)
  | [] => none
  | c :: input =>
      if c = '\x22' then some ([], c :: input)
      else if Special c then none
      else (borrowed input).map fun (literal, rest) => (c :: literal, rest)

/-- A string field behind its key. -/
def stringField (key : String) (input : List Char) : Option (String × List Char) := do
  let input ← expect key.toList input
  let (literal, rest) ← borrowed input
  return (String.ofList literal, rest)

/-- A number field behind its key. -/
def numberField (key : String) (input : List Char) : Option (ℕ × List Char) :=
  (expect key.toList input).map number

/-- A boolean field behind its key. -/
def boolField (key : String) (input : List Char) : Option (Bool × List Char) := do
  let input ← expect key.toList input
  ((expect "true".toList input).map fun rest => (true, rest)).or
    ((expect "false".toList input).map fun rest => (false, rest))

def readSettings (input : List Char) : Option ServerSettings := do
  let (bufferMs, input) ← numberField "\x7b\x22bufferMs\x22:" input
  let (latency, input) ← numberField ",\x22latency\x22:" input
  let (muted, input) ← boolField ",\x22muted\x22:" input
  let (volume, input) ← numberField ",\x22volume\x22:" input
  if input = ['\x7d'] then
    return { bufferMs := .ofNat bufferMs, latency := .ofNat latency, muted,
             volume := .ofNat volume }
  else none

def readHello (input : List Char) : Option ClientHello := do
  let (MAC, input) ← stringField "\x7b\x22MAC\x22:\x22" input
  let (HostName, input) ← stringField "\x22,\x22HostName\x22:\x22" input
  let (Version, input) ← stringField "\x22,\x22Version\x22:\x22" input
  let (ClientName, input) ← stringField "\x22,\x22ClientName\x22:\x22" input
  let (OS, input) ← stringField "\x22,\x22OS\x22:\x22" input
  let (Arch, input) ← stringField "\x22,\x22Arch\x22:\x22" input
  let (inst, input) ← numberField "\x22,\x22Instance\x22:" input
  let (ID, input) ← stringField ",\x22ID\x22:\x22" input
  let (version, input) ← numberField "\x22,\x22SnapStreamProtocolVersion\x22:" input
  if input = ['\x7d'] then
    return { MAC, HostName, Version, ClientName, OS, Arch, Instance := .ofNat inst, ID,
             SnapStreamProtocolVersion := .ofNat version }
  else none

/-- Prints the compact texts and reads exactly their shape back. -/
def compact : SerdeJson where
  settingsToString s := .ok s.text
  settingsFromStr s := ((readSettings s.toList).map Except.ok).getD (.error "invalid settings")
  helloToString h := .ok (h.mapStrings escape).text
  helloFromSlice bytes :=
    (((fromUtf8 bytes).bind fun s => readHello s.toList).map Except.ok).getD
      (.error "invalid type: string, expected a borrowed string")

end SerdeJson

end SnapcastClient
