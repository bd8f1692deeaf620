import SnapcastClient.Model.SerdeJson

/-! # The JSON assumptions are met by a reader of the printed texts -/

namespace SnapcastClient

/-! ## Escapes -/

theorem escapeChar_of_special {c : Char} (h : Special c) :
    ∃ rest, escapeChar c = '\x5c' :: rest := by
  unfold escapeChar
  by_cases hquote : c = '\x22'
  · simp [hquote]
  by_cases hslash : c = '\x5c'
  · simp [hslash]
  have hlow : c.toNat < 32 := by simpa [Special, hquote, hslash] using h
  simp only [hquote, hslash, hlow, if_false, if_true]
  split_ifs <;> exact ⟨_, rfl⟩

theorem escapeChar_of_not_special {c : Char} (h : ¬ Special c) : escapeChar c = [c] := by
  simp only [Special, not_or] at h
  obtain ⟨hquote, hslash, hlow⟩ := h
  unfold escapeChar
  rw [if_neg hquote, if_neg hslash, if_neg (by omega), if_neg (by omega), if_neg (by omega),
    if_neg (by omega), if_neg (by omega), if_neg hlow]

theorem flatMap_escapeChar_of_plain {cs : List Char} (h : ∀ c ∈ cs, ¬ Special c) :
    cs.flatMap escapeChar = cs := by
  induction cs with
  | nil => rfl
  | cons c cs ih =>
      rw [List.flatMap_cons, escapeChar_of_not_special (h c (by simp)),
        ih (fun d hd => h d (by simp [hd]))]
      rfl

/-- A string without special characters is printed as it stands. -/
theorem escape_of_plain {s : String} (h : ∀ c ∈ s.toList, ¬ Special c) : escape s = s := by
  rw [escape, flatMap_escapeChar_of_plain h, String.ofList_toList]

/-- A special character is printed behind a backslash. -/
theorem backslash_mem_escape {s : String} {c : Char} (hc : c ∈ s.toList) (h : Special c) :
    '\x5c' ∈ (escape s).toList := by
  obtain ⟨rest, hrest⟩ := escapeChar_of_special h
  rw [escape, String.toList_ofList, List.mem_flatMap]
  exact ⟨c, hc, by rw [hrest]; exact List.mem_cons_self⟩

namespace ClientHello

theorem mapStrings_escape_of_plain {h : ClientHello} (hplain : h.Plain) :
    h.mapStrings escape = h := by
  simp only [Plain, strings, List.forall_mem_cons] at hplain
  obtain ⟨h₁, h₂, h₃, h₄, h₅, h₆, h₇, -⟩ := hplain
  rw [mapStrings, escape_of_plain h₁, escape_of_plain h₂, escape_of_plain h₃,
    escape_of_plain h₄, escape_of_plain h₅, escape_of_plain h₆, escape_of_plain h₇]

/-- Outside the plain greetings some field is printed with an escape. -/
theorem exists_backslash_of_not_plain {h : ClientHello} (hplain : ¬ h.Plain) :
    ∃ s ∈ h.strings, '\x5c' ∈ (escape s).toList := by
  simp only [Plain, not_forall, not_not] at hplain
  obtain ⟨s, hs, c, hc, hspecial⟩ := hplain
  exact ⟨s, hs, backslash_mem_escape hc hspecial⟩

end ClientHello

/-! ## The reader -/

namespace SerdeJson

@[simp] theorem expect_append (front rest : List Char) :
    expect front (front ++ rest) = some rest := by
  induction front with
  | nil => rfl
  | cons c front ih => simp [expect, ih]

/-- A printed number ends where the digits end. -/
theorem number_append (n : ℕ) {rest : List Char} (hrest : ∀ c ∈ rest.head?, c.isDigit = false) :
    number (Nat.toDigits 10 n ++ rest) = (n, rest) := by
  have hdigits : ∀ c ∈ Nat.toDigits 10 n, c.isDigit = true :=
    fun c hc => Nat.isDigit_of_mem_toDigits (by omega) (by omega) hc
  have htake : rest.takeWhile Char.isDigit = [] := by
    cases rest with
    | nil => rfl
    | cons c rest => simp [hrest c (by simp)]
  have hdrop : rest.dropWhile Char.isDigit = rest := by
    cases rest with
    | nil => rfl
    | cons c rest => simp [hrest c (by simp)]
  rw [number, List.takeWhile_append_of_pos hdigits, List.dropWhile_append_of_pos hdigits,
    htake, hdrop, List.append_nil, Nat.ofDigitChars_ten_toDigits]

/-- A printed literal is borrowed exactly when nothing in it had to be escaped. -/
theorem borrowed_append (cs rest : List Char) :
    borrowed (cs.flatMap escapeChar ++ '\x22' :: rest) =
      if cs.all fun c => ¬ Special c then some (cs, '\x22' :: rest) else none := by
  induction cs with
  | nil => simp [borrowed]
  | cons c cs ih =>
      rw [List.flatMap_cons, List.append_assoc]
      by_cases hc : Special c
      · obtain ⟨tail, htail⟩ := escapeChar_of_special hc
        have hslash : Special '\x5c' := .inr (.inl rfl)
        simp [htail, borrowed, hslash, hc]
      · have hquote : c ≠ '\x22' := fun h => hc (.inl h)
        rw [escapeChar_of_not_special hc, List.singleton_append, borrowed, if_neg hquote,
          if_neg hc, ih, List.all_cons, decide_eq_true hc, Bool.true_and]
        cases cs.all fun d => ¬ Special d <;> rfl

theorem numberField_bind (key : String) (n : ℕ) {rest : List Char} {α : Type}
    (f : ℕ × List Char → Option α) (hrest : ∀ c ∈ rest.head?, c.isDigit = false) :
    (numberField key (key.toList ++ (Nat.toDigits 10 n ++ rest))).bind f = f (n, rest) := by
  rw [numberField, expect_append, Option.map_some, number_append n hrest, Option.bind_some]

/-- Reading goes on behind a printed literal exactly when it was borrowed. -/
theorem stringField_bind (key s : String) {rest : List Char} {α : Type}
    (f : String × List Char → Option α) (hrest : rest.head? = some '\x22') :
    (stringField key (key.toList ++ ((escape s).toList ++ rest))).bind f =
      if s.toList.all fun c => ¬ Special c then f (s, rest) else none := by
  obtain ⟨tail, rfl⟩ := List.head?_eq_some_iff.mp hrest
  rw [stringField, expect_append, escape, String.toList_ofList]
  simp only [Option.bind_eq_bind, Option.bind_some, borrowed_append]
  split
  · simp
  · rfl

theorem boolField_bind (key : String) (b : Bool) {rest : List Char} {α : Type}
    (f : Bool × List Char → Option α) :
    (boolField key (key.toList ++ ((if b then "true" else "false").toList ++ rest))).bind f =
      f (b, rest) := by
  cases b <;> simp [boolField, expect]

theorem readSettings_text (s : ServerSettings) : readSettings s.text.toList = some s := by
  obtain ⟨bufferMs, latency, muted, volume⟩ := s
  simp only [ServerSettings.text, String.toList_append, Nat.toList_repr, List.append_assoc,
    readSettings, Option.bind_eq_bind]
  rw [numberField_bind _ _ _ (by simp)]
  dsimp only
  rw [numberField_bind _ _ _ (by simp)]
  dsimp only
  rw [boolField_bind]
  dsimp only
  rw [numberField_bind _ _ _ (by simp)]
  simp

/-- Reading a printed greeting back succeeds exactly on the plain ones. -/
theorem readHello_text (h : ClientHello) :
    readHello (h.mapStrings escape).text.toList = if h.Plain then some h else none := by
  obtain ⟨MAC, HostName, Version, ClientName, OS, Arch, inst, ID, version⟩ := h
  simp only [ClientHello.text, ClientHello.mapStrings, String.toList_append, Nat.toList_repr,
    List.append_assoc, ClientHello.Plain, ClientHello.strings, List.forall_mem_cons, readHello,
    Option.bind_eq_bind]
  rw [stringField_bind _ _ _ (by simp)]
  dsimp only
  rw [stringField_bind _ _ _ (by simp)]
  dsimp only
  rw [stringField_bind _ _ _ (by simp)]
  dsimp only
  rw [stringField_bind _ _ _ (by simp)]
  dsimp only
  rw [stringField_bind _ _ _ (by simp)]
  dsimp only
  rw [stringField_bind _ _ _ (by simp)]
  dsimp only
  rw [numberField_bind _ _ _ (by simp)]
  dsimp only
  rw [stringField_bind _ _ _ (by simp)]
  dsimp only
  rw [numberField_bind _ _ _ (by simp)]
  simp [ite_and]

/-! ## The assumptions hold of the reader -/

theorem compact_settingsLaws : compact.SettingsLaws where
  print _ := rfl
  parse s := by simp [compact, readSettings_text]

theorem compact_helloLaws : compact.HelloLaws where
  print _ := rfl
  borrow h hplain := by
    have hread := readHello_text h
    rw [ClientHello.mapStrings_escape_of_plain hplain, if_pos hplain] at hread
    simp [compact, hread]
  copy h hslash := by
    have hplain : ¬ h.Plain := by
      rintro hplain
      obtain ⟨s, hs, hmem⟩ := hslash
      rw [escape_of_plain (hplain s hs)] at hmem
      exact hplain s hs _ hmem (.inr (.inl rfl))
    have hread := readHello_text h
    rw [if_neg hplain] at hread
    exact ⟨_, by simp [compact, hread]; rfl⟩

end SerdeJson

/-! ## Sizes -/

theorem utf8Bytes_length_le (s : String) : (utf8Bytes s).length ≤ 4 * s.toList.length := by
  have hcs : ∀ cs : List Char, (utf8Bytes (String.ofList cs)).length ≤ 4 * cs.length := by
    intro cs
    induction cs with
    | nil => simp [utf8Bytes]
    | cons c cs ih =>
        have hc : (utf8Bytes (String.singleton c)).length = c.utf8Size :=
          String.utf8ByteSize_singleton
        have hsize := c.utf8Size_le_four
        rw [String.ofList_cons, utf8Bytes_append, List.length_append, hc, List.length_cons]
        omega
  simpa using hcs s.toList

/-- The compact object of any settings fits in 128 characters. -/
theorem ServerSettings.text_length_le (s : ServerSettings) : s.text.toList.length ≤ 128 := by
  have hdigits : ∀ n < 10 ^ 10, (Nat.toDigits 10 n).length ≤ 10 :=
    fun n hn => (Nat.length_toDigits_le_iff (by omega) (by omega)).mpr hn
  have hbuffer := hdigits s.bufferMs.toNat (by have := s.bufferMs.toNat_lt; omega)
  have hlatency := hdigits s.latency.toNat (by have := s.latency.toNat_lt; omega)
  have hvolume := hdigits s.volume.toNat (by have := s.volume.toNat_lt; omega)
  have hmuted : (if s.muted then "true" else "false").toList.length ≤ 5 := by
    cases s.muted <;> simp
  simp only [text, String.toList_append, Nat.toList_repr, List.length_append]
  have hkeys : "\x7b\x22bufferMs\x22:".toList.length = 12 ∧ ",\x22latency\x22:".toList.length = 11 ∧
      ",\x22muted\x22:".toList.length = 9 ∧ ",\x22volume\x22:".toList.length = 10 ∧
      "\x7d".toList.length = 1 := by decide
  omega

end SnapcastClient
