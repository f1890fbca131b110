import TruthTables.Text.Utf8

/-!
# Encoding — which bytes are read as which text

    A character has one encoding of one to four bytes.  The reader of bytes
    knows nothing of encodings: it looks at a lead byte, then at one
    continuation byte after another, each within a range that the lead byte
    may have narrowed.

    It comes to the same (`decode_eq_ok_iff`): bytes are read as a text exactly
    when they are the encodings of its characters, side by side.
-/

namespace TruthTables.Utf8

/-- The encodings of characters, side by side. -/
def encode (cs : List Char) : List UInt8 := cs.flatMap String.utf8EncodeChar

/-- The least byte that may follow a lead byte. -/
def lowAfter (lead : Nat) : Nat := if lead = 0xE0 then 0xA0 else if lead = 0xF0 then 0x90 else 0x80

/-- The greatest byte that may follow a lead byte. -/
def highAfter (lead : Nat) : Nat := if lead = 0xED then 0x9F else if lead = 0xF4 then 0x8F else 0xBF

/-- A lead byte announces a character of two, three or four bytes. -/
theorem announce?_eq (start : Nat) (b : UInt8) :
    announce? start b =
      if 0xC2 ≤ b.toNat ∧ b.toNat ≤ 0xDF then
        some ⟨b, start, 1, 0, b.toNat - 0xC0, lowAfter b.toNat, highAfter b.toNat⟩
      else if 0xE0 ≤ b.toNat ∧ b.toNat ≤ 0xEF then
        some ⟨b, start, 1, 1, b.toNat - 0xE0, lowAfter b.toNat, highAfter b.toNat⟩
      else if 0xF0 ≤ b.toNat ∧ b.toNat ≤ 0xF4 then
        some ⟨b, start, 1, 2, b.toNat - 0xF0, lowAfter b.toNat, highAfter b.toNat⟩
      else none := by
  rw [announce?]
  generalize b.toNat = n
  by_cases hE0 : n = 0xE0
  · rw [hE0]; rfl
  by_cases hED : n = 0xED
  · rw [hED]; rfl
  by_cases hF0 : n = 0xF0
  · rw [hF0]; rfl
  by_cases hF4 : n = 0xF4
  · rw [hF4]; rfl
  have hthree : 0xE1 ≤ n ∧ n ≤ 0xEF ↔ 0xE0 ≤ n ∧ n ≤ 0xEF := by omega
  have hfour : 0xF1 ≤ n ∧ n ≤ 0xF3 ↔ 0xF0 ≤ n ∧ n ≤ 0xF4 := by omega
  simp only [lowAfter, highAfter, hE0, hED, hF0, hF4, hthree, hfour, if_false]

/-- A byte that continues a character, where the lead byte does not say more. -/
def Continues (b : UInt8) : Prop := 0x80 ≤ b.toNat ∧ b.toNat ≤ 0xBF

/-- A byte that may follow the lead byte. -/
def Follows (lead b : UInt8) : Prop :=
  lowAfter lead.toNat ≤ b.toNat ∧ b.toNat ≤ highAfter lead.toNat

/-- The value of a continuation byte. -/
def payload (b : UInt8) : Nat := b.toNat - 0x80

theorem payload_add {b : UInt8} (h : 0x80 ≤ b.toNat) : payload b + 0x80 = b.toNat :=
  Nat.sub_add_cancel h

/-- Bytes that are read as one character, and its code point. -/
inductive Forms : List UInt8 → Nat → Prop where
  | one {a : UInt8} : a.toNat < 0x80 → Forms [a] a.toNat
  | two {a b : UInt8} : 0xC2 ≤ a.toNat → a.toNat ≤ 0xDF → Follows a b →
      Forms [a, b] (64 * (a.toNat - 0xC0) + payload b)
  | three {a b c : UInt8} : 0xE0 ≤ a.toNat → a.toNat ≤ 0xEF → Follows a b → Continues c →
      Forms [a, b, c] (64 * (64 * (a.toNat - 0xE0) + payload b) + payload c)
  | four {a b c d : UInt8} : 0xF0 ≤ a.toNat → a.toNat ≤ 0xF4 → Follows a b → Continues c →
      Continues d →
      Forms [a, b, c, d] (64 * (64 * (64 * (a.toNat - 0xF0) + payload b) + payload c) + payload d)

-- ── What the reader takes for a character ─────────────────────────────────

section

variable {lead b : UInt8} {start seen missing bits low high : Nat}

theorem decodeFrom_last (hb : low ≤ b.toNat ∧ b.toNat ≤ high) (offset : Nat) (bs : List UInt8) :
    decodeFrom offset (some ⟨lead, start, seen, 0, bits, low, high⟩) (b :: bs) =
      (do return Char.ofNat (64 * bits + payload b) :: (← decodeFrom (offset + 1) none bs)) := by
  rw [decodeFrom]
  exact if_pos hb

theorem decodeFrom_more (hb : low ≤ b.toNat ∧ b.toNat ≤ high) (offset : Nat) (bs : List UInt8) :
    decodeFrom offset (some ⟨lead, start, seen, missing + 1, bits, low, high⟩) (b :: bs) =
      decodeFrom (offset + 1)
        (some ⟨lead, start, seen + 1, missing, 64 * bits + payload b, 0x80, 0xBF⟩) bs := by
  rw [decodeFrom]
  exact if_pos hb

theorem decodeFrom_lead {u : Unfinished} {offset : Nat} (hb : ¬ b.toNat < 0x80)
    (hu : announce? offset b = some u) (bs : List UInt8) :
    decodeFrom offset none (b :: bs) = decodeFrom (offset + 1) (some u) bs := by
  rw [decodeFrom, if_neg hb, hu]

end

/-- The reader takes the bytes that form a character. -/
theorem decodeFrom_of_forms {w : List UInt8} {n : Nat} (h : Forms w n) (offset : Nat)
    (bs : List UInt8) : decodeFrom offset none (w ++ bs) =
      (do return Char.ofNat n :: (← decodeFrom (offset + w.length) none bs)) := by
  cases h with
  | @one a ha =>
      show decodeFrom offset none (a :: bs) = _
      rw [decodeFrom, if_pos ha]
      rfl
  | @two a b hlo hhi hb =>
      have hlead := announce?_eq offset a
      rw [if_pos ⟨hlo, hhi⟩] at hlead
      show decodeFrom offset none (a :: b :: bs) = _
      rw [decodeFrom_lead (by omega) hlead, decodeFrom_last hb]
      rfl
  | @three a b c hlo hhi hb hc =>
      have hlead := announce?_eq offset a
      rw [if_neg (by omega), if_pos ⟨hlo, hhi⟩] at hlead
      show decodeFrom offset none (a :: b :: c :: bs) = _
      rw [decodeFrom_lead (by omega) hlead, decodeFrom_more hb, decodeFrom_last hc]
      rfl
  | @four a b c d hlo hhi hb hc hd =>
      have hlead := announce?_eq offset a
      rw [if_neg (by omega), if_neg (by omega), if_pos ⟨hlo, hhi⟩] at hlead
      show decodeFrom offset none (a :: b :: c :: d :: bs) = _
      rw [decodeFrom_lead (by omega) hlead, decodeFrom_more hb, decodeFrom_more hc,
        decodeFrom_last hd]
      rfl

/-- In the middle of a character a fitting byte has to come. -/
theorem exists_fitting {u : Unfinished} {offset : Nat} {bs : List UInt8} {cs : List Char}
    (h : decodeFrom offset (some u) bs = .ok cs) :
    ∃ b rest, bs = b :: rest ∧ u.low ≤ b.toNat ∧ b.toNat ≤ u.high := by
  cases bs with
  | nil => cases h
  | cons b rest =>
      rw [decodeFrom] at h
      dsimp only at h
      by_cases hb : u.low ≤ b.toNat ∧ b.toNat ≤ u.high
      · exact ⟨b, rest, rfl, hb⟩
      · rw [if_neg hb] at h
        cases h

/-- Bytes that are read begin with a character. -/
theorem exists_forms {offset : Nat} {b : UInt8} {bs : List UInt8} {cs : List Char}
    (h : decodeFrom offset none (b :: bs) = .ok cs) :
    ∃ w n rest, Forms w n ∧ b :: bs = w ++ rest := by
  by_cases hone : b.toNat < 0x80
  · exact ⟨[b], b.toNat, bs, .one hone, rfl⟩
  have hlead := announce?_eq offset b
  split at hlead
  · rename_i htwo
    rw [decodeFrom_lead hone hlead] at h
    obtain ⟨b₁, rest, rfl, h₁⟩ := exists_fitting h
    exact ⟨[b, b₁], _, rest, .two htwo.1 htwo.2 h₁, rfl⟩
  split at hlead
  · rename_i hthree
    rw [decodeFrom_lead hone hlead] at h
    obtain ⟨b₁, rest, rfl, h₁⟩ := exists_fitting h
    rw [decodeFrom_more h₁] at h
    obtain ⟨b₂, rest, rfl, h₂⟩ := exists_fitting h
    exact ⟨[b, b₁, b₂], _, rest, .three hthree.1 hthree.2 h₁ h₂, rfl⟩
  split at hlead
  · rename_i hfour
    rw [decodeFrom_lead hone hlead] at h
    obtain ⟨b₁, rest, rfl, h₁⟩ := exists_fitting h
    rw [decodeFrom_more h₁] at h
    obtain ⟨b₂, rest, rfl, h₂⟩ := exists_fitting h
    rw [decodeFrom_more h₂] at h
    obtain ⟨b₃, rest, rfl, h₃⟩ := exists_fitting h
    exact ⟨[b, b₁, b₂, b₃], _, rest, .four hfour.1 hfour.2 h₁ h₂ h₃, rfl⟩
  · rw [decodeFrom, if_neg hone, hlead] at h
    cases h

-- ── What forms a character is its encoding ────────────────────────────────

theorem lowAfter_cases (n : Nat) :
    (n = 0xE0 ∧ lowAfter n = 0xA0) ∨ (n = 0xF0 ∧ lowAfter n = 0x90) ∨
      (n ≠ 0xE0 ∧ n ≠ 0xF0 ∧ lowAfter n = 0x80) := by
  unfold lowAfter
  split
  · exact .inl ⟨‹_›, rfl⟩
  · split
    · exact .inr (.inl ⟨‹_›, rfl⟩)
    · exact .inr (.inr ⟨‹_›, ‹_›, rfl⟩)

theorem highAfter_cases (n : Nat) :
    (n = 0xED ∧ highAfter n = 0x9F) ∨ (n = 0xF4 ∧ highAfter n = 0x8F) ∨
      (n ≠ 0xED ∧ n ≠ 0xF4 ∧ highAfter n = 0xBF) := by
  unfold highAfter
  split
  · exact .inl ⟨‹_›, rfl⟩
  · split
    · exact .inr (.inl ⟨‹_›, rfl⟩)
    · exact .inr (.inr ⟨‹_›, ‹_›, rfl⟩)

/-- The continuation byte with the given payload. -/
theorem toNat_tail (n : Nat) : (UInt8.ofNat (n % 64 + 128)).toNat = n % 64 + 0x80 := by
  rw [UInt8.toNat_ofNat']
  omega

/-- The encoding of a character forms its code point. -/
theorem forms_utf8EncodeChar (c : Char) : Forms (String.utf8EncodeChar c) c.toNat := by
  have hvalid : c.val.toNat < 0xD800 ∨ 0xDFFF < c.val.toNat ∧ c.val.toNat < 0x110000 := c.valid
  show Forms (if c.val.toNat ≤ 127 then _ else if c.val.toNat ≤ 2047 then _ else
    if c.val.toNat ≤ 65535 then _ else _) c.val.toNat
  generalize c.val.toNat = v at hvalid
  -- the byte in front is the lead byte, and the others carry six bits each
  have htail := toNat_tail v
  have htail' := toNat_tail (v / 64)
  have htail'' := toNat_tail (v / 4096)
  by_cases hone : v ≤ 127
  · rw [if_pos hone]
    have ha : (UInt8.ofNat v).toNat = v := by
      rw [UInt8.toNat_ofNat']
      omega
    have h := Forms.one (a := UInt8.ofNat v) (by omega)
    rwa [ha] at h
  rw [if_neg hone]
  by_cases htwo : v ≤ 2047
  · rw [if_pos htwo]
    have ha : (UInt8.ofNat (v / 64 % 32 + 192)).toNat = v / 64 + 0xC0 := by
      rw [UInt8.toNat_ofNat']
      omega
    generalize UInt8.ofNat (v / 64 % 32 + 192) = a at ha
    have hlow := lowAfter_cases a.toNat
    have hhigh := highAfter_cases a.toNat
    have h := Forms.two (a := a) (b := .ofNat (v % 64 + 128)) (by omega) (by omega)
      ⟨by omega, by omega⟩
    have hv : 64 * (a.toNat - 0xC0) + payload (.ofNat (v % 64 + 128)) = v := by
      unfold payload
      omega
    rwa [hv] at h
  rw [if_neg htwo]
  by_cases hthree : v ≤ 65535
  · rw [if_pos hthree]
    have ha : (UInt8.ofNat (v / 4096 % 16 + 224)).toNat = v / 4096 + 0xE0 := by
      rw [UInt8.toNat_ofNat']
      omega
    generalize UInt8.ofNat (v / 4096 % 16 + 224) = a at ha
    have hlow := lowAfter_cases a.toNat
    have hhigh := highAfter_cases a.toNat
    have h := Forms.three (a := a) (b := .ofNat (v / 64 % 64 + 128)) (c := .ofNat (v % 64 + 128))
      (by omega) (by omega) ⟨by omega, by omega⟩ ⟨by omega, by omega⟩
    have hv : 64 * (64 * (a.toNat - 0xE0) + payload (.ofNat (v / 64 % 64 + 128))) +
        payload (.ofNat (v % 64 + 128)) = v := by
      unfold payload
      omega
    rwa [hv] at h
  · rw [if_neg hthree]
    have ha : (UInt8.ofNat (v / 262144 % 8 + 240)).toNat = v / 262144 + 0xF0 := by
      rw [UInt8.toNat_ofNat']
      omega
    generalize UInt8.ofNat (v / 262144 % 8 + 240) = a at ha
    have hlow := lowAfter_cases a.toNat
    have hhigh := highAfter_cases a.toNat
    have h := Forms.four (a := a) (b := .ofNat (v / 4096 % 64 + 128))
      (c := .ofNat (v / 64 % 64 + 128)) (d := .ofNat (v % 64 + 128)) (by omega) (by omega)
      ⟨by omega, by omega⟩ ⟨by omega, by omega⟩ ⟨by omega, by omega⟩
    have hv : 64 * (64 * (64 * (a.toNat - 0xF0) + payload (.ofNat (v / 4096 % 64 + 128))) +
        payload (.ofNat (v / 64 % 64 + 128))) + payload (.ofNat (v % 64 + 128)) = v := by
      unfold payload
      omega
    rwa [hv] at h

theorem utf8EncodeChar_ofNat {n : Nat} (h : n.isValidChar) :
    String.utf8EncodeChar (Char.ofNat n) =
      if n ≤ 127 then [.ofNat n]
      else if n ≤ 2047 then [.ofNat (n / 64 % 32 + 192), .ofNat (n % 64 + 128)]
      else if n ≤ 65535 then
        [.ofNat (n / 4096 % 16 + 224), .ofNat (n / 64 % 64 + 128), .ofNat (n % 64 + 128)]
      else
        [.ofNat (n / 262144 % 8 + 240), .ofNat (n / 4096 % 64 + 128), .ofNat (n / 64 % 64 + 128),
          .ofNat (n % 64 + 128)] := by
  have hn : (Char.ofNat n).val.toNat = n := by
    rw [Char.ofNat, dif_pos h]
    rfl
  rw [String.utf8EncodeChar]
  simp only [hn]

/-- What forms a code point is the encoding of its character, and there is one. -/
theorem Forms.utf8EncodeChar_eq {w : List UInt8} {n : Nat} (h : Forms w n) :
    String.utf8EncodeChar (Char.ofNat n) = w := by
  have hbyte : ∀ {m : Nat} {b : UInt8}, m = b.toNat → UInt8.ofNat m = b := by
    rintro m b rfl
    exact UInt8.ofNat_toNat
  cases h with
  | @one a ha =>
      rw [utf8EncodeChar_ofNat (.inl (by omega)), if_pos (by omega), UInt8.ofNat_toNat]
  | @two a b hlo hhi hb =>
      have hlow := lowAfter_cases a.toNat
      have hhigh := highAfter_cases a.toNat
      obtain ⟨hb, hb'⟩ := hb
      have hpayload := payload_add (b := b) (by omega)
      rw [utf8EncodeChar_ofNat (.inl (by omega)), if_neg (by omega), if_pos (by omega),
        hbyte (b := a) (by omega), hbyte (b := b) (by omega)]
  | @three a b c hlo hhi hb hc =>
      have hlow := lowAfter_cases a.toNat
      have hhigh := highAfter_cases a.toNat
      obtain ⟨hb, hb'⟩ := hb
      obtain ⟨hc, hc'⟩ := hc
      have hpayload := payload_add (b := b) (by omega)
      have hpayload' := payload_add (b := c) (by omega)
      have hvalid : (64 * (64 * (a.toNat - 0xE0) + payload b) + payload c).isValidChar := by
        unfold Nat.isValidChar
        omega
      rw [utf8EncodeChar_ofNat hvalid, if_neg (by omega), if_neg (by omega), if_pos (by omega),
        hbyte (b := a) (by omega), hbyte (b := b) (by omega), hbyte (b := c) (by omega)]
  | @four a b c d hlo hhi hb hc hd =>
      have hlow := lowAfter_cases a.toNat
      have hhigh := highAfter_cases a.toNat
      obtain ⟨hb, hb'⟩ := hb
      obtain ⟨hc, hc'⟩ := hc
      obtain ⟨hd, hd'⟩ := hd
      have hpayload := payload_add (b := b) (by omega)
      have hpayload' := payload_add (b := c) (by omega)
      have hpayload'' := payload_add (b := d) (by omega)
      have hvalid : (64 * (64 * (64 * (a.toNat - 0xF0) + payload b) + payload c) +
          payload d).isValidChar := by
        unfold Nat.isValidChar
        omega
      rw [utf8EncodeChar_ofNat hvalid, if_neg (by omega), if_neg (by omega), if_neg (by omega),
        hbyte (b := a) (by omega), hbyte (b := b) (by omega), hbyte (b := c) (by omega),
        hbyte (b := d) (by omega)]

-- ── Whole texts ───────────────────────────────────────────────────────────

theorem decodeFrom_encode (cs : List Char) :
    ∀ offset : Nat, decodeFrom offset none (encode cs) = .ok cs := by
  induction cs with
  | nil =>
      intro offset
      rfl
  | cons c cs ih =>
      intro offset
      show decodeFrom offset none (String.utf8EncodeChar c ++ encode cs) = _
      rw [decodeFrom_of_forms (forms_utf8EncodeChar c), ih, Char.ofNat_toNat]
      rfl

/-- Induction on the number of bytes: a character in front takes at least one. -/
theorem eq_encode_of_decodeFrom {offset : Nat} {bytes : List UInt8} {cs : List Char}
    (h : decodeFrom offset none bytes = .ok cs) : bytes = encode cs := by
  induction hn : bytes.length using Nat.strongRecOn generalizing offset bytes cs with
  | ind n ih =>
      cases bytes with
      | nil =>
          cases h
          rfl
      | cons b bs =>
          obtain ⟨w, v, rest, hforms, hsplit⟩ := exists_forms h
          rw [hsplit, decodeFrom_of_forms hforms] at h
          cases hrest : decodeFrom (offset + w.length) none rest with
          | error e =>
              rw [hrest] at h
              cases h
          | ok cs' =>
              rw [hrest] at h
              cases h
              have hlt : rest.length < n := by
                have hw : 0 < w.length := by cases hforms <;> exact Nat.succ_pos _
                rw [← hn, hsplit, List.length_append]
                omega
              rw [hsplit, ih rest.length hlt hrest rfl]
              show _ = String.utf8EncodeChar (Char.ofNat v) ++ encode cs'
              rw [hforms.utf8EncodeChar_eq]

/-- **Bytes are read as the text that they encode**, and as no other. -/
theorem decode_eq_ok_iff {bytes : List UInt8} {cs : List Char} :
    decode bytes = .ok cs ↔ bytes = encode cs := by
  constructor
  · exact eq_encode_of_decodeFrom
  · rintro rfl
    exact decodeFrom_encode cs 0

end TruthTables.Utf8
