import PayloadSchema.Xml.Document

/-!
# Decoding encoded text

The bytes of a text are decoded to its characters.  A text that starts with a tag shows no encoding but the usual one,
has no declaration, and nothing stands before its root.
-/

namespace PayloadSchema.Xml.Encoding

/-! ## Characters of one byte or more -/

section Bytes

variable {a b d e : UInt8} {bytes : List UInt8}

theorem isTail_iff : isTail b ↔ 0x80 ≤ b.toNat ∧ b.toNat ≤ 0xBF := by
  simp [isTail, UInt8.le_iff_toNat_le]

theorem decodeUtf8_one (ha : a.toNat < 0x80) : decodeUtf8 (a :: bytes) = charOf a.toNat :: decodeUtf8 bytes := by
  have hshort : a < 0x80 := UInt8.lt_iff_toNat_lt.2 ha
  rw [decodeUtf8.eq_def]
  simp only [if_pos hshort]

theorem decodeUtf8_two (ha : 0xC2 ≤ a.toNat ∧ a.toNat ≤ 0xDF) (hb : isTail b) :
    decodeUtf8 (a :: b :: bytes) =
      charOf ((a.toNat - 0xC0) * 64 + (b.toNat - 0x80)) :: decodeUtf8 bytes := by
  have hlong : ¬ a < 0x80 := by
    simp only [UInt8.lt_iff_toNat_lt, UInt8.reduceToNat]
    omega
  have hlead : (0xC2 ≤ a && a ≤ 0xDF) = true := by
    simpa [UInt8.le_iff_toNat_le] using ha
  simp only [decodeUtf8, if_neg hlong, if_pos hlead, if_pos hb]

theorem decodeUtf8_three (ha : 0xE0 ≤ a.toNat ∧ a.toNat ≤ 0xEF) (hb : isTail b) (hd : isTail d)
    (hshortest : a.toNat = 0xE0 → 0xA0 ≤ b.toNat) (hscalar : a.toNat = 0xED → b.toNat ≤ 0x9F) :
    decodeUtf8 (a :: b :: d :: bytes) =
      charOf ((a.toNat - 0xE0) * 4096 + (b.toNat - 0x80) * 64 + (d.toNat - 0x80)) :: decodeUtf8 bytes := by
  have hlong : ¬ a < 0x80 := by
    simp only [UInt8.lt_iff_toNat_lt, UInt8.reduceToNat]
    omega
  have htwo : ¬ (0xC2 ≤ a && a ≤ 0xDF) = true := by
    simp only [Bool.and_eq_true, decide_eq_true_eq, UInt8.le_iff_toNat_le, UInt8.reduceToNat]
    omega
  have hlead : (0xE0 ≤ a && a ≤ 0xEF) = true := by
    simpa [UInt8.le_iff_toNat_le] using ha
  have hrest : (isTail b && isTail d && (a != 0xE0 || 0xA0 ≤ b) && (a != 0xED || b ≤ 0x9F)) = true := by
    simp only [hb, hd, true_and, Bool.and_eq_true, Bool.or_eq_true, bne_iff_ne, ne_eq, ← UInt8.toNat_inj,
      decide_eq_true_eq, UInt8.le_iff_toNat_le, UInt8.reduceToNat]
    omega
  simp only [decodeUtf8, if_neg hlong, if_neg htwo, if_pos hlead, if_pos hrest]

theorem decodeUtf8_four (ha : 0xF0 ≤ a.toNat ∧ a.toNat ≤ 0xF4) (hb : isTail b) (hd : isTail d) (he : isTail e)
    (hshortest : a.toNat = 0xF0 → 0x90 ≤ b.toNat) (hscalar : a.toNat = 0xF4 → b.toNat ≤ 0x8F) :
    decodeUtf8 (a :: b :: d :: e :: bytes) =
      charOf ((a.toNat - 0xF0) * 262144 + (b.toNat - 0x80) * 4096 + (d.toNat - 0x80) * 64 + (e.toNat - 0x80)) ::
        decodeUtf8 bytes := by
  have hlong : ¬ a < 0x80 := by
    simp only [UInt8.lt_iff_toNat_lt, UInt8.reduceToNat]
    omega
  have htwo : ¬ (0xC2 ≤ a && a ≤ 0xDF) = true := by
    simp only [Bool.and_eq_true, decide_eq_true_eq, UInt8.le_iff_toNat_le, UInt8.reduceToNat]
    omega
  have hthree : ¬ (0xE0 ≤ a && a ≤ 0xEF) = true := by
    simp only [Bool.and_eq_true, decide_eq_true_eq, UInt8.le_iff_toNat_le, UInt8.reduceToNat]
    omega
  have hlead : (0xF0 ≤ a && a ≤ 0xF4) = true := by
    simpa [UInt8.le_iff_toNat_le] using ha
  have hrest : (isTail b && isTail d && isTail e && (a != 0xF0 || 0x90 ≤ b) && (a != 0xF4 || b ≤ 0x8F)) = true := by
    simp only [hb, hd, he, true_and, Bool.and_eq_true, Bool.or_eq_true, bne_iff_ne, ne_eq, ← UInt8.toNat_inj,
      decide_eq_true_eq, UInt8.le_iff_toNat_le, UInt8.reduceToNat]
    omega
  simp only [decodeUtf8, if_neg hlong, if_neg htwo, if_neg hthree, if_pos hlead, if_pos hrest]

end Bytes

/-! ## Texts -/

theorem charOf_toNat (c : Char) : charOf c.toNat = c := by
  have hvalid : c.toNat.isValidChar := c.valid
  rw [charOf, dif_pos hvalid]
  rfl

theorem decodeUtf8_encodeChar (c : Char) (bytes : List UInt8) :
    decodeUtf8 (String.utf8EncodeChar c ++ bytes) = c :: decodeUtf8 bytes := by
  have hself := charOf_toNat c
  have hvalid : c.toNat < 0xD800 ∨ 0xDFFF < c.toNat ∧ c.toNat < 0x110000 := c.valid
  have hval : c.val.toNat = c.toNat := rfl
  have hbyte (n : Nat) : (UInt8.ofNat n).toNat = n % 256 := UInt8.toNat_ofNat'
  rw [String.utf8EncodeChar, hval]
  generalize c.toNat = v at *
  split
  · rw [List.cons_append, List.nil_append, decodeUtf8_one (by rw [hbyte]; omega), hbyte]
    rw [Nat.mod_eq_of_lt (by omega), hself]
  split
  · rw [List.cons_append, List.cons_append, List.nil_append, decodeUtf8_two, hbyte, hbyte]
    · have hsum : ((v / 64 % 32 + 192) % 256 - 0xC0) * 64 + ((v % 64 + 128) % 256 - 0x80) = v := by omega
      rw [hsum, hself]
    all_goals simp only [isTail_iff, hbyte]; omega
  split
  · rw [List.cons_append, List.cons_append, List.cons_append, List.nil_append, decodeUtf8_three, hbyte, hbyte, hbyte]
    · have hsum : ((v / 4096 % 16 + 224) % 256 - 0xE0) * 4096 + ((v / 64 % 64 + 128) % 256 - 0x80) * 64 +
          ((v % 64 + 128) % 256 - 0x80) = v := by omega
      rw [hsum, hself]
    all_goals simp only [isTail_iff, hbyte]; omega
  · rw [List.cons_append, List.cons_append, List.cons_append, List.cons_append, List.nil_append, decodeUtf8_four, hbyte,
      hbyte, hbyte, hbyte]
    · have hsum : ((v / 262144 % 8 + 240) % 256 - 0xF0) * 262144 + ((v / 4096 % 64 + 128) % 256 - 0x80) * 4096 +
          ((v / 64 % 64 + 128) % 256 - 0x80) * 64 + ((v % 64 + 128) % 256 - 0x80) = v := by omega
      rw [hsum, hself]
    all_goals simp only [isTail_iff, hbyte]; omega

private theorem toList_loop (bytes : ByteArray) (i : Nat) (met : List UInt8) :
    ByteArray.toList.loop bytes i met = met.reverse ++ bytes.data.toList.drop i := by
  fun_induction ByteArray.toList.loop bytes i met with
  | case1 i met h ih =>
    have hi : i < bytes.data.toList.length := by simpa using h
    rw [ih, List.drop_eq_getElem_cons hi]
    simp [ByteArray.get!, h]
  | case2 i met h =>
    rw [List.drop_eq_nil_of_le (by simpa using h), List.append_nil]

theorem toList_toUTF8 (s : String) : s.toUTF8.toList = s.toList.flatMap String.utf8EncodeChar := by
  have hself : s.toUTF8 = s.toList.utf8Encode := by
    rw [String.toUTF8, ← String.toByteArray_ofList, String.ofList_toList]
  rw [hself, ByteArray.toList, toList_loop, List.utf8Encode]
  simp

theorem decodeUtf8_toUTF8 (s : String) : decodeUtf8 s.toUTF8.toList = s.toList := by
  rw [toList_toUTF8]
  induction s.toList with
  | nil => rfl
  | cons c cs ih => rw [List.flatMap_cons, decodeUtf8_encodeChar, ih]

/-- The first byte of a character that is not null is not null. -/
theorem encodeChar_eq_cons {c : Char} (hc : c ≠ '\x00') :
    ∃ b bytes, String.utf8EncodeChar c = b :: bytes ∧ b ≠ 0 := by
  have hne : c.toNat ≠ 0 := fun h => hc (by rw [← charOf_toNat c, h]; rfl)
  have hval : c.val.toNat = c.toNat := rfl
  have hbyte {n : Nat} (h : n % 256 ≠ 0) : UInt8.ofNat n ≠ 0 := by
    rwa [ne_eq, ← UInt8.toNat_inj, UInt8.toNat_ofNat']
  rw [String.utf8EncodeChar, hval]
  generalize c.toNat = v at *
  split
  · exact ⟨_, _, rfl, hbyte (by omega)⟩
  split
  · exact ⟨_, _, rfl, hbyte (by omega)⟩
  split
  · exact ⟨_, _, rfl, hbyte (by omega)⟩
  · exact ⟨_, _, rfl, hbyte (by omega)⟩

end PayloadSchema.Xml.Encoding

namespace PayloadSchema.Xml

/-! ## The start of a document -/

section Start

variable {rule : NameRule} {c : Char} {cs : List Char}

theorem NameRule.ne_of_isStart {d : Char} (hc : rule.isStart c) (hd : rule.isStart d = false) : c ≠ d := by
  rintro rfl
  cases hc.symm.trans hd

theorem atStart_tag (hc : rule.isStart c) : Declaration.atStart ('<' :: c :: cs) = .ok none := by
  have hne : c ≠ '?' := rule.ne_of_isStart hc rfl
  unfold Declaration.atStart
  split
  · simp_all
  · rfl

theorem detect_tag {bytes : List UInt8} {b : UInt8} (hb : b ≠ 0) :
    Encoding.detect (0x3C :: b :: bytes) = (.utf8, 0x3C :: b :: bytes) := by
  unfold Encoding.detect
  split <;> simp_all

theorem decodeDocument_tag {s : String} (hs : s.toList = '<' :: c :: cs) (hc : (⟨false⟩ : NameRule).isStart c) :
    decodeDocument s.toUTF8.toList = .ok ⟨⟨false⟩, false, s.toList⟩ := by
  obtain ⟨b, rest, hfirst, hb⟩ := Encoding.encodeChar_eq_cons (NameRule.ne_of_isStart hc rfl)
  have hbytes : s.toUTF8.toList = 0x3C :: b :: (rest ++ cs.flatMap String.utf8EncodeChar) := by
    rw [Encoding.toList_toUTF8, hs, List.flatMap_cons, List.flatMap_cons, hfirst]
    rfl
  have hdetect : Encoding.detect s.toUTF8.toList = (.utf8, s.toUTF8.toList) := by
    rw [hbytes, detect_tag hb]
  rw [decodeDocument, hdetect]
  dsimp only
  rw [Encoding.decode, Encoding.decodeUtf8_toUTF8, hs, atStart_tag hc]
  rfl

theorem token_tag (hc : rule.isStart c) : Doctype.token? rule ('<' :: c :: cs) = some (.root, '<' :: c :: cs) := by
  have hbang : c ≠ '!' := rule.ne_of_isStart hc rfl
  have hmark : c ≠ '?' := rule.ne_of_isStart hc rfl
  have hspace : ('<' :: c :: cs).dropWhile isSpace = '<' :: c :: cs := by
    rw [List.dropWhile_cons, if_neg (by decide)]
  unfold Doctype.token?
  rw [hspace]
  split <;> simp_all

theorem prolog_tag (hc : rule.isStart c) :
    Prolog.read rule false ('<' :: c :: cs) = .ok ⟨'<' :: c :: cs, false, true, []⟩ := by
  have hnext : (Doctype.next ⟨rule, false⟩).run ⟨'<' :: c :: cs, false, true, []⟩ =
      .ok (.root, ⟨'<' :: c :: cs, false, true, []⟩) := by
    simp only [Doctype.next, StateT.run_bind, StateT.run_get, pure_bind, token_tag hc]
    rfl
  rw [Prolog.read, Doctype.prolog, StateT.run_bind, hnext]
  rfl

end Start

end PayloadSchema.Xml
