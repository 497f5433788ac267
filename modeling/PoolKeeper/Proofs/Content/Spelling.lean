/-
The spellings of an identifier.

An identifier is read back from its text (`text_reads_back`). That text has 59
characters, and no other spelling is as short but those with letters of the other
case: each of the four numbers in front of the digest takes a byte at least, and
where none takes more the bytes are those that are written (`toBytes_or_longer`). The
numbers may be written longer, so an identifier has spellings in more characters
(`longer_spelling`).
-/
import PoolKeeper.Content.Cid
import PoolKeeper.Proofs.Content.Base32
import PoolKeeper.Proofs.Content.Varint

namespace PoolKeeper

namespace Codec

theorem ofCode?_code (c : Codec) : ofCode? c.code = some c := by cases c <;> rfl

theorem code_of_ofCode? {n : Nat} {c : Codec} (h : ofCode? n = some c) : c.code = n := by
  rw [ofCode?] at h
  split at h
  · cases h
    exact Eq.symm ‹n = 0x55›
  split at h
  · cases h
    exact Eq.symm ‹n = 0x70›
  · cases h

theorem code_lt (c : Codec) : c.code < 0x80 := by cases c <;> decide

end Codec

namespace Cid

/-! ## The binary form -/

theorem ofBytes?_toBytes (c : Cid) : ofBytes? c.toBytes = some c := by
  have hcode : c.codec.code < 2 ^ 64 := Nat.lt_trans c.codec.code_lt (by decide)
  simp [ofBytes?, toBytes, Varint.decode?_encode, hcode, version, sha256Code, digestLength,
    Codec.ofCode?_code, FixedBytes.ofBytes?_toBytes]

theorem length_toBytes (c : Cid) : c.toBytes.length = 36 := by
  rw [toBytes, Varint.encode_of_lt c.codec.code_lt, Varint.encode_of_lt (by decide),
    Varint.encode_of_lt (by decide), Varint.encode_of_lt (by decide)]
  simp

/-- What the bytes of an identifier are read as. -/
theorem ofBytes?_eq_some {bs : Bytes} {c : Cid} (h : ofBytes? bs = some c) :
    ∃ bs₁ bs₂ bs₃ bs₄, Varint.decode? bs = some (version, bs₁) ∧
      Varint.decode? bs₁ = some (c.codec.code, bs₂) ∧ Varint.decode? bs₂ = some (sha256Code, bs₃) ∧
      Varint.decode? bs₃ = some (digestLength, bs₄) ∧ c.digest.toBytes = bs₄ := by
  simp only [ofBytes?, Option.bind_eq_bind, Option.bind_eq_some_iff, Prod.exists] at h
  obtain ⟨v, bs₁, hversion, code, bs₂, hcode, hash, bs₃, hhash, length, bs₄, hlength,
    codec, hcodec, h⟩ := h
  by_cases hnumbers : v = version ∧ hash = sha256Code ∧ length = digestLength
  · simp only [hnumbers, and_self, if_true, Option.bind_eq_some_iff] at h
    obtain ⟨digest, hdigest, h⟩ := h
    obtain ⟨rfl, rfl, rfl⟩ := hnumbers
    cases h
    rw [← Codec.code_of_ofCode? hcodec] at hcode
    exact ⟨bs₁, bs₂, bs₃, bs₄, hversion, hcode, hhash, hlength,
      FixedBytes.toBytes_of_ofBytes? hdigest⟩
  · simp [hnumbers] at h

/-- **Bytes that are read as an identifier are its own, or they are more.** -/
theorem toBytes_or_longer {bs : Bytes} {c : Cid} (h : ofBytes? bs = some c) :
    bs = c.toBytes ∨ 36 < bs.length := by
  obtain ⟨bs₁, bs₂, bs₃, bs₄, hversion, hcode, hhash, hlength, hdigest⟩ := ofBytes?_eq_some h
  have hsize : bs₄.length = 32 := by rw [← hdigest, FixedBytes.length_toBytes]
  rcases Varint.decode?_cases hversion with ⟨h₁, hn₁⟩ | hn₁ <;>
    rcases Varint.decode?_cases hcode with ⟨h₂, hn₂⟩ | hn₂ <;>
    rcases Varint.decode?_cases hhash with ⟨h₃, hn₃⟩ | hn₃ <;>
    rcases Varint.decode?_cases hlength with ⟨h₄, hn₄⟩ | hn₄ <;>
    first
    | exact .inr (by omega)
    | exact .inl (by rw [h₁, h₂, h₃, h₄, ← hdigest, toBytes])

/-! ## The text -/

theorem toList_text (c : Cid) : c.text.toList = 'b' :: Base32.encode c.toBytes :=
  String.toList_ofList

theorem length_text (c : Cid) : c.text.length = 59 := by
  rw [← String.length_toList, toList_text, List.length_cons, Base32.length_encode, length_toBytes]

/-- A text is read as an identifier if it is the prefix and then, in letters of either case, what is
written for bytes that are read as the identifier. -/
theorem ofText?_eq_some_iff {s : String} {c : Cid} :
    ofText? s = some c ↔ ∃ cs bs, s.toList = 'b' :: cs ∧
      cs.map Char.toLower = Base32.encode bs ∧ ofBytes? bs = some c := by
  rw [ofText?]
  constructor
  · intro h
    split at h
    · rename_i cs hs
      obtain ⟨bs, hbs, hc⟩ := Option.bind_eq_some_iff.1 h
      exact ⟨cs, bs, hs, Base32.decode?_eq_some_iff.1 hbs, hc⟩
    · cases h
  · rintro ⟨cs, bs, hs, hbs, hc⟩
    rw [hs]
    exact Option.bind_eq_some_iff.2 ⟨bs, Base32.decode?_eq_some_iff.2 hbs, hc⟩

/-- **The text of an identifier is read back as it.** -/
theorem text_reads_back (c : Cid) : ofText? c.text = some c :=
  ofText?_eq_some_iff.2
    ⟨_, c.toBytes, toList_text c, Base32.toLower_encodeFrom 0 0 _, ofBytes?_toBytes c⟩

theorem toList_toLower (s : String) : s.toLower.toList = s.toList.map Char.toLower :=
  String.toList_map

/-- A spelling in 59 characters is the text but for the case of its letters, and every other
spelling has more. -/
theorem text_eq_or_longer {s : String} {c : Cid} (h : ofText? s = some c) :
    (s.length = 59 ∧ c.text = s.toLower) ∨ 59 < s.length := by
  obtain ⟨cs, bs, hcs, hlower, hbs⟩ := ofText?_eq_some_iff.1 h
  have hlength : s.length = (8 * bs.length + 4) / 5 + 1 := by
    rw [← String.length_toList, hcs, List.length_cons, ← Base32.length_encode, ← hlower,
      List.length_map]
  rcases toBytes_or_longer hbs with rfl | hlonger
  · refine .inl ⟨by rw [hlength, length_toBytes], ?_⟩
    have hprefix : ('b').toLower = 'b' := by decide
    rw [← String.toList_inj, toList_text, toList_toLower, hcs, List.map_cons, hprefix, hlower]
  · exact .inr (by omega)

/-- The raw bytes whose digest has the bytes 0 to 31. -/
def ofCounting : Cid :=
  ⟨.raw, .ofNat 0x000102030405060708090a0b0c0d0e0f101112131415161718191a1b1c1d1e1f⟩

/-- **The text of an identifier is the spelling that it was read from, in lower case, exactly where
that has 59 characters, and no spelling has less.** So spellings of that length that are read as one
identifier differ in the case of letters only. -/
theorem text_eq_toLower_iff {s : String} {c : Cid} (h : ofText? s = some c) :
    59 ≤ s.length ∧ (c.text = s.toLower ↔ s.length = 59) ∧
      ∀ t, ofText? t = some c → s.length = 59 → t.length = 59 → s.toLower = t.toLower := by
  have hlower : s.toLower.length = s.length := by
    rw [← String.length_toList, toList_toLower, List.length_map, String.length_toList]
  rcases text_eq_or_longer h with ⟨hs, htext⟩ | hs
  · refine ⟨by omega, iff_of_true htext hs, fun t ht _ ht59 => ?_⟩
    rcases text_eq_or_longer ht with ⟨-, httext⟩ | hlonger
    · rw [← htext, httext]
    · omega
  · refine ⟨by omega, iff_of_false (fun htext => ?_) (by omega), fun t _ hs59 _ => by omega⟩
    have hsize := congrArg String.length htext
    rw [length_text, hlower] at hsize
    omega

/-- Letters of both cases are read, and come out in lower case. -/
theorem text_of_mixed_case :
    ofText? "bAFKREIAAAEBAGBAFAYDQqcikbmga2dqpcaireeyuculbogazdinryhi6d4" = some ofCounting ∧
      ofCounting.text =
        "bAFKREIAAAEBAGBAFAYDQqcikbmga2dqpcaireeyuculbogazdinryhi6d4".toLower := by
  have h : ofText? "bAFKREIAAAEBAGBAFAYDQqcikbmga2dqpcaireeyuculbogazdinryhi6d4" =
      some ofCounting := by decide +kernel
  exact ⟨h, (text_eq_toLower_iff h).2.1.2 (by decide +kernel)⟩

/-- With the version written in two bytes, 81 00 for 1, the same identifier has a spelling in 61
characters, which is not its text. -/
theorem longer_spelling :
    ofText? "bqeafkeraaaaqeayeaudaocajbifqydiob4ibceqtcqkrmfyydenbwha5dypq" = some ofCounting ∧
      ofText? "bafkreiaaaebagbafaydqqcikbmga2dqpcaireeyuculbogazdinryhi6d4" = some ofCounting ∧
      ofCounting.text ≠ "bqeafkeraaaaqeayeaudaocajbifqydiob4ibceqtcqkrmfyydenbwha5dypq".toLower ∧
      "bqeafkeraaaaqeayeaudaocajbifqydiob4ibceqtcqkrmfyydenbwha5dypq".toLower ≠
        "bafkreiaaaebagbafaydqqcikbmga2dqpcaireeyuculbogazdinryhi6d4".toLower := by
  decide +kernel

end Cid
end PoolKeeper
