import LogIntake.Text.Utf8

/-!
# UTF-8 is read as it is written

The strict reading takes a byte string for a text just when these bytes encode the text (`decode?_eq_some_iff`).
`Shape` lists the forms of a character with the bounds of its bytes; the reading finds these forms and no others,
and so does the encoding.
-/

namespace LogIntake.Utf8

theorem within_iff {lo hi b : UInt8} : within lo hi b = true ↔ lo.toNat ≤ b.toNat ∧ b.toNat ≤ hi.toNat := by
  simp only [within, Bool.and_eq_true, decide_eq_true_eq, UInt8.le_iff_toNat_le]

theorem toNat_ofNat_of_lt {n : Nat} (h : n < 256) : (UInt8.ofNat n).toNat = n := by
  rw [UInt8.toNat_ofNat']
  omega

/-- A continuation byte. -/
def Continues (b : UInt8) : Prop :=
  0x80 ≤ b.toNat ∧ b.toNat ≤ 0xBF

/-- The forms of a character: its first byte, the bytes after it, and its number. -/
inductive Shape (first : UInt8) : Bytes → Nat → Prop where
  | one : first.toNat < 0x80 → Shape first [] first.toNat
  | two (b : UInt8) : 0xC2 ≤ first.toNat → first.toNat ≤ 0xDF → Continues b →
      Shape first [b] ((first.toNat - 0xC0) * 64 + tail b)
  /-- The bounds of the second byte leave out overlong forms and surrogates. -/
  | three (b c : UInt8) : 0xE0 ≤ first.toNat → first.toNat ≤ 0xEF → Continues b → Continues c →
      (first.toNat = 0xE0 → 0xA0 ≤ b.toNat) → (first.toNat = 0xED → b.toNat ≤ 0x9F) →
      Shape first [b, c] ((first.toNat - 0xE0) * 4096 + tail b * 64 + tail c)
  | four (b c d : UInt8) : 0xF0 ≤ first.toNat → first.toNat ≤ 0xF4 → Continues b → Continues c → Continues d →
      (first.toNat = 0xF0 → 0x90 ≤ b.toNat) → (first.toNat = 0xF4 → b.toNat ≤ 0x8F) →
      Shape first [b, c, d] ((first.toNat - 0xF0) * 262144 + tail b * 4096 + tail c * 64 + tail d)

variable {first : UInt8} {more rest : Bytes} {n : Nat}

/-! ## Reading -/

theorem isOne_iff : first < 0x80 ↔ first.toNat < 0x80 :=
  UInt8.lt_iff_toNat_lt

theorem isTwo_iff : within 0xC2 0xDF first = true ↔ 0xC2 ≤ first.toNat ∧ first.toNat ≤ 0xDF :=
  within_iff

theorem isThree_iff : within 0xE0 0xEF first = true ↔ 0xE0 ≤ first.toNat ∧ first.toNat ≤ 0xEF :=
  within_iff

theorem isFour_iff : within 0xF0 0xF4 first = true ↔ 0xF0 ≤ first.toNat ∧ first.toNat ≤ 0xF4 :=
  within_iff

theorem within_continuation {b : UInt8} : within 0x80 0xBF b = true ↔ Continues b :=
  within_iff

theorem within_secondOfThree {b : UInt8} :
    within (secondOfThree first).1 (secondOfThree first).2 b = true ↔
      Continues b ∧ (first.toNat = 0xE0 → 0xA0 ≤ b.toNat) ∧ (first.toNat = 0xED → b.toNat ≤ 0x9F) := by
  unfold secondOfThree Continues
  rw [within_iff]
  split
  · next h =>
      rw [eq_of_beq h]
      simp
      omega
  · next h =>
      have hne : first.toNat ≠ 0xE0 := fun hn => h (beq_iff_eq.mpr (UInt8.toNat_inj.mp hn))
      split
      · next h' =>
          rw [eq_of_beq h']
          simp
          omega
      · next h' =>
          have hne' : first.toNat ≠ 0xED := fun hn => h' (beq_iff_eq.mpr (UInt8.toNat_inj.mp hn))
          simp [hne, hne']

theorem within_secondOfFour {b : UInt8} :
    within (secondOfFour first).1 (secondOfFour first).2 b = true ↔
      Continues b ∧ (first.toNat = 0xF0 → 0x90 ≤ b.toNat) ∧ (first.toNat = 0xF4 → b.toNat ≤ 0x8F) := by
  unfold secondOfFour Continues
  rw [within_iff]
  split
  · next h =>
      rw [eq_of_beq h]
      simp
      omega
  · next h =>
      have hne : first.toNat ≠ 0xF0 := fun hn => h (beq_iff_eq.mpr (UInt8.toNat_inj.mp hn))
      split
      · next h' =>
          rw [eq_of_beq h']
          simp
          omega
      · next h' =>
          have hne' : first.toNat ≠ 0xF4 := fun hn => h' (beq_iff_eq.mpr (UInt8.toNat_inj.mp hn))
          simp [hne, hne']

theorem piece_of_shape (h : Shape first more n) (rest : Bytes) :
    piece first (more ++ rest) = (some (Char.ofNat n), more.length) := by
  unfold piece
  cases h with
  | one hlt =>
      rw [if_pos (isOne_iff.mpr hlt)]
      rfl
  | two b hlo hhi hb =>
      rw [if_neg (by rw [isOne_iff]; omega), if_pos (isTwo_iff.mpr ⟨hlo, hhi⟩)]
      simp only [List.cons_append, if_pos (within_continuation.mpr hb)]
      rfl
  | three b c hlo hhi hb hc hoverlong hsurrogate =>
      rw [if_neg (by rw [isOne_iff]; omega), if_neg (by rw [isTwo_iff]; omega), if_pos (isThree_iff.mpr ⟨hlo, hhi⟩)]
      simp only [List.cons_append, if_pos (within_secondOfThree.mpr ⟨hb, hoverlong, hsurrogate⟩),
        if_pos (within_continuation.mpr hc)]
      rfl
  | four b c d hlo hhi hb hc hd hoverlong hbeyond =>
      rw [if_neg (by rw [isOne_iff]; omega), if_neg (by rw [isTwo_iff]; omega), if_neg (by rw [isThree_iff]; omega),
        if_pos (isFour_iff.mpr ⟨hlo, hhi⟩)]
      simp only [List.cons_append, if_pos (within_secondOfFour.mpr ⟨hb, hoverlong, hbeyond⟩),
        if_pos (within_continuation.mpr hc), if_pos (within_continuation.mpr hd)]
      rfl

theorem shape_of_piece {c : Char} {k : Nat} (h : piece first rest = (some c, k)) :
    ∃ more n, Shape first more n ∧ c = Char.ofNat n ∧ rest = more ++ rest.drop k := by
  unfold piece at h
  split at h
  · next hone =>
      obtain ⟨hc, rfl⟩ := Prod.mk.inj h
      exact ⟨_, _, .one (isOne_iff.mp hone), (Option.some.inj hc).symm, rfl⟩
  · split at h
    · next htwo =>
        obtain ⟨hlo, hhi⟩ := isTwo_iff.mp htwo
        split at h
        · next b last =>
            split at h
            · next hb =>
                obtain ⟨hc, rfl⟩ := Prod.mk.inj h
                exact ⟨_, _, .two b hlo hhi (within_continuation.mp hb), (Option.some.inj hc).symm, rfl⟩
            · cases h
        · cases h
    · split at h
      · next hthree =>
          obtain ⟨hlo, hhi⟩ := isThree_iff.mp hthree
          simp only at h
          split at h
          · next b last =>
              split at h
              · next hb =>
                  obtain ⟨hb, hoverlong, hsurrogate⟩ := within_secondOfThree.mp hb
                  split at h
                  · next d last =>
                      split at h
                      · next hd =>
                          obtain ⟨hc, rfl⟩ := Prod.mk.inj h
                          exact ⟨_, _, .three b d hlo hhi hb (within_continuation.mp hd) hoverlong hsurrogate,
                            (Option.some.inj hc).symm, rfl⟩
                      · cases h
                  · cases h
              · cases h
          · cases h
      · split at h
        · next hfour =>
            obtain ⟨hlo, hhi⟩ := isFour_iff.mp hfour
            simp only at h
            split at h
            · next b last =>
                split at h
                · next hb =>
                    obtain ⟨hb, hoverlong, hbeyond⟩ := within_secondOfFour.mp hb
                    split at h
                    · next d last =>
                        split at h
                        · next hd =>
                            split at h
                            · next e last =>
                                split at h
                                · next he =>
                                    obtain ⟨hc, rfl⟩ := Prod.mk.inj h
                                    exact ⟨_, _, .four b d e hlo hhi hb (within_continuation.mp hd)
                                      (within_continuation.mp he) hoverlong hbeyond, (Option.some.inj hc).symm, rfl⟩
                                · cases h
                            · cases h
                        · cases h
                    · cases h
                · cases h
            · cases h
        · cases h

/-! ## Writing -/

theorem valid_of_shape (h : Shape first more n) : n.isValidChar := by
  unfold Nat.isValidChar
  cases h with
  | one hlt => omega
  | two b hlo hhi hb =>
      unfold Continues at hb
      unfold tail
      omega
  | three b c hlo hhi hb hc hoverlong hsurrogate =>
      unfold Continues at hb hc
      unfold tail
      omega
  | four b c d hlo hhi hb hc hd hoverlong hbeyond =>
      unfold Continues at hb hc hd
      unfold tail
      omega

theorem toNat_ofNat_of_valid (h : n.isValidChar) : (Char.ofNat n).val.toNat = n := by
  rw [Char.ofNat, dif_pos h]
  rfl

theorem ofNat_eq {b : UInt8} (h : n = b.toNat) : UInt8.ofNat n = b := by
  rw [h, UInt8.ofNat_toNat]

theorem encode_of_shape (h : Shape first more n) : String.utf8EncodeChar (Char.ofNat n) = first :: more := by
  have hval := toNat_ofNat_of_valid (valid_of_shape h)
  unfold String.utf8EncodeChar
  rw [hval]
  simp only
  cases h with
  | one hlt => rw [if_pos (by omega), UInt8.ofNat_toNat]
  | two b hlo hhi hb =>
      unfold Continues at hb
      unfold tail
      rw [if_neg (by omega), if_pos (by omega), ofNat_eq (b := first) (by omega), ofNat_eq (b := b) (by omega)]
  | three b c hlo hhi hb hc hoverlong hsurrogate =>
      unfold Continues at hb hc
      unfold tail
      rw [if_neg (by omega), if_neg (by omega), if_pos (by omega), ofNat_eq (b := first) (by omega),
        ofNat_eq (b := b) (by omega), ofNat_eq (b := c) (by omega)]
  | four b c d hlo hhi hb hc hd hoverlong hbeyond =>
      unfold Continues at hb hc hd
      unfold tail
      rw [if_neg (by omega), if_neg (by omega), if_neg (by omega), ofNat_eq (b := first) (by omega),
        ofNat_eq (b := b) (by omega), ofNat_eq (b := c) (by omega), ofNat_eq (b := d) (by omega)]

theorem exists_shape (c : Char) : ∃ first more, String.utf8EncodeChar c = first :: more ∧ Shape first more c.toNat := by
  have hvalid : c.toNat < 0xD800 ∨ (0xDFFF < c.toNat ∧ c.toNat < 0x110000) := c.valid
  unfold String.utf8EncodeChar
  have hval : c.val.toNat = c.toNat := rfl
  rw [hval]
  generalize c.toNat = v at hvalid
  simp only
  split
  · next h1 =>
      have hfirst : (UInt8.ofNat v).toNat = v := toNat_ofNat_of_lt (by omega)
      refine ⟨_, _, rfl, ?_⟩
      have hshape : Shape (UInt8.ofNat v) [] _ := .one (by omega)
      rwa [hfirst] at hshape
  · split
    · next h1 h2 =>
        have hfirst : (UInt8.ofNat (v / 64 % 32 + 192)).toNat = v / 64 % 32 + 192 := toNat_ofNat_of_lt (by omega)
        have hb : (UInt8.ofNat (v % 64 + 128)).toNat = v % 64 + 128 := toNat_ofNat_of_lt (by omega)
        refine ⟨_, _, rfl, ?_⟩
        have hshape := @Shape.two (UInt8.ofNat (v / 64 % 32 + 192)) (UInt8.ofNat (v % 64 + 128))
          (by omega) (by omega) ⟨by omega, by omega⟩
        rw [tail, hfirst, hb] at hshape
        rwa [show (v / 64 % 32 + 192 - 192) * 64 + (v % 64 + 128) % 64 = v by omega] at hshape
    · split
      · next h1 h2 h3 =>
          have hfirst : (UInt8.ofNat (v / 4096 % 16 + 224)).toNat = v / 4096 % 16 + 224 := toNat_ofNat_of_lt (by omega)
          have hb : (UInt8.ofNat (v / 64 % 64 + 128)).toNat = v / 64 % 64 + 128 := toNat_ofNat_of_lt (by omega)
          have hc : (UInt8.ofNat (v % 64 + 128)).toNat = v % 64 + 128 := toNat_ofNat_of_lt (by omega)
          refine ⟨_, _, rfl, ?_⟩
          have hshape := @Shape.three (UInt8.ofNat (v / 4096 % 16 + 224)) (UInt8.ofNat (v / 64 % 64 + 128))
            (UInt8.ofNat (v % 64 + 128)) (by omega) (by omega) ⟨by omega, by omega⟩ ⟨by omega, by omega⟩
            (by omega) (by omega)
          rw [tail, tail, hfirst, hb, hc] at hshape
          rwa [show (v / 4096 % 16 + 224 - 224) * 4096 + (v / 64 % 64 + 128) % 64 * 64 + (v % 64 + 128) % 64 = v by omega]
            at hshape
      · next h1 h2 h3 =>
          have hfirst : (UInt8.ofNat (v / 262144 % 8 + 240)).toNat = v / 262144 % 8 + 240 := toNat_ofNat_of_lt (by omega)
          have hb : (UInt8.ofNat (v / 4096 % 64 + 128)).toNat = v / 4096 % 64 + 128 := toNat_ofNat_of_lt (by omega)
          have hc : (UInt8.ofNat (v / 64 % 64 + 128)).toNat = v / 64 % 64 + 128 := toNat_ofNat_of_lt (by omega)
          have hd : (UInt8.ofNat (v % 64 + 128)).toNat = v % 64 + 128 := toNat_ofNat_of_lt (by omega)
          refine ⟨_, _, rfl, ?_⟩
          have hshape := @Shape.four (UInt8.ofNat (v / 262144 % 8 + 240)) (UInt8.ofNat (v / 4096 % 64 + 128))
            (UInt8.ofNat (v / 64 % 64 + 128)) (UInt8.ofNat (v % 64 + 128)) (by omega) (by omega)
            ⟨by omega, by omega⟩ ⟨by omega, by omega⟩ ⟨by omega, by omega⟩ (by omega) (by omega)
          rw [tail, tail, tail, hfirst, hb, hc, hd] at hshape
          rwa [show (v / 262144 % 8 + 240 - 240) * 262144 + (v / 4096 % 64 + 128) % 64 * 4096
            + (v / 64 % 64 + 128) % 64 * 64 + (v % 64 + 128) % 64 = v by omega] at hshape

/-! ## Texts -/

theorem pieces_encode (cs : List Char) : pieces (cs.flatMap String.utf8EncodeChar) = cs.map some := by
  induction cs with
  | nil => rw [List.flatMap_nil, pieces]; rfl
  | cons c cs ih =>
      obtain ⟨first, more, hencode, hshape⟩ := exists_shape c
      rw [List.flatMap_cons, hencode, List.cons_append, pieces, piece_of_shape hshape]
      simp only [List.drop_left, ih, Char.ofNat_toNat, List.map_cons]

theorem encode_of_pieces {bytes : Bytes} {cs : List Char} (h : pieces bytes = cs.map some) :
    bytes = cs.flatMap String.utf8EncodeChar := by
  fun_induction pieces bytes generalizing cs with
  | case1 =>
      cases cs with
      | nil => rfl
      | cons c cs => cases h
  | case2 first rest found k hpiece ih =>
      cases cs with
      | nil => cases h
      | cons c cs =>
          obtain ⟨rfl, hrest⟩ := List.cons.inj h
          obtain ⟨more, n, hshape, rfl, hsplit⟩ := shape_of_piece hpiece
          rw [List.flatMap_cons, encode_of_shape hshape, ← ih hrest, List.cons_append, ← hsplit]

theorem mapM_id_map_some {α : Type} (ys : List α) : (ys.map some).mapM id = some ys := by
  induction ys with
  | nil => rfl
  | cons y ys ih =>
      rw [List.map_cons, List.mapM_cons, ih]
      rfl

theorem eq_map_some_of_mapM {α : Type} {xs : List (Option α)} {ys : List α} (h : xs.mapM id = some ys) :
    xs = ys.map some := by
  induction xs generalizing ys with
  | nil =>
      obtain rfl : [] = ys := Option.some.inj h
      rfl
  | cons x xs ih =>
      rw [List.mapM_cons] at h
      obtain ⟨y, hx, hrest⟩ := Option.bind_eq_some_iff.mp h
      obtain ⟨zs, hxs, hys⟩ := Option.bind_eq_some_iff.mp hrest
      obtain rfl : y :: zs = ys := Option.some.inj hys
      rw [List.map_cons, ← ih hxs]
      exact congrArg (· :: xs) hx

theorem toList_loop (bytes : ByteArray) (i : Nat) (r : List UInt8) :
    ByteArray.toList.loop bytes i r = r.reverse ++ bytes.data.toList.drop i := by
  fun_induction ByteArray.toList.loop bytes i r with
  | case1 i r hlt ih =>
      have hlen : i < bytes.data.toList.length := hlt
      have hget : bytes.get! i = bytes.data.toList[i] := getElem!_pos bytes.data i hlt
      rw [ih, hget, List.reverse_cons, List.append_assoc, List.singleton_append, ← List.drop_eq_getElem_cons]
  | case2 i r hge =>
      rw [List.drop_eq_nil_of_le, List.append_nil]
      exact Nat.le_of_not_lt hge

theorem encode_eq (text : String) : encode text = text.toList.flatMap String.utf8EncodeChar := by
  have hdata := List.toList_data_toByteArray (l := text.toList.flatMap String.utf8EncodeChar)
  rw [encode, String.toUTF8_eq_toByteArray, ← String.utf8Encode_toList, ByteArray.toList, toList_loop]
  exact hdata

/-- Bytes are read as a text just when they encode it. -/
theorem decode?_eq_some_iff {bytes : Bytes} {text : String} : decode? bytes = some text ↔ bytes = encode text := by
  rw [decode?, Option.map_eq_some_iff, encode_eq]
  constructor
  · rintro ⟨cs, hcs, rfl⟩
    rw [String.toList_ofList]
    exact encode_of_pieces (eq_map_some_of_mapM hcs)
  · rintro rfl
    exact ⟨text.toList, (congrArg (List.mapM id) (pieces_encode _)).trans (mapM_id_map_some _), String.ofList_toList⟩

end LogIntake.Utf8
