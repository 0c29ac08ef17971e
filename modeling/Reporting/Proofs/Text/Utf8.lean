import Mathlib.Data.List.Forall2
import Mathlib.Data.List.Infix
import Reporting.Text.Utf8
/-!
Decoding UTF-8. At each byte either a character is written, which is read, or none is, and then the byte
is left out; so no character of a text is lost, and no character is made up. Decoding in place, which
goes on behind each fault, comes to the same whatever the text held before.
-/
namespace Reporting.Encoding

variable {a b : Nat} {bytes r s : List Nat} {c : Char} {more : Nat} {ps : List (Nat → Bool)}

/-! Bytes of characters -/

/-- The bytes that write a character. -/
def bytesOf (c : Char) : List Nat := (String.utf8EncodeChar c).map UInt8.toNat

theorem bytesOf_eq (c : Char) : bytesOf c =
    if c.toNat < 0x80 then [c.toNat]
    else if c.toNat < 0x800 then [0xC0 + c.toNat / 0x40, 0x80 + c.toNat % 0x40]
    else if c.toNat < 0x10000 then
      [0xE0 + c.toNat / 0x1000, 0x80 + c.toNat / 0x40 % 0x40, 0x80 + c.toNat % 0x40]
    else [0xF0 + c.toNat / 0x40000, 0x80 + c.toNat / 0x1000 % 0x40, 0x80 + c.toNat / 0x40 % 0x40,
      0x80 + c.toNat % 0x40] := by
  have hrange : c.val.toNat < 0xD800 ∨ 0xDFFF < c.val.toNat ∧ c.val.toNat < 0x110000 := c.valid
  unfold bytesOf String.utf8EncodeChar Char.toNat
  generalize c.val.toNat = n at hrange
  dsimp only
  by_cases h1 : n < 0x80
  · rw [if_pos h1, if_pos (by omega)]
    simp only [List.map_cons, List.map_nil, UInt8.toNat_ofNat', List.cons.injEq, and_true]
    omega
  · by_cases h2 : n < 0x800
    · rw [if_neg h1, if_pos h2, if_neg (by omega), if_pos (by omega)]
      simp only [List.map_cons, List.map_nil, UInt8.toNat_ofNat', List.cons.injEq, and_true]
      omega
    · by_cases h3 : n < 0x10000
      · rw [if_neg h1, if_neg h2, if_pos h3, if_neg (by omega), if_neg (by omega), if_pos (by omega)]
        simp only [List.map_cons, List.map_nil, UInt8.toNat_ofNat', List.cons.injEq, and_true]
        omega
      · rw [if_neg h1, if_neg h2, if_neg h3, if_neg (by omega), if_neg (by omega), if_neg (by omega)]
        simp only [List.map_cons, List.map_nil, UInt8.toNat_ofNat', List.cons.injEq, and_true]
        omega

theorem toList_loop (bytes : ByteArray) (i : Nat) (r : List UInt8) :
    ByteArray.toList.loop bytes i r = r.reverse ++ bytes.data.toList.drop i := by
  induction i, r using ByteArray.toList.loop.induct bytes with
  | case1 i r hi ih =>
    have hi' : i < bytes.data.toList.length := hi
    rw [ByteArray.toList.loop, if_pos hi, ih, List.drop_eq_getElem_cons hi', List.reverse_cons,
      List.append_assoc]
    simp [ByteArray.get!, hi]
  | case2 i r hi =>
    have hi' : bytes.data.toList.length ≤ i := Nat.le_of_not_lt hi
    rw [ByteArray.toList.loop, if_neg hi, List.drop_eq_nil_of_le hi', List.append_nil]

theorem encodeUtf8_ofList (s : List Char) : encodeUtf8 (String.ofList s) = s.flatMap bytesOf := by
  have htoList (bytes : ByteArray) : bytes.toList = bytes.data.toList := toList_loop bytes 0 []
  rw [encodeUtf8, String.toUTF8_eq_toByteArray, htoList, String.toByteArray_ofList, List.utf8Encode,
    List.toList_data_toByteArray, List.map_flatMap]
  rfl

theorem encodeUtf8_eq (s : String) : encodeUtf8 s = s.toList.flatMap bytesOf := by
  rw [← encodeUtf8_ofList, String.ofList_toList]

/-! What stands first -/

theorem isContinuation_iff : isContinuation b = true ↔ 0x80 ≤ b ∧ b < 0xC0 := by
  rw [isContinuation, Bool.and_eq_true, decide_eq_true_eq, decide_eq_true_eq]

theorem isSecond_iff : isSecond a b = true ↔ (0x80 ≤ b ∧ b < 0xC0) ∧ (a = 0xE0 → 0xA0 ≤ b) ∧
    (a = 0xED → b < 0xA0) ∧ (a = 0xF0 → 0x90 ≤ b) ∧ (a = 0xF4 → b < 0x90) := by
  unfold isSecond
  split_ifs <;> simp only [Bool.and_eq_true, decide_eq_true_eq, isContinuation_iff] <;> omega

theorem isContinuation_of_isSecond (h : isSecond a b = true) : isContinuation b = true :=
  isContinuation_iff.2 (isSecond_iff.1 h).1

theorem toNat_ofNat {n : Nat} (h : n < 0xD800 ∨ 0xDFFF < n ∧ n < 0x110000) :
    (Char.ofNat n).toNat = n := by
  have hvalid : n.isValidChar := h
  rw [Char.ofNat, dif_pos hvalid]
  rfl

/-- The four forms of characters: the first byte says how many others there are. -/
theorem continuations?_cases (h : continuations? a = some ps) :
    (a < 0x80 ∧ ps = []) ∨ (0xC2 ≤ a ∧ a < 0xE0 ∧ ps = [isContinuation]) ∨
    (0xE0 ≤ a ∧ a < 0xF0 ∧ ps = [isSecond a, isContinuation]) ∨
    (0xF0 ≤ a ∧ a < 0xF5 ∧ ps = [isSecond a, isContinuation, isContinuation]) := by
  unfold continuations? at h
  split_ifs at h with h1 h2 h3 h4
  · cases h
    exact .inl ⟨h1, rfl⟩
  · cases h
    exact .inr (.inl ⟨h2.1, h2.2, rfl⟩)
  · cases h
    exact .inr (.inr (.inl ⟨h3.1, h3.2, rfl⟩))
  · cases h
    exact .inr (.inr (.inr ⟨h4.1, h4.2, rfl⟩))

/-- Bytes that are as they have to be. -/
def Fits (ps : List (Nat → Bool)) (s : List Nat) : Prop := List.Forall₂ (fun p b => p b = true) ps s

theorem Fits.fitting (h : Fits ps s) (r : List Nat) : fitting ps (s ++ r) = ps.length := by
  induction h with
  | nil => cases r <;> rfl
  | cons hb _ ih => rw [List.cons_append, Encoding.fitting, if_pos hb, ih, List.length_cons]

theorem fitting_le (ps : List (Nat → Bool)) (r : List Nat) : fitting ps r ≤ r.length := by
  induction ps generalizing r with
  | nil => exact Nat.zero_le _
  | cons p ps ih =>
    cases r with
    | nil => exact Nat.zero_le _
    | cons b r =>
      rw [fitting]
      split
      · exact Nat.succ_le_succ (ih r)
      · exact Nat.zero_le _

theorem fits_of_fitting (h : fitting ps r = ps.length) : Fits ps (r.take (fitting ps r)) := by
  induction ps generalizing r with
  | nil =>
    rw [h]
    exact .nil
  | cons p ps ih =>
    cases r with
    | nil => cases h
    | cons b r =>
      rw [fitting] at h ⊢
      split at h
      · rename_i hb
        rw [if_pos hb]
        exact .cons hb (ih (Nat.succ.inj h))
      · cases h

theorem Fits.front (ha : continuations? a = some ps) (h : Fits ps s) (r : List Nat) :
    front a (s ++ r) = .character (character a s) s.length := by
  have hlength : ps.length = s.length := h.length_eq
  rw [Encoding.front, ha]
  dsimp only
  rw [if_pos (h.fitting r), h.fitting r, hlength, List.take_left]

theorem fits_nil : Fits [] s ↔ s = [] := List.forall₂_nil_left_iff

theorem fits_cons {p : Nat → Bool} : Fits (p :: ps) s ↔ ∃ b r, p b = true ∧ Fits ps r ∧ s = b :: r :=
  List.forall₂_cons_left_iff

/-- What is read as a character are the bytes of one. -/
theorem Fits.bytesOf_character (ha : continuations? a = some ps) (h : Fits ps s) :
    bytesOf (character a s) = a :: s := by
  obtain ⟨hhi, rfl⟩ | ⟨hlo, hhi, rfl⟩ | ⟨hlo, hhi, rfl⟩ | ⟨hlo, hhi, rfl⟩ := continuations?_cases ha
  · obtain rfl := fits_nil.1 h
    have hn : (character a []).toNat = a := by
      rw [character, leading, if_pos hhi]
      exact toNat_ofNat (.inl (hhi.trans (by decide)))
    rw [bytesOf_eq, hn, if_pos hhi]
  · obtain ⟨b, _, hb, hr, rfl⟩ := fits_cons.1 h
    obtain rfl := fits_nil.1 hr
    rw [isContinuation_iff] at hb
    have hn : (character a [b]).toNat = (a - 0xC0) * 0x40 + (b - 0x80) := by
      rw [character, leading, if_neg (by omega), if_pos hhi]
      exact toNat_ofNat (.inl (by dsimp only [List.foldl]; omega))
    rw [bytesOf_eq, hn, if_neg (by omega), if_pos (by omega)]
    simp only [List.cons.injEq, and_true]
    omega
  · obtain ⟨b, _, hb, h₂, rfl⟩ := fits_cons.1 h
    obtain ⟨c, _, hc, hr, rfl⟩ := fits_cons.1 h₂
    obtain rfl := fits_nil.1 hr
    rw [isSecond_iff] at hb
    rw [isContinuation_iff] at hc
    have hn : (character a [b, c]).toNat = ((a - 0xE0) * 0x40 + (b - 0x80)) * 0x40 + (c - 0x80) := by
      rw [character, leading, if_neg (by omega), if_neg (by omega), if_pos hhi]
      exact toNat_ofNat (by dsimp only [List.foldl]; omega)
    rw [bytesOf_eq, hn, if_neg (by omega), if_neg (by omega), if_pos (by omega)]
    simp only [List.cons.injEq, and_true]
    omega
  · obtain ⟨b, _, hb, h₂, rfl⟩ := fits_cons.1 h
    obtain ⟨c, _, hc, h₃, rfl⟩ := fits_cons.1 h₂
    obtain ⟨d, _, hd, hr, rfl⟩ := fits_cons.1 h₃
    obtain rfl := fits_nil.1 hr
    rw [isSecond_iff] at hb
    rw [isContinuation_iff] at hc hd
    have hn : (character a [b, c, d]).toNat =
        (((a - 0xF0) * 0x40 + (b - 0x80)) * 0x40 + (c - 0x80)) * 0x40 + (d - 0x80) := by
      rw [character, leading, if_neg (by omega), if_neg (by omega), if_neg (by omega)]
      exact toNat_ofNat (.inr (by dsimp only [List.foldl]; omega))
    rw [bytesOf_eq, hn, if_neg (by omega), if_neg (by omega), if_neg (by omega)]
    simp only [List.cons.injEq, and_true]
    omega

/-- The bytes of a character are those that its first byte asks for. -/
theorem exists_bytesOf (c : Char) :
    ∃ a s ps, bytesOf c = a :: s ∧ continuations? a = some ps ∧ Fits ps s ∧ character a s = c := by
  have hrange : c.toNat < 0xD800 ∨ 0xDFFF < c.toNat ∧ c.toNat < 0x110000 := c.valid
  have hcontinuation (n : Nat) : isContinuation (0x80 + n % 0x40) = true :=
    isContinuation_iff.2 (by omega)
  have hcharacter {a : Nat} {s : List Nat}
      (h : s.foldl (fun n b => n * 0x40 + (b - 0x80)) (leading a) = c.toNat) : character a s = c := by
    rw [character, h, Char.ofNat_toNat]
  rw [bytesOf_eq]
  split_ifs with h1 h2 h3
  · exact ⟨_, _, [], rfl, if_pos h1, fits_nil.2 rfl, hcharacter (if_pos h1)⟩
  · refine ⟨_, _, [isContinuation], rfl, ?_, .cons (hcontinuation _) .nil, hcharacter ?_⟩
    · rw [continuations?, if_neg (by omega), if_pos (by omega)]
    · rw [leading, if_neg (by omega), if_pos (by omega)]
      dsimp only [List.foldl]
      omega
  · refine ⟨_, _, [isSecond (0xE0 + c.toNat / 0x1000), isContinuation], rfl, ?_,
      .cons (isSecond_iff.2 ?_) (.cons (hcontinuation _) .nil), hcharacter ?_⟩
    · rw [continuations?, if_neg (by omega), if_neg (by omega), if_pos (by omega)]
    · omega
    · rw [leading, if_neg (by omega), if_neg (by omega), if_pos (by omega)]
      dsimp only [List.foldl]
      omega
  · refine ⟨_, _, [isSecond (0xF0 + c.toNat / 0x40000), isContinuation, isContinuation], rfl, ?_,
      .cons (isSecond_iff.2 ?_) (.cons (hcontinuation _) (.cons (hcontinuation _) .nil)), hcharacter ?_⟩
    · rw [continuations?, if_neg (by omega), if_neg (by omega), if_neg (by omega), if_pos (by omega)]
    · omega
    · rw [leading, if_neg (by omega), if_neg (by omega), if_neg (by omega)]
      dsimp only [List.foldl]
      omega

/-! Decoding by what stands first -/

/-- What decoding comes to after what stands first. -/
def resume (r : List Nat) : Front → List Char
  | .character c more => c :: decodeUtf8 (r.drop more)
  | .invalid more => decodeUtf8 (r.drop more)
  | .incomplete => []

theorem decodeUtf8_one (ha : a < 0x80) (r : List Nat) : decodeUtf8 (a :: r) = resume r (front a r) := by
  rw [decodeUtf8.eq_def]
  simp only [if_pos ha, front, continuations?, fitting, List.length_nil, resume, character, leading,
    List.take_zero, List.foldl_nil, List.drop_zero, if_true]

theorem decodeUtf8_two (hlo : 0xC2 ≤ a) (hhi : a < 0xE0) (r : List Nat) :
    decodeUtf8 (a :: r) = resume r (front a r) := by
  have h1 : ¬ a < 0x80 := by omega
  rw [decodeUtf8.eq_def]
  simp only [if_neg h1, if_pos (And.intro hlo hhi), front, continuations?]
  cases r with
  | nil => simp [fitting, resume]
  | cons b r =>
    by_cases hb : isContinuation b = true
    · simp [fitting, resume, hb, character, leading, h1, hhi]
    · simp [fitting, resume, hb]

theorem decodeUtf8_three (hlo : 0xE0 ≤ a) (hhi : a < 0xF0) (r : List Nat) :
    decodeUtf8 (a :: r) = resume r (front a r) := by
  have h1 : ¬ a < 0x80 := by omega
  have h2 : ¬ a < 0xE0 := by omega
  rw [decodeUtf8.eq_def]
  simp only [if_neg h1, h2, and_false, if_false, if_pos (And.intro hlo hhi), front, continuations?]
  cases r with
  | nil => simp [fitting, resume]
  | cons b r =>
    by_cases hb : isSecond a b = true
    · cases r with
      | nil => simp [fitting, resume, hb]
      | cons c r =>
        by_cases hc : isContinuation c = true
        · simp [fitting, resume, hb, hc, character, leading, h1, h2, hhi]
        · simp [fitting, resume, hb, hc]
    · simp [fitting, resume, hb]

theorem decodeUtf8_four (hlo : 0xF0 ≤ a) (hhi : a < 0xF5) (r : List Nat) :
    decodeUtf8 (a :: r) = resume r (front a r) := by
  have h1 : ¬ a < 0x80 := by omega
  have h2 : ¬ a < 0xE0 := by omega
  have h3 : ¬ a < 0xF0 := by omega
  rw [decodeUtf8.eq_def]
  simp only [if_neg h1, h2, h3, and_false, if_false, if_pos (And.intro hlo hhi), front, continuations?]
  cases r with
  | nil => simp [fitting, resume]
  | cons b r =>
    by_cases hb : isSecond a b = true
    · cases r with
      | nil => simp [fitting, resume, hb]
      | cons c r =>
        by_cases hc : isContinuation c = true
        · cases r with
          | nil => simp [fitting, resume, hb, hc]
          | cons d r =>
            by_cases hd : isContinuation d = true
            · simp [fitting, resume, hb, hc, hd, character, leading, h1, h2, h3]
            · simp [fitting, resume, hb, hc, hd]
        · simp [fitting, resume, hb, hc]
    · simp [fitting, resume, hb]

theorem decodeUtf8_of_none (ha : continuations? a = none) (r : List Nat) :
    decodeUtf8 (a :: r) = decodeUtf8 r := by
  unfold continuations? at ha
  split_ifs at ha with h1 h2 h3 h4
  rw [decodeUtf8.eq_def]
  simp only [if_neg h1, if_neg h2, if_neg h3, if_neg h4]

theorem decodeUtf8_cons (a : Nat) (r : List Nat) : decodeUtf8 (a :: r) = resume r (front a r) := by
  cases ha : continuations? a with
  | none =>
    rw [decodeUtf8_of_none ha, front, ha]
    rfl
  | some ps =>
    obtain ⟨h, -⟩ | ⟨hlo, hhi, -⟩ | ⟨hlo, hhi, -⟩ | ⟨hlo, hhi, -⟩ := continuations?_cases ha
    · exact decodeUtf8_one h r
    · exact decodeUtf8_two hlo hhi r
    · exact decodeUtf8_three hlo hhi r
    · exact decodeUtf8_four hlo hhi r

/-- No character begins with a byte that goes on with one. -/
theorem decodeUtf8_continuations (h : ∀ b ∈ s, isContinuation b = true) (r : List Nat) :
    decodeUtf8 (s ++ r) = decodeUtf8 r := by
  induction s with
  | nil => rfl
  | cons b s ih =>
    have hb := isContinuation_iff.1 (h b List.mem_cons_self)
    have hnone : continuations? b = none := by
      rw [continuations?, if_neg, if_neg, if_neg, if_neg] <;> omega
    rw [List.cons_append, decodeUtf8_of_none hnone]
    exact ih fun d hd => h d (List.mem_cons_of_mem b hd)

theorem isContinuation_of_fitting (hps : ∀ p ∈ ps, ∀ b, p b = true → isContinuation b = true)
    (r : List Nat) : ∀ b ∈ r.take (fitting ps r), isContinuation b = true := by
  induction ps generalizing r with
  | nil => exact fun b hb => absurd hb (by simp [fitting])
  | cons p ps ih =>
    cases r with
    | nil => exact fun b hb => absurd hb (by simp)
    | cons b r =>
      rw [fitting]
      split
      · rename_i hb
        rw [List.take_succ_cons, List.forall_mem_cons]
        exact ⟨hps p List.mem_cons_self b hb, ih (fun q hq => hps q (List.mem_cons_of_mem p hq)) r⟩
      · exact fun b hb => absurd hb (by simp)

theorem isContinuation_of_asked (ha : continuations? a = some ps) :
    ∀ p ∈ ps, ∀ b, p b = true → isContinuation b = true := by
  have hsecond (b : Nat) := isContinuation_of_isSecond (a := a) (b := b)
  obtain ⟨-, rfl⟩ | ⟨-, -, rfl⟩ | ⟨-, -, rfl⟩ | ⟨-, -, rfl⟩ := continuations?_cases ha
  · simp
  · simp
  · simpa using hsecond
  · simpa using hsecond

/-- A character that is written in front is read. -/
theorem decodeUtf8_bytesOf (c : Char) (r : List Nat) :
    decodeUtf8 (bytesOf c ++ r) = c :: decodeUtf8 r := by
  obtain ⟨a, s, ps, hc, ha, hs, rfl⟩ := exists_bytesOf c
  rw [hc, List.cons_append, decodeUtf8_cons, hs.front ha, resume, List.drop_left]

/-- Bytes begin with a character if those after the first one are as they have to be. -/
theorem bytesOf_prefix_iff : (∃ c, bytesOf c <+: a :: r) ↔
    ∃ ps, continuations? a = some ps ∧ fitting ps r = ps.length := by
  constructor
  · rintro ⟨c, t, ht⟩
    obtain ⟨a', s, ps, hc, ha, hs, -⟩ := exists_bytesOf c
    rw [hc, List.cons_append] at ht
    obtain ⟨rfl, rfl⟩ := List.cons.inj ht
    exact ⟨ps, ha, hs.fitting t⟩
  · rintro ⟨ps, ha, hfitting⟩
    refine ⟨character a (r.take (fitting ps r)), r.drop (fitting ps r), ?_⟩
    rw [(fits_of_fitting hfitting).bytesOf_character ha, List.cons_append, List.take_append_drop]

/-- A byte at which no character is written is left out alone. -/
theorem decodeUtf8_of_not_prefix (h : ∀ c, ¬ bytesOf c <+: a :: r) :
    decodeUtf8 (a :: r) = decodeUtf8 r := by
  cases ha : continuations? a with
  | none => exact decodeUtf8_of_none ha r
  | some ps =>
    have hne : fitting ps r ≠ ps.length := fun hfitting =>
      not_exists.2 h (bytesOf_prefix_iff.2 ⟨ps, ha, hfitting⟩)
    have hskip := decodeUtf8_continuations (isContinuation_of_fitting (isContinuation_of_asked ha) r)
      (r.drop (fitting ps r))
    rw [List.take_append_drop] at hskip
    rw [hskip, decodeUtf8_cons, front, ha]
    dsimp only
    rw [if_neg hne]
    split
    · rename_i hall
      rw [hall, List.drop_length]
      rfl
    · rfl

/-- At each byte either a character is written, which is read, or none is, and the byte is left out. -/
theorem decodeUtf8_step (a : Nat) (r : List Nat) :
    (∃ c t, a :: r = bytesOf c ++ t ∧ decodeUtf8 (a :: r) = c :: decodeUtf8 t) ∨
      (∀ c, ¬ bytesOf c <+: a :: r) ∧ decodeUtf8 (a :: r) = decodeUtf8 r := by
  by_cases h : ∃ c, bytesOf c <+: a :: r
  · obtain ⟨c, t, ht⟩ := h
    refine .inl ⟨c, t, ht.symm, ?_⟩
    rw [← ht, decodeUtf8_bytesOf]
  · exact .inr ⟨not_exists.1 h, decodeUtf8_of_not_prefix (not_exists.1 h)⟩

theorem bytesOf_ne_nil (c : Char) : bytesOf c ≠ [] := by
  obtain ⟨a, s, ps, hc, -⟩ := exists_bytesOf c
  rw [hc]
  exact List.cons_ne_nil a s

theorem decodeUtf8_flatMap (s : List Char) (r : List Nat) :
    decodeUtf8 (s.flatMap bytesOf ++ r) = s ++ decodeUtf8 r := by
  induction s with
  | nil => rfl
  | cons c s ih => rw [List.flatMap_cons, List.append_assoc, decodeUtf8_bytesOf, ih, List.cons_append]

theorem flatMap_decodeUtf8_sublist (bytes : List Nat) :
    ((decodeUtf8 bytes).flatMap bytesOf).Sublist bytes := by
  induction hn : bytes.length using Nat.strong_induction_on generalizing bytes with
  | _ n ih =>
    cases bytes with
    | nil => exact .slnil
    | cons a r =>
      obtain ⟨c, t, ht, hdecode⟩ | ⟨-, hdecode⟩ := decodeUtf8_step a r
      · have hshort : t.length < n := by
          have hpos := List.length_pos_iff.2 (bytesOf_ne_nil c)
          rw [← hn, ht, List.length_append]
          omega
        rw [hdecode, ht, List.flatMap_cons]
        exact (ih _ hshort t rfl).append_left (bytesOf c)
      · rw [hdecode]
        exact (ih _ (by rw [← hn]; exact Nat.lt_succ_self _) r rfl).cons a

/-! Decoding in place -/

theorem front_eq_character (h : front a r = .character c more) :
    a :: r = bytesOf c ++ r.drop more ∧ (bytesOf c).length = more + 1 := by
  unfold front at h
  split at h
  · cases h
  · rename_i ps ha
    dsimp only at h
    split at h
    · rename_i hfitting
      cases h
      rw [(fits_of_fitting hfitting).bytesOf_character ha, List.cons_append, List.take_append_drop,
        List.length_cons, List.length_take_of_le (fitting_le ps r)]
      exact ⟨rfl, rfl⟩
    · split at h <;> cases h

theorem front_bytesOf (h : a :: r = bytesOf c ++ s) : ∃ more, front a r = .character c more := by
  obtain ⟨a', s', ps, hc, ha, hs, rfl⟩ := exists_bytesOf c
  rw [hc, List.cons_append] at h
  obtain ⟨rfl, rfl⟩ := List.cons.inj h
  exact ⟨_, hs.front ha s⟩

theorem check_flatMap (s : List Char) : check (s.flatMap bytesOf) = .ok s := by
  induction s with
  | nil => rw [List.flatMap_nil, check]
  | cons c s ih =>
    obtain ⟨a, r, hr⟩ := List.exists_cons_of_ne_nil
      (List.append_ne_nil_of_left_ne_nil (bytesOf_ne_nil c) (s.flatMap bytesOf))
    obtain ⟨more, hfront⟩ := front_bytesOf hr.symm
    obtain ⟨hsplit, -⟩ := front_eq_character hfront
    have hrest : r.drop more = s.flatMap bytesOf :=
      List.append_cancel_left (hsplit.symm.trans hr.symm)
    rw [List.flatMap_cons, hr, check, hfront]
    simp only [hrest, ih]

/-- Bytes without a fault are those of a text. -/
theorem eq_flatMap_of_check {s : List Char} (h : check bytes = .ok s) : bytes = s.flatMap bytesOf := by
  induction bytes using check.induct generalizing s with
  | case1 =>
    rw [check] at h
    cases h
    rfl
  | case2 first r c more hfront s' hs ih =>
    rw [check, hfront] at h
    simp only [hs] at h
    cases h
    rw [(front_eq_character hfront).1, ih hs, List.flatMap_cons]
  | case3 first r c more hfront f hf ih =>
    rw [check, hfront] at h
    simp only [hf] at h
    cases h
  | case4 first r more hfront =>
    rw [check, hfront] at h
    cases h
  | case5 first r hfront =>
    rw [check, hfront] at h
    cases h

/-- A fault stands behind a text, and decoding goes on behind it. -/
theorem exists_of_check {f : Fault} (h : check bytes = .error f) :
    ∃ s : List Char, bytes.take f.validUpTo = s.flatMap bytesOf ∧
      decodeUtf8 bytes = s ++ f.invalid?.elim [] fun n => decodeUtf8 (bytes.drop (f.validUpTo + n)) := by
  induction bytes using check.induct generalizing f with
  | case1 =>
    rw [check] at h
    cases h
  | case2 first r c more hfront s' hs ih =>
    rw [check, hfront] at h
    simp only [hs] at h
    cases h
  | case3 first r c more hfront f' hf ih =>
    rw [check, hfront] at h
    simp only [hf] at h
    cases h
    obtain ⟨s, htake, hdecode⟩ := ih hf
    obtain ⟨hsplit, hlength⟩ := front_eq_character hfront
    refine ⟨c :: s, ?_, ?_⟩
    · rw [hsplit, ← hlength, List.take_length_add_append, htake, List.flatMap_cons]
    · rw [hsplit, ← hlength, decodeUtf8_bytesOf, hdecode]
      simp only [Nat.add_assoc, List.drop_length_add_append, List.cons_append]
  | case4 first r more hfront =>
    rw [check, hfront] at h
    cases h
    refine ⟨[], rfl, ?_⟩
    simp only [decodeUtf8_cons, hfront, Nat.zero_add]
    rfl
  | case5 first r hfront =>
    rw [check, hfront] at h
    cases h
    refine ⟨[], rfl, ?_⟩
    rw [decodeUtf8_cons, hfront]
    rfl

theorem front_of_flatMap {s : List Char} (h : (c :: s).flatMap bytesOf <+: a :: r) :
    ∃ more, front a r = .character c more ∧ (bytesOf c).length = more + 1 ∧
      s.flatMap bytesOf <+: r.drop more := by
  obtain ⟨t, ht⟩ := h
  rw [List.flatMap_cons, List.append_assoc] at ht
  obtain ⟨more, hfront⟩ := front_bytesOf ht.symm
  obtain ⟨hsplit, hlength⟩ := front_eq_character hfront
  exact ⟨more, hfront, hlength, t, List.append_cancel_left (ht.trans hsplit)⟩

/-- No longer text stands in front of a fault. -/
theorem length_le_validUpTo {f : Fault} {s : List Char} (h : check bytes = .error f)
    (hs : s.flatMap bytesOf <+: bytes) : (s.flatMap bytesOf).length ≤ f.validUpTo := by
  induction bytes using check.induct generalizing f s with
  | case1 =>
    rw [check] at h
    cases h
  | case2 first r c more hfront s' hs' ih =>
    rw [check, hfront] at h
    simp only [hs'] at h
    cases h
  | case3 first r c more hfront f' hf ih =>
    rw [check, hfront] at h
    simp only [hf] at h
    cases h
    cases s with
    | nil => exact Nat.zero_le _
    | cons d s =>
      obtain ⟨more', hfront', hlength, hs⟩ := front_of_flatMap hs
      cases hfront.symm.trans hfront'
      rw [List.flatMap_cons, List.length_append, hlength]
      exact Nat.add_le_add_left (ih hf hs) _
  | case4 first r more hfront | case5 first r hfront =>
    cases s with
    | nil => exact Nat.zero_le _
    | cons d s =>
      obtain ⟨more', hfront', -⟩ := front_of_flatMap hs
      cases hfront.symm.trans hfront'

theorem run_push (s : List Char) (out : String) : (push s).run out = ((), out ++ String.ofList s) := rfl

/-- The characters of bytes are added to what the text holds. -/
theorem run_pushUtf8 (bytes : List Nat) (out : String) :
    (pushUtf8 bytes).run out = ((), out ++ String.ofList (decodeUtf8 bytes)) := by
  induction hn : bytes.length using Nat.strong_induction_on generalizing bytes out with
  | _ n ih =>
    rw [pushUtf8]
    split
    · rename_i s hs
      have hdecode := decodeUtf8_flatMap s []
      rw [List.append_nil, ← eq_flatMap_of_check hs, decodeUtf8, List.append_nil] at hdecode
      rw [run_push, hdecode]
    · rename_i f hf
      obtain ⟨s, htake, hdecode⟩ := exists_of_check hf
      rw [htake, check_flatMap, StateT.run_bind, run_push, hdecode, String.ofList_append]
      split
      · rename_i size hsize
        obtain ⟨hne, hpos⟩ := invalid_pos hf hsize
        have hshort : (bytes.drop (f.validUpTo + size)).length < n := by
          have := List.length_pos_iff.2 hne
          rw [List.length_drop, ← hn]
          omega
        refine (ih _ hshort _ _ rfl).trans ?_
        rw [hsize, Option.elim_some, String.append_assoc]
      · rename_i hnone
        rw [hnone, Option.elim_none, String.ofList_nil, String.append_empty]
        rfl

/-- Decoding in place leaves and answers the text of the bytes. -/
theorem run_decodeInto (e : Encoding) (bytes : List Nat) (scratch : String) :
    (decodeInto e bytes).run scratch = (decodeWith (some e) bytes, decodeWith (some e) bytes) := by
  have hcleared {x : StateM String Unit} (hx : x.run "" = ((), "" ++ decodeWith (some e) bytes)) :
      (do set ""; x; get : StateM String String).run scratch =
        (decodeWith (some e) bytes, decodeWith (some e) bytes) := by
    rw [String.empty_append] at hx
    change ((fun p => (p.2, p.2)) (x.run "") : String × String) = _
    rw [hx]
  cases e with
  | utf8 => exact hcleared (run_pushUtf8 bytes "")
  | latin1 => exact hcleared (run_push _ "")
  | ascii => exact hcleared (run_push _ "")

/-- Decoding UTF-8 loses no character that is written, in front of any bytes, and makes up none: at each
byte a character is read that is written there, or else none is written there and the byte alone is left
out, so that the bytes of what was read stand in this order in what was decoded. What is decoded in place
does not depend on what the text held before. -/
theorem decodes_what_is_written (text : String) (bytes : List Nat) :
    utf8.decode (encodeUtf8 text ++ bytes) = text.toList ++ utf8.decode bytes ∧
    (encodeUtf8 (String.ofList (utf8.decode bytes))).Sublist bytes ∧
    (∀ b, (∃ c r, b :: bytes = encodeUtf8 (String.singleton c) ++ r ∧
        utf8.decode (b :: bytes) = c :: utf8.decode r) ∨
      (∀ c, ¬ encodeUtf8 (String.singleton c) <+: b :: bytes) ∧
        utf8.decode (b :: bytes) = utf8.decode bytes) ∧
    ∀ (e : Option Encoding) (scratch : String), ((e.getD utf8).decodeInto bytes).run scratch =
      (decodeWith e bytes, decodeWith e bytes) := by
  have hsingle (c : Char) : encodeUtf8 (String.singleton c) = bytesOf c := by
    rw [encodeUtf8_eq, String.toList_singleton, List.flatMap_singleton]
  refine ⟨?_, ?_, fun b => ?_, fun e scratch => ?_⟩
  · rw [encodeUtf8_eq]
    exact decodeUtf8_flatMap text.toList bytes
  · rw [encodeUtf8_ofList]
    exact flatMap_decodeUtf8_sublist bytes
  · simp only [hsingle]
    exact decodeUtf8_step b bytes
  · exact run_decodeInto (e.getD utf8) bytes scratch

end Reporting.Encoding
