import CommentStrip.Text.Utf8

/-! Reading bytes undoes writing characters, and bytes that are read are those that would be
written. -/
namespace CommentStrip.Text.Utf8

theorem leadValue {b : UInt8} {n : Nat} (value : b.toNat = n) :
    lead b =
      if n < 0x80 then some (0, 0x80, 0xBF, n)
      else if n < 0xC2 then none
      else if n < 0xE0 then some (1, 0x80, 0xBF, n % 32)
      else if n = 0xE0 then some (2, 0xA0, 0xBF, n % 16)
      else if n = 0xED then some (2, 0x80, 0x9F, n % 16)
      else if n < 0xF0 then some (2, 0x80, 0xBF, n % 16)
      else if n = 0xF0 then some (3, 0x90, 0xBF, n % 8)
      else if n < 0xF4 then some (3, 0x80, 0xBF, n % 8)
      else if n = 0xF4 then some (3, 0x80, 0x8F, n % 8)
      else none := by
  subst value
  simp only [lead, UInt8.lt_iff_toNat_lt, ← UInt8.toNat_inj]
  rfl

def tail (n : Nat) : UInt8 := UInt8.ofNat (n % 64 + 128)

theorem tailNat (n : Nat) : (tail n).toNat = n % 64 + 128 := by
  simp only [tail, UInt8.toNat_ofNat']
  omega

theorem isTailIff {b : UInt8} : isTail b = true ↔ 128 ≤ b.toNat ∧ b.toNat ≤ 191 := by
  simp [isTail, UInt8.le_iff_toNat_le]

theorem isTailTail (n : Nat) : isTail (tail n) = true := by
  rw [isTailIff, tailNat]
  omega

theorem payloadTail (n : Nat) : payload (tail n) = n % 64 := by
  rw [payload, tailNat]
  omega

theorem tailPayload {b : UInt8} (tailed : isTail b = true) {n : Nat}
    (same : n % 64 = payload b) : tail n = b := by
  rw [isTailIff] at tailed
  rw [← UInt8.toNat_inj, tailNat, same, payload]
  omega

theorem within (low high x : UInt8) : (low ≤ x && x ≤ high) = true ↔
    low.toNat ≤ x.toNat ∧ x.toNat ≤ high.toNat := by
  simp [UInt8.le_iff_toNat_le]

/- The bounds of the second byte keep out long forms, surrogates and numbers past the last. -/
theorem leadOne {b : UInt8} (range : b.toNat < 128) : lead b = some (0, 0x80, 0xBF, b.toNat) := by
  rw [leadValue rfl, if_pos range]

theorem leadTwo {b : UInt8} (low : 194 ≤ b.toNat) (high : b.toNat < 224) :
    lead b = some (1, 0x80, 0xBF, b.toNat % 32) := by
  rw [leadValue rfl, if_neg (by omega), if_neg (by omega), if_pos (by omega)]

theorem leadThree {b : UInt8} {k : Nat} (value : b.toNat = 224 + k) (range : k < 16) :
    ∃ low high, lead b = some (2, low, high, k) ∧ ∀ x, (low ≤ x && x ≤ high) = true ↔
      isTail x = true ∧ (k = 0 → 32 ≤ payload x) ∧ (k = 13 → payload x < 32) := by
  rw [leadValue value, if_neg (by omega), if_neg (by omega), if_neg (by omega),
    show (224 + k) % 16 = k by omega]
  split
  · refine ⟨_, _, rfl, fun x => ?_⟩
    simp only [within, isTailIff, payload, UInt8.reduceToNat]
    omega
  split
  · refine ⟨_, _, rfl, fun x => ?_⟩
    simp only [within, isTailIff, payload, UInt8.reduceToNat]
    omega
  · rw [if_pos (by omega)]
    refine ⟨_, _, rfl, fun x => ?_⟩
    simp only [within, isTailIff, payload, UInt8.reduceToNat]
    omega

theorem leadFour {b : UInt8} {k : Nat} (value : b.toNat = 240 + k) (range : k ≤ 4) :
    ∃ low high, lead b = some (3, low, high, k) ∧ ∀ x, (low ≤ x && x ≤ high) = true ↔
      isTail x = true ∧ (k = 0 → 16 ≤ payload x) ∧ (k = 4 → payload x < 16) := by
  rw [leadValue value, if_neg (by omega), if_neg (by omega), if_neg (by omega),
    if_neg (by omega), if_neg (by omega), if_neg (by omega), show (240 + k) % 8 = k by omega]
  split
  · refine ⟨_, _, rfl, fun x => ?_⟩
    simp only [within, isTailIff, payload, UInt8.reduceToNat]
    omega
  split
  · refine ⟨_, _, rfl, fun x => ?_⟩
    simp only [within, isTailIff, payload, UInt8.reduceToNat]
    omega
  · rw [if_pos (by omega)]
    refine ⟨_, _, rfl, fun x => ?_⟩
    simp only [within, isTailIff, payload, UInt8.reduceToNat]
    omega

theorem tailsChar {value seen owed more : Nat} {rest : List UInt8} {c : Char}
    (found : tails value seen (owed + 1) rest = .char c more) :
    ∃ b later, rest = b :: later ∧ isTail b = true ∧
      tails (value * 64 + payload b) (seen + 1) owed later = .char c more := by
  cases rest with
  | nil => cases found
  | cons b later =>
    rw [tails] at found
    split at found
    · rename_i tailed
      exact ⟨b, later, rfl, tailed, found⟩
    · cases found

def spelling (n : Nat) : List UInt8 :=
  if n ≤ 127 then [UInt8.ofNat n]
  else if n ≤ 2047 then [UInt8.ofNat (n / 64 % 32 + 192), tail n]
  else if n ≤ 65535 then [UInt8.ofNat (n / 4096 % 16 + 224), tail (n / 64), tail n]
  else [UInt8.ofNat (n / 262144 % 8 + 240), tail (n / 4096), tail (n / 64), tail n]

theorem encodeValue {c : Char} {n : Nat} (value : c.toNat = n) :
    String.utf8EncodeChar c = spelling n := by
  subst value
  rfl

theorem headEncode (c : Char) : ∃ b more, String.utf8EncodeChar c = b :: more ∧
    ∀ rest, head b (more ++ rest) = .char c more.length := by
  obtain ⟨n, number⟩ : ∃ n, c.toNat = n := ⟨_, rfl⟩
  have whole : Char.ofNat n = c := by rw [← number, Char.ofNat_toNat]
  have valid : n < 55296 ∨ 57343 < n ∧ n < 1114112 := by rw [← number]; exact c.valid
  rw [encodeValue number, spelling]
  split
  · have first : (UInt8.ofNat n).toNat = n := by simp; omega
    refine ⟨_, _, rfl, fun rest => ?_⟩
    rw [head, leadOne (by omega)]
    simp only [first, whole, List.length_nil]
  split
  · have first : (UInt8.ofNat (n / 64 % 32 + 192)).toNat = n / 64 % 32 + 192 := by simp; omega
    have bits : (n / 64 % 32 + 192) % 32 * 64 + n % 64 = n := by omega
    have inside : (0x80 ≤ tail n && tail n ≤ 0xBF) = true := isTailTail n
    refine ⟨_, _, rfl, fun rest => ?_⟩
    rw [head, leadTwo (by omega) (by omega)]
    simp only [List.cons_append, inside, if_true, payloadTail, first, bits, tails, whole,
      List.length_cons, List.length_nil]
  split
  · have first : (UInt8.ofNat (n / 4096 % 16 + 224)).toNat = 224 + n / 4096 := by simp; omega
    have bits : (n / 4096 * 64 + n / 64 % 64) * 64 + n % 64 = n := by omega
    obtain ⟨low, high, leads, bounds⟩ := leadThree first (by omega)
    have inside : (low ≤ tail (n / 64) && tail (n / 64) ≤ high) = true := by
      rw [bounds, payloadTail]
      exact ⟨isTailTail _, by omega, by omega⟩
    refine ⟨_, _, rfl, fun rest => ?_⟩
    rw [head, leads]
    simp only [List.cons_append, inside, if_true, payloadTail, isTailTail, bits, tails, whole,
      List.length_cons, List.length_nil]
  · have first : (UInt8.ofNat (n / 262144 % 8 + 240)).toNat = 240 + n / 262144 := by simp; omega
    have bits : ((n / 262144 * 64 + n / 4096 % 64) * 64 + n / 64 % 64) * 64 + n % 64 = n := by
      omega
    obtain ⟨low, high, leads, bounds⟩ := leadFour first (by omega)
    have inside : (low ≤ tail (n / 4096) && tail (n / 4096) ≤ high) = true := by
      rw [bounds, payloadTail]
      exact ⟨isTailTail _, by omega, by omega⟩
    refine ⟨_, _, rfl, fun rest => ?_⟩
    rw [head, leads]
    simp only [List.cons_append, inside, if_true, payloadTail, isTailTail, bits, tails, whole,
      List.length_cons, List.length_nil]

theorem payloadBelow (b : UInt8) : payload b < 64 := Nat.mod_lt _ (by omega)

theorem encodeOfNat {n : Nat} (valid : n.isValidChar) :
    String.utf8EncodeChar (Char.ofNat n) = spelling n :=
  encodeValue (by rw [Char.ofNat, dif_pos valid]; rfl)

theorem ofNatByte {b : UInt8} {n : Nat} (same : n = b.toNat) : UInt8.ofNat n = b := by
  rw [same, UInt8.ofNat_toNat]

theorem encodeHead {b : UInt8} {rest : List UInt8} {c : Char} {more : Nat}
    (found : head b rest = .char c more) :
    b :: rest = String.utf8EncodeChar c ++ rest.drop more := by
  by_cases one : b.toNat < 128
  · rw [head, leadOne one] at found
    cases found
    rw [encodeOfNat (.inl (by omega)), spelling, if_pos (by omega), ofNatByte rfl]
    rfl
  by_cases none : b.toNat < 194
  · rw [head, leadValue rfl, if_neg one, if_pos none] at found
    cases found
  by_cases two : b.toNat < 224
  · rw [head, leadTwo (by omega) two] at found
    cases rest with
    | nil => cases found
    | cons x later =>
      simp only at found
      split at found
      · rename_i inside
        have low := payloadBelow x
        cases found
        rw [encodeOfNat (.inl (by omega)), spelling, if_neg (by omega), if_pos (by omega),
          ofNatByte (b := b) (by omega), tailPayload (b := x) inside (by omega)]
        rfl
      · cases found
  by_cases three : b.toNat < 240
  · obtain ⟨low, high, leads, bounds⟩ :=
      leadThree (show b.toNat = 224 + (b.toNat - 224) by omega) (by omega)
    rw [head, leads] at found
    cases rest with
    | nil => cases found
    | cons x later =>
      simp only at found
      split at found
      · rename_i inside
        obtain ⟨tailed, above, below⟩ := (bounds x).mp inside
        obtain ⟨y, later, rfl, tailed', found⟩ := tailsChar found
        have low := payloadBelow x
        have low' := payloadBelow y
        cases found
        rw [encodeOfNat (by unfold Nat.isValidChar; omega), spelling, if_neg (by omega),
          if_neg (by omega), if_pos (by omega), ofNatByte (b := b) (by omega), tailPayload tailed (by omega),
          tailPayload tailed' (by omega)]
        rfl
      · cases found
  by_cases four : b.toNat ≤ 244
  · obtain ⟨low, high, leads, bounds⟩ :=
      leadFour (show b.toNat = 240 + (b.toNat - 240) by omega) (by omega)
    rw [head, leads] at found
    cases rest with
    | nil => cases found
    | cons x later =>
      simp only at found
      split at found
      · rename_i inside
        obtain ⟨tailed, above, below⟩ := (bounds x).mp inside
        obtain ⟨y, later, rfl, tailed', found⟩ := tailsChar found
        obtain ⟨z, later, rfl, tailed'', found⟩ := tailsChar found
        have low := payloadBelow x
        have low' := payloadBelow y
        have low'' := payloadBelow z
        cases found
        rw [encodeOfNat (by unfold Nat.isValidChar; omega), spelling, if_neg (by omega),
          if_neg (by omega), if_neg (by omega), ofNatByte (b := b) (by omega), tailPayload tailed (by omega),
          tailPayload tailed' (by omega), tailPayload tailed'' (by omega)]
        rfl
      · cases found
  · rw [head, leadValue rfl, if_neg one, if_neg none, if_neg two, if_neg (by omega),
      if_neg (by omega), if_neg three, if_neg (by omega), if_neg (by omega),
      if_neg (by omega)] at found
    cases found

theorem encodeLength (text : List Char) : (encode text).length = byteLength text := by
  induction text with
  | nil => rfl
  | cons c rest ih =>
    rw [encode, List.flatMap_cons, List.length_append, String.length_utf8EncodeChar,
      byteLengthCons, ← ih]
    rfl

theorem decodeCons (position : Nat) (c : Char) (bytes : List UInt8) :
    ∃ behind, decodeFrom position (String.utf8EncodeChar c ++ bytes) =
      (decodeFrom behind bytes).map (c :: ·) := by
  obtain ⟨b, more, spelled, found⟩ := headEncode c
  refine ⟨position + more.length + 1, ?_⟩
  rw [spelled, List.cons_append, decodeFrom, found bytes]
  simp only [List.drop_left]

theorem decodeFromEncode (position : Nat) (text : List Char) :
    decodeFrom position (encode text) = .ok text := by
  induction text generalizing position with
  | nil => simp [encode, decodeFrom]
  | cons c rest ih =>
    obtain ⟨behind, taken⟩ := decodeCons position c (encode rest)
    rw [encode, List.flatMap_cons]
    rw [encode] at taken ih
    rw [taken, ih]
    rfl

theorem decodeEncode (text : List Char) : decode (encode text) = .ok text :=
  decodeFromEncode 0 text

theorem encodeInj {a b : List Char} (same : encode a = encode b) : a = b := by
  have read := congrArg decode same
  rw [decodeEncode, decodeEncode] at read
  exact Except.ok.inj read

theorem encodeDecodeFrom {position : Nat} {bytes : List UInt8} {text : List Char}
    (read : decodeFrom position bytes = .ok text) : encode text = bytes := by
  fun_induction decodeFrom position bytes generalizing text with
  | case1 => cases read; rfl
  | case2 => cases read
  | case3 => cases read
  | case4 position b rest c more found ih =>
    cases later : decodeFrom (position + more + 1) (rest.drop more) with
    | error fault => rw [later] at read; cases read
    | ok text' =>
      rw [later] at read
      cases read
      rw [encode, List.flatMap_cons, ← encode, ih later]
      exact (encodeHead found).symm

theorem encodeDecode {bytes : List UInt8} {text : List Char} (read : decode bytes = .ok text) :
    encode text = bytes := encodeDecodeFrom read

end CommentStrip.Text.Utf8
