import EntanglementRs.Lib.LossyText

/-!
# Lossy decoding and well-formed text

What lossy decoding owes the bytes, told by the encoding of characters alone:
encoded characters are read, and each longest beginning of an encoding that is
never completed becomes one U+FFFD.  The decoder keeps to this relation, which
determines its result; in particular every text comes back from its encoding.
-/

namespace LossyText

open String (utf8EncodeChar)

variable {b lead second : UInt8} {rest : List UInt8}

/-! ## What is read -/

/-- The bytes begin the encoding of some character. -/
def Begins (piece : List UInt8) : Prop := ∃ c, piece <+: utf8EncodeChar c

/-- No character is encoded at the start of `bytes`, and `piece` is what one mark
stands for: the longest beginning of an encoding found there, or else one byte. -/
structure IllFormed (piece bytes : List UInt8) : Prop where
  start : piece <+: bytes
  unencoded : ∀ c, ¬ utf8EncodeChar c <+: bytes
  nonempty : piece ≠ []
  begins : piece.length = 1 ∨ Begins piece
  longest : ∀ q, q <+: bytes → Begins q → q.length ≤ piece.length

inductive Reads : List UInt8 → List Char → Prop where
  | nil : Reads [] []
  | char (c : Char) {rest : List UInt8} {cs : List Char} (hrest : Reads rest cs) :
      Reads (utf8EncodeChar c ++ rest) (c :: cs)
  | mark {piece rest : List UInt8} {cs : List Char}
      (hill : IllFormed piece (piece ++ rest)) (hrest : Reads rest cs) :
      Reads (piece ++ rest) (replacement :: cs)

/-! ## The classes of bytes as numbers -/

theorem isContinuation_iff :
    isContinuation b = true ↔ 0x80 ≤ b.toNat ∧ b.toNat ≤ 0xBF := by
  simp [isContinuation, UInt8.le_iff_toNat_le]

theorem charWidth_eq (b : UInt8) :
    charWidth b =
      if b.toNat < 0x80 then 1
      else if 0xC2 ≤ b.toNat ∧ b.toNat ≤ 0xDF then 2
      else if 0xE0 ≤ b.toNat ∧ b.toNat ≤ 0xEF then 3
      else if 0xF0 ≤ b.toNat ∧ b.toNat ≤ 0xF4 then 4
      else 0 := by
  simp [charWidth, UInt8.lt_iff_toNat_lt, UInt8.le_iff_toNat_le]

theorem secondFits_iff :
    secondFits lead second = true ↔
      (0x80 ≤ second.toNat ∧ second.toNat ≤ 0xBF) ∧
        (lead.toNat = 0xE0 → 0xA0 ≤ second.toNat) ∧
        (lead.toNat = 0xED → second.toNat ≤ 0x9F) ∧
        (lead.toNat = 0xF0 → 0x90 ≤ second.toNat) ∧
        (lead.toNat = 0xF4 → second.toNat ≤ 0x8F) := by
  have hlead : ∀ n : UInt8, lead = n ↔ lead.toNat = n.toNat := fun n =>
    UInt8.toNat_inj.symm
  simp only [secondFits, isContinuation, hlead, UInt8.reduceToNat]
  split
  next h => simp [h, UInt8.le_iff_toNat_le]; omega
  next hE0 =>
    split
    next h => simp [h, UInt8.le_iff_toNat_le]; omega
    next hED =>
      split
      next h => simp [h, UInt8.le_iff_toNat_le]; omega
      next hF0 =>
        split
        next h => simp [h, UInt8.le_iff_toNat_le]; omega
        next hF4 => simp [hE0, hED, hF0, hF4, UInt8.le_iff_toNat_le]

/-! ## One character -/

theorem decodeOne_one (h : lead.toNat < 0x80) :
    decodeOne lead rest = (Char.ofNat lead.toNat, 0) :=
  decodeOne_ascii (UInt8.lt_iff_toNat_lt.mpr h) rest

theorem decodeOne_two (hlow : 0xC2 ≤ lead.toNat) (hhigh : lead.toNat ≤ 0xDF) :
    decodeOne lead (b :: rest) =
      if isContinuation b then
        (Char.ofNat ((lead.toNat - 0xC0) * 64 + payloadBits b), 1)
      else (replacement, 0) := by
  have hwidth : charWidth lead = 2 := by
    rw [charWidth_eq, if_neg (by omega), if_pos ⟨hlow, hhigh⟩]
  unfold decodeOne
  rw [hwidth]
  rfl

theorem decodeOne_three (hlow : 0xE0 ≤ lead.toNat) (hhigh : lead.toNat ≤ 0xEF)
    {c : UInt8} :
    decodeOne lead (b :: c :: rest) =
      if secondFits lead b then
        if isContinuation c then
          (Char.ofNat ((lead.toNat - 0xE0) * 4096 + payloadBits b * 64 + payloadBits c), 2)
        else (replacement, 1)
      else (replacement, 0) := by
  have hwidth : charWidth lead = 3 := by
    rw [charWidth_eq, if_neg (by omega), if_neg (by omega), if_pos ⟨hlow, hhigh⟩]
  unfold decodeOne
  rw [hwidth]
  rfl

theorem decodeOne_four (hlow : 0xF0 ≤ lead.toNat) (hhigh : lead.toNat ≤ 0xF4)
    {c d : UInt8} :
    decodeOne lead (b :: c :: d :: rest) =
      if secondFits lead b then
        if isContinuation c then
          if isContinuation d then
            (Char.ofNat ((lead.toNat - 0xF0) * 262144 + payloadBits b * 4096 +
              payloadBits c * 64 + payloadBits d), 3)
          else (replacement, 2)
        else (replacement, 1)
      else (replacement, 0) := by
  have hwidth : charWidth lead = 4 := by
    rw [charWidth_eq, if_neg (by omega), if_neg (by omega), if_neg (by omega),
      if_pos ⟨hlow, hhigh⟩]
  unfold decodeOne
  rw [hwidth]
  rfl

theorem ofNat_toNat_of_lt {n : ℕ} (h : n < 256) : (UInt8.ofNat n).toNat = n :=
  UInt8.toNat_ofNat_of_lt' h

theorem payloadBits_ofNat (n : ℕ) : payloadBits (UInt8.ofNat (n % 0x40 + 0x80)) = n % 0x40 := by
  have hbyte := ofNat_toNat_of_lt (n := n % 0x40 + 0x80) (by omega)
  unfold payloadBits
  omega

theorem isContinuation_ofNat (n : ℕ) :
    isContinuation (UInt8.ofNat (n % 0x40 + 0x80)) = true := by
  have hbyte := ofNat_toNat_of_lt (n := n % 0x40 + 0x80) (by omega)
  exact isContinuation_iff.mpr (by omega)

/-- The scalar values, as numbers. -/
theorem char_valid (c : Char) :
    c.val.toNat < 0xD800 ∨ 0xDFFF < c.val.toNat ∧ c.val.toNat < 0x110000 :=
  c.valid

/-- The encoding of a character is read back whole, whatever follows. -/
theorem decodeOne_utf8EncodeChar (c : Char) (rest : List UInt8) :
    ∃ lead tail, utf8EncodeChar c = lead :: tail ∧ charWidth lead = tail.length + 1 ∧
      decodeOne lead (tail ++ rest) = (c, tail.length) := by
  have hvalid := char_valid c
  have hback : Char.ofNat c.val.toNat = c := Char.ofNat_toNat c
  generalize hv : c.val.toNat = v at hvalid hback
  simp only [utf8EncodeChar, hv]
  split
  next h1 =>
    have hlead := ofNat_toNat_of_lt (n := v) (by omega)
    refine ⟨_, _, rfl, ?_, ?_⟩
    · rw [charWidth_eq, if_pos (by omega)]
      rfl
    · rw [decodeOne_one (by omega), hlead, hback]
      rfl
  next h1 =>
    split
    next h2 =>
      have hlead := ofNat_toNat_of_lt (n := v / 64 % 0x20 + 0xC0) (by omega)
      have hsum : (v / 64 % 0x20 + 0xC0 - 0xC0) * 64 + v % 0x40 = v := by omega
      refine ⟨_, _, rfl, ?_, ?_⟩
      · rw [charWidth_eq, if_neg (by omega), if_pos (by omega)]
        rfl
      · rw [List.singleton_append, decodeOne_two (by omega) (by omega),
          if_pos (isContinuation_ofNat v), payloadBits_ofNat, hlead, hsum, hback]
        rfl
    next h2 =>
      split
      next h3 =>
        have hlead := ofNat_toNat_of_lt (n := v / 4096 % 0x10 + 0xE0) (by omega)
        have hb := ofNat_toNat_of_lt (n := v / 64 % 0x40 + 0x80) (by omega)
        have hfits : secondFits (UInt8.ofNat (v / 4096 % 0x10 + 0xE0))
            (UInt8.ofNat (v / 64 % 0x40 + 0x80)) = true :=
          secondFits_iff.mpr (by omega)
        have hsum : (v / 4096 % 0x10 + 0xE0 - 0xE0) * 4096 + v / 64 % 0x40 * 64 +
            v % 0x40 = v := by
          omega
        refine ⟨_, _, rfl, ?_, ?_⟩
        · rw [charWidth_eq, if_neg (by omega), if_neg (by omega), if_pos (by omega)]
          rfl
        · rw [List.cons_append, List.singleton_append, decodeOne_three (by omega) (by omega),
            if_pos hfits, if_pos (isContinuation_ofNat v), payloadBits_ofNat,
            payloadBits_ofNat, hlead, hsum, hback]
          rfl
      next h3 =>
        have hlead := ofNat_toNat_of_lt (n := v / 262144 % 0x08 + 0xF0) (by omega)
        have hb := ofNat_toNat_of_lt (n := v / 4096 % 0x40 + 0x80) (by omega)
        have hfits : secondFits (UInt8.ofNat (v / 262144 % 0x08 + 0xF0))
            (UInt8.ofNat (v / 4096 % 0x40 + 0x80)) = true :=
          secondFits_iff.mpr (by omega)
        have hsum : (v / 262144 % 0x08 + 0xF0 - 0xF0) * 262144 +
            v / 4096 % 0x40 * 4096 + v / 64 % 0x40 * 64 + v % 0x40 = v := by
          omega
        refine ⟨_, _, rfl, ?_, ?_⟩
        · rw [charWidth_eq, if_neg (by omega), if_neg (by omega), if_neg (by omega),
            if_pos (by omega)]
          rfl
        · rw [List.cons_append, List.cons_append, List.singleton_append,
            decodeOne_four (by omega) (by omega), if_pos hfits,
            if_pos (isContinuation_ofNat (v / 64)), if_pos (isContinuation_ofNat v),
            payloadBits_ofNat, payloadBits_ofNat, payloadBits_ofNat, hlead, hsum, hback]
          rfl

/-! ## Nothing else is read as a character -/

theorem val_ofNat {n : ℕ} (h : n < 0xD800 ∨ 0xDFFF < n ∧ n < 0x110000) :
    (Char.ofNat n).val.toNat = n := by
  rw [Char.ofNat, dif_pos h]
  rfl

theorem ofNat_eq_of_eq {n : ℕ} (h : n = b.toNat) : UInt8.ofNat n = b := by
  rw [h, UInt8.ofNat_toNat]

theorem encode_one (h : lead.toNat < 0x80) :
    utf8EncodeChar (Char.ofNat lead.toNat) = [lead] := by
  simp only [utf8EncodeChar, val_ofNat (n := lead.toNat) (by omega)]
  rw [if_pos (by omega), UInt8.ofNat_toNat]

theorem encode_two (hlow : 0xC2 ≤ lead.toNat) (hhigh : lead.toNat ≤ 0xDF)
    (hb : isContinuation b = true) :
    utf8EncodeChar (Char.ofNat ((lead.toNat - 0xC0) * 64 + payloadBits b)) = [lead, b] := by
  rw [isContinuation_iff] at hb
  unfold payloadBits
  generalize hv : (lead.toNat - 0xC0) * 64 + (b.toNat - 0x80) = v
  simp only [utf8EncodeChar, val_ofNat (n := v) (by omega)]
  rw [if_neg (by omega), if_pos (by omega), ofNat_eq_of_eq (b := lead) (by omega),
    ofNat_eq_of_eq (b := b) (by omega)]

theorem encode_three {c : UInt8} (hlow : 0xE0 ≤ lead.toNat) (hhigh : lead.toNat ≤ 0xEF)
    (hb : secondFits lead b = true) (hc : isContinuation c = true) :
    utf8EncodeChar (Char.ofNat
      ((lead.toNat - 0xE0) * 4096 + payloadBits b * 64 + payloadBits c)) = [lead, b, c] := by
  rw [isContinuation_iff] at hc
  rw [secondFits_iff] at hb
  unfold payloadBits
  generalize hv : (lead.toNat - 0xE0) * 4096 + (b.toNat - 0x80) * 64 + (c.toNat - 0x80) = v
  simp only [utf8EncodeChar, val_ofNat (n := v) (by omega)]
  rw [if_neg (by omega), if_neg (by omega), if_pos (by omega),
    ofNat_eq_of_eq (b := lead) (by omega), ofNat_eq_of_eq (b := b) (by omega),
    ofNat_eq_of_eq (b := c) (by omega)]

theorem encode_four {c d : UInt8} (hlow : 0xF0 ≤ lead.toNat) (hhigh : lead.toNat ≤ 0xF4)
    (hb : secondFits lead b = true) (hc : isContinuation c = true)
    (hd : isContinuation d = true) :
    utf8EncodeChar (Char.ofNat ((lead.toNat - 0xF0) * 262144 + payloadBits b * 4096 +
      payloadBits c * 64 + payloadBits d)) = [lead, b, c, d] := by
  rw [isContinuation_iff] at hc hd
  rw [secondFits_iff] at hb
  unfold payloadBits
  generalize hv : (lead.toNat - 0xF0) * 262144 + (b.toNat - 0x80) * 4096 +
    (c.toNat - 0x80) * 64 + (d.toNat - 0x80) = v
  simp only [utf8EncodeChar, val_ofNat (n := v) (by omega)]
  rw [if_neg (by omega), if_neg (by omega), if_neg (by omega),
    ofNat_eq_of_eq (b := lead) (by omega), ofNat_eq_of_eq (b := b) (by omega),
    ofNat_eq_of_eq (b := c) (by omega), ofNat_eq_of_eq (b := d) (by omega)]

/-! ## What is marked -/

/-- A piece that `more` bytes do not complete is ill-formed. -/
theorem illFormed_of_stops {pre bytes : List UInt8} (hwidth : charWidth lead ≠ pre.length + 1)
    (hbegins : pre = [] ∨ Begins (lead :: pre)) (hstart : pre <+: bytes)
    (hdecode : decodeOne lead bytes = (replacement, pre.length))
    (hmore : ∀ x rest, pre ++ x :: rest = bytes → ∀ more,
      decodeOne lead (pre ++ x :: more) = (replacement, pre.length)) :
    IllFormed (lead :: pre) (lead :: bytes) where
  start := List.cons_prefix_cons.mpr ⟨rfl, hstart⟩
  unencoded := by
    rintro c ⟨rest, hrest⟩
    obtain ⟨first, tail, hencode, hlength, hread⟩ := decodeOne_utf8EncodeChar c rest
    rw [hencode, List.cons_append, List.cons.injEq] at hrest
    obtain ⟨rfl, rfl⟩ := hrest
    rw [hdecode] at hread
    have hsame : pre.length = tail.length := congrArg Prod.snd hread
    omega
  nonempty := List.cons_ne_nil _ _
  begins := by
    rcases hbegins with rfl | hbegins
    · exact .inl rfl
    · exact .inr hbegins
  longest := by
    rintro q hq ⟨c, hc⟩
    obtain ⟨first, tail, hencode, _, hread⟩ := decodeOne_utf8EncodeChar c []
    rw [List.append_nil] at hread
    rw [hencode] at hc
    match q with
    | [] => exact Nat.zero_le _
    | head :: q =>
        obtain ⟨rfl, hstands⟩ := List.cons_prefix_cons.mp hq
        obtain ⟨rfl, hencoded⟩ := List.cons_prefix_cons.mp hc
        rw [List.length_cons, List.length_cons]
        by_contra hlong
        -- `q` goes past `pre`, so the character's encoding takes the same turn
        have hpast : pre <+: q := List.prefix_of_prefix_length_le hstart hstands (by omega)
        obtain ⟨extra, rfl⟩ := hpast
        rw [List.length_append] at hlong
        match extra with
        | [] => simp at hlong
        | x :: extra =>
            obtain ⟨rest, hrest⟩ := hstands
            obtain ⟨more, hmore'⟩ := hencoded
            rw [List.append_assoc, List.cons_append] at hrest hmore'
            have hstop := hmore x _ hrest (extra ++ more)
            rw [hmore', hread] at hstop
            have hsame : tail.length = pre.length := congrArg Prod.snd hstop
            have hpast := congrArg List.length hmore'
            simp only [List.length_append, List.length_cons] at hpast
            omega

/-- What the decoder takes at once is a character or one ill-formed piece. -/
structure Piece (lead : UInt8) (rest : List UInt8) (c : Char) (used : ℕ) : Prop where
  fits : used ≤ rest.length
  read : utf8EncodeChar c = lead :: rest.take used ∨
    c = replacement ∧ IllFormed (lead :: rest.take used) (lead :: rest)

theorem Piece.ended (pre : List UInt8) (hwidth : charWidth lead ≠ pre.length + 1)
    (hbegins : pre = [] ∨ Begins (lead :: pre))
    (hdecode : decodeOne lead pre = (replacement, pre.length)) :
    Piece lead pre replacement pre.length where
  fits := Nat.le_refl _
  read := by
    refine .inr ⟨rfl, ?_⟩
    rw [List.take_length]
    refine illFormed_of_stops hwidth hbegins List.prefix_rfl hdecode fun x rest hrest => ?_
    simpa using congrArg List.length hrest

theorem Piece.stopped (pre : List UInt8) {tail : List UInt8} {x : UInt8}
    (hwidth : charWidth lead ≠ pre.length + 1) (hbegins : pre = [] ∨ Begins (lead :: pre))
    (hmore : ∀ more, decodeOne lead (pre ++ x :: more) = (replacement, pre.length)) :
    Piece lead (pre ++ x :: tail) replacement pre.length where
  fits := by simp
  read := by
    refine .inr ⟨rfl, ?_⟩
    rw [List.take_left]
    refine illFormed_of_stops hwidth hbegins (List.prefix_append _ _) (hmore tail) ?_
    intro y rest hrest
    obtain rfl := (List.cons.inj (List.append_cancel_left hrest)).1
    exact hmore

theorem decodeOne_empty (hwidth : charWidth lead ≠ 1) :
    decodeOne lead [] = (replacement, 0) := by
  unfold decodeOne
  split
  next hone => exact absurd hone hwidth
  next => contradiction
  next => contradiction
  next => contradiction
  next => rfl

theorem Piece.of_empty (hwidth : charWidth lead ≠ 1) : Piece lead [] replacement 0 :=
  .ended [] hwidth (.inl rfl) (decodeOne_empty hwidth)

/-- A continuation byte, to complete the beginning of a sequence. -/
theorem isContinuation_filler : isContinuation 0x80 = true := by decide

theorem begins_of_encode {pre more : List UInt8} {c : Char}
    (hencode : utf8EncodeChar c = lead :: pre ++ more) : Begins (lead :: pre) :=
  ⟨c, hencode ▸ List.prefix_append _ _⟩

theorem piece_two (hlow : 0xC2 ≤ lead.toNat) (hhigh : lead.toNat ≤ 0xDF) :
    Piece lead rest (decodeOne lead rest).1 (decodeOne lead rest).2 := by
  have hwidth : charWidth lead = 2 := by
    rw [charWidth_eq, if_neg (by omega), if_pos ⟨hlow, hhigh⟩]
  match rest with
  | [] =>
      rw [decodeOne_empty (by omega)]
      exact .of_empty (by omega)
  | b :: tail =>
      rw [decodeOne_two hlow hhigh]
      split
      next hb =>
        refine ⟨by simp, .inl ?_⟩
        dsimp only
        rw [encode_two hlow hhigh hb]
        rfl
      next hb =>
        refine .stopped [] (by simp [hwidth]) (.inl rfl) fun more => ?_
        rw [List.nil_append, decodeOne_two hlow hhigh, if_neg hb]
        rfl

theorem decodeOne_second (hwidth : charWidth lead = 3 ∨ charWidth lead = 4)
    (hb : ¬ secondFits lead b = true) : decodeOne lead (b :: rest) = (replacement, 0) := by
  unfold decodeOne
  rcases hwidth with hwidth | hwidth <;>
  · rw [hwidth]
    exact if_neg hb

theorem piece_three (hlow : 0xE0 ≤ lead.toNat) (hhigh : lead.toNat ≤ 0xEF) :
    Piece lead rest (decodeOne lead rest).1 (decodeOne lead rest).2 := by
  have hwidth : charWidth lead = 3 := by
    rw [charWidth_eq, if_neg (by omega), if_neg (by omega), if_pos ⟨hlow, hhigh⟩]
  match rest with
  | [] =>
      rw [decodeOne_empty (by omega)]
      exact .of_empty (by omega)
  | b :: tail =>
      by_cases hb : secondFits lead b = true
      · have hbegins : Begins (lead :: [b]) :=
          begins_of_encode (encode_three hlow hhigh hb isContinuation_filler)
        match tail with
        | [] =>
            have hdecode : decodeOne lead [b] = (replacement, 1) := by
              unfold decodeOne
              rw [hwidth]
              exact if_pos hb
            rw [hdecode]
            exact .ended [b] (by simp [hwidth]) (.inr hbegins) hdecode
        | c :: tail =>
            rw [decodeOne_three hlow hhigh, if_pos hb]
            split
            next hc =>
              refine ⟨by simp, .inl ?_⟩
              dsimp only
              rw [encode_three hlow hhigh hb hc]
              rfl
            next hc =>
              refine .stopped [b] (by simp [hwidth]) (.inr hbegins) fun more => ?_
              rw [List.singleton_append, decodeOne_three hlow hhigh, if_pos hb, if_neg hc]
              rfl
      · rw [decodeOne_second (.inl hwidth) hb]
        exact .stopped [] (by simp [hwidth]) (.inl rfl) fun more =>
          decodeOne_second (.inl hwidth) hb

theorem decodeOne_third {c : UInt8} (hlow : 0xF0 ≤ lead.toNat) (hhigh : lead.toNat ≤ 0xF4)
    (hb : secondFits lead b = true) (hc : ¬ isContinuation c = true) :
    decodeOne lead (b :: c :: rest) = (replacement, 1) := by
  match rest with
  | [] =>
      have hwidth : charWidth lead = 4 := by
        rw [charWidth_eq, if_neg (by omega), if_neg (by omega), if_neg (by omega),
          if_pos ⟨hlow, hhigh⟩]
      unfold decodeOne
      rw [hwidth]
      exact (if_pos hb).trans (if_neg hc)
  | d :: rest => rw [decodeOne_four hlow hhigh, if_pos hb, if_neg hc]

theorem piece_four (hlow : 0xF0 ≤ lead.toNat) (hhigh : lead.toNat ≤ 0xF4) :
    Piece lead rest (decodeOne lead rest).1 (decodeOne lead rest).2 := by
  have hwidth : charWidth lead = 4 := by
    rw [charWidth_eq, if_neg (by omega), if_neg (by omega), if_neg (by omega),
      if_pos ⟨hlow, hhigh⟩]
  match rest with
  | [] =>
      rw [decodeOne_empty (by omega)]
      exact .of_empty (by omega)
  | b :: tail =>
      by_cases hb : secondFits lead b = true
      · have hbegins : Begins (lead :: [b]) := begins_of_encode
          (encode_four hlow hhigh hb isContinuation_filler isContinuation_filler)
        match tail with
        | [] =>
            have hdecode : decodeOne lead [b] = (replacement, 1) := by
              unfold decodeOne
              rw [hwidth]
              exact if_pos hb
            rw [hdecode]
            exact .ended [b] (by simp [hwidth]) (.inr hbegins) hdecode
        | c :: tail =>
            by_cases hc : isContinuation c = true
            · have hbegins : Begins (lead :: [b, c]) :=
                begins_of_encode (encode_four hlow hhigh hb hc isContinuation_filler)
              match tail with
              | [] =>
                  have hdecode : decodeOne lead [b, c] = (replacement, 2) := by
                    unfold decodeOne
                    rw [hwidth]
                    exact (if_pos hb).trans (if_pos hc)
                  rw [hdecode]
                  exact .ended [b, c] (by simp [hwidth]) (.inr hbegins) hdecode
              | d :: tail =>
                  rw [decodeOne_four hlow hhigh, if_pos hb, if_pos hc]
                  split
                  next hd =>
                    refine ⟨by simp, .inl ?_⟩
                    dsimp only
                    rw [encode_four hlow hhigh hb hc hd]
                    rfl
                  next hd =>
                    refine .stopped [b, c] (by simp [hwidth]) (.inr hbegins) fun more => ?_
                    rw [List.cons_append, List.singleton_append, decodeOne_four hlow hhigh,
                      if_pos hb, if_pos hc, if_neg hd]
                    rfl
            · rw [decodeOne_third hlow hhigh hb hc]
              exact .stopped [b] (by simp [hwidth]) (.inr hbegins) fun more =>
                decodeOne_third hlow hhigh hb hc
      · rw [decodeOne_second (.inr hwidth) hb]
        exact .stopped [] (by simp [hwidth]) (.inl rfl) fun more =>
          decodeOne_second (.inr hwidth) hb

theorem decodeOne_piece (lead : UInt8) (rest : List UInt8) :
    Piece lead rest (decodeOne lead rest).1 (decodeOne lead rest).2 := by
  by_cases h1 : lead.toNat < 0x80
  · rw [decodeOne_one h1]
    exact ⟨Nat.zero_le _, .inl (encode_one h1)⟩
  by_cases h2 : 0xC2 ≤ lead.toNat ∧ lead.toNat ≤ 0xDF
  · exact piece_two h2.1 h2.2
  by_cases h3 : 0xE0 ≤ lead.toNat ∧ lead.toNat ≤ 0xEF
  · exact piece_three h3.1 h3.2
  by_cases h4 : 0xF0 ≤ lead.toNat ∧ lead.toNat ≤ 0xF4
  · exact piece_four h4.1 h4.2
  · have hwidth : charWidth lead = 0 := by
      rw [charWidth_eq, if_neg h1, if_neg h2, if_neg h3, if_neg h4]
    have hdecode : ∀ bytes, decodeOne lead bytes = (replacement, 0) := by
      intro bytes
      unfold decodeOne
      rw [hwidth]
      rfl
    rw [hdecode]
    match rest with
    | [] => exact .of_empty (by omega)
    | b :: tail => exact .stopped [] (by simp [hwidth]) (.inl rfl) fun more => hdecode _

/-! ## Whole texts -/

theorem Reads.decodeFrom (fuel : ℕ) :
    ∀ bytes : List UInt8, bytes.length ≤ fuel → Reads bytes (decodeFrom fuel bytes) := by
  induction fuel with
  | zero =>
      intro bytes hlength
      obtain rfl := List.length_eq_zero_iff.mp (Nat.le_zero.mp hlength)
      exact .nil
  | succ fuel ih =>
      intro bytes hlength
      match bytes with
      | [] => exact .nil
      | lead :: rest =>
          obtain ⟨hfits, hread⟩ := decodeOne_piece lead rest
          rw [LossyText.decodeFrom]
          dsimp only
          generalize hused : (decodeOne lead rest).2 = used at hfits hread
          have hdrop : (rest.drop used).length ≤ fuel := by
            rw [List.length_drop]
            simp only [List.length_cons] at hlength
            omega
          have hbytes : lead :: rest = (lead :: rest.take used) ++ rest.drop used := by
            rw [List.cons_append, List.take_append_drop]
          rcases hread with hencode | ⟨hmark, hill⟩
          · rw [hbytes, ← hencode]
            exact .char _ (ih _ hdrop)
          · rw [hmark]
            rw [hbytes] at hill ⊢
            exact .mark hill (ih _ hdrop)

/-- The result of lossy decoding. -/
theorem reads_decode (bytes : List UInt8) : Reads bytes (decode bytes).toList := by
  rw [decode, String.toList_ofList]
  exact .decodeFrom _ bytes (Nat.le_refl _)

theorem IllFormed.length_le {p q bytes : List UInt8} (hp : IllFormed p bytes)
    (hq : IllFormed q bytes) : q.length ≤ p.length := by
  rcases hq.begins with hone | hbegins
  · rw [hone]
    exact List.length_pos_iff.mpr hp.nonempty
  · exact hp.longest q hq.start hbegins

/-- Two encodings that stand at the same place are the same. -/
theorem encode_append_inj {c d : Char} {r r' : List UInt8}
    (h : utf8EncodeChar c ++ r = utf8EncodeChar d ++ r') : c = d ∧ r = r' := by
  obtain ⟨lead, tail, hc, _, hreadC⟩ := decodeOne_utf8EncodeChar c r
  obtain ⟨lead', tail', hd, _, hreadD⟩ := decodeOne_utf8EncodeChar d r'
  have hsame := h
  rw [hc, hd, List.cons_append, List.cons_append, List.cons.injEq] at hsame
  obtain ⟨rfl, hrest⟩ := hsame
  rw [hrest, hreadD] at hreadC
  obtain rfl : d = c := congrArg Prod.fst hreadC
  exact ⟨rfl, List.append_cancel_left h⟩

theorem encode_ne_nil (c : Char) : utf8EncodeChar c ≠ [] := by
  obtain ⟨lead, tail, hencode, _⟩ := decodeOne_utf8EncodeChar c []
  rw [hencode]
  exact List.cons_ne_nil _ _

/-- The relation leaves one text for every bytes. -/
theorem Reads.unique {bytes : List UInt8} {cs ds : List Char} (hcs : Reads bytes cs)
    (hds : Reads bytes ds) : cs = ds := by
  induction hcs generalizing ds with
  | nil =>
      generalize hbytes : ([] : List UInt8) = bytes at hds
      cases hds with
      | nil => rfl
      | char c _ => exact absurd (List.append_eq_nil_iff.mp hbytes.symm).1 (encode_ne_nil c)
      | mark hill _ => exact absurd (List.append_eq_nil_iff.mp hbytes.symm).1 hill.nonempty
  | @char c rest cs _ ih =>
      generalize hbytes : utf8EncodeChar c ++ rest = bytes at hds
      cases hds with
      | nil => exact absurd (List.append_eq_nil_iff.mp hbytes).1 (encode_ne_nil c)
      | char d hrest =>
          obtain ⟨rfl, rfl⟩ := encode_append_inj hbytes
          rw [ih hrest]
      | mark hill _ => exact absurd ⟨rest, hbytes⟩ (hill.unencoded c)
  | @mark piece rest cs hill _ ih =>
      generalize hbytes : piece ++ rest = bytes at hds
      cases hds with
      | nil => exact absurd (List.append_eq_nil_iff.mp hbytes).1 hill.nonempty
      | @char d rest' _ _ => exact absurd ⟨rest', hbytes.symm⟩ (hill.unencoded d)
      | @mark piece' rest' ds hill' hrest =>
          have hlength : piece.length = piece'.length :=
            Nat.le_antisymm (hill'.length_le (hbytes ▸ hill))
              (hill.length_le (hbytes ▸ hill'))
          obtain ⟨rfl, rfl⟩ := List.append_inj hbytes hlength
          rw [ih hrest]

theorem Reads.of_encode (cs : List Char) : Reads (cs.flatMap utf8EncodeChar) cs := by
  induction cs with
  | nil => exact .nil
  | cons c cs ih =>
      rw [List.flatMap_cons]
      exact .char c ih

/-- Without a mark the text encodes the bytes. -/
theorem Reads.encode {bytes : List UInt8} {cs : List Char} (hcs : Reads bytes cs)
    (hnone : replacement ∉ cs) : bytes = cs.flatMap utf8EncodeChar := by
  induction hcs with
  | nil => rfl
  | char c _ ih =>
      rw [List.mem_cons, not_or] at hnone
      rw [List.flatMap_cons, ← ih hnone.2]
  | mark _ _ _ => exact absurd List.mem_cons_self hnone

/-- The bytes of a text. -/
def utf8Bytes (s : String) : List UInt8 := s.toByteArray.data.toList

theorem utf8Bytes_eq (s : String) : utf8Bytes s = s.toList.flatMap utf8EncodeChar := by
  rw [utf8Bytes, ← String.utf8Encode_toList, List.utf8Encode, List.toList_data_toByteArray]

theorem toByteArray_utf8Bytes (s : String) : (utf8Bytes s).toByteArray = s.toByteArray := by
  rw [utf8Bytes_eq, ← String.utf8Encode_toList, List.utf8Encode]

/-- Strict decoding accepts the encodings of texts and nothing else. -/
theorem fromUTF8?_eq_some_iff {bytes : List UInt8} {s : String} :
    String.fromUTF8? bytes.toByteArray = some s ↔ bytes = utf8Bytes s := by
  constructor
  · intro h
    unfold String.fromUTF8? at h
    split at h
    next hvalid =>
      rw [← Option.some.inj h]
      exact List.toList_data_toByteArray.symm
    next => contradiction
  · rintro rfl
    rw [toByteArray_utf8Bytes]
    exact dif_pos s.isValidUTF8

/-- Every text comes back from its encoding. -/
theorem decode_utf8Bytes (s : String) : decode (utf8Bytes s) = s := by
  have hreads := reads_decode (utf8Bytes s)
  rw [utf8Bytes_eq] at hreads ⊢
  exact String.toList_inj.mp (hreads.unique (.of_encode s.toList))

/-- What is no text is marked. -/
theorem replacement_mem_decode {bytes : List UInt8}
    (h : String.fromUTF8? bytes.toByteArray = none) : replacement ∈ (decode bytes).toList := by
  by_contra hnone
  have htext : bytes = utf8Bytes (decode bytes) := by
    rw [utf8Bytes_eq]
    exact (reads_decode bytes).encode hnone
  rw [fromUTF8?_eq_some_iff.mpr htext] at h
  contradiction

theorem zero_mem_utf8EncodeChar {c : Char} (h : 0 ∈ utf8EncodeChar c) : c.val.toNat = 0 := by
  have hvalid := char_valid c
  generalize hv : c.val.toNat = v at hvalid ⊢
  have hzero : ∀ n : ℕ, n < 256 → 0 = UInt8.ofNat n → n = 0 := fun n hn h0 => by
    rw [← ofNat_toNat_of_lt hn, ← h0]
    rfl
  simp only [utf8EncodeChar, hv] at h
  split at h
  next => exact hzero v (by omega) (List.mem_singleton.mp h)
  next =>
    exfalso
    split at h
    next =>
      simp only [List.mem_cons, List.not_mem_nil, or_false] at h
      rcases h with h | h <;> have := hzero _ (by omega) h <;> omega
    next =>
      split at h
      next =>
        simp only [List.mem_cons, List.not_mem_nil, or_false] at h
        rcases h with h | h | h <;> have := hzero _ (by omega) h <;> omega
      next =>
        simp only [List.mem_cons, List.not_mem_nil, or_false] at h
        rcases h with h | h | h | h <;> have := hzero _ (by omega) h <;> omega

/-- The encoding of a text has no zero byte but for a NUL in the text. -/
theorem zero_mem_utf8Bytes {s : String} (h : 0 ∈ utf8Bytes s) : Char.ofNat 0 ∈ s.toList := by
  rw [utf8Bytes_eq] at h
  obtain ⟨c, hc, hzero⟩ := List.mem_flatMap.mp h
  have hval := zero_mem_utf8EncodeChar hzero
  rw [← hval, show Char.ofNat c.val.toNat = c from Char.ofNat_toNat c]
  exact hc

end LossyText
