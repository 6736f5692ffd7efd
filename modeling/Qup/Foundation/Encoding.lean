import Qup.Foundation.Characters

/-!
# The encoding of characters

The words of UTF-8 are the encodings of the Unicode scalar values, so the strings
that `check` accepts are the encodings of texts.
-/

namespace Foundation.Utf8
open Computability

theorem lead_eq (b : UInt8) : lead b =
    if b.toNat < 0x80 then some []
    else if 0xc2 ≤ b.toNat ∧ b.toNat ≤ 0xdf then some [tail]
    else if b.toNat = 0xe0 then some [(0xa0, 0xbf), tail]
    else if b.toNat = 0xed then some [(0x80, 0x9f), tail]
    else if 0xe1 ≤ b.toNat ∧ b.toNat ≤ 0xef then some [tail, tail]
    else if b.toNat = 0xf0 then some [(0x90, 0xbf), tail, tail]
    else if 0xf1 ≤ b.toNat ∧ b.toNat ≤ 0xf3 then some [tail, tail, tail]
    else if b.toNat = 0xf4 then some [(0x80, 0x8f), tail, tail]
    else none := by
  unfold lead
  simp only [UInt8.lt_iff_toNat_lt, UInt8.le_iff_toNat_le, ← UInt8.toNat_inj, UInt8.reduceToNat]

theorem exists_char {v : ℕ} (h : v.isValidChar) : ∃ ch : Char, ch.val.toNat = v := by
  refine ⟨Char.ofNat v, ?_⟩
  rw [Char.ofNat, dif_pos h]
  rfl

theorem ofNat_eq {n : ℕ} {b : UInt8} (h : n = b.toNat) : UInt8.ofNat n = b := by
  rw [h, UInt8.ofNat_toNat]

section
variable {b x y z : UInt8}

theorem encodes_one (hb : b.toNat < 0x80) : ∃ ch, String.utf8EncodeChar ch = [b] := by
  obtain ⟨ch, hch⟩ := @exists_char b.toNat (.inl (by omega))
  refine ⟨ch, ?_⟩
  simp only [String.utf8EncodeChar, hch]
  rw [if_pos (by omega), UInt8.ofNat_toNat]

theorem encodes_two (hb : 0xc2 ≤ b.toNat ∧ b.toNat ≤ 0xdf)
    (hx : 0x80 ≤ x.toNat ∧ x.toNat ≤ 0xbf) : ∃ ch, String.utf8EncodeChar ch = [b, x] := by
  obtain ⟨ch, hch⟩ := @exists_char ((b.toNat - 0xc0) * 0x40 + (x.toNat - 0x80)) (.inl (by omega))
  refine ⟨ch, ?_⟩
  simp only [String.utf8EncodeChar, hch]
  rw [if_neg (by omega), if_pos (by omega), @ofNat_eq _ b (by omega), @ofNat_eq _ x (by omega)]

theorem encodes_three (hb : 0xe0 ≤ b.toNat ∧ b.toNat ≤ 0xef)
    (hx : 0x80 ≤ x.toNat ∧ x.toNat ≤ 0xbf) (hy : 0x80 ≤ y.toNat ∧ y.toNat ≤ 0xbf)
    (hlong : b.toNat = 0xe0 → 0xa0 ≤ x.toNat) (hsurrogate : b.toNat = 0xed → x.toNat ≤ 0x9f) :
    ∃ ch, String.utf8EncodeChar ch = [b, x, y] := by
  have hvalid : ((b.toNat - 0xe0) * 0x1000 + (x.toNat - 0x80) * 0x40 +
      (y.toNat - 0x80)).isValidChar := by
    rcases Nat.lt_or_ge b.toNat 0xee with hlt | hge
    · exact .inl (by omega)
    · exact .inr (by omega)
  obtain ⟨ch, hch⟩ := exists_char hvalid
  refine ⟨ch, ?_⟩
  simp only [String.utf8EncodeChar, hch]
  rw [if_neg (by omega), if_neg (by omega), if_pos (by omega), @ofNat_eq _ b (by omega),
    @ofNat_eq _ x (by omega), @ofNat_eq _ y (by omega)]

theorem encodes_four (hb : 0xf0 ≤ b.toNat ∧ b.toNat ≤ 0xf4)
    (hx : 0x80 ≤ x.toNat ∧ x.toNat ≤ 0xbf) (hy : 0x80 ≤ y.toNat ∧ y.toNat ≤ 0xbf)
    (hz : 0x80 ≤ z.toNat ∧ z.toNat ≤ 0xbf) (hlong : b.toNat = 0xf0 → 0x90 ≤ x.toNat)
    (hlast : b.toNat = 0xf4 → x.toNat ≤ 0x8f) :
    ∃ ch, String.utf8EncodeChar ch = [b, x, y, z] := by
  have hvalid : ((b.toNat - 0xf0) * 0x40000 + (x.toNat - 0x80) * 0x1000 +
      (y.toNat - 0x80) * 0x40 + (z.toNat - 0x80)).isValidChar := .inr (by omega)
  obtain ⟨ch, hch⟩ := exists_char hvalid
  refine ⟨ch, ?_⟩
  simp only [String.utf8EncodeChar, hch]
  rw [if_neg (by omega), if_neg (by omega), if_neg (by omega), @ofNat_eq _ b (by omega),
    @ofNat_eq _ x (by omega), @ofNat_eq _ y (by omega), @ofNat_eq _ z (by omega)]

end

theorem pays_cons {r : UInt8 × UInt8} {q : State} {bs : List UInt8} (h : Pays (r :: q) bs) :
    ∃ x rest, bs = x :: rest ∧ (r.1.toNat ≤ x.toNat ∧ x.toNat ≤ r.2.toNat) ∧ Pays q rest := by
  cases h with
  | cons hx hrest =>
    exact ⟨_, _, rfl, ⟨UInt8.le_iff_toNat_le.mp hx.1, UInt8.le_iff_toNat_le.mp hx.2⟩, hrest⟩

theorem encodes_of_mem {c : List UInt8} (h : c ∈ characters) :
    ∃ ch, String.utf8EncodeChar ch = c := by
  obtain ⟨b, q, bs, rfl, hlead, hpays⟩ := h
  rw [lead_eq] at hlead
  split_ifs at hlead with hb hb he0 hed hb hf0 hb hf4 <;> cases hlead
  · cases hpays
    exact encodes_one hb
  · obtain ⟨x, _, rfl, hx, ⟨⟩⟩ := pays_cons hpays
    exact encodes_two hb hx
  · obtain ⟨x, _, rfl, hx, hpays⟩ := pays_cons hpays
    obtain ⟨y, _, rfl, hy, ⟨⟩⟩ := pays_cons hpays
    have hlow : 0xa0 ≤ x.toNat := hx.1
    exact encodes_three (by omega) ⟨by omega, hx.2⟩ hy (fun _ => hlow) (by omega)
  · obtain ⟨x, _, rfl, hx, hpays⟩ := pays_cons hpays
    obtain ⟨y, _, rfl, hy, ⟨⟩⟩ := pays_cons hpays
    have hhigh : x.toNat ≤ 0x9f := hx.2
    exact encodes_three (by omega) ⟨hx.1, by omega⟩ hy (by omega) fun _ => hhigh
  · obtain ⟨x, _, rfl, hx, hpays⟩ := pays_cons hpays
    obtain ⟨y, _, rfl, hy, ⟨⟩⟩ := pays_cons hpays
    exact encodes_three (by omega) hx hy (by omega) (by omega)
  · obtain ⟨x, _, rfl, hx, hpays⟩ := pays_cons hpays
    obtain ⟨y, _, rfl, hy, hpays⟩ := pays_cons hpays
    obtain ⟨z, _, rfl, hz, ⟨⟩⟩ := pays_cons hpays
    have hlow : 0x90 ≤ x.toNat := hx.1
    exact encodes_four (by omega) ⟨by omega, hx.2⟩ hy hz (fun _ => hlow) (by omega)
  · obtain ⟨x, _, rfl, hx, hpays⟩ := pays_cons hpays
    obtain ⟨y, _, rfl, hy, hpays⟩ := pays_cons hpays
    obtain ⟨z, _, rfl, hz, ⟨⟩⟩ := pays_cons hpays
    exact encodes_four (by omega) hx hy hz (by omega) (by omega)
  · obtain ⟨x, _, rfl, hx, hpays⟩ := pays_cons hpays
    obtain ⟨y, _, rfl, hy, hpays⟩ := pays_cons hpays
    obtain ⟨z, _, rfl, hz, ⟨⟩⟩ := pays_cons hpays
    have hhigh : x.toNat ≤ 0x8f := hx.2
    exact encodes_four (by omega) ⟨hx.1, by omega⟩ hy hz (by omega) fun _ => hhigh

theorem toNat_ofNat {n : ℕ} (h : n < 256) : (UInt8.ofNat n).toNat = n := by
  rw [UInt8.toNat_ofNat', Nat.mod_eq_of_lt h]

theorem pays_ofNat {r : UInt8 × UInt8} {x : ℕ} (hlow : r.1.toNat ≤ x) (hhigh : x ≤ r.2.toNat)
    {q : State} {bs : List UInt8} (hbs : Pays q bs) : Pays (r :: q) (UInt8.ofNat x :: bs) := by
  have hx : (UInt8.ofNat x).toNat = x := toNat_ofNat (Nat.lt_of_le_of_lt hhigh r.2.toNat_lt)
  refine .cons ⟨UInt8.le_iff_toNat_le.mpr ?_, UInt8.le_iff_toNat_le.mpr ?_⟩ hbs
  · rw [hx]
    exact hlow
  · rw [hx]
    exact hhigh

theorem pays_tail {x : ℕ} (hlow : 0x80 ≤ x) (hhigh : x ≤ 0xbf) {q : State} {bs : List UInt8}
    (hbs : Pays q bs) : Pays (tail :: q) (UInt8.ofNat x :: bs) :=
  @pays_ofNat tail x hlow hhigh q bs hbs

theorem mem_encode_three {v : ℕ} (h : v.isValidChar) (hlow : 0x7ff < v) (hhigh : v ≤ 0xffff) :
    [UInt8.ofNat (v / 4096 % 0x10 + 0xe0), UInt8.ofNat (v / 64 % 0x40 + 0x80),
      UInt8.ofNat (v % 0x40 + 0x80)] ∈ characters := by
  have hb : (UInt8.ofNat (v / 4096 % 0x10 + 0xe0)).toNat = v / 4096 + 0xe0 := by
    rw [toNat_ofNat (by omega)]
    omega
  have hlast : Pays [tail] [UInt8.ofNat (v % 0x40 + 0x80)] :=
    pays_tail (by omega) (by omega) .nil
  by_cases he0 : v / 4096 = 0
  · refine ⟨_, [(0xa0, 0xbf), tail], _, rfl, ?_, @pays_ofNat (0xa0, 0xbf) _ ?_ ?_ _ _ hlast⟩
    · rw [lead_eq, hb, if_neg (by omega), if_neg (by omega), if_pos (by omega)]
    · change 0xa0 ≤ _
      omega
    · change _ ≤ 0xbf
      omega
  by_cases hed : v / 4096 = 13
  · have hsurrogate : v < 0xd800 := by
      rcases h with hlt | hgt <;> omega
    refine ⟨_, [(0x80, 0x9f), tail], _, rfl, ?_, @pays_ofNat (0x80, 0x9f) _ ?_ ?_ _ _ hlast⟩
    · rw [lead_eq, hb, if_neg (by omega), if_neg (by omega), if_neg (by omega), if_pos (by omega)]
    · change 0x80 ≤ _
      omega
    · change _ ≤ 0x9f
      omega
  · refine ⟨_, [tail, tail], _, rfl, ?_, pays_tail (by omega) (by omega) hlast⟩
    rw [lead_eq, hb, if_neg (by omega), if_neg (by omega), if_neg (by omega), if_neg (by omega),
      if_pos (by omega)]

theorem mem_encode_four {v : ℕ} (h : v.isValidChar) (hlow : 0xffff < v) :
    [UInt8.ofNat (v / 262144 % 0x08 + 0xf0), UInt8.ofNat (v / 4096 % 0x40 + 0x80),
      UInt8.ofNat (v / 64 % 0x40 + 0x80), UInt8.ofNat (v % 0x40 + 0x80)] ∈ characters := by
  have hhigh : v < 0x110000 := by
    rcases h with hlt | hgt <;> omega
  have hb : (UInt8.ofNat (v / 262144 % 0x08 + 0xf0)).toNat = v / 262144 + 0xf0 := by
    rw [toNat_ofNat (by omega)]
    omega
  have hlast : Pays [tail, tail]
      [UInt8.ofNat (v / 64 % 0x40 + 0x80), UInt8.ofNat (v % 0x40 + 0x80)] :=
    pays_tail (by omega) (by omega) (pays_tail (by omega) (by omega) .nil)
  by_cases hf0 : v / 262144 = 0
  · refine ⟨_, [(0x90, 0xbf), tail, tail], _, rfl, ?_, @pays_ofNat (0x90, 0xbf) _ ?_ ?_ _ _ hlast⟩
    · rw [lead_eq, hb, if_neg (by omega), if_neg (by omega), if_neg (by omega), if_neg (by omega),
        if_neg (by omega), if_pos (by omega)]
    · change 0x90 ≤ _
      omega
    · change _ ≤ 0xbf
      omega
  by_cases hf4 : v / 262144 = 4
  · refine ⟨_, [(0x80, 0x8f), tail, tail], _, rfl, ?_, @pays_ofNat (0x80, 0x8f) _ ?_ ?_ _ _ hlast⟩
    · rw [lead_eq, hb, if_neg (by omega), if_neg (by omega), if_neg (by omega), if_neg (by omega),
        if_neg (by omega), if_neg (by omega), if_neg (by omega), if_pos (by omega)]
    · change 0x80 ≤ _
      omega
    · change _ ≤ 0x8f
      omega
  · refine ⟨_, [tail, tail, tail], _, rfl, ?_, pays_tail (by omega) (by omega) hlast⟩
    rw [lead_eq, hb, if_neg (by omega), if_neg (by omega), if_neg (by omega), if_neg (by omega),
      if_neg (by omega), if_neg (by omega), if_pos (by omega)]

theorem mem_encode (ch : Char) : String.utf8EncodeChar ch ∈ characters := by
  have hvalid : ch.val.toNat.isValidChar := ch.valid
  unfold String.utf8EncodeChar
  dsimp only
  generalize ch.val.toNat = v at hvalid
  split_ifs with hone htwo hthree
  · refine ⟨_, [], _, rfl, ?_, .nil⟩
    rw [lead_eq, toNat_ofNat (by omega), if_pos (by omega)]
  · refine ⟨_, [tail], _, rfl, ?_, pays_tail (by omega) (by omega) .nil⟩
    rw [lead_eq, toNat_ofNat (by omega), if_neg (by omega), if_pos (by omega)]
  · exact mem_encode_three hvalid (by omega) hthree
  · exact mem_encode_four hvalid (by omega)

theorem valid_iff_encode (bs : List UInt8) :
    Valid bs ↔ ∃ text : List Char, bs = text.flatMap String.utf8EncodeChar := by
  rw [valid_iff_mem]
  constructor
  · intro h
    obtain ⟨cs, rfl, hcs⟩ := Language.mem_kstar.mp h
    clear h
    induction cs with
    | nil => exact ⟨[], rfl⟩
    | cons c cs ih =>
      obtain ⟨ch, hch⟩ := encodes_of_mem (hcs c List.mem_cons_self)
      obtain ⟨text, htext⟩ := ih fun d hd => hcs d (List.mem_cons_of_mem c hd)
      exact ⟨ch :: text, by rw [List.flatten_cons, htext, List.flatMap_cons, hch]⟩
  · rintro ⟨text, rfl⟩
    refine Language.join_mem_kstar fun c hc => ?_
    obtain ⟨ch, -, rfl⟩ := List.mem_map.mp hc
    exact mem_encode ch

end Foundation.Utf8
