import CanvasLift.Text.Utf8

namespace CanvasLift.Utf8

theorem toNat_ofNat_of_lt {n : Nat} (h : n < 256) : (UInt8.ofNat n).toNat = n :=
  Nat.mod_eq_of_lt h

theorem decodeFrom_append (position : Nat) (done : Text) (bytes rest : Bytes) :
    decodeFrom position bytes.length done (bytes ++ rest) =
      decodeFrom (position + bytes.length) 0 done rest := by
  induction bytes generalizing position with
  | nil => rfl
  | cons b bytes ih =>
    rw [List.length_cons, List.cons_append, decodeFrom, ih]
    congr 1
    omega

theorem tail_cons_of_mem {value read low high count : Nat} {b : UInt8} {rest : Bytes}
    (hlow : low ≤ b.toNat) (hhigh : b.toNat ≤ high) :
    tail value read low high (count + 1) (b :: rest) =
      tail (value * 64 + b.toNat % 64) (read + 1) 0x80 0xBF count rest := by
  rw [tail, if_pos ⟨hlow, hhigh⟩]

theorem head_of_lead {b : UInt8} {rest : Bytes} {count low high value : Nat}
    (hlead : lead b = some (count + 1, low, high))
    (htail : tail (b.toNat % (1 <<< (6 - (count + 1)))) 0 low high (count + 1) rest = .ok value) :
    head b rest = .ok (Char.ofNat value, count + 1) := by
  simp only [head, hlead, htail]

theorem toNat_lt_or (c : Char) : c.toNat < 0xD800 ∨ 0xDFFF < c.toNat ∧ c.toNat < 0x110000 :=
  c.valid

theorem head_one {v : Nat} (hv : v ≤ 0x7F) (rest : Bytes) :
    head (UInt8.ofNat v) rest = .ok (Char.ofNat v, 0) := by
  have hb : (UInt8.ofNat v).toNat = v := toNat_ofNat_of_lt (by omega)
  have hlead : lead (UInt8.ofNat v) = some (0, 0, 0) := by
    rw [lead, hb, if_pos (by omega)]
  simp only [head, hlead, hb]

theorem head_two {v : Nat} (hlow : 0x7F < v) (hhigh : v ≤ 0x7FF) (rest : Bytes) :
    head (UInt8.ofNat (v / 64 % 32 + 192)) (UInt8.ofNat (v % 64 + 128) :: rest) =
      .ok (Char.ofNat v, 1) := by
  have hb : (UInt8.ofNat (v / 64 % 32 + 192)).toNat = v / 64 + 192 := by
    rw [toNat_ofNat_of_lt (by omega)]
    omega
  have hd : (UInt8.ofNat (v % 64 + 128)).toNat = v % 64 + 128 := toNat_ofNat_of_lt (by omega)
  have hlead : lead (UInt8.ofNat (v / 64 % 32 + 192)) = some (1, 0x80, 0xBF) := by
    simp only [lead, hb]
    rw [if_neg (by omega), if_neg (by omega), if_pos (by omega)]
  apply head_of_lead hlead
  have hmask : 1 <<< (6 - (0 + 1)) = 32 := rfl
  rw [tail_cons_of_mem (by omega) (by omega), tail, hb, hd, hmask]
  congr 1
  omega

theorem head_three {v : Nat} (hlow : 0x7FF < v) (hhigh : v ≤ 0xFFFF)
    (hv : v < 0xD800 ∨ 0xDFFF < v ∧ v < 0x110000) (rest : Bytes) :
    head (UInt8.ofNat (v / 4096 % 16 + 224))
        (UInt8.ofNat (v / 64 % 64 + 128) :: UInt8.ofNat (v % 64 + 128) :: rest) =
      .ok (Char.ofNat v, 2) := by
  have hb : (UInt8.ofNat (v / 4096 % 16 + 224)).toNat = v / 4096 + 224 := by
    rw [toNat_ofNat_of_lt (by omega)]
    omega
  have hd : (UInt8.ofNat (v / 64 % 64 + 128)).toNat = v / 64 % 64 + 128 :=
    toNat_ofNat_of_lt (by omega)
  have he : (UInt8.ofNat (v % 64 + 128)).toNat = v % 64 + 128 := toNat_ofNat_of_lt (by omega)
  obtain ⟨low, high, hlead, hin⟩ : ∃ low high,
      lead (UInt8.ofNat (v / 4096 % 16 + 224)) = some (2, low, high) ∧
        low ≤ v / 64 % 64 + 128 ∧ v / 64 % 64 + 128 ≤ high := by
    simp only [lead, hb]
    rw [if_neg (by omega), if_neg (by omega), if_neg (by omega)]
    split
    · exact ⟨_, _, rfl, by omega, by omega⟩
    · split
      · exact ⟨_, _, rfl, by omega, by omega⟩
      · rw [if_pos (by omega)]
        exact ⟨_, _, rfl, by omega, by omega⟩
  apply head_of_lead hlead
  have hmask : 1 <<< (6 - (1 + 1)) = 16 := rfl
  rw [tail_cons_of_mem (by omega) (by omega), tail_cons_of_mem (by omega) (by omega), tail, hb, hd,
    he, hmask]
  congr 1
  omega

theorem head_four {v : Nat} (hlow : 0xFFFF < v) (hhigh : v < 0x110000) (rest : Bytes) :
    head (UInt8.ofNat (v / 262144 % 8 + 240))
        (UInt8.ofNat (v / 4096 % 64 + 128) :: UInt8.ofNat (v / 64 % 64 + 128) ::
          UInt8.ofNat (v % 64 + 128) :: rest) =
      .ok (Char.ofNat v, 3) := by
  have hb : (UInt8.ofNat (v / 262144 % 8 + 240)).toNat = v / 262144 + 240 := by
    rw [toNat_ofNat_of_lt (by omega)]
    omega
  have hc : (UInt8.ofNat (v / 4096 % 64 + 128)).toNat = v / 4096 % 64 + 128 :=
    toNat_ofNat_of_lt (by omega)
  have hd : (UInt8.ofNat (v / 64 % 64 + 128)).toNat = v / 64 % 64 + 128 :=
    toNat_ofNat_of_lt (by omega)
  have he : (UInt8.ofNat (v % 64 + 128)).toNat = v % 64 + 128 := toNat_ofNat_of_lt (by omega)
  obtain ⟨low, high, hlead, hin⟩ : ∃ low high,
      lead (UInt8.ofNat (v / 262144 % 8 + 240)) = some (3, low, high) ∧
        low ≤ v / 4096 % 64 + 128 ∧ v / 4096 % 64 + 128 ≤ high := by
    simp only [lead, hb]
    rw [if_neg (by omega), if_neg (by omega), if_neg (by omega), if_neg (by omega),
      if_neg (by omega), if_neg (by omega)]
    split
    · exact ⟨_, _, rfl, by omega, by omega⟩
    · split
      · exact ⟨_, _, rfl, by omega, by omega⟩
      · rw [if_pos (by omega)]
        exact ⟨_, _, rfl, by omega, by omega⟩
  have hmask : 1 <<< (6 - (2 + 1)) = 8 := rfl
  apply head_of_lead hlead
  rw [tail_cons_of_mem (by omega) (by omega), tail_cons_of_mem (by omega) (by omega),
    tail_cons_of_mem (by omega) (by omega), tail, hb, hc, hd, he, hmask]
  congr 1
  omega

theorem exists_encodeChar (c : Char) (rest : Bytes) :
    ∃ b more, String.utf8EncodeChar c = b :: more ∧
      head b (more ++ rest) = .ok (c, more.length) := by
  have hv := toNat_lt_or c
  have hc : Char.ofNat c.val.toNat = c := Char.ofNat_toNat c
  simp only [String.utf8EncodeChar]
  split
  · next h1 => exact ⟨_, [], rfl, by rw [List.nil_append, head_one h1, hc]; rfl⟩
  · next h1 =>
    split
    · next h2 =>
      refine ⟨_, _, rfl, ?_⟩
      rw [List.singleton_append, head_two (by omega) h2, hc]
      rfl
    · next h2 =>
      split
      · next h3 =>
        refine ⟨_, _, rfl, ?_⟩
        rw [List.cons_append, List.singleton_append, head_three (by omega) h3 hv, hc]
        rfl
      · next h3 =>
        have hlt : c.val.toNat < 0x110000 := by
          change c.toNat < _
          omega
        refine ⟨_, _, rfl, ?_⟩
        rw [List.cons_append, List.cons_append, List.singleton_append,
          head_four (by omega) hlt, hc]
        rfl

theorem decodeFrom_encode (position : Nat) (done t : Text) :
    decodeFrom position 0 done (encode t) = .ok (done.reverse ++ t) := by
  induction t generalizing position done with
  | nil => rw [List.append_nil]; rfl
  | cons c t ih =>
    obtain ⟨b, more, hbytes, hhead⟩ := exists_encodeChar c (encode t)
    have hencode : encode (c :: t) = b :: (more ++ encode t) := by
      rw [encode, List.flatMap_cons, hbytes, List.cons_append]
      rfl
    rw [hencode, decodeFrom, hhead]
    simp only [decodeFrom_append, ih, List.reverse_cons, List.append_assoc, List.singleton_append]

theorem decode_encode (t : Text) : decode (encode t) = .ok t := decodeFrom_encode 0 [] t

theorem encode_injective {t u : Text} (h : encode t = encode u) : t = u := by
  have hd := congrArg decode h
  rw [decode_encode, decode_encode] at hd
  exact Except.ok.inj hd

theorem cases_of_lead {b : UInt8} {count low high : Nat} (h : lead b = some (count, low, high)) :
    (count = 0 ∧ b.toNat ≤ 0x7F) ∨
    (count = 1 ∧ 0xC2 ≤ b.toNat ∧ b.toNat ≤ 0xDF ∧ 0x80 ≤ low ∧ high ≤ 0xBF) ∨
    (count = 2 ∧ 0xE0 ≤ b.toNat ∧ b.toNat ≤ 0xEF ∧ 0x80 ≤ low ∧ high ≤ 0xBF ∧
      (b.toNat = 0xE0 → 0xA0 ≤ low) ∧ (b.toNat = 0xED → high ≤ 0x9F)) ∨
    (count = 3 ∧ 0xF0 ≤ b.toNat ∧ b.toNat ≤ 0xF4 ∧ 0x80 ≤ low ∧ high ≤ 0xBF ∧
      (b.toNat = 0xF0 → 0x90 ≤ low) ∧ (b.toNat = 0xF4 → high ≤ 0x8F)) := by
  simp only [lead] at h
  repeat' split at h
  all_goals cases h <;> omega

theorem tail_eq_ok {value read low high count v : Nat} {bytes : Bytes}
    (h : tail value read low high (count + 1) bytes = .ok v) :
    ∃ b rest, bytes = b :: rest ∧ low ≤ b.toNat ∧ b.toNat ≤ high ∧
      tail (value * 64 + b.toNat % 64) (read + 1) 0x80 0xBF count rest = .ok v := by
  cases bytes with
  | nil => cases h
  | cons b rest =>
    rw [tail] at h
    split at h
    · next hin => exact ⟨b, rest, rfl, hin.1, hin.2, h⟩
    · cases h

theorem ofNat_eq_of_toNat {n : Nat} {b : UInt8} (h : n = b.toNat) : UInt8.ofNat n = b := by
  rw [h]
  exact UInt8.ofNat_toNat

theorem val_ofNat {v : Nat} (h : v < 0xD800 ∨ 0xDFFF < v ∧ v < 0x110000) :
    (Char.ofNat v).val.toNat = v := by
  have hv : v.isValidChar := h
  rw [Char.ofNat, dif_pos hv]
  rfl

theorem encodeChar_of_head {b : UInt8} {rest : Bytes} {c : Char} {count : Nat}
    (h : head b rest = .ok (c, count)) :
    ∃ more rest', rest = more ++ rest' ∧ more.length = count ∧
      String.utf8EncodeChar c = b :: more := by
  rw [head] at h
  split at h
  · cases h
  · next hlead =>
    obtain ⟨rfl, rfl⟩ := Prod.mk.inj (Except.ok.inj h)
    obtain ⟨-, hb⟩ | ⟨h0, -⟩ | ⟨h0, -⟩ | ⟨h0, -⟩ := cases_of_lead hlead
    · refine ⟨[], rest, rfl, rfl, ?_⟩
      simp only [String.utf8EncodeChar]
      rw [val_ofNat (by omega), if_pos hb, ofNat_eq_of_toNat rfl]
    all_goals cases h0
  · next n low high hne hlead =>
    dsimp only at h
    split at h
    · next value htail =>
      obtain ⟨rfl, rfl⟩ := Prod.mk.inj (Except.ok.inj h)
      obtain ⟨rfl, -⟩ | ⟨rfl, hb⟩ | ⟨rfl, hb⟩ | ⟨rfl, hb⟩ := cases_of_lead hlead
      · exact absurd rfl hne
      · have hmask : 1 <<< (6 - 1) = 32 := rfl
        obtain ⟨d, rest, rfl, hdlow, hdhigh, htail⟩ := tail_eq_ok htail
        rw [hmask] at htail
        obtain rfl := Except.ok.inj htail
        refine ⟨[d], rest, rfl, rfl, ?_⟩
        simp only [String.utf8EncodeChar]
        rw [val_ofNat (by omega), if_neg (by omega), if_pos (by omega)]
        rw [ofNat_eq_of_toNat (b := b) (by omega), ofNat_eq_of_toNat (b := d) (by omega)]
      · have hmask : 1 <<< (6 - 2) = 16 := rfl
        obtain ⟨d, rest, rfl, hdlow, hdhigh, htail⟩ := tail_eq_ok htail
        obtain ⟨e, rest, rfl, helow, hehigh, htail⟩ := tail_eq_ok htail
        rw [hmask] at htail
        obtain rfl := Except.ok.inj htail
        refine ⟨[d, e], rest, rfl, rfl, ?_⟩
        simp only [String.utf8EncodeChar]
        rw [val_ofNat (by omega), if_neg (by omega), if_neg (by omega), if_pos (by omega),
          ofNat_eq_of_toNat (b := b) (by omega), ofNat_eq_of_toNat (b := d) (by omega),
          ofNat_eq_of_toNat (b := e) (by omega)]
      · have hmask : 1 <<< (6 - 3) = 8 := rfl
        obtain ⟨d, rest, rfl, hdlow, hdhigh, htail⟩ := tail_eq_ok htail
        obtain ⟨e, rest, rfl, helow, hehigh, htail⟩ := tail_eq_ok htail
        obtain ⟨f, rest, rfl, hflow, hfhigh, htail⟩ := tail_eq_ok htail
        rw [hmask] at htail
        obtain rfl := Except.ok.inj htail
        refine ⟨[d, e, f], rest, rfl, rfl, ?_⟩
        simp only [String.utf8EncodeChar]
        rw [val_ofNat (by omega), if_neg (by omega), if_neg (by omega), if_neg (by omega),
          ofNat_eq_of_toNat (b := b) (by omega), ofNat_eq_of_toNat (b := d) (by omega),
          ofNat_eq_of_toNat (b := e) (by omega), ofNat_eq_of_toNat (b := f) (by omega)]
    · cases h

theorem encode_of_decodeFrom {position : Nat} {done t : Text} {bytes : Bytes}
    (h : decodeFrom position 0 done bytes = .ok t) :
    ∃ more, t = done.reverse ++ more ∧ encode more = bytes := by
  induction hn : bytes.length using Nat.strongRecOn generalizing position done bytes with
  | ind n ih =>
    cases bytes with
    | nil =>
      obtain rfl := Except.ok.inj h
      exact ⟨[], (List.append_nil _).symm, rfl⟩
    | cons b rest =>
      rw [decodeFrom] at h
      split at h
      · next c count hhead =>
        obtain ⟨own, rest', rfl, rfl, hc⟩ := encodeChar_of_head hhead
        rw [decodeFrom_append] at h
        have hlt : rest'.length < n := by
          rw [← hn, List.length_cons, List.length_append]
          omega
        obtain ⟨more, rfl, rfl⟩ := ih _ hlt h rfl
        refine ⟨c :: more, by rw [List.reverse_cons, List.append_assoc]; rfl, ?_⟩
        rw [encode, List.flatMap_cons, hc]
        rfl
      · cases h

theorem encode_of_decode {t : Text} {bytes : Bytes} (h : decode bytes = .ok t) :
    encode t = bytes := by
  obtain ⟨more, rfl, rfl⟩ := encode_of_decodeFrom h
  rfl

theorem ne_encode_of_decode {bytes : Bytes} {fault : Fault} (h : decode bytes = .error fault)
    (t : Text) : bytes ≠ encode t := by
  rintro rfl
  rw [decode_encode] at h
  cases h

end CanvasLift.Utf8
