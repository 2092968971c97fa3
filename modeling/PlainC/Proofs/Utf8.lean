import PlainC.Text.Utf8
import Mathlib.Data.List.Forall2

/-!
# Reading what was written

The bytes of a text are read back as that text. The first byte of a character tells how many follow and
which bounds they keep, and the bits of all of them make up its code again.
-/

namespace PlainC

namespace Text

theorem toNat_ofNat_byte {n : Nat} (hn : n < 0x100) : (UInt8.ofNat n).toNat = n :=
  UInt8.toNat_ofNat_of_lt' hn

/-- Bytes that keep all the bounds are taken, whatever follows them. -/
theorem following_append {bounds : List (Nat × Nat)} {more : List Nat}
    (hbounds : List.Forall₂ (fun bound byte => bound.1 ≤ byte ∧ byte ≤ bound.2) bounds more)
    (hbytes : ∀ byte ∈ more, byte < 0x100) (rest : Bytes) :
    following bounds (more.map UInt8.ofNat ++ rest) = more.map UInt8.ofNat := by
  induction hbounds with
  | nil => rfl
  | @cons bound byte bounds more hbyte _ ih =>
      have hrest := ih fun other hother => hbytes other (List.mem_cons_of_mem _ hother)
      obtain ⟨low, high⟩ := bound
      have hnat := toNat_ofNat_byte (hbytes byte List.mem_cons_self)
      rw [List.map_cons, List.cons_append, following, hnat, if_pos hbyte, hrest]

theorem decodeFrom_append (skipped rest : Bytes) :
    decodeFrom skipped.length (skipped ++ rest) = decodeFrom 0 rest := by
  induction skipped with
  | nil => rfl
  | cons byte skipped ih => exact ih

/-- A character of several bytes is read back if its first byte announces the others. -/
theorem decodeFrom_of_lead {first bits : Nat} {bounds : List (Nat × Nat)} {more : List Nat}
    (hfirst : 0x80 ≤ first ∧ first < 0x100) (hlead : lead? first = some (bits, bounds))
    (hbounds : List.Forall₂ (fun bound byte => bound.1 ≤ byte ∧ byte ≤ bound.2) bounds more)
    (hbytes : ∀ byte ∈ more, byte < 0x100) (rest : Bytes) :
    decodeFrom 0 (UInt8.ofNat first :: (more.map UInt8.ofNat ++ rest)) =
      Char.ofNat (more.foldl (fun code byte => code * 0x40 + (byte - 0x80)) bits) ::
        decodeFrom 0 rest := by
  have hnat := toNat_ofNat_byte hfirst.2
  have hfold : (more.map UInt8.ofNat).foldl (fun code b => code * 0x40 + (b.toNat - 0x80)) bits =
      more.foldl (fun code byte => code * 0x40 + (byte - 0x80)) bits := by
    clear hbounds hlead
    induction more generalizing bits with
    | nil => rfl
    | cons byte more ih =>
        have hbyte := toNat_ofNat_byte (hbytes byte List.mem_cons_self)
        rw [List.map_cons, List.foldl_cons, List.foldl_cons, hbyte]
        exact ih fun other hother => hbytes other (List.mem_cons_of_mem _ hother)
  have hlength : (more.map UInt8.ofNat).length = bounds.length := by
    rw [List.length_map, hbounds.length_eq]
  have hone : decodeOne (UInt8.ofNat first) (more.map UInt8.ofNat ++ rest) =
      (Char.ofNat (more.foldl (fun code byte => code * 0x40 + (byte - 0x80)) bits),
        (more.map UInt8.ofNat).length) := by
    rw [decodeOne, hnat, if_neg (by omega), hlead]
    simp only [following_append hbounds hbytes, if_pos hlength, hfold]
  rw [decodeFrom, hone]
  simp only [decodeFrom_append]

theorem lead?_three {n : Nat} (hlow : 0x800 ≤ n) (hhigh : n < 0x10000)
    (hvalid : n < 0xD800 ∨ 0xDFFF < n) :
    ∃ bounds, lead? (0xE0 + n / 0x1000) = some (n / 0x1000, bounds) ∧
      List.Forall₂ (fun bound byte => bound.1 ≤ byte ∧ byte ≤ bound.2) bounds
        [0x80 + n / 0x40 % 0x40, 0x80 + n % 0x40] := by
  by_cases hfirst : n / 0x1000 = 0
  · refine ⟨[(0xA0, 0xBF), (0x80, 0xBF)], by simp [lead?, hfirst], ?_⟩
    simp only [List.forall₂_cons, List.Forall₂.nil, and_true]
    omega
  by_cases hlast : n / 0x1000 = 0xD
  · refine ⟨[(0x80, 0x9F), (0x80, 0xBF)], by simp [lead?, hlast], ?_⟩
    simp only [List.forall₂_cons, List.Forall₂.nil, and_true]
    omega
  · refine ⟨[(0x80, 0xBF), (0x80, 0xBF)], ?_, ?_⟩
    · have hrange : 0xE1 ≤ 0xE0 + n / 0x1000 ∧ 0xE0 + n / 0x1000 ≤ 0xEF := by omega
      rw [lead?, if_neg (by omega), if_neg (by omega), if_neg (by omega), if_pos hrange]
      simp
    · simp only [List.forall₂_cons, List.Forall₂.nil, and_true]
      omega

theorem lead?_four {n : Nat} (hlow : 0x10000 ≤ n) (hhigh : n < 0x110000) :
    ∃ bounds, lead? (0xF0 + n / 0x40000) = some (n / 0x40000, bounds) ∧
      List.Forall₂ (fun bound byte => bound.1 ≤ byte ∧ byte ≤ bound.2) bounds
        [0x80 + n / 0x1000 % 0x40, 0x80 + n / 0x40 % 0x40, 0x80 + n % 0x40] := by
  by_cases hfirst : n / 0x40000 = 0
  · refine ⟨[(0x90, 0xBF), (0x80, 0xBF), (0x80, 0xBF)], by simp [lead?, hfirst], ?_⟩
    simp only [List.forall₂_cons, List.Forall₂.nil, and_true]
    omega
  by_cases hlast : n / 0x40000 = 4
  · refine ⟨[(0x80, 0x8F), (0x80, 0xBF), (0x80, 0xBF)], by simp [lead?, hlast], ?_⟩
    simp only [List.forall₂_cons, List.Forall₂.nil, and_true]
    omega
  · refine ⟨[(0x80, 0xBF), (0x80, 0xBF), (0x80, 0xBF)], ?_, ?_⟩
    · have hrange : 0xF1 ≤ 0xF0 + n / 0x40000 ∧ 0xF0 + n / 0x40000 ≤ 0xF3 := by omega
      rw [lead?, if_neg (by omega), if_neg (by omega), if_neg (by omega), if_neg (by omega),
        if_neg (by omega), if_neg (by omega), if_pos hrange]
      simp
    · simp only [List.forall₂_cons, List.Forall₂.nil, and_true]
      omega

theorem decodeFrom_charBytes (c : Char) (rest : Bytes) :
    decodeFrom 0 (charBytes c ++ rest) = c :: decodeFrom 0 rest := by
  have hvalid : c.toNat < 0xD800 ∨ 0xDFFF < c.toNat ∧ c.toNat < 0x110000 := c.valid
  have hchar : Char.ofNat c.toNat = c := Char.ofNat_toNat c
  rw [charBytes]
  by_cases hone : c.toNat < 0x80
  · have hnat := toNat_ofNat_byte (n := c.toNat) (by omega)
    simp only [if_pos hone, List.map_cons, List.map_nil, List.cons_append, List.nil_append,
      decodeFrom, decodeOne, hnat, hchar]
  by_cases htwo : c.toNat < 0x800
  · have hlead : lead? (0xC0 + c.toNat / 0x40) = some (c.toNat / 0x40, [(0x80, 0xBF)]) := by
      rw [lead?, if_pos (by omega)]
      simp
    have hbounds : List.Forall₂ (fun bound byte => bound.1 ≤ byte ∧ byte ≤ bound.2) [(0x80, 0xBF)]
        [0x80 + c.toNat % 0x40] := by
      simp only [List.forall₂_cons, List.Forall₂.nil, and_true]
      omega
    have hdecode := decodeFrom_of_lead (by omega) hlead hbounds
      (by simp only [List.mem_singleton]; omega) rest
    simp only [if_neg hone, if_pos htwo]
    refine hdecode.trans ?_
    rw [List.foldl_cons, List.foldl_nil,
      show c.toNat / 0x40 * 0x40 + (0x80 + c.toNat % 0x40 - 0x80) = c.toNat by omega, hchar]
  by_cases hthree : c.toNat < 0x10000
  · obtain ⟨bounds, hlead, hbounds⟩ := lead?_three (Nat.not_lt.mp htwo) hthree (by omega)
    have hdecode := decodeFrom_of_lead (by omega) hlead hbounds
      (by simp only [List.mem_cons, List.not_mem_nil, or_false]; omega) rest
    simp only [if_neg hone, if_neg htwo, if_pos hthree]
    refine hdecode.trans ?_
    rw [List.foldl_cons, List.foldl_cons, List.foldl_nil,
      show (c.toNat / 0x1000 * 0x40 + (0x80 + c.toNat / 0x40 % 0x40 - 0x80)) * 0x40 +
        (0x80 + c.toNat % 0x40 - 0x80) = c.toNat by omega, hchar]
  · obtain ⟨bounds, hlead, hbounds⟩ := lead?_four (Nat.not_lt.mp hthree) (by omega)
    have hdecode := decodeFrom_of_lead (by omega) hlead hbounds
      (by simp only [List.mem_cons, List.not_mem_nil, or_false]; omega) rest
    simp only [if_neg hone, if_neg htwo, if_neg hthree]
    refine hdecode.trans ?_
    rw [List.foldl_cons, List.foldl_cons, List.foldl_cons, List.foldl_nil,
      show ((c.toNat / 0x40000 * 0x40 + (0x80 + c.toNat / 0x1000 % 0x40 - 0x80)) * 0x40 +
        (0x80 + c.toNat / 0x40 % 0x40 - 0x80)) * 0x40 + (0x80 + c.toNat % 0x40 - 0x80) =
        c.toNat by omega, hchar]

theorem ofBytes_toBytes (text : Text) : ofBytes (toBytes text) = text := by
  induction text with
  | nil => rfl
  | cons c text ih =>
      rw [ofBytes] at ih ⊢
      rw [toBytes, List.flatMap_cons, decodeFrom_charBytes]
      exact congrArg (c :: ·) ih

/-- A text is read back from its bytes. -/
theorem ofBytes?_toBytes (text : Text) : ofBytes? (toBytes text) = some text := by
  simp [ofBytes?, ofBytes_toBytes]

theorem ofBytes?_eq_some_iff {bytes : Bytes} {text : Text} :
    ofBytes? bytes = some text ↔ bytes = toBytes text := by
  constructor
  · intro h
    obtain ⟨hbytes, htext⟩ := Option.ite_none_right_eq_some.mp h
    rw [← Option.some.inj htext, hbytes]
  · rintro rfl
    exact ofBytes?_toBytes text

/-! ### Beginnings of bytes

No character is written with the beginning of another one, so bytes that begin as those of a text do were
written with the characters of that text, up to the one in which they end. -/

theorem length_charBytes (c : Char) : (charBytes c).length = c.utf8Size := by
  have hval : c.toNat = c.val.toNat := rfl
  simp only [charBytes, Char.utf8Size, UInt32.le_iff_toNat_le, List.length_map]
  split_ifs <;> simp_all <;> omega

theorem length_toBytes (text : Text) : (toBytes text).length = byteLength text := by
  induction text with
  | nil => rfl
  | cons c text ih =>
      rw [toBytes, List.flatMap_cons, List.length_append, length_charBytes, byteLength]
      exact congrArg (c.utf8Size + ·) ih

theorem toBytes_cons (c : Char) (text : Text) : toBytes (c :: text) = charBytes c ++ toBytes text :=
  rfl

theorem toBytes_append (front rest : Text) : toBytes (front ++ rest) = toBytes front ++ toBytes rest :=
  List.flatMap_append

theorem charBytes_append_inj {c d : Char} {more other : Bytes}
    (h : charBytes c ++ more = charBytes d ++ other) : c = d ∧ more = other := by
  have hdecode := congrArg (decodeFrom 0) h
  rw [decodeFrom_charBytes, decodeFrom_charBytes, List.cons.injEq] at hdecode
  obtain ⟨rfl, -⟩ := hdecode
  exact ⟨rfl, List.append_cancel_left h⟩

/-- The first byte tells an ASCII character from any other. -/
theorem exists_charBytes_eq_cons (c : Char) :
    ∃ byte more, charBytes c = byte :: more ∧
      (byte.toNat = c.toNat ∧ c.toNat < 0x80 ∨ 0x80 ≤ byte.toNat ∧ 0x80 ≤ c.toNat) := by
  have hvalid : c.toNat < 0xD800 ∨ 0xDFFF < c.toNat ∧ c.toNat < 0x110000 := c.valid
  rw [charBytes]
  by_cases hone : c.toNat < 0x80
  · simp only [if_pos hone, List.map_cons]
    refine ⟨_, _, rfl, .inl ⟨?_, hone⟩⟩
    rw [toNat_ofNat_byte (by omega)]
  have hlow : 0x80 ≤ c.toNat := Nat.not_lt.mp hone
  by_cases htwo : c.toNat < 0x800
  · simp only [if_neg hone, if_pos htwo, List.map_cons]
    refine ⟨_, _, rfl, .inr ⟨?_, hlow⟩⟩
    rw [toNat_ofNat_byte (by omega)]
    omega
  by_cases hthree : c.toNat < 0x10000
  · simp only [if_neg hone, if_neg htwo, if_pos hthree, List.map_cons]
    refine ⟨_, _, rfl, .inr ⟨?_, hlow⟩⟩
    rw [toNat_ofNat_byte (by omega)]
    omega
  · simp only [if_neg hone, if_neg htwo, if_neg hthree, List.map_cons]
    refine ⟨_, _, rfl, .inr ⟨?_, hlow⟩⟩
    rw [toNat_ofNat_byte (by omega)]
    omega

/-- Bytes that go on behind those of a text belong to a text that goes on with a character, of which they
have the first byte. -/
theorem exists_of_toBytes_append {front text : Text} {byte : UInt8} {more : Bytes}
    (h : toBytes front ++ byte :: more <+: toBytes text) :
    ∃ c rest others, text = front ++ c :: rest ∧ charBytes c = byte :: others := by
  induction front generalizing text with
  | nil =>
      cases text with
      | nil => simp [toBytes] at h
      | cons c rest =>
          obtain ⟨first, others, hbytes, -⟩ := exists_charBytes_eq_cons c
          rw [toBytes_cons, hbytes] at h
          obtain ⟨rfl, -⟩ := List.cons_prefix_cons.mp h
          exact ⟨c, rest, others, rfl, hbytes⟩
  | cons d front ih =>
      cases text with
      | nil =>
          obtain ⟨first, others, hbytes, -⟩ := exists_charBytes_eq_cons d
          rw [toBytes_cons, hbytes] at h
          simp [toBytes] at h
      | cons c rest =>
          obtain ⟨behind, hbehind⟩ := h
          rw [toBytes_cons, toBytes_cons, List.append_assoc, List.append_assoc] at hbehind
          obtain ⟨rfl, hrest⟩ := charBytes_append_inj hbehind
          rw [← List.append_assoc] at hrest
          obtain ⟨c, rest, others, rfl, hbytes⟩ := ih ⟨behind, hrest⟩
          exact ⟨c, rest, others, rfl, hbytes⟩

end Text

end PlainC
