import ModalEditor.Proofs.Text.Character
import ModalEditor.Text.Utf8

/-!
# Reading what was written

Texts and bytes both write code points: a text in one code unit or two, bytes in one byte up to
four. The code points that both can write are those that are no surrogates (`IsScalar`), and for
them each writing is read back: `Text.codePoints_flatMap`, `Utf8.decode_flatMap`. A text is
well-formed exactly if its code points are of that kind, so a well-formed text is read back from
its bytes (`Utf8.decode_encode`), and bytes without fault are written back from their text
(`Utf8.WellFormed.decode`). The reader is followed through one code point at a time
(`Utf8.decodeFrom_encodePoint`): after the first byte, the bounds it has for the next one leave
room for exactly the code points that need this many bytes and are no surrogates.
-/

namespace ModalEditor

/-- A code point that is no surrogate. -/
def IsScalar (n : Nat) : Prop := n < 0xD800 ∨ 0xE000 ≤ n ∧ n < 0x110000

/-! ## Code units -/

namespace CodeUnit

theorem isHigh_iff {u : CodeUnit} : isHigh u = true ↔ 0xD800 ≤ u.toNat ∧ u.toNat ≤ 0xDBFF := by
  simp only [isHigh, Bool.and_eq_true, decide_eq_true_eq, UInt16.le_iff_toNat_le]
  exact Iff.rfl

theorem isLow_iff {u : CodeUnit} : isLow u = true ↔ 0xDC00 ≤ u.toNat ∧ u.toNat ≤ 0xDFFF := by
  simp only [isLow, Bool.and_eq_true, decide_eq_true_eq, UInt16.le_iff_toNat_le]
  exact Iff.rfl

theorem toNat_ofNat {n : Nat} (h : n < 0x10000) : (UInt16.ofNat n).toNat = n := by
  rw [UInt16.toNat_ofNat', Nat.mod_eq_of_lt h]

end CodeUnit

namespace Text

open CodeUnit

theorem ofPoint_toNat (u : CodeUnit) : ofPoint u.toNat = [u] := by
  rw [ofPoint, if_pos u.toNat_lt, UInt16.ofNat_toNat]

theorem ofPoint_pairPoint {u v : CodeUnit} (hu : isHigh u = true) (hv : isLow v = true) :
    ofPoint (pairPoint u v) = [u, v] := by
  rw [isHigh_iff] at hu
  rw [isLow_iff] at hv
  have h1 : 0xD800 + (pairPoint u v - 0x10000) / 0x400 = u.toNat := by unfold pairPoint; omega
  have h2 : 0xDC00 + (pairPoint u v - 0x10000) % 0x400 = v.toNat := by unfold pairPoint; omega
  rw [ofPoint, if_neg (by unfold pairPoint; omega), h1, h2, UInt16.ofNat_toNat, UInt16.ofNat_toNat]

theorem flatMap_codePoints (t : Text) : t.codePoints.flatMap ofPoint = t := by
  fun_induction codePoints t with
  | case1 => rfl
  | case2 u => simp [ofPoint_toNat]
  | case3 u v rest h ih =>
    rw [Bool.and_eq_true] at h
    rw [List.flatMap_cons, ih, ofPoint_pairPoint h.1 h.2]
    rfl
  | case4 u v rest h ih =>
    rw [List.flatMap_cons, ih, ofPoint_toNat]
    rfl

theorem isScalar_toNat (u : CodeUnit) :
    IsScalar u.toNat ↔ isHigh u = false ∧ isLow u = false := by
  have := u.toNat_lt
  simp only [IsScalar, Bool.eq_false_iff, ne_eq, isHigh_iff, isLow_iff]
  omega

theorem wellFormed_iff (t : Text) : t.wellFormed = true ↔ ∀ n ∈ t.codePoints, IsScalar n := by
  fun_induction codePoints t with
  | case1 => exact ⟨fun _ => nofun, fun _ => rfl⟩
  | case2 u => simp [wellFormed, isScalar_toNat]
  | case3 u v rest hp ih =>
    rw [Bool.and_eq_true] at hp
    have hpair : IsScalar (pairPoint u v) := by
      rw [isHigh_iff, isLow_iff] at hp
      unfold IsScalar pairPoint
      omega
    rw [wellFormed, if_pos hp.1, hp.2, Bool.true_and, List.forall_mem_cons, ih, and_iff_right hpair]
  | case4 u v rest hp ih =>
    rw [List.forall_mem_cons, isScalar_toNat, ← ih, wellFormed]
    cases hu : isHigh u with
    | false => simp
    | true => simp_all

theorem ofPoint_pair {n : Nat} (h : 0x10000 ≤ n) (h' : n < 0x110000) :
    ∃ u v, ofPoint n = [u, v] ∧ isHigh u = true ∧ isLow v = true ∧ pairPoint u v = n := by
  obtain ⟨u, hu⟩ : ∃ u, u = UInt16.ofNat (0xD800 + (n - 0x10000) / 0x400) := ⟨_, rfl⟩
  obtain ⟨v, hv⟩ : ∃ v, v = UInt16.ofNat (0xDC00 + (n - 0x10000) % 0x400) := ⟨_, rfl⟩
  have h1 : u.toNat = 0xD800 + (n - 0x10000) / 0x400 := by
    rw [hu, CodeUnit.toNat_ofNat (by omega)]
  have h2 : v.toNat = 0xDC00 + (n - 0x10000) % 0x400 := by
    rw [hv, CodeUnit.toNat_ofNat (by omega)]
  refine ⟨u, v, by rw [ofPoint, if_neg (by omega), hu, hv], ?_, ?_, ?_⟩
  · rw [isHigh_iff]
    omega
  · rw [isLow_iff]
    omega
  · unfold pairPoint
    omega

theorem codePoints_ofPoint_append {n : Nat} (h : IsScalar n) (t : Text) :
    codePoints (ofPoint n ++ t) = n :: codePoints t := by
  unfold IsScalar at h
  by_cases hn : n < 0x10000
  · have hu : isHigh (UInt16.ofNat n) = false := by
      rw [Bool.eq_false_iff, ne_eq, isHigh_iff, CodeUnit.toNat_ofNat hn]
      omega
    rw [ofPoint, if_pos hn, List.singleton_append]
    cases t with
    | nil => simp [codePoints, CodeUnit.toNat_ofNat hn]
    | cons v t => simp [codePoints, CodeUnit.toNat_ofNat hn, hu]
  · obtain ⟨u, v, he, hu, hv, hpoint⟩ := ofPoint_pair (by omega) (by omega : n < 0x110000)
    rw [he, List.cons_append, List.singleton_append, codePoints, hu, hv, hpoint]
    rfl

theorem codePoints_flatMap {ns : List Nat} (h : ∀ n ∈ ns, IsScalar n) :
    codePoints (ns.flatMap ofPoint) = ns := by
  induction ns with
  | nil => rfl
  | cons n ns ih =>
    obtain ⟨hn, hns⟩ := List.forall_mem_cons.1 h
    rw [List.flatMap_cons, codePoints_ofPoint_append hn, ih hns]

end Text

namespace Utf8

/-! ## Bytes -/

theorem toNat_ofNat {n : Nat} (h : n < 0x100) : (UInt8.ofNat n).toNat = n := by
  rw [UInt8.toNat_ofNat', Nat.mod_eq_of_lt h]

theorem toNat_continuation (n : Nat) : (continuation n).toNat = 0x80 + n % 0x40 :=
  toNat_ofNat (by omega)

theorem decodeFrom_more {b : UInt8} {p : Partial} (h : lead b = .more p) (rest : List UInt8) :
    decodeFrom none (b :: rest) = decodeFrom (some p) rest := by
  rw [decodeFrom, h]

theorem decodeFrom_continuation {owed bits n : Nat} {low high : UInt8}
    (h : low.toNat ≤ 0x80 + n % 0x40 ∧ 0x80 + n % 0x40 ≤ high.toNat) (rest : List UInt8) :
    decodeFrom (some ⟨owed, low, high, bits⟩) (continuation n :: rest) =
      if owed = 0 then Text.ofPoint (bits * 0x40 + n % 0x40) ++ decodeFrom none rest
      else decodeFrom (some ⟨owed - 1, 0x80, 0xBF, bits * 0x40 + n % 0x40⟩) rest := by
  have hc := toNat_continuation n
  have hb : low ≤ continuation n ∧ continuation n ≤ high := by
    rwa [UInt8.le_iff_toNat_le, UInt8.le_iff_toNat_le, hc]
  rw [decodeFrom, if_pos hb, hc]
  simp only [show (0x80 + n % 0x40) % 0x40 = n % 0x40 by omega]

theorem lead_ofNat {n : Nat} (h : n < 0x100) : lead (UInt8.ofNat n) =
    if n < 0x80 then .single (UInt16.ofNat n)
    else if 0xC2 ≤ n ∧ n ≤ 0xDF then .more ⟨0, 0x80, 0xBF, n % 0x20⟩
    else if n = 0xE0 then .more ⟨1, 0xA0, 0xBF, 0⟩
    else if n = 0xED then .more ⟨1, 0x80, 0x9F, 0xD⟩
    else if 0xE1 ≤ n ∧ n ≤ 0xEF then .more ⟨1, 0x80, 0xBF, n % 0x10⟩
    else if n = 0xF0 then .more ⟨2, 0x90, 0xBF, 0⟩
    else if 0xF1 ≤ n ∧ n ≤ 0xF3 then .more ⟨2, 0x80, 0xBF, n % 0x8⟩
    else if n = 0xF4 then .more ⟨2, 0x80, 0x8F, 4⟩
    else .bad := by
  simp only [lead, UInt8.lt_iff_toNat_lt, UInt8.le_iff_toNat_le, ← UInt8.toNat_inj, toNat_ofNat h]
  rfl

theorem lead_two {n : Nat} (h : 0x80 ≤ n) (h' : n < 0x800) :
    lead (UInt8.ofNat (0xC0 + n / 0x40)) = .more ⟨0, 0x80, 0xBF, n / 0x40⟩ := by
  rw [lead_ofNat (by omega), if_neg (by omega), if_pos (by omega),
    show (0xC0 + n / 0x40) % 0x20 = n / 0x40 by omega]

theorem lead_three {n : Nat} (h : 0x800 ≤ n) (h' : n < 0x10000) (hs : IsScalar n) :
    ∃ low high, lead (UInt8.ofNat (0xE0 + n / 0x1000)) = .more ⟨1, low, high, n / 0x1000⟩ ∧
      low.toNat ≤ 0x80 + n / 0x40 % 0x40 ∧ 0x80 + n / 0x40 % 0x40 ≤ high.toNat := by
  unfold IsScalar at hs
  rw [lead_ofNat (by omega), if_neg (by omega), if_neg (by omega)]
  by_cases h0 : n / 0x1000 = 0
  · rw [h0]
    exact ⟨0xA0, 0xBF, rfl, by simp; omega⟩
  by_cases hD : n / 0x1000 = 0xD
  · rw [hD]
    exact ⟨0x80, 0x9F, rfl, by simp; omega⟩
  · rw [if_neg (by omega), if_neg (by omega), if_pos (by omega),
      show (0xE0 + n / 0x1000) % 0x10 = n / 0x1000 by omega]
    exact ⟨0x80, 0xBF, rfl, by simp; omega⟩

theorem lead_four {n : Nat} (h : 0x10000 ≤ n) (hs : IsScalar n) :
    ∃ low high, lead (UInt8.ofNat (0xF0 + n / 0x40000)) = .more ⟨2, low, high, n / 0x40000⟩ ∧
      low.toNat ≤ 0x80 + n / 0x1000 % 0x40 ∧ 0x80 + n / 0x1000 % 0x40 ≤ high.toNat := by
  unfold IsScalar at hs
  rw [lead_ofNat (by omega), if_neg (by omega), if_neg (by omega), if_neg (by omega),
    if_neg (by omega), if_neg (by omega)]
  by_cases h0 : n / 0x40000 = 0
  · rw [h0]
    exact ⟨0x90, 0xBF, rfl, by simp; omega⟩
  by_cases h4 : n / 0x40000 = 4
  · rw [h4]
    exact ⟨0x80, 0x8F, rfl, by simp; omega⟩
  · rw [if_neg (by omega), if_pos (by omega),
      show (0xF0 + n / 0x40000) % 0x8 = n / 0x40000 by omega]
    exact ⟨0x80, 0xBF, rfl, by simp; omega⟩

theorem tail_bounds (n : Nat) :
    (0x80 : UInt8).toNat ≤ 0x80 + n % 0x40 ∧ 0x80 + n % 0x40 ≤ (0xBF : UInt8).toNat := by
  simp
  omega

theorem decodeFrom_encodePoint {n : Nat} (hs : IsScalar n) (rest : List UInt8) :
    decodeFrom none (encodePoint n ++ rest) = Text.ofPoint n ++ decodeFrom none rest := by
  unfold encodePoint
  by_cases h1 : n < 0x80
  · rw [if_pos h1, List.singleton_append, decodeFrom, lead_ofNat (by omega), if_pos h1,
      Text.ofPoint, if_pos (by omega)]
    rfl
  rw [if_neg h1]
  by_cases h2 : n < 0x800
  · rw [if_pos h2]
    have hbits : n / 0x40 * 0x40 + n % 0x40 = n := by omega
    calc decodeFrom none (_ :: continuation n :: rest)
        = decodeFrom (some ⟨0, 0x80, 0xBF, n / 0x40⟩) (continuation n :: rest) :=
          decodeFrom_more (lead_two (by omega) h2) _
      _ = _ := by rw [decodeFrom_continuation (tail_bounds n), if_pos rfl, hbits]
  rw [if_neg h2]
  by_cases h3 : n < 0x10000
  · rw [if_pos h3]
    obtain ⟨low, high, hlead, hbounds⟩ := lead_three (by omega) h3 hs
    have hbits : (n / 0x1000 * 0x40 + n / 0x40 % 0x40) * 0x40 + n % 0x40 = n := by omega
    calc decodeFrom none (_ :: continuation (n / 0x40) :: continuation n :: rest)
        = decodeFrom (some ⟨1, low, high, n / 0x1000⟩)
            (continuation (n / 0x40) :: continuation n :: rest) := decodeFrom_more hlead _
      _ = decodeFrom (some ⟨0, 0x80, 0xBF, n / 0x1000 * 0x40 + n / 0x40 % 0x40⟩)
            (continuation n :: rest) := decodeFrom_continuation hbounds _
      _ = _ := by rw [decodeFrom_continuation (tail_bounds n), if_pos rfl, hbits]
  · rw [if_neg h3]
    obtain ⟨low, high, hlead, hbounds⟩ := lead_four (by omega) hs
    have hbits : ((n / 0x40000 * 0x40 + n / 0x1000 % 0x40) * 0x40 + n / 0x40 % 0x40) * 0x40 +
        n % 0x40 = n := by omega
    calc decodeFrom none
          (_ :: continuation (n / 0x1000) :: continuation (n / 0x40) :: continuation n :: rest)
        = decodeFrom (some ⟨2, low, high, n / 0x40000⟩)
            (continuation (n / 0x1000) :: continuation (n / 0x40) :: continuation n :: rest) :=
          decodeFrom_more hlead _
      _ = decodeFrom (some ⟨1, 0x80, 0xBF, n / 0x40000 * 0x40 + n / 0x1000 % 0x40⟩)
            (continuation (n / 0x40) :: continuation n :: rest) := decodeFrom_continuation hbounds _
      _ = decodeFrom (some ⟨0, 0x80, 0xBF,
              (n / 0x40000 * 0x40 + n / 0x1000 % 0x40) * 0x40 + n / 0x40 % 0x40⟩)
            (continuation n :: rest) := decodeFrom_continuation (tail_bounds _) _
      _ = _ := by rw [decodeFrom_continuation (tail_bounds n), if_pos rfl, hbits]

theorem decode_flatMap {ns : List Nat} (h : ∀ n ∈ ns, IsScalar n) :
    decode (ns.flatMap encodePoint) = ns.flatMap Text.ofPoint := by
  induction ns with
  | nil => rfl
  | cons n ns ih =>
    obtain ⟨hn, hns⟩ := List.forall_mem_cons.1 h
    rw [List.flatMap_cons, decode, decodeFrom_encodePoint hn, List.flatMap_cons, ← ih hns]
    rfl

theorem encode_eq {t : Text} (h : t.wellFormed = true) :
    encode t = t.codePoints.flatMap encodePoint := by
  unfold encode
  rw [List.flatMap_def, List.flatMap_def]
  refine congrArg List.flatten (List.map_congr_left fun n hn => ?_)
  have hs : IsScalar n := t.wellFormed_iff.1 h n hn
  unfold IsScalar at hs
  rw [scalar, if_neg (by omega)]

/-- A well-formed text is read back as it was written. -/
theorem decode_encode {t : Text} (h : t.wellFormed = true) : decode (encode t) = t := by
  rw [encode_eq h, decode_flatMap (t.wellFormed_iff.1 h), t.flatMap_codePoints]

/-- Bytes that write code points, none of them a surrogate. -/
def WellFormed (bytes : List UInt8) : Prop :=
  ∃ ns : List Nat, (∀ n ∈ ns, IsScalar n) ∧ bytes = ns.flatMap encodePoint

theorem WellFormed.decode {bytes : List UInt8} (h : WellFormed bytes) :
    (decode bytes).wellFormed = true ∧ encode (Utf8.decode bytes) = bytes := by
  obtain ⟨ns, hns, rfl⟩ := h
  have hw : Text.wellFormed (ns.flatMap Text.ofPoint) = true := by
    rw [Text.wellFormed_iff, Text.codePoints_flatMap hns]
    exact hns
  rw [decode_flatMap hns]
  exact ⟨hw, by rw [encode_eq hw, Text.codePoints_flatMap hns]⟩

theorem length_encodePoint_le (n : Nat) : (encodePoint n).length ≤ 4 := by
  unfold encodePoint
  split
  · exact Nat.le_of_ble_eq_true rfl
  · split
    · exact Nat.le_of_ble_eq_true rfl
    · split <;> exact Nat.le_of_ble_eq_true rfl

/-- What comes after a text does not shorten its bytes. -/
theorem length_encode_append_le (x y : Text) : (encode x).length ≤ (encode (x ++ y)).length := by
  unfold encode
  fun_induction Text.codePoints x with
  | case1 => exact Nat.zero_le _
  | case2 u =>
    rw [List.flatMap_singleton]
    cases y with
    | nil => exact Nat.le_of_eq (by simp [Text.codePoints])
    | cons v rest =>
      rw [List.singleton_append, Text.codePoints]
      split
      · -- the pair that `u` becomes part of has four bytes
        have hpair : 0x10000 ≤ Text.pairPoint u v := by
          unfold Text.pairPoint
          omega
        have hlength : (encodePoint (scalar (Text.pairPoint u v))).length = 4 := by
          rw [scalar, if_neg (by omega), encodePoint, if_neg (by omega), if_neg (by omega),
            if_neg (by omega)]
          rfl
        rw [List.flatMap_cons, List.length_append, hlength]
        exact Nat.le_add_right_of_le (length_encodePoint_le _)
      · rw [List.flatMap_cons, List.length_append]
        exact Nat.le_add_right _ _
  | case3 u v rest hp ih =>
    rw [List.cons_append, List.cons_append, Text.codePoints, if_pos hp]
    simpa using ih
  | case4 u v rest hp ih =>
    rw [List.cons_append, List.cons_append, Text.codePoints, if_neg hp]
    simpa using ih

end Utf8
end ModalEditor
