import CodeAtlas.Value.Basic
import Mathlib

/-! The order of doubles. Whoever compares two doubles compares their signs, then their exponents, then their
mantissas; so all doubles but the undefined one stand in one line, and two of them stand at one place only if
they are equal as numbers. Negation reads the line backwards, since no double changes when it is packed. -/

namespace CodeAtlas

open Float.Model
open Float.Model.UnpackedFloat (Sign packComponents packedInfinity unpackSign)

section Place

/-- Where a double stands: its sign, with the infinities beyond all others, its exponent and its mantissa. The
undefined double has no place of its own. -/
def placeOf : UnpackedFloat → ℤ ×ₗ ℤ ×ₗ ℤ
  | .notANumber => toLex (0, toLex (0, 0))
  | .infinity .negative => toLex (-2, toLex (0, 0))
  | .finite .negative m e _ => toLex (-1, toLex (-e, -m))
  | .zero _ => toLex (0, toLex (0, 0))
  | .finite .positive m e _ => toLex (1, toLex (e, m))
  | .infinity .positive => toLex (2, toLex (0, 0))

theorem compare_toLex {α β : Type} [LinearOrder α] [LinearOrder β] (a a' : α) (b b' : β) :
    compare (toLex (a, b)) (toLex (a', b')) = (compare a a').then (compare b b') := by
  simp [Prod.Lex.compare_def, compareLex, compareOn]

theorem compare_neg_neg (a b : ℤ) : compare (-a) (-b) = (compare a b).swap := by
  rcases lt_trichotomy a b with h | rfl | h
  · rw [compare_gt_iff_gt.2 (by omega), compare_lt_iff_lt.2 h, Ordering.swap_lt]
  · simp
  · rw [compare_lt_iff_lt.2 (by omega), compare_gt_iff_gt.2 h, Ordering.swap_gt]

theorem compare_natCast (a b : ℕ) : compare (a : ℤ) (b : ℤ) = compare a b := by
  rcases lt_trichotomy a b with h | rfl | h
  · rw [compare_lt_iff_lt.2 h, compare_lt_iff_lt.2 (by omega)]
  · simp
  · rw [compare_gt_iff_gt.2 h, compare_gt_iff_gt.2 (by omega)]

theorem compare_placeOf {a b : UnpackedFloat} (ha : a ≠ .notANumber) (hb : b ≠ .notANumber) :
    a.compare b = some (compare (placeOf a) (placeOf b)) := by
  rcases a with (_ | _) | _ | (_ | _) | ⟨_ | _, m, e, hm⟩ <;>
    rcases b with (_ | _) | _ | (_ | _) | ⟨_ | _, m', e', hm'⟩ <;>
    first
    | rfl
    | exact absurd rfl ha
    | exact absurd rfl hb
    | skip
  -- only doubles of one sign are left
  · simp [UnpackedFloat.compare, placeOf, compare_toLex, compare_neg_neg, compare_natCast,
      Ordering.swap_then]
  · simp [UnpackedFloat.compare, placeOf, compare_toLex, compare_natCast]

theorem compare_neg (a b : UnpackedFloat) : a.neg.compare b.neg = b.compare a := by
  rcases a with (_ | _) | _ | (_ | _) | ⟨_ | _, m, e, hm⟩ <;>
    rcases b with (_ | _) | _ | (_ | _) | ⟨_ | _, m', e', hm'⟩ <;>
    first
    | rfl
    | skip
  · change some ((compare e e').then (compare m m')) = some ((compare e' e).then (compare m' m)).swap
    rw [Ordering.swap_then, ← Std.OrientedCmp.eq_swap, ← Std.OrientedCmp.eq_swap]
  · change some ((compare e e').then (compare m m')).swap = some ((compare e' e).then (compare m' m))
    rw [Ordering.swap_then, ← Std.OrientedCmp.eq_swap, ← Std.OrientedCmp.eq_swap]

end Place

section Packing

theorem unpackSign_packComponents {spec : Format} {s : Sign} {e : BitVec spec.exponentBits}
    {m : BitVec spec.mantissaBitsWithoutImplicit} :
    unpackSign (packComponents spec s e m) = s.toBitVec := by
  ext i hi
  obtain rfl : i = 0 := by omega
  simp [unpackSign, packComponents, BitVec.getLsbD_append, BitVec.getElem_append]

theorem ofBitVec_toBitVec (s : Sign) : Sign.ofBitVec s.toBitVec = s := by
  cases s <;> rfl

theorem toNat_withImplicit (m : BitVec 52) : (1#1 ++ m).toNat = 2 ^ 52 + m.toNat := by
  rw [BitVec.toNat_append, ← Nat.shiftLeft_add_eq_or_of_lt m.isLt]
  rfl

/-- What sign, exponent and mantissa are read as, by the two exponents that mean something else. -/
theorem unpack_packComponents (s : Sign) (e : BitVec 11) (m : BitVec 52) :
    UnpackedFloat.unpack .binary64 (packComponents .binary64 s e m) =
      if e = -1#11 then if m = 0#52 then .infinity s else .notANumber
      else if e = 0#11 then
        if h : m = 0#52 then .zero s
        else .finite s m.toNat (-1074) (by simpa [BitVec.toNat_pos, BitVec.pos_iff_ne_zero])
      else .finite s (1#1 ++ m).toNat (e.toNat - 1075) (by rw [toNat_withImplicit]; omega) := by
  unfold UnpackedFloat.unpack
  simp only [UnpackedFloat.unpackMantissa_packComponents, UnpackedFloat.unpackExponent_packComponents,
    unpackSign_packComponents, ofBitVec_toBitVec]
  split
  · rfl
  · split
    · rename_i h
      subst h
      rfl
    · rfl

theorem pack_finite (s : Sign) (m : ℕ) (e : ℤ) (h : 0 < m) :
    UnpackedFloat.pack .binary64 (.finite s m e h) =
      if 2048 ≤ (e + 1023 + 52).toNat + 1 then packedInfinity .binary64 s
      else if m.log2 + 1 = 53 then
        packComponents .binary64 s (BitVec.ofNat 11 (e + 1023 + 52).toNat) (BitVec.ofNat 52 m)
      else packComponents .binary64 s 0#11 (BitVec.ofNat 52 m) := rfl

/-- What bits can be read as. -/
inductive IsUnpacked : UnpackedFloat → Prop where
  | notANumber : IsUnpacked .notANumber
  | infinity (s : Sign) : IsUnpacked (.infinity s)
  | zero (s : Sign) : IsUnpacked (.zero s)
  | subnormal (s : Sign) (m : BitVec 52) (h : 0 < m.toNat) : IsUnpacked (.finite s m.toNat (-1074) h)
  | normal (s : Sign) (e : BitVec 11) (m : BitVec 52) (h : 0 < (1#1 ++ m).toNat) (hlow : e ≠ 0#11)
    (hhigh : e ≠ -1#11) : IsUnpacked (.finite s (1#1 ++ m).toNat (e.toNat - 1075) h)

theorem isUnpacked_unpack (bits : BitVec 64) : IsUnpacked (UnpackedFloat.unpack .binary64 bits) := by
  unfold UnpackedFloat.unpack
  extract_lets m e exponent signBit s
  split
  · split
    · exact .infinity s
    · exact .notANumber
  · rename_i hhigh
    split
    · split
      · exact .zero s
      · rename_i he hm
        have hexponent : exponent + 1 = -1074 := by simp [exponent, he, Format.exponentBias]
        simp only [hexponent]
        exact .subnormal s m _
    · rename_i hlow
      exact .normal s e m _ hlow hhigh

theorem IsUnpacked.neg {u : UnpackedFloat} (h : IsUnpacked u) : IsUnpacked u.neg := by
  cases h with
  | notANumber => exact .notANumber
  | infinity s => exact .infinity (-s)
  | zero s => exact .zero (-s)
  | subnormal s m hm => exact .subnormal (-s) m hm
  | normal s e m hm hlow hhigh => exact .normal (-s) e m hm hlow hhigh

/-- Nothing that was read from bits is lost when it is packed again. -/
theorem IsUnpacked.unpack_pack {u : UnpackedFloat} (h : IsUnpacked u) :
    UnpackedFloat.unpack .binary64 (UnpackedFloat.pack .binary64 u) = u := by
  cases h with
  | notANumber => rfl
  | infinity s => cases s <;> rfl
  | zero s => cases s <;> rfl
  | subnormal s m hm =>
    have hlog : m.toNat.log2 < 52 := (Nat.log2_lt (by omega)).2 m.isLt
    have hne : m ≠ 0#52 := by
      rintro rfl
      exact absurd hm (by decide)
    rw [pack_finite, if_neg (by decide), if_neg (by omega), unpack_packComponents]
    simp [hne]
  | normal s e m hm hlow hhigh =>
    have hm' := m.isLt
    have he' := e.isLt
    have hlog : (1#1 ++ m).toNat.log2 = 52 := by
      rw [toNat_withImplicit, Nat.log2_eq_iff (by omega)]
      omega
    have he : 0 < e.toNat ∧ e.toNat < 2047 := by
      have hzero : e.toNat ≠ 0 := fun h => hlow (BitVec.eq_of_toNat_eq h)
      have hones : e.toNat ≠ 2047 := fun h => hhigh (BitVec.eq_of_toNat_eq h)
      omega
    have hexponent : ((e.toNat : ℤ) - 1075 + 1023 + 52).toNat = e.toNat := by omega
    have hmantissa : BitVec.ofNat 52 (1#1 ++ m).toNat = m := by
      apply BitVec.eq_of_toNat_eq
      rw [BitVec.toNat_ofNat, toNat_withImplicit]
      omega
    rw [pack_finite, hexponent, if_neg (by omega), if_pos (by omega), hmantissa, BitVec.ofNat_toNat,
      BitVec.setWidth_eq, unpack_packComponents, if_neg hhigh, if_neg hlow]

end Packing

section Floats

variable {a b : Float}

def place (x : Float) : ℤ ×ₗ ℤ ×ₗ ℤ := placeOf x.toModel.unpack

theorem isNaN_eq_false_iff : a.isNaN = false ↔ a.toModel.unpack ≠ .notANumber := by
  change a.toModel.unpack.isNaN = false ↔ _
  cases a.toModel.unpack <;> simp [UnpackedFloat.isNaN]

theorem float_lt_iff_compare : a < b ↔ a.toModel.unpack.compare b.toModel.unpack = some .lt := by
  change Float.lt a b = true ↔ _
  unfold Float.lt
  rw [decide_eq_true_eq]
  change (a.toModel.unpack.compare b.toModel.unpack == some .lt) = true ↔ _
  exact beq_iff_eq

theorem float_beq_iff_compare : (a == b) = true ↔ a.toModel.unpack.compare b.toModel.unpack = some .eq := by
  change (a.toModel.unpack.compare b.toModel.unpack == some .eq) = true ↔ _
  exact beq_iff_eq

theorem isNaN_of_lt (h : a < b) : a.isNaN = false ∧ b.isNaN = false := by
  rw [float_lt_iff_compare] at h
  rw [isNaN_eq_false_iff, isNaN_eq_false_iff]
  constructor
  · intro hnan
    rw [hnan] at h
    cases h
  · intro hnan
    rw [hnan] at h
    cases hleft : a.toModel.unpack <;> rw [hleft] at h <;> cases h

section Defined

variable (ha : a.isNaN = false) (hb : b.isNaN = false)

include ha hb

theorem compare_place : a.toModel.unpack.compare b.toModel.unpack = some (compare (place a) (place b)) :=
  compare_placeOf (isNaN_eq_false_iff.1 ha) (isNaN_eq_false_iff.1 hb)

theorem float_lt_iff : a < b ↔ place a < place b := by
  rw [float_lt_iff_compare, compare_place ha hb, Option.some.injEq, compare_lt_iff_lt]

theorem float_le_iff : a ≤ b ↔ place a ≤ place b := by
  change Float.le a b = true ↔ _
  unfold Float.le
  rw [decide_eq_true_eq]
  change (a.toModel.unpack.compare b.toModel.unpack).any (·.isLE) = true ↔ _
  rw [compare_place ha hb, Option.any_some, Ordering.isLE_iff_ne_gt]
  exact compare_le_iff_le

theorem float_beq_iff : (a == b) = true ↔ place a = place b := by
  rw [float_beq_iff_compare, compare_place ha hb, Option.some.injEq, compare_eq_iff_eq]

end Defined

theorem unpack_neg (x : Float) : (-x).toModel.unpack = x.toModel.unpack.neg := by
  change UnpackedFloat.unpack .binary64 (UnpackedFloat.pack .binary64 x.toModel.unpack.neg) = _
  exact (isUnpacked_unpack _).neg.unpack_pack

theorem isNaN_neg : (-a).isNaN = a.isNaN := by
  change (-a).toModel.unpack.isNaN = a.toModel.unpack.isNaN
  rw [unpack_neg]
  cases a.toModel.unpack <;> rfl

theorem float_neg_lt_neg_iff : -a < -b ↔ b < a := by
  rw [float_lt_iff_compare, float_lt_iff_compare, unpack_neg, unpack_neg, compare_neg]

theorem float_neg_beq_neg_iff : (-a == -b) = true ↔ (b == a) = true := by
  rw [float_beq_iff_compare, float_beq_iff_compare, unpack_neg, unpack_neg, compare_neg]

end Floats

end CodeAtlas
