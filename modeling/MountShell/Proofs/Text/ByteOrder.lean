import Mathlib.Data.Char
import Mathlib.Data.String.Basic
import Mathlib.Tactic.SplitIfs

/-!
# The order of bytes

Texts are compared by their code points. Comparing the bytes that stand for them in UTF-8 gives the
same order: no code of a character begins another, and the code of a smaller character is smaller
(`codes_lt_codes`).

Main statement: `lt_iff_bytes_lt`.
-/

namespace MountShell.Text

/-- The bytes of a text. -/
def bytes (s : String) : List UInt8 :=
  s.toByteArray.data.toList

theorem bytes_eq_flatMap (s : String) : bytes s = s.toList.flatMap String.utf8EncodeChar := by
  unfold bytes
  rw [← String.utf8Encode_toList]
  simp [List.utf8Encode]

/-- Comparing a byte of a code and then what follows. -/
theorem byte_cons_lt_cons {a b : Nat} (ha : a < 256) (hb : b < 256) (x y : List UInt8) :
    UInt8.ofNat a :: x < UInt8.ofNat b :: y ↔ a < b ∨ a = b ∧ x < y := by
  have hlt : UInt8.ofNat a < UInt8.ofNat b ↔ a < b := UInt8.ofNat_lt_iff_lt ha hb
  have heq : UInt8.ofNat a = UInt8.ofNat b ↔ a = b := by
    rw [← UInt8.toNat_inj, UInt8.toNat_ofNat', UInt8.toNat_ofNat', Nat.mod_eq_of_lt ha,
      Nat.mod_eq_of_lt hb]
  rw [List.cons_lt_cons_iff, hlt, heq]

/-- The code of a smaller character is smaller, whatever follows the two. -/
theorem codes_lt_codes {c d : Char} (h : c < d) (x y : List UInt8) :
    String.utf8EncodeChar c ++ x < String.utf8EncodeChar d ++ y := by
  have hlt : c.val.toNat < d.val.toNat := h
  have hbound : d.val.toNat < 0x110000 := by
    rcases d.valid with hvalid | ⟨-, hvalid⟩
    · exact Nat.lt_trans hvalid (by decide)
    · exact hvalid
  unfold String.utf8EncodeChar
  generalize c.val.toNat = v at hlt
  generalize d.val.toNat = w at hlt hbound
  have htwo : ∀ n : Nat, n / 4096 = n / 64 / 64 := fun n => (Nat.div_div_eq_div_mul n 64 64).symm
  have hthree : ∀ n : Nat, n / 262144 = n / 64 / 64 / 64 := fun n => by
    rw [Nat.div_div_eq_div_mul, Nat.div_div_eq_div_mul]
  dsimp only
  rw [htwo v, htwo w, hthree v, hthree w]
  -- The first byte tells how long a code is; codes of one length differ at some digit to base 64.
  split_ifs <;>
    simp (disch := omega) only [List.cons_append, List.nil_append, byte_cons_lt_cons] <;> omega

theorem lt_of_append_lt_append {x y : List UInt8} : ∀ code : List UInt8,
    code ++ x < code ++ y → x < y
  | [], h => h
  | _ :: code, h => by
    rcases List.cons_lt_cons_iff.1 h with h | ⟨-, h⟩
    · exact absurd h (UInt8.lt_irrefl _)
    · exact lt_of_append_lt_append code h

/-- Comparing the codes of two characters and then what follows is comparing the characters. -/
theorem codes_append_lt_iff (c d : Char) (x y : List UInt8) :
    String.utf8EncodeChar c ++ x < String.utf8EncodeChar d ++ y ↔ c < d ∨ c = d ∧ x < y := by
  constructor
  · intro h
    rcases lt_trichotomy c d with hlt | rfl | hgt
    · exact Or.inl hlt
    · exact Or.inr ⟨rfl, lt_of_append_lt_append _ h⟩
    · exact absurd (codes_lt_codes hgt y x) (List.lt_asymm h)
  · rintro (hlt | ⟨rfl, h⟩)
    · exact codes_lt_codes hlt x y
    · exact List.append_left_lt h

theorem codes_lt_iff (cs ds : List Char) :
    cs.flatMap String.utf8EncodeChar < ds.flatMap String.utf8EncodeChar ↔ cs < ds := by
  have hpos : ∀ (d : Char) (ds : List Char),
      [] < (d :: ds).flatMap String.utf8EncodeChar := by
    intro d ds
    obtain ⟨byte, rest, hcode⟩ := List.exists_cons_of_ne_nil (String.utf8EncodeChar_ne_nil (c := d))
    rw [List.flatMap_cons, hcode]
    exact List.nil_lt_cons _ _
  induction cs generalizing ds with
  | nil =>
    cases ds with
    | nil => exact iff_of_false (List.not_lt_nil _) (List.not_lt_nil _)
    | cons d ds => exact iff_of_true (hpos d ds) (List.nil_lt_cons _ _)
  | cons c cs ih =>
    cases ds with
    | nil => exact iff_of_false (List.lt_asymm (hpos c cs)) (List.not_lt_nil _)
    | cons d ds =>
      rw [List.flatMap_cons, List.flatMap_cons, codes_append_lt_iff, List.cons_lt_cons_iff]
      exact or_congr_right (and_congr_right' (ih ds))

/-- One text comes before another just when its bytes do. -/
theorem lt_iff_bytes_lt (s t : String) : s < t ↔ bytes s < bytes t := by
  rw [bytes_eq_flatMap, bytes_eq_flatMap, codes_lt_iff]
  exact String.lt_iff_toList_lt

theorem le_iff_bytes_le (s t : String) : s ≤ t ↔ bytes s ≤ bytes t :=
  String.not_lt.symm.trans (not_congr (lt_iff_bytes_lt t s))

end MountShell.Text
