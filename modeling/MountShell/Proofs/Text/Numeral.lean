import Mathlib.Algebra.Group.Nat.Defs
import MountShell.Text.Numeral

/-!
# Numerals that are shown and read

A whole number that fits into a signed word is read back from the text that shows it
(`readInt_showInt`), and no other number is ever read (`fits_of_readInt`).
-/

namespace MountShell.Text

theorem digitsValue_toDigits (n : Nat) : digitsValue (Nat.toDigits 10 n) = n :=
  Nat.ofDigitChars_toDigits (by decide) (by decide)

theorem isDigit_of_mem_toDigits {n : Nat} {c : Char} (h : c ∈ Nat.toDigits 10 n) :
    isDigit c = true :=
  Nat.isDigit_of_mem_toDigits (by decide) (by decide) h

theorem all_isDigit_toDigits (n : Nat) : (Nat.toDigits 10 n).all isDigit = true :=
  List.all_eq_true.2 fun _ h => isDigit_of_mem_toDigits h

/-- The digits of a number do not begin with a sign. -/
theorem readSign_toDigits (n : Nat) :
    readSign (Nat.toDigits 10 n) = (false, Nat.toDigits 10 n) := by
  obtain ⟨c, cs, hdigits⟩ := List.exists_cons_of_ne_nil (Nat.toDigits_ne_nil (n := n) (b := 10))
  have hdigit : isDigit c = true := isDigit_of_mem_toDigits (hdigits ▸ List.mem_cons_self)
  rw [hdigits]
  unfold readSign
  split
  next h =>
    obtain ⟨rfl, -⟩ := List.cons.inj h
    exact absurd hdigit (by decide)
  next h =>
    obtain ⟨rfl, -⟩ := List.cons.inj h
    exact absurd hdigit (by decide)
  next => rfl

/-- A number that fits into a signed word is read back from its text. -/
theorem readInt_showInt {bits : Nat} {n : Int} (hlow : -(2 ^ (bits - 1) : Nat) ≤ n)
    (hhigh : n < (2 ^ (bits - 1) : Nat)) : readInt bits (showInt n) = some n := by
  have hne : ∀ k, (Nat.toDigits 10 k).isEmpty = false := fun k =>
    List.isEmpty_eq_false_iff.2 Nat.toDigits_ne_nil
  unfold readInt showInt
  cases n with
  | ofNat k =>
    simp only [String.toList_ofList, readSign_toDigits, hne, all_isDigit_toDigits,
      digitsValue_toDigits, Bool.not_true, Bool.or_self, Bool.false_eq_true, ↓reduceIte]
    exact if_pos ⟨hlow, hhigh⟩
  | negSucc k =>
    simp only [String.toList_ofList, readSign, hne, all_isDigit_toDigits, digitsValue_toDigits,
      Bool.not_true, Bool.or_self, Bool.false_eq_true, ↓reduceIte]
    exact if_pos ⟨hlow, hhigh⟩

/-- A number that is read fits into a signed word. -/
theorem fits_of_readInt {bits : Nat} {s : String} {n : Int} (h : readInt bits s = some n) :
    -(2 ^ (bits - 1) : Nat) ≤ n ∧ n < (2 ^ (bits - 1) : Nat) := by
  unfold readInt at h
  obtain ⟨-, h⟩ := Option.ite_none_left_eq_some.1 h
  obtain ⟨hbounds, hvalue⟩ := Option.ite_none_right_eq_some.1 h
  rw [Option.some.inj hvalue] at hbounds
  exact hbounds

end MountShell.Text
