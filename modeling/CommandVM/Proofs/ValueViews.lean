import CommandVM.Value
import CommandVM.Proofs.ListRoundTrip
import CommandVM.Proofs.Listing.Tokens

/-!
# Views of values

The text of a list splits into the texts of its elements, and the text of an integer reads as that
integer.
-/

namespace CommandVM

namespace Value

theorem strs_eq_map {vs : List Value} : strs vs = vs.map str := by
  induction vs with
  | nil => rfl
  | cons v vs ih => rw [strs, ih, List.map_cons]

theorem split_list (items : List Value) :
    ListText.split (Value.list items).str = .ok (items.map str) := by
  have back := ListText.splitChars_joinChars ((items.map str).map String.toList)
  rw [str, strs_eq_map, ListText.split, ListText.join, String.toList_ofList, back]
  simp [Except.map, Function.comp_def]

end Value

namespace Number

open CommandVM.Text CommandVM.Listing

theorem trim_eq_self {cs : List Char} (dense : ∀ c ∈ cs, isBlank c = false) : trim cs = cs := by
  have keep : ∀ ds : List Char, (∀ c ∈ ds, isBlank c = false) → ds.dropWhile isBlank = ds := by
    intro ds solid
    cases ds with
    | nil => rfl
    | cons d ds =>
      exact List.dropWhile_cons_of_neg (by simp [solid d List.mem_cons_self])
  rw [trim, keep cs dense, keep cs.reverse (fun c member => dense c (List.mem_reverse.mp member)),
    List.reverse_reverse]

theorem isBlank_of_mem_toDigits {n : Nat} {c : Char} (member : c ∈ Nat.toDigits 10 n) :
    isBlank c = false := by
  have word := isWordChar_toDigits n c member
  simp only [isWordChar, Bool.and_eq_true, Bool.not_eq_true'] at word
  exact word.1.1

/-- Only zero is written with a zero in front. -/
theorem eq_zero_of_toDigits {n : Nat} {cs : List Char} (written : Nat.toDigits 10 n = '0' :: cs) :
    n = 0 := by
  induction n using Nat.strongRecOn generalizing cs with
  | ind n ih =>
    by_cases single : n < 10
    · rw [Nat.toDigits_of_lt_base single] at written
      have value := natural?_toDigits spelled_ten (by decide) n
      rw [Nat.toDigits_of_lt_base single, written, ← (List.cons.inj written).2] at value
      exact (Option.some.inj value).symm
    · rw [Nat.toDigits_of_base_le (by decide) (by omega)] at written
      cases first : Nat.toDigits 10 (n / 10) with
      | nil => exact absurd first Nat.toDigits_ne_nil
      | cons c ds =>
        rw [first, List.cons_append] at written
        rw [(List.cons.inj written).1] at first
        have zero := ih (n / 10) (by omega) first
        omega

theorem readBody_toDigits (negative : Bool) (n : Nat) :
    readBody negative (Nat.toDigits 10 n) = ofMagnitude negative n := by
  have digits := isDigit_toDigits spelled_ten (by decide) n
  have value := natural?_toDigits spelled_ten (by decide) n
  unfold readBody
  split
  · next none => exact absurd none Nat.toDigits_ne_nil
  · next same => rw [same] at digits; exact absurd (digits 'x' (by simp)) (by decide)
  · next same => rw [same] at digits; exact absurd (digits 'X' (by simp)) (by decide)
  · next c cs _ _ same =>
    have all : (Nat.toDigits 10 n).all (isDigit 10) = true := List.all_eq_true.mpr digits
    have lead : (c == '0' && !cs.isEmpty) = false := by
      by_cases zero : c = '0'
      · subst zero
        have none := eq_zero_of_toDigits same
        rw [none, Nat.toDigits_of_lt_base (by decide)] at same
        rw [← (List.cons.inj same).2]
        rfl
      · simp [zero]
    rw [all, lead, value]
    rfl

theorem ofMagnitude_eq {negative : Bool} {n : Nat} {v : Int64} (small : n < UInt64.size)
    (value : v.toInt = if negative then -(n : Int) else n) :
    ofMagnitude negative n = .ok (ofInt64 v) := by
  have same : v = if negative then -Int64.ofNat n else Int64.ofNat n := by
    rw [← Int64.ofInt_toInt v, value]
    cases negative with
    | false => exact Int64.ofInt_eq_ofNat
    | true => exact (Int64.ofInt_neg _).trans (congrArg _ Int64.ofInt_eq_ofNat)
  rw [ofMagnitude, if_pos small, same]

theorem toInt64_toInt32 {v : Int64} (fits : fitsInt v.toInt = true) : v.toInt32.toInt64 = v := by
  simp only [fitsInt, Bool.and_eq_true, decide_eq_true_eq] at fits
  apply Int64.toInt_inj.mp
  rw [Int32.toInt_toInt64, Int64.toInt_toInt32, Int.bmod_eq_of_le (by omega) (by omega)]

/-- The text of an integer reads as the integer. -/
theorem read_integer (v : Int64) : Number.read (toString v.toInt) = .ok (ofInt64 v) := by
  have low := v.le_toInt
  have high := v.toInt_lt
  rw [read, Int.toString_eq_repr, Int.repr_eq_if]
  by_cases sign : 0 ≤ v.toInt
  · have small : v.toInt.toNat < UInt64.size := by simp only [UInt64.size]; omega
    rw [if_pos sign, Nat.toList_repr, readChars, trim_eq_self fun c => isBlank_of_mem_toDigits]
    split
    · next none => exact absurd none Nat.toDigits_ne_nil
    · next same => exact absurd same (toDigits_ne_cons (by decide))
    · next same => exact absurd same (toDigits_ne_cons (by decide))
    · rw [readBody_toDigits]
      exact ofMagnitude_eq small (Int.toNat_of_nonneg sign).symm
  · have small : (-v.toInt).toNat < UInt64.size := by simp only [UInt64.size]; omega
    have dense : ∀ c ∈ '-' :: Nat.toDigits 10 (-v.toInt).toNat, isBlank c = false := by
      intro c member
      rcases List.mem_cons.mp member with rfl | digit
      · decide
      · exact isBlank_of_mem_toDigits digit
    have written : ("-" ++ (-v.toInt).toNat.repr).toList =
        '-' :: Nat.toDigits 10 (-v.toInt).toNat := by
      rw [String.toList_append, Nat.toList_repr]
      rfl
    rw [if_neg sign, written, readChars, trim_eq_self dense]
    refine (readBody_toDigits true _).trans (ofMagnitude_eq small ?_)
    rw [if_pos rfl]
    omega

end Number

end CommandVM
