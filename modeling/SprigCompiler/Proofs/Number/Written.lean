import SprigCompiler.Proofs.Number.Numerals

/-!
A written number reads back.

The forms that are tried are taken only if they read back.  Were there none, the number would be
written with all its digits, which is exact: a fraction that is a whole number of units is rounded
to the magnitude of those units.  Either way the text is a sign and a numeral, and the numeral is
read as the magnitude of the number.
-/

namespace SprigCompiler

namespace Binary64

theorem twoTo_pos (exponent : Nat) : 0 < twoTo exponent := Nat.pow_pos (by decide)

theorem infiniteMagnitude_lt : infiniteMagnitude < signWeight := by decide

/-- A number is given by its sign and its magnitude. -/
theorem ofMagnitude_magnitude (number : Binary64) :
    ofMagnitude number.isNegative number.magnitude = number := by
  have below : number.bits.toNat < 2 * signWeight := number.bits.toNat_lt
  have together : (if number.isNegative then signWeight else 0) + number.magnitude =
      number.bits.toNat := by
    unfold isNegative magnitude
    by_cases isNegative : signWeight ≤ number.bits.toNat
    · rw [decide_eq_true isNegative, if_pos rfl, Nat.mod_eq_sub_mod isNegative,
        Nat.mod_eq_of_lt (by omega)]
      omega
    · rw [decide_eq_false isNegative, if_neg Bool.false_ne_true, Nat.mod_eq_of_lt (by omega),
        Nat.zero_add]
  unfold ofMagnitude
  rw [together, UInt64.ofNat_toNat]

theorem magnitude_ofMagnitude {negative : Bool} {magnitude : Nat}
    (isMagnitude : magnitude < signWeight) :
    (ofMagnitude negative magnitude).magnitude = magnitude := by
  have isBits : (if negative then signWeight else 0) + magnitude < 2 ^ 64 := by
    have double : 2 ^ 64 = signWeight + signWeight := rfl
    cases negative <;> simp only [if_true, Bool.false_eq_true, if_false] <;> omega
  unfold ofMagnitude Binary64.magnitude
  rw [UInt64.toNat_ofNat_of_lt' isBits]
  cases negative with
  | true =>
      simp only [if_true, Nat.add_mod_left]
      exact Nat.mod_eq_of_lt isMagnitude
  | false =>
      simp only [Bool.false_eq_true, if_false, Nat.zero_add]
      exact Nat.mod_eq_of_lt isMagnitude

private theorem divNearestEven_mul (quotient : Nat) {divisor : Nat} (isPositive : 0 < divisor) :
    divNearestEven (quotient * divisor) divisor = quotient := by
  simp only [divNearestEven, Nat.mul_mod_left, Nat.mul_zero, isPositive, if_true,
    Nat.mul_div_cancel _ isPositive]

/-- The step of a magnitude times the digits in front of it are the units. -/
theorem units_eq (magnitude : Nat) : ∃ step count : Nat,
    units magnitude = count * twoTo step ∧ step * exponentWeight + count = magnitude ∧
      (units magnitude).log2 - 52 = step := by
  by_cases isLow : magnitude < exponentWeight
  · refine ⟨0, magnitude, ?_, by omega, ?_⟩
    · simp only [units, isLow, if_true]
      exact (Nat.mul_one _).symm
    · have least : (units magnitude).log2 < 52 + 1 := by
        simp only [units, isLow, if_true]
        by_cases isZero : magnitude = 0
        · rw [isZero]
          decide
        · rw [Nat.log2_lt isZero]
          exact Nat.lt_trans isLow (by decide)
      omega
  · obtain ⟨exponent, exponent_eq⟩ : ∃ exponent, magnitude / exponentWeight = exponent + 1 :=
      Nat.exists_eq_succ_of_ne_zero
        (Nat.div_pos (Nat.le_of_not_lt isLow) (twoTo_pos 52)).ne'
    have parts := Nat.div_add_mod' magnitude exponentWeight
    have isMantissa : magnitude % exponentWeight < exponentWeight :=
      Nat.mod_lt magnitude (twoTo_pos 52)
    have isUnits : units magnitude =
        (exponentWeight + magnitude % exponentWeight) * twoTo exponent := by
      simp only [units, isLow, if_false, exponent_eq, Nat.add_sub_cancel]
    rw [exponent_eq, Nat.add_mul, Nat.one_mul] at parts
    generalize magnitude % exponentWeight = mantissa at isUnits parts isMantissa
    refine ⟨exponent, exponentWeight + mantissa, isUnits, by omega, ?_⟩
    have isPositive := twoTo_pos exponent
    have atLeast : 2 ^ (52 + exponent) ≤ units magnitude := by
      rw [isUnits, Nat.pow_add]
      exact Nat.mul_le_mul_right _ (Nat.le_add_right _ _)
    have atMost : units magnitude < 2 ^ (52 + exponent + 1) := by
      rw [isUnits, Nat.add_right_comm, Nat.pow_add]
      refine Nat.mul_lt_mul_of_pos_right ?_ isPositive
      have double : 2 ^ (52 + 1) = exponentWeight + exponentWeight := rfl
      omega
    have isLog := (Nat.log2_eq_iff (Nat.pos_of_ne_zero fun isZero => by omega).ne').mpr
      ⟨atLeast, atMost⟩
    omega

private theorem units_pos {magnitude : Nat} (isPositive : 0 < magnitude) : 0 < units magnitude := by
  unfold units
  split
  · exact isPositive
  · exact Nat.mul_pos (Nat.add_pos_left (twoTo_pos 52) _) (twoTo_pos _)

/-- A fraction that is a whole number of units is rounded to the magnitude of those units. -/
theorem nearestMagnitude_exact {numerator denominator magnitude : Nat}
    (isPositive : 0 < denominator) (isFinite : magnitude ≤ infiniteMagnitude)
    (isExact : numerator * unitsPerOne = units magnitude * denominator) :
    nearestMagnitude numerator denominator = magnitude := by
  obtain ⟨step, count, isUnits, isMagnitude, isStep⟩ := units_eq magnitude
  have quotient : units magnitude * denominator = count * (denominator * twoTo step) := by
    rw [isUnits, Nat.mul_assoc, Nat.mul_comm denominator]
  have divisor_pos : 0 < denominator * twoTo step := Nat.mul_pos isPositive (twoTo_pos step)
  unfold nearestMagnitude
  simp only [isExact, Nat.mul_div_cancel _ isPositive, isStep]
  rw [quotient, divNearestEven_mul _ divisor_pos, isMagnitude, Nat.min_eq_left isFinite]

end Binary64

namespace Decimal

/-- What a scaled number is rounded to does not depend on its sign. -/
theorem exists_scale (coefficient : Nat) (exponent : Int) :
    ∃ magnitude ≤ Binary64.infiniteMagnitude, ∀ negative,
      scale negative coefficient exponent = .ofMagnitude negative magnitude := by
  unfold scale
  split_ifs
  · exact ⟨0, Nat.zero_le _, fun negative => rfl⟩
  · exact ⟨_, Nat.le_refl _, fun negative => rfl⟩
  · exact ⟨0, Nat.zero_le _, fun negative => rfl⟩
  · exact ⟨_, Nat.min_le_right _ _, fun negative => rfl⟩
  · exact ⟨_, Nat.min_le_right _ _, fun negative => rfl⟩

private theorem tenTo_add (first second : Nat) :
    tenTo (first + second) = tenTo first * tenTo second :=
  Nat.pow_add 10 first second

private theorem tenTo_pos (exponent : Nat) : 0 < tenTo exponent := Nat.pow_pos (by decide)

private theorem pow_five_mul_twoTo (exponent : Nat) :
    Nat.pow 5 exponent * twoTo exponent = tenTo exponent :=
  (Nat.mul_pow 5 2 exponent).symm

/-- All digits of a number of units give back its magnitude, wherever zeros at their end are given
up. -/
theorem scale_exact {magnitude coefficient zeros places : Nat} (negative : Bool)
    (isFinite : magnitude ≤ Binary64.infiniteMagnitude) (isPositive : 0 < Binary64.units magnitude)
    (isPlaces : places + zeros = fullPlaces)
    (isExact : coefficient * tenTo zeros = Binary64.units magnitude * Nat.pow 5 fullPlaces) :
    scale negative coefficient (-places) = .ofMagnitude negative magnitude := by
  have isUnits : coefficient * Binary64.unitsPerOne = Binary64.units magnitude * tenTo places := by
    have ones : Binary64.unitsPerOne = twoTo fullPlaces := rfl
    refine Nat.eq_of_mul_eq_mul_right (tenTo_pos zeros) ?_
    rw [Nat.mul_right_comm, isExact, ones, Nat.mul_assoc, pow_five_mul_twoTo, ← isPlaces, tenTo_add,
      Nat.mul_assoc]
  have isSome : 0 < coefficient := by
    refine Nat.pos_of_mul_pos_right (Nat.lt_of_lt_of_eq ?_ isUnits.symm)
    exact Nat.mul_pos isPositive (Nat.pow_pos (by decide))
  have notTiny : places ≤ coefficient.log2 + 401 := by
    by_cases isShort : places ≤ 401
    · omega
    · obtain ⟨more, rfl⟩ := Nat.exists_eq_add_of_le (Nat.le_of_not_le isShort)
      have few : tenTo 673 ≤ Nat.pow 5 fullPlaces := by decide +kernel
      have isMore : more + zeros = 673 := by
        unfold fullPlaces at isPlaces
        omega
      have least : twoTo more * tenTo zeros ≤ coefficient * tenTo zeros := by
        calc twoTo more * tenTo zeros
          _ ≤ tenTo more * tenTo zeros :=
            Nat.mul_le_mul_right _ (Nat.pow_le_pow_left (by decide) more)
          _ = tenTo 673 := by rw [← tenTo_add, isMore]
          _ ≤ Nat.pow 5 fullPlaces := few
          _ ≤ Binary64.units magnitude * Nat.pow 5 fullPlaces := Nat.le_mul_of_pos_left _ isPositive
          _ = coefficient * tenTo zeros := isExact.symm
      have isLog := (Nat.le_log2 isSome.ne').mpr
        (Nat.le_of_mul_le_mul_right least (tenTo_pos zeros))
      omega
  have rounded := fun denominator isPositive => @Binary64.nearestMagnitude_exact
    coefficient denominator magnitude isPositive isFinite
  unfold scale
  rw [if_neg isSome.ne', if_neg (by omega), if_neg (by omega)]
  split
  · have isWhole : places = 0 := by omega
    subst isWhole
    rw [← rounded 1 (by decide) isUnits]
    exact congrArg _ (congrArg (Binary64.nearestMagnitude · 1) (Nat.mul_one coefficient))
  · rw [Int.neg_neg, Int.toNat_natCast,
      rounded (tenTo places) (Nat.pow_pos (by decide)) isUnits]

/-- A numeral that reads back with the sign of a number is read as its magnitude with any sign. -/
theorem Numeral.readDigits?_of_readsBack {numeral : Numeral} {number : Binary64}
    (readsBack : readsBack number numeral.text) (negative : Bool) :
    readDigits? negative numeral.text = some (.ofMagnitude negative number.magnitude) := by
  have isRead := of_decide_eq_true readsBack
  rw [numeral.read?_signed, numeral.readDigits?_text] at isRead
  obtain ⟨magnitude, isMagnitude, scaled⟩ :=
    exists_scale numeral.coefficient (-numeral.fraction.length)
  rw [scaled] at isRead
  have same := @Binary64.magnitude_ofMagnitude number.isNegative magnitude
    (Nat.lt_of_le_of_lt isMagnitude Binary64.infiniteMagnitude_lt)
  rw [Option.some.inj isRead] at same
  rw [numeral.readDigits?_text, scaled, same]

/-- The forms next to a value are positional. -/
theorem exists_of_mem_neighbours {expansion dropped : Nat} {characters : List Char}
    (isNeighbour : characters ∈ neighbours expansion dropped) :
    ∃ coefficient places, characters = positional coefficient places := by
  unfold neighbours at isNeighbour
  dsimp only at isNeighbour
  split at isNeighbour
  all_goals
    simp only [List.mem_cons, List.not_mem_nil, or_false] at isNeighbour
    rcases isNeighbour with rfl | rfl
    all_goals exact ⟨_, _, rfl⟩

/-- The digits of a finite number above zero are a numeral that is read as its magnitude. -/
theorem exists_shortest {number : Binary64}
    (isFinite : number.magnitude < Binary64.infiniteMagnitude)
    (isPositive : 0 < number.magnitude) : ∃ numeral : Numeral,
      shortest number = numeral.text ∧ ∀ negative,
        readDigits? negative numeral.text = some (.ofMagnitude negative number.magnitude) := by
  unfold shortest
  cases isSearch : found? number with
  | some characters =>
      obtain ⟨more, _, isFound⟩ := List.exists_of_findSome?_eq_some isSearch
      obtain ⟨coefficient, places, isForm⟩ :=
        exists_of_mem_neighbours (List.mem_of_find?_eq_some isFound)
      obtain ⟨numeral, zeros, isNumeral, _, _⟩ := exists_positional coefficient places
      have isText := isForm.trans isNumeral
      have isBack := List.find?_some isFound
      rw [isText] at isBack
      rw [Option.getD_some]
      exact ⟨numeral, isText, numeral.readDigits?_of_readsBack isBack⟩
  | none =>
      obtain ⟨numeral, zeros, isNumeral, isPlaces, isExact⟩ :=
        exists_positional (Binary64.units number.magnitude * Nat.pow 5 fullPlaces) fullPlaces
      rw [Option.getD_none]
      refine ⟨numeral, isNumeral, fun negative => ?_⟩
      rw [numeral.readDigits?_text]
      exact congrArg some (scale_exact negative (Nat.le_of_lt isFinite)
        (Binary64.units_pos isPositive) isPlaces isExact)

/-- A finite number is written as its sign and a numeral that is read as its magnitude. -/
theorem exists_write (infinity : String) {number : Binary64} (isNumber : number.isNaN = false)
    (isFinite : number.isInfinite = false) : ∃ numeral : Numeral,
      write infinity number = String.ofList (signed number.isNegative numeral.text) ∧
        ∀ negative, readDigits? negative numeral.text =
          some (.ofMagnitude negative number.magnitude) := by
  have isNumber := of_decide_eq_false isNumber
  have isFinite := of_decide_eq_false isFinite
  unfold write
  by_cases isZero : number.magnitude = 0
  · refine ⟨.zero, by simp [*, Numeral.text, Numeral.zero], fun negative => ?_⟩
    rw [isZero]
    rfl
  · obtain ⟨numeral, isText, isRead⟩ := @exists_shortest number (by omega) (by omega)
    exact ⟨numeral, by simp [*], isRead⟩

/-- A number is read back from its text, whatever word infinity is written as. -/
theorem read?_write_of_words {infinity : String} {number : Binary64}
    (words : ∀ negative, read? (signed negative infinity.toList) =
      some (.ofMagnitude negative Binary64.infiniteMagnitude)) (isNumber : number.isNaN = false) :
    read? (write infinity number).toList = some number := by
  cases isFinite : number.isInfinite with
  | false =>
      obtain ⟨numeral, isWritten, isRead⟩ := exists_write infinity isNumber isFinite
      rw [isWritten, String.toList_ofList, numeral.read?_signed, isRead,
        Binary64.ofMagnitude_magnitude]
  | true =>
      have isInfinite : number.magnitude = Binary64.infiniteMagnitude := of_decide_eq_true isFinite
      unfold write
      rw [isNumber, isFinite, if_neg Bool.false_ne_true, if_pos rfl, String.toList_ofList, words,
        ← isInfinite, Binary64.ofMagnitude_magnitude]

/-- A number is read back from its text. -/
theorem read?_write {number : Binary64} (isNumber : number.isNaN = false) :
    read? (write "Infinity" number).toList = some number :=
  read?_write_of_words (by decide +kernel) isNumber

end Decimal

end SprigCompiler
