import HostPorts.Timestamp

/-!
Written instants are read back. Each part of an instant is taken off the front of a text and leaves
the rest; the exact form gives back every instant, and the form to the whole second every one that
has no fraction.
-/
namespace HostPorts.Timestamp

variable {width n : Nat} {rest : List Char}

theorem digit_of_mem_padded {c : Char} (member : c ∈ padded width n) : c.isDigit = true := by
  rcases List.mem_append.mp member with zero | digit
  · rw [List.eq_of_mem_replicate zero]
    decide
  · exact Nat.isDigit_of_mem_toDigits (by decide) (by decide) digit

theorem padded_ne_nil (width n : Nat) : padded width n ≠ [] := by simp [padded, Nat.toDigits_ne_nil]

theorem digitsValue_padded : digitsValue (padded width n) = n := by
  have zeros : ∀ k, (List.replicate k '0').foldl (fun n c => 10 * n + (c.toNat - '0'.toNat)) 0 =
      0 := by
    intro k
    induction k with
    | zero => rfl
    | succ k ih => exact ih
  rw [digitsValue, padded, List.foldl_append, zeros]
  exact Nat.ofDigitChars_ten_toDigits

theorem length_padded (positive : 0 < width) (fits : n < Nat.pow 10 width) :
    (padded width n).length = width := by
  have short := (Nat.length_toDigits_le_iff (by decide : 1 < 10) positive).mpr fits
  rw [padded, List.length_append, List.length_replicate]
  omega

theorem isBlank_of_isDigit {c : Char} (digit : c.isDigit = true) : Text.isBlank c = false := by
  have range : 48 ≤ c.toNat ∧ c.toNat ≤ 57 := by
    simp only [Char.isDigit, Bool.and_eq_true, decide_eq_true_eq, UInt32.le_iff_toNat_le] at digit
    exact digit
  simp only [Text.isBlank, Bool.or_eq_false_iff, Bool.and_eq_false_iff, decide_eq_false_iff_not]
  omega

theorem dropBlank_padded : Text.dropBlank (padded width n ++ rest) = padded width n ++ rest := by
  obtain ⟨c, cs, is⟩ := List.exists_cons_of_ne_nil (padded_ne_nil width n)
  have digit : c.isDigit = true := digit_of_mem_padded (by rw [is]; exact List.mem_cons_self)
  rw [is, List.cons_append, Text.dropBlank, List.dropWhile_cons_of_neg]
  simp [isBlank_of_isDigit digit]

theorem takeField_padded (rest : List Char) (positive : 0 < width) (fits : n < Nat.pow 10 width) :
    takeField width (padded width n ++ rest) = some (n, rest) := by
  have length := length_padded positive fits
  have digits : ((padded width n ++ rest).take width).takeWhile Char.isDigit = padded width n := by
    rw [List.take_left' length]
    have all : ∀ c ∈ padded width n, c.isDigit = true := fun c member => digit_of_mem_padded member
    rw [← List.append_nil (padded width n), List.takeWhile_append_of_pos all, List.takeWhile_nil]
  have some_ : (padded width n).isEmpty = false := by simp [padded_ne_nil]
  simp only [takeField, dropBlank_padded, digits, some_, digitsValue_padded, List.drop_left]
  rfl

theorem takeWhile_padded {c : Char} (stop : c.isDigit = false) :
    (padded width n ++ c :: rest).takeWhile Char.isDigit = padded width n := by
  rw [List.takeWhile_append_of_pos fun c member => digit_of_mem_padded member,
    List.takeWhile_cons_of_neg (by simp [stop]), List.append_nil]

theorem takeYear_renderYear (year : Int) (rest : List Char) {c : Char} (stop : c.isDigit = false) :
    takeYear (renderYear year ++ c :: rest) = some (year, c :: rest) := by
  have some_ : (padded 4 year.natAbs).isEmpty = false := by simp [padded_ne_nil]
  unfold renderYear
  split
  next within =>
    obtain ⟨d, ds, is⟩ := List.exists_cons_of_ne_nil
      (padded_ne_nil 4 year.toNat)
    have digit : d.isDigit = true := digit_of_mem_padded (by rw [is]; exact List.mem_cons_self)
    have field : takeField 4 (padded 4 year.toNat ++ c :: rest) = some (year.toNat, c :: rest) :=
      takeField_padded _ (by decide) (show _ < 10000 by omega)
    have same : (year.toNat : Int) = year := by omega
    rw [takeYear, dropBlank_padded]
    split
    next rest' minus =>
      rw [is] at minus
      cases minus
      contradiction
    next rest' plus =>
      rw [is] at plus
      cases plus
      contradiction
    next =>
      rw [field]
      simp [same]
  next beyond =>
    split
    next negative =>
      have same : -(year.natAbs : Int) = year := by omega
      rw [List.cons_append, takeYear]
      change takeYear.signed _ _ = _
      simp only [takeYear.signed, takeWhile_padded stop, some_, digitsValue_padded, same,
        List.drop_left]
      rfl
    next positive =>
      have same : (year.natAbs : Int) = year := by omega
      rw [List.cons_append, takeYear]
      change takeYear.signed _ _ = _
      simp only [takeYear.signed, takeWhile_padded stop, some_, digitsValue_padded, same,
        List.drop_left]
      rfl

theorem takeFraction_renderFraction {nano : Nat} (below : nano < 1000000000) {c : Char}
    (point : c ≠ '.') (stop : c.isDigit = false) :
    takeFraction (renderFraction nano ++ c :: rest) = some (nano, c :: rest) := by
  have digits : ∀ w x, 0 < w → w ≤ 9 → x < Nat.pow 10 w →
      takeFraction ('.' :: padded w x ++ c :: rest) = some (x * Nat.pow 10 (9 - w), c :: rest) := by
    intro w x positive short fits
    have length := length_padded positive fits
    have some_ : (padded w x).isEmpty = false := by simp [padded_ne_nil]
    have nine : (padded w x).take 9 = padded w x := List.take_of_length_le (by omega)
    simp only [List.cons_append, takeFraction, takeWhile_padded stop, some_, nine, length,
      digitsValue_padded, List.drop_left' length]
    rfl
  unfold renderFraction
  split
  next whole =>
    rw [whole, List.nil_append, takeFraction]
    exact fun rest' is => point (List.cons.inj is).1
  next =>
    split
    next milli =>
      rw [digits 3 _ (by decide) (by decide) (show _ < 1000 by omega)]
      have same : nano / 1000000 * 1000000 = nano := by omega
      exact congrArg (fun n => some (n, c :: rest)) same
    next =>
      split
      next micro =>
        rw [digits 6 _ (by decide) (by decide) (show _ < 1000000 by omega)]
        have same : nano / 1000 * 1000 = nano := by omega
        exact congrArg (fun n => some (n, c :: rest)) same
      next =>
        rw [digits 9 _ (by decide) (by decide) (show _ < 1000000000 by omega)]
        exact congrArg (fun n => some (n, c :: rest)) (Nat.mul_one nano)

theorem takeChar_cons (c : Char) (rest : List Char) (solid : Text.isBlank c = false) :
    takeChar c (c :: rest) = some rest := by
  simp [takeChar, Text.dropBlank, solid]

theorem back_zero (m : Moment) (valid : m.Valid) : m.back 0 = m := by
  obtain ⟨_, _, _, _, _, _, hour, minute, _⟩ := valid
  have total : ¬ (60 * m.hour + m.minute : Int) < 0 ∧ ¬ 1440 ≤ (60 * m.hour + m.minute : Int) := by
    omega
  have hours : (60 * m.hour + m.minute : Int).toNat / 60 = m.hour := by omega
  have minutes : (60 * m.hour + m.minute : Int).toNat % 60 = m.minute := by omega
  simp only [Moment.back, Int.sub_zero, total, if_false, hours, minutes]

theorem check_valid (t : Timestamp) : t.moment.check = some t := dif_pos t.valid

theorem read_renderFields {t : Timestamp} {tail : List Char}
    (fraction : takeFraction (tail ++ ['Z']) = some (t.moment.nano, ['Z'])) :
    read? (String.ofList (renderFields t.moment ++ (tail ++ ['Z']))) = some t := by
  obtain ⟨_, _, _, month, _, day, hour, minute, second, _⟩ := t.valid
  have days : t.moment.day < 100 := by
    have long : daysInMonth t.moment.year t.moment.month ≤ 31 := by
      unfold daysInMonth
      split
      · split <;> decide
      all_goals decide
    omega
  have text : renderFields t.moment ++ (tail ++ ['Z']) =
      renderYear t.moment.year ++ '-' :: (padded 2 t.moment.month ++ '-' ::
        (padded 2 t.moment.day ++ 'T' :: (padded 2 t.moment.hour ++ ':' ::
          (padded 2 t.moment.minute ++ ':' :: (padded 2 t.moment.second ++
            (tail ++ ['Z'])))))) := by
    simp only [renderFields, List.append_assoc, List.cons_append]
  have field {n : Nat} (rest : List Char) (fits : n < 100) :
      takeField 2 (padded 2 n ++ rest) = some (n, rest) := takeField_padded rest (by decide) fits
  have dash (rest : List Char) := takeChar_cons '-' rest (by decide)
  have colon (rest : List Char) := takeChar_cons ':' rest (by decide)
  rw [read?, String.toList_ofList, text]
  refine Option.bind_eq_some_iff.mpr ⟨_, takeYear_renderYear _ _ (by decide), ?_⟩
  refine Option.bind_eq_some_iff.mpr ⟨_, dash _, ?_⟩
  refine Option.bind_eq_some_iff.mpr ⟨_, field _ (by omega), ?_⟩
  refine Option.bind_eq_some_iff.mpr ⟨_, dash _, ?_⟩
  refine Option.bind_eq_some_iff.mpr ⟨_, field _ days, ?_⟩
  refine Option.bind_eq_some_iff.mpr ⟨_, rfl, ?_⟩
  refine Option.bind_eq_some_iff.mpr ⟨_, field _ (by omega), ?_⟩
  refine Option.bind_eq_some_iff.mpr ⟨_, colon _, ?_⟩
  refine Option.bind_eq_some_iff.mpr ⟨_, field _ (by omega), ?_⟩
  refine Option.bind_eq_some_iff.mpr ⟨_, colon _, ?_⟩
  refine Option.bind_eq_some_iff.mpr ⟨_, field _ (by omega), ?_⟩
  refine Option.bind_eq_some_iff.mpr ⟨_, fraction, ?_⟩
  refine Option.bind_eq_some_iff.mpr ⟨(0, []), rfl, ?_⟩
  refine (if_pos rfl).trans (Option.bind_eq_some_iff.mpr ⟨t, check_valid t, ?_⟩)
  rw [back_zero _ t.valid]
  exact check_valid t

theorem read_renderExact (t : Timestamp) : read? t.renderExact = some t := by
  obtain ⟨_, _, _, _, _, _, _, _, _, nano⟩ := t.valid
  rw [renderExact, List.append_assoc]
  exact read_renderFields (takeFraction_renderFraction nano (by decide) (by decide))

theorem read_renderSeconds {t : Timestamp} (whole : t.moment.nano = 0) :
    read? t.renderSeconds = some t := by
  have fraction : takeFraction ([] ++ ['Z']) = some (t.moment.nano, ['Z']) := by
    rw [whole]
    rfl
  have read := read_renderFields fraction
  rwa [List.nil_append] at read

end HostPorts.Timestamp
