import TickerBoard.Json.Decode
import TickerBoard.Proofs.Calendar.DayText

/-! The numerals of JSON texts, read back.

A numeral ends where nothing goes on with it, so what is read of one alone is
read of it in front of any such text (`Written.takeNumeral_append`). The digits
of an integer have no zero in front and pack into its word, so an integer of 64
bits is read as itself (`read?_ofInt`, `takeNumeral_int`). -/
namespace TickerBoard.Json
open Calendar (StopsDigits)

/-! ### Numerals in front of a text -/

/-- What follows does not go on with a numeral. -/
def Stops (rest : List Char) : Prop :=
  ∀ c ∈ rest.head?, c.isDigit = false ∧ c ≠ '.' ∧ c ≠ 'e' ∧ c ≠ 'E'

theorem Stops.digits {rest : List Char} (h : Stops rest) : StopsDigits rest := fun c hc => (h c hc).1

theorem stops_nil : Stops [] := fun _ h => by cases h

theorem stops_cons {c : Char} {rest : List Char} (h : c.isDigit = false ∧ c ≠ '.' ∧ c ≠ 'e' ∧ c ≠ 'E') :
    Stops (c :: rest) := by
  intro d hd
  obtain rfl := Option.some.inj hd
  exact h

namespace Written

theorem takeDigits_append {cs ds rest : List Char} {values : List Nat} (h : takeDigits cs = (values, ds))
    (stop : StopsDigits rest) :
    takeDigits (cs ++ rest) = (values, ds ++ rest) := by
  obtain ⟨rfl, rfl⟩ := Prod.mk.inj h
  have digits : ∀ c ∈ cs.takeWhile Char.isDigit, c.isDigit = true := fun c hc => List.mem_takeWhile_imp hc
  have stops : StopsDigits (cs.dropWhile Char.isDigit ++ rest) := by
    intro c hc
    have front := List.head?_dropWhile_not Char.isDigit cs
    cases left : cs.dropWhile Char.isDigit with
    | nil =>
      rw [left] at hc
      exact stop c hc
    | cons d more =>
      rw [left] at front hc
      obtain rfl := Option.some.inj hc
      simpa using front
  have split : cs ++ rest = cs.takeWhile Char.isDigit ++ (cs.dropWhile Char.isDigit ++ rest) := by
    rw [← List.append_assoc, List.takeWhile_append_dropWhile]
  rw [takeDigits, split, Calendar.takeWhile_digits digits stops, Calendar.dropWhile_digits digits stops]

theorem takeDecimals_none {cs : List Char} (h : '.' ∉ cs.head?) : takeDecimals cs = some (none, cs) := by
  unfold takeDecimals
  split
  · exact absurd rfl h
  · rfl

theorem takeDecimals_cons {cs left : List Char} {d : Nat} {ds : List Nat} (h : takeDigits cs = (d :: ds, left)) :
    takeDecimals ('.' :: cs) = some (some (d :: ds), left) := by
  simp only [takeDecimals, h]

theorem takeDecimals_append {cs left rest : List Char} {decimals : Option (List Nat)}
    (h : takeDecimals cs = some (decimals, left)) (stop : Stops rest) :
    takeDecimals (cs ++ rest) = some (decimals, left ++ rest) := by
  by_cases point : '.' ∈ cs.head?
  · obtain ⟨more, rfl⟩ := List.head?_eq_some_iff.mp point
    simp only [List.cons_append, takeDecimals] at h ⊢
    cases taken : takeDigits more with
    | mk values ds =>
      rw [taken] at h
      rw [takeDigits_append taken stop.digits]
      cases values with
      | nil => cases h
      | cons v vs =>
        obtain ⟨rfl, rfl⟩ := Prod.mk.inj (Option.some.inj h)
        rfl
  · rw [takeDecimals_none point] at h
    obtain ⟨rfl, rfl⟩ := Prod.mk.inj (Option.some.inj h)
    refine takeDecimals_none fun hc => ?_
    rw [List.head?_append] at hc
    cases cs with
    | nil => exact (stop _ hc).2.1 rfl
    | cons c more => exact point hc

/-- The digits of an exponent, of which there must be one. -/
def exponentDigits (down : Bool) (cs : List Char) : Option (Option (Bool × List Nat) × List Char) :=
  match takeDigits cs with
  | ([], _) => none
  | (ds, rest) => some (some (down, ds), rest)

theorem exponentDigits_append {down : Bool} {cs left rest : List Char} {exponent : Option (Bool × List Nat)}
    (h : exponentDigits down cs = some (exponent, left)) (stop : Stops rest) :
    exponentDigits down (cs ++ rest) = some (exponent, left ++ rest) := by
  rw [exponentDigits] at h ⊢
  cases taken : takeDigits cs with
  | mk values ds =>
    rw [taken] at h
    rw [takeDigits_append taken stop.digits]
    cases values with
    | nil => cases h
    | cons v vs =>
      obtain ⟨rfl, rfl⟩ := Prod.mk.inj (Option.some.inj h)
      rfl

theorem takeExponent_none {cs : List Char} (h : ∀ c ∈ cs.head?, c ≠ 'e' ∧ c ≠ 'E') : takeExponent cs = some (none, cs) := by
  cases cs with
  | nil => rfl
  | cons c more =>
    obtain ⟨small, large⟩ := h c rfl
    simp [takeExponent, small, large]

/-- What follows the mark of an exponent. -/
def signedExponent : List Char → Option (Option (Bool × List Nat) × List Char)
  | '-' :: ds => exponentDigits true ds
  | '+' :: ds => exponentDigits false ds
  | cs => exponentDigits false cs

theorem signedExponent_plain {c : Char} (minus : c ≠ '-') (plus : c ≠ '+') (more : List Char) :
    signedExponent (c :: more) = exponentDigits false (c :: more) := by
  rw [signedExponent] <;> intro _ same <;> cases same
  · exact minus rfl
  · exact plus rfl

theorem signedExponent_append {cs left rest : List Char} {exponent : Option (Bool × List Nat)}
    (h : signedExponent cs = some (exponent, left)) (stop : Stops rest) :
    signedExponent (cs ++ rest) = some (exponent, left ++ rest) := by
  cases cs with
  | nil => cases h
  | cons c ds =>
    by_cases sign : c = '-' ∨ c = '+'
    · rcases sign with rfl | rfl <;> exact exponentDigits_append h stop
    · obtain ⟨minus, plus⟩ := not_or.mp sign
      rw [signedExponent_plain minus plus] at h
      rw [List.cons_append, signedExponent_plain minus plus, ← List.cons_append]
      exact exponentDigits_append h stop

theorem takeExponent_cons {c : Char} (h : c = 'e' ∨ c = 'E') (more : List Char) :
    takeExponent (c :: more) = signedExponent more := by
  have mark : (c == 'e' || c == 'E') = true := by simpa using h
  unfold takeExponent
  simp only [mark, if_true]
  split
  · rfl
  · rfl
  · rename_i minus plus
    rw [signedExponent]
    · rfl
    · exact minus
    · exact plus

theorem takeExponent_append {cs left rest : List Char} {exponent : Option (Bool × List Nat)}
    (h : takeExponent cs = some (exponent, left)) (stop : Stops rest) :
    takeExponent (cs ++ rest) = some (exponent, left ++ rest) := by
  by_cases mark : ∃ c ∈ cs.head?, c = 'e' ∨ c = 'E'
  · obtain ⟨c, first, mark⟩ := mark
    obtain ⟨more, rfl⟩ := List.head?_eq_some_iff.mp first
    rw [takeExponent_cons mark] at h
    rw [List.cons_append, takeExponent_cons mark]
    exact signedExponent_append h stop
  · have unmarked : ∀ c ∈ cs.head?, c ≠ 'e' ∧ c ≠ 'E' := fun c hc => not_or.mp fun he => mark ⟨c, hc, he⟩
    rw [takeExponent_none unmarked] at h
    obtain ⟨rfl, rfl⟩ := Prod.mk.inj (Option.some.inj h)
    refine takeExponent_none fun c hc => ?_
    cases cs with
    | nil => exact ⟨(stop c hc).2.2.1, (stop c hc).2.2.2⟩
    | cons c more => exact unmarked _ hc

/-- Digits in front of the point: one, or some of which the first is not zero. -/
def isWhole : List Nat → Bool
  | [] => false
  | 0 :: _ :: _ => false
  | _ => true

/-- A numeral behind its sign. -/
def unsignedNumeral (negative : Bool) (cs : List Char) : Option (Numeral × List Char) :=
  if isWhole (takeDigits cs).1 then do
    let (decimals, rest) ← takeDecimals (takeDigits cs).2
    let (exponent, rest) ← takeExponent rest
    pure (⟨negative, (takeDigits cs).1, decimals, exponent⟩, rest)
  else none

theorem unsignedNumeral_eq (negative : Bool) (cs : List Char) :
    unsignedNumeral negative cs = match takeDigits cs with
      | ([], _) => none
      | (0 :: _ :: _, _) => none
      | (ds, rest) => (takeDecimals rest).bind fun (decimals, rest) =>
        (takeExponent rest).bind fun (exponent, rest) => some (⟨negative, ds, decimals, exponent⟩, rest) := by
  unfold unsignedNumeral
  cases takeDigits cs with
  | mk values ds =>
    match values with
    | [] => rfl
    | [0] | [_ + 1] => rfl
    | 0 :: _ :: _ | (_ + 1) :: _ :: _ => rfl

theorem takeNumeral_minus (cs : List Char) : takeNumeral ('-' :: cs) = unsignedNumeral true cs := by
  rw [unsignedNumeral_eq]
  rfl

theorem takeNumeral_plain {cs : List Char} (h : '-' ∉ cs.head?) : takeNumeral cs = unsignedNumeral false cs := by
  rw [unsignedNumeral_eq]
  cases cs with
  | nil => rfl
  | cons c more =>
    have plain : c ≠ '-' := fun same => h (congrArg some same)
    unfold takeNumeral
    split
    rename_i negative rest sign
    split at sign
    · rename_i minus
      exact absurd (List.cons.inj minus).1 plain
    · obtain ⟨rfl, rfl⟩ := Prod.mk.inj sign
      rfl

theorem unsignedNumeral_append {negative : Bool} {cs left rest : List Char} {n : Numeral}
    (h : unsignedNumeral negative cs = some (n, left)) (stop : Stops rest) :
    unsignedNumeral negative (cs ++ rest) = some (n, left ++ rest) := by
  cases taken : takeDigits cs with
  | mk values ds =>
    rw [unsignedNumeral, taken] at h
    rw [unsignedNumeral, takeDigits_append taken stop.digits]
    split at h
    · simp only [Option.bind_eq_bind, Option.bind_eq_some_iff, Prod.exists] at h
      obtain ⟨decimals, behind, decimal, exponent, behind', power, made⟩ := h
      obtain ⟨rfl, rfl⟩ := Prod.mk.inj (Option.some.inj made)
      simp [*, takeDecimals_append decimal stop, takeExponent_append power stop]
    · cases h

/-- A numeral is read in front of whatever does not go on with it. -/
theorem takeNumeral_append {cs left rest : List Char} {n : Numeral} (h : takeNumeral cs = some (n, left))
    (stop : Stops rest) :
    takeNumeral (cs ++ rest) = some (n, left ++ rest) := by
  by_cases minus : '-' ∈ cs.head?
  · obtain ⟨more, rfl⟩ := List.head?_eq_some_iff.mp minus
    rw [takeNumeral_minus] at h
    rw [List.cons_append, takeNumeral_minus]
    exact unsignedNumeral_append h stop
  · cases cs with
    | nil => cases h
    | cons c more =>
      rw [takeNumeral_plain minus] at h
      rw [takeNumeral_plain (by simpa using minus)]
      exact unsignedNumeral_append h stop

end Written

/-! ### Integers -/

theorem isDigit_toDigits (n : Nat) : ∀ c ∈ Nat.toDigits 10 n, c.isDigit = true :=
  fun _ => Nat.isDigit_of_mem_toDigits (by decide) (by decide)

theorem head_toDigits {n : Nat} (h : 10 ≤ n) : '0' ∉ (Nat.toDigits 10 n).head? := by
  induction n using Nat.strongRecOn with
  | ind n ih =>
    rw [Nat.toDigits_of_base_le (by decide) h]
    by_cases small : n / 10 < 10
    · rw [Nat.toDigits_of_lt_base small]
      intro zero
      have := Nat.digitChar_eq_zero.mp (Option.some.inj zero)
      omega
    · have first := ih (n / 10) (by omega) (by omega)
      cases digits : Nat.toDigits 10 (n / 10) with
      | nil => exact absurd digits Nat.toDigits_ne_nil
      | cons c more =>
        rw [digits] at first
        exact first

/-- The values of the digits of a number. -/
def digitsOf (n : Nat) : List Nat := (Nat.toDigits 10 n).map (·.toNat - 48)

theorem takeDigits_toDigits (n : Nat) : Written.takeDigits (Nat.toDigits 10 n) = (digitsOf n, []) := by
  rw [Written.takeDigits, List.takeWhile_eq_self_iff.mpr (isDigit_toDigits n),
    List.dropWhile_eq_nil_iff.mpr (isDigit_toDigits n)]
  rfl

theorem isWhole_digitsOf (n : Nat) : Written.isWhole (digitsOf n) = true := by
  by_cases small : n < 10
  · rw [digitsOf, Nat.toDigits_of_lt_base small, List.map_singleton]
    cases n.digitChar.toNat - 48 <;> rfl
  · have first := head_toDigits (Nat.le_of_not_lt small)
    have digits := isDigit_toDigits n
    rw [digitsOf]
    cases written : Nat.toDigits 10 n with
    | nil => exact absurd written Nat.toDigits_ne_nil
    | cons c more =>
      rw [written] at first digits
      have digit := digits c (List.mem_cons_self ..)
      have nonzero : c.toNat - 48 ≠ 0 := by
        intro zero
        have low : 48 ≤ c.toNat := (Char.isDigit_iff_toNat.mp digit).1
        exact first (congrArg some (Char.toNat_inj.mp (show c.toNat = '0'.toNat by simp; omega)))
      rw [List.map_cons]
      cases value : c.toNat - 48 with
      | zero => exact absurd value nonzero
      | succ k => rfl

theorem le_foldl_digits (word : Nat) (ds : List Nat) : word ≤ ds.foldl (fun w d => w * 10 + d) word := by
  induction ds generalizing word with
  | nil => exact Nat.le_refl _
  | cons d rest ih =>
    have := ih (word * 10 + d)
    rw [List.foldl_cons]
    omega

theorem packDigits_eq {word : Nat} {ds : List Nat} (h : ds.foldl (fun w d => w * 10 + d) word < Word.size 64) :
    packDigits word ds = (ds.foldl (fun w d => w * 10 + d) word, []) := by
  induction ds generalizing word with
  | nil => rfl
  | cons d rest ih =>
    rw [List.foldl_cons] at h ⊢
    rw [packDigits, if_pos (Nat.lt_of_le_of_lt (le_foldl_digits _ _) h), ih h]

theorem foldl_digitsOf (n : Nat) : (digitsOf n).foldl (fun w d => w * 10 + d) 0 = n := by
  have read := Nat.ofDigitChars_toDigits (b := 10) (n := n) (by decide) (by decide)
  rw [Nat.ofDigitChars_eq_foldl] at read
  rw [digitsOf, List.foldl_map]
  simpa [Nat.mul_comm] using read

/-- The numeral of an integer. -/
def Numeral.ofInt (n : Int) : Numeral := ⟨n < 0, digitsOf n.natAbs, none, none⟩

theorem read?_ofInt {n : Int} (low : Word.least 64 ≤ n) (high : n < Word.size 64) :
    (Numeral.ofInt n).read? = some (.int n) := by
  have word : Word.size 64 = 18446744073709551616 := rfl
  have half : Word.size 63 = 9223372036854775808 := rfl
  have least : Word.least 64 = -9223372036854775808 := rfl
  have packed : packDigits 0 (digitsOf n.natAbs) = (n.natAbs, []) := by
    have value := foldl_digitsOf n.natAbs
    rw [packDigits_eq (by omega), value]
  by_cases negative : n < 0
  · have inside : ¬ (n.natAbs == 0 || decide (Word.size 63 < n.natAbs)) = true := by
      simp only [Bool.or_eq_true, beq_iff_eq, decide_eq_true_eq]
      omega
    have value : -(n.natAbs : Int) = n := by omega
    rw [Numeral.ofInt, Numeral.read?, packed]
    simp only [negative, inside, decide_true, Bool.not_true, Bool.false_eq_true, if_false, value]
  · have value : (n.natAbs : Int) = n := by omega
    rw [Numeral.ofInt, Numeral.read?, packed]
    simp only [negative, decide_false, Bool.not_false, if_true, value]

theorem takeNumeral_int (n : Int) :
    Written.takeNumeral (Number.text (.int n)).toList = some (Numeral.ofInt n, []) := by
  have digits : ∀ negative n, Written.unsignedNumeral negative (Nat.toDigits 10 n) =
      some (⟨negative, digitsOf n, none, none⟩, []) := by
    intro negative n
    rw [Written.unsignedNumeral, takeDigits_toDigits, if_pos (isWhole_digitsOf n)]
    rfl
  cases n with
  | ofNat n =>
    have text : (Number.text (.int (.ofNat n))).toList = Nat.toDigits 10 n := by
      show (Nat.repr n).toList = _
      rw [Nat.repr_eq_ofList_toDigits, String.toList_ofList]
    have no_sign : '-' ∉ (Nat.toDigits 10 n).head? := fun h => by
      cases isDigit_toDigits n '-' (List.mem_of_mem_head? h)
    rw [text, Written.takeNumeral_plain no_sign, digits]
    rfl
  | negSucc n =>
    have text : (Number.text (.int (.negSucc n))).toList = '-' :: Nat.toDigits 10 (n + 1) := by
      show ("-" ++ Nat.repr (n + 1)).toList = _
      simp [Nat.repr_eq_ofList_toDigits]
    have negative : decide (Int.negSucc n < 0) = true := decide_eq_true (Int.negSucc_lt_zero n)
    rw [text, Written.takeNumeral_minus, digits, Numeral.ofInt, negative]
    rfl

end TickerBoard.Json
