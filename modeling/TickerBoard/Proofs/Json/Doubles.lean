import TickerBoard.Proofs.Json.Reading
import TickerBoard.Proofs.Json.Scaling

/-! Doubles in JSON texts, read back.

Wherever the point of a decimal stands, and with or without an exponent, its text
is a numeral of the same digits and the same power of ten; a whole decimal may
have more zeros (`Decimal.layout_value`). The word and the power of a double's
shortest decimal are in the range of the doubles, so what is read is finite too
(`legible`). -/
namespace TickerBoard.Json
open Calendar (StopsDigits)

/-! ### Numerals by their parts -/

/-- An unsigned numeral: digits before and behind the point, of which the latter may be missing
with it, and an exponent. -/
structure Layout where
  whole : List Char
  decimals : List Char
  power : Option Int

namespace Layout

/-- The decimals behind their point, which does not stand alone. -/
def point : List Char → List Char
  | [] => []
  | ds => '.' :: ds

theorem point_of_ne {ds : List Char} (h : ds ≠ []) : point ds = '.' :: ds := by
  cases ds with
  | nil => exact absurd rfl h
  | cons => rfl

/-- An exponent behind its mark. -/
def mark : Option Int → List Char
  | none => []
  | some e => 'e' :: (if e < 0 then ['-'] else []) ++ Nat.toDigits 10 e.natAbs

def text (l : Layout) : List Char := l.whole ++ (point l.decimals ++ mark l.power)

def values (cs : List Char) : List Nat := cs.map (·.toNat - 48)

def numeral (l : Layout) (negative : Bool) : Numeral :=
  ⟨negative, values l.whole, if l.decimals = [] then none else some (values l.decimals),
    l.power.map fun e => (decide (e < 0), digitsOf e.natAbs)⟩

/-- All digits, without the point. -/
def word (l : Layout) : Nat := Nat.ofDigitChars 10 (l.whole ++ l.decimals) 0

/-- The power of ten of the last digit. -/
def exponent (l : Layout) : Int := l.power.getD 0 - l.decimals.length

/-- A numeral that is no integer. -/
structure Plain (l : Layout) : Prop where
  whole : ∀ c ∈ l.whole, c.isDigit = true
  decimals : ∀ c ∈ l.decimals, c.isDigit = true
  first : Written.isWhole (values l.whole) = true
  double : l.decimals = [] → l.power ≠ none

variable {l : Layout}

theorem takeDigits_append {cs rest : List Char} (digits : ∀ c ∈ cs, c.isDigit = true) (stop : StopsDigits rest) :
    Written.takeDigits (cs ++ rest) = (values cs, rest) := by
  rw [Written.takeDigits, Calendar.takeWhile_digits digits stop, Calendar.dropWhile_digits digits stop, values]

theorem head_mark {power : Option Int} : ∀ c ∈ (mark power).head?, c = 'e' := by
  cases power with
  | none => exact fun c h => by cases h
  | some e => exact fun c h => (Option.some.inj h).symm

theorem takeDecimals_point {ds : List Char} (digits : ∀ c ∈ ds, c.isDigit = true) (power : Option Int) :
    Written.takeDecimals (point ds ++ mark power) = some (if ds = [] then none else some (values ds), mark power) := by
  cases ds with
  | nil => exact Written.takeDecimals_none fun h => absurd (head_mark _ h) (by decide)
  | cons d more =>
    have stop : StopsDigits (mark power) := fun c h => by rw [head_mark c h]; rfl
    exact Written.takeDecimals_cons (takeDigits_append digits stop)

theorem takeExponent_mark (power : Option Int) :
    Written.takeExponent (mark power) = some (power.map fun e => (decide (e < 0), digitsOf e.natAbs), []) := by
  cases power with
  | none => rfl
  | some e =>
    have digits (down : Bool) : Written.exponentDigits down (Nat.toDigits 10 e.natAbs) =
        some (some (down, digitsOf e.natAbs), []) := by
      have some := isWhole_digitsOf e.natAbs
      rw [Written.exponentDigits, takeDigits_toDigits]
      cases written : digitsOf e.natAbs with
      | nil =>
        rw [written] at some
        cases some
      | cons d more => rfl
    rw [mark, List.cons_append, Written.takeExponent_cons (.inl rfl)]
    by_cases down : e < 0
    · rw [if_pos down, Option.map_some, decide_eq_true down, ← digits true]
      rfl
    · rw [if_neg down, Option.map_some, decide_eq_false down, ← digits false, List.nil_append]
      have plain := isDigit_toDigits e.natAbs
      cases written : Nat.toDigits 10 e.natAbs with
      | nil => exact absurd written Nat.toDigits_ne_nil
      | cons c more =>
        have digit := plain c (written ▸ List.mem_cons_self ..)
        refine Written.signedExponent_plain ?_ ?_ more <;> rintro rfl <;> cases digit

theorem Plain.taken (h : l.Plain) (negative : Bool) :
    Written.unsignedNumeral negative l.text = some (l.numeral negative, []) := by
  have stop : StopsDigits (point l.decimals ++ mark l.power) := by
    cases l.decimals with
    | nil => exact fun c h => by rw [head_mark c h]; rfl
    | cons d more =>
      intro c h
      obtain rfl := Option.some.inj h
      rfl
  rw [Written.unsignedNumeral, text, takeDigits_append h.whole stop, if_pos h.first, takeDecimals_point h.decimals]
  show (Written.takeExponent (mark l.power)).bind _ = _
  rw [takeExponent_mark]
  rfl

theorem foldl_values (w : Nat) (cs : List Char) :
    (values cs).foldl (fun w d => w * 10 + d) w = Nat.ofDigitChars 10 cs w := by
  rw [Nat.ofDigitChars_eq_foldl, values, List.foldl_map]
  simp [Nat.mul_comm]

theorem packDigits_values {w : Nat} {cs : List Char} (small : Nat.ofDigitChars 10 cs w < Word.size 64) :
    packDigits w (values cs) = (Nat.ofDigitChars 10 cs w, []) := by
  rw [← foldl_values] at small ⊢
  exact packDigits_eq small

/-- The parts of a numeral whose digits fit into a word. -/
theorem float?_parts {n : Numeral} {front word : Nat} (whole : packDigits 0 n.whole = (front, []))
    (decimals : packDigits front (n.decimals.getD []) = (word, [])) :
    n.float? = match n.exponent with
      | none => (scaled? word (-(n.decimals.getD []).length)).map n.signed
      | some (down, ds) =>
        let e : Nat := ds.foldl (fun e d => 10 * e + d) 0
        if exponentLimit < e then
          if word != 0 && !down then none else some (n.signed 0)
        else (scaled? word (addExponents (-(n.decimals.getD []).length) (if down then -(e : Int) else e))).map n.signed := by
  obtain ⟨negative, ws, ds, exponent⟩ := n
  dsimp only at whole decimals
  cases ds with
  | none =>
    obtain ⟨rfl, -⟩ := Prod.mk.inj decimals
    cases exponent <;> simp [Numeral.float?, whole]
  | some ds =>
    rw [Option.getD_some] at decimals
    cases exponent <;> simp [Numeral.float?, whole, decimals]

/-- The sign and the digits of an exponent, added up. -/
theorem addExponents_eq {e : Int} {count : Nat} (short : e.natAbs ≤ 1000) (few : count ≤ 1000) :
    addExponents (-count) (if decide (e < 0) = true then -(e.natAbs : Int) else e.natAbs) = e - count := by
  rw [addExponents, exponentLimit]
  split <;> rename_i sign <;> simp only [decide_eq_true_eq] at sign <;> omega

theorem float?_numeral (negative : Bool) (small : l.word < Word.size 64) (few : l.decimals.length ≤ 1000)
    (short : (l.power.getD 0).natAbs ≤ 1000) :
    (l.numeral negative).float? = (scaled? l.word l.exponent).map (l.numeral negative).signed := by
  have word : l.word = Nat.ofDigitChars 10 l.decimals (Nat.ofDigitChars 10 l.whole 0) := Nat.ofDigitChars_append 0
  have below : Nat.ofDigitChars 10 l.whole 0 ≤ l.word := by
    rw [word, ← foldl_values _ l.decimals]
    exact le_foldl_digits ..
  have whole : packDigits 0 (l.numeral negative).whole = (Nat.ofDigitChars 10 l.whole 0, []) :=
    packDigits_values (below.trans_lt small)
  have digits : (l.numeral negative).decimals.getD [] = values l.decimals := by
    rw [numeral]
    cases l.decimals <;> rfl
  have decimals : packDigits (Nat.ofDigitChars 10 l.whole 0) ((l.numeral negative).decimals.getD []) = (l.word, []) := by
    rw [digits, word]
    exact packDigits_values (word ▸ small)
  have count : ((l.numeral negative).decimals.getD []).length = l.decimals.length := by rw [digits, values, List.length_map]
  rw [float?_parts whole decimals, count]
  cases same : l.power with
  | none =>
    rw [exponent, same, Option.getD_none, Int.zero_sub, show (l.numeral negative).exponent = none by rw [numeral, same]; rfl]
  | some e =>
    have value : (digitsOf e.natAbs).foldl (fun e d => 10 * e + d) 0 = e.natAbs := by
      simpa [Nat.mul_comm] using foldl_digitsOf e.natAbs
    rw [same, Option.getD_some] at short
    rw [exponent, same, Option.getD_some,
      show (l.numeral negative).exponent = some (decide (e < 0), digitsOf e.natAbs) by rw [numeral, same]; rfl]
    dsimp only
    rw [value, if_neg (by rw [exponentLimit]; omega), addExponents_eq short few]

/-- A numeral with point or exponent means a double. -/
theorem Plain.read (h : l.Plain) (negative : Bool) :
    (Written.numeral (l.numeral negative)).float? = (l.numeral negative).float? := by
  have read : (l.numeral negative).read? = (l.numeral negative).float?.map .float := by
    rw [Numeral.read?]
    split
    · rename_i no_decimals no_exponent _
      have power : l.power = none := Option.map_eq_none_iff.mp no_exponent
      have decimals : l.decimals = [] := by
        by_contra some
        rw [numeral, if_neg some] at no_decimals
        cases no_decimals
      exact absurd power (h.double decimals)
    · rfl
  rw [Written.float?, Written.number?, read]
  cases (l.numeral negative).float? <;> rfl

/-- A numeral that is read as a finite double. -/
structure Moderate (l : Layout) : Prop extends l.Plain where
  small : l.word ≤ 10 ^ 17
  fits : 0 ≤ l.exponent → l.word * 10 ^ l.exponent.toNat ≤ greatest
  few : l.decimals.length ≤ 1000
  short : (l.power.getD 0).natAbs ≤ 1000

theorem isFinite_signed {y : Float} (finite : y.isFinite = true) (n : Numeral) : (n.signed y).isFinite = true := by
  rw [Numeral.signed]
  split
  · exact Double.isFinite_neg finite
  · exact finite

theorem Moderate.read (h : l.Moderate) (negative : Bool) :
    ∃ y, (Written.numeral (l.numeral negative)).float? = some y ∧ y.isFinite = true := by
  obtain ⟨y, scaled, finite⟩ := scaled?_spec h.small h.fits
  refine ⟨(l.numeral negative).signed y, ?_, isFinite_signed finite _⟩
  rw [h.toPlain.read, float?_numeral negative (h.small.trans_lt (by decide)) h.few h.short, scaled, Option.map_some]

theorem Plain.takeNumeral (h : l.Plain) (negative : Bool) :
    Written.takeNumeral ((if negative then ['-'] else []) ++ l.text) = some (l.numeral negative, []) := by
  cases negative with
  | true =>
    rw [if_pos rfl, List.cons_append, Written.takeNumeral_minus]
    exact h.taken true
  | false =>
    have no_sign : '-' ∉ l.text.head? := fun minus => by
      have first := h.first
      rw [text] at minus
      cases front : l.whole with
      | nil =>
        rw [front] at first
        cases first
      | cons c more =>
        rw [front] at minus
        have digit := h.whole c (front ▸ List.mem_cons_self ..)
        obtain rfl := Option.some.inj minus
        cases digit
    rw [if_neg Bool.false_ne_true, List.nil_append, Written.takeNumeral_plain no_sign]
    exact h.taken false

end Layout

/-! ### The text of a decimal -/

theorem isWhole_append {n : Nat} (pos : 0 < n) (more : List Nat) : Written.isWhole (digitsOf n ++ more) = true := by
  have whole := isWhole_digitsOf n
  have value := foldl_digitsOf n
  cases written : digitsOf n with
  | nil =>
    rw [written] at whole
    cases whole
  | cons d rest =>
    rw [written] at whole value
    cases d with
    | succ d => rfl
    | zero =>
      cases rest with
      | nil =>
        obtain rfl : 0 = n := value
        cases pos
      | cons => cases whole

theorem isWhole_take {ds : List Nat} (h : Written.isWhole ds = true) {k : Nat} (some : 0 < k) :
    Written.isWhole (ds.take k) = true := by
  obtain ⟨k, rfl⟩ : ∃ j, k = j + 1 := ⟨k - 1, by omega⟩
  match ds with
  | [] => cases h
  | 0 :: _ :: _ => cases h
  | [0] => rw [List.take_succ_cons, List.take_nil]; rfl
  | (d + 1) :: rest => rfl

namespace Decimal
open Layout

/-- Where the point of a decimal stands. -/
def layout (x : Decimal) : Layout :=
  let ds := Nat.toDigits 10 x.digits
  let front : Int := ds.length + x.exponent
  if 0 ≤ x.exponent && front ≤ 16 then ⟨ds ++ List.replicate x.exponent.toNat '0', ['0'], none⟩
  else if 0 < front && front ≤ 16 then ⟨ds.take front.toNat, ds.drop front.toNat, none⟩
  else if -5 < front && front ≤ 0 then ⟨['0'], List.replicate (-front).toNat '0' ++ ds, none⟩
  else ⟨ds.take 1, ds.drop 1, some (front - 1)⟩

theorem text_layout (x : Decimal) : x.text = x.layout.text := by
  have some : Nat.toDigits 10 x.digits ≠ [] := Nat.toDigits_ne_nil
  rw [Decimal.text, layout]
  dsimp only
  generalize Nat.toDigits 10 x.digits = ds at some
  simp only [Bool.and_eq_true, decide_eq_true_eq]
  split
  · simp [Layout.text, point, mark]
  · rename_i not_whole
    split
    · have rest : ds.drop (ds.length + x.exponent).toNat ≠ [] := by
        rw [Ne, List.drop_eq_nil_iff]
        omega
      simp [Layout.text, point_of_ne rest, mark]
    · split
      · have rest : List.replicate (-(ds.length + x.exponent)).toNat '0' ++ ds ≠ [] := fun nil =>
          some (List.append_eq_nil_iff.mp nil).2
        rw [Layout.text, point_of_ne rest]
        simp [mark]
      · match ds with
        | [] => exact absurd rfl some
        | [d] => rfl
        | d :: e :: more => rfl

theorem isDigit_zeros (k : Nat) : ∀ c ∈ List.replicate k '0', c.isDigit = true := fun c hc => by
  rw [List.eq_of_mem_replicate hc]
  rfl

theorem plain_layout {x : Decimal} (pos : 0 < x.digits) : x.layout.Plain := by
  have digits := isDigit_toDigits x.digits
  have whole := isWhole_digitsOf x.digits
  rw [layout]
  split_ifs with integer inside small
  · refine ⟨fun c hc => ?_, isDigit_zeros 1, ?_, nofun⟩
    · exact (List.mem_append.mp hc).elim (digits c) (isDigit_zeros _ c)
    · rw [values, List.map_append]
      exact isWhole_append pos _
  · simp only [Bool.and_eq_true, decide_eq_true_eq] at integer inside
    refine ⟨fun c hc => digits c (List.mem_of_mem_take hc), fun c hc => digits c (List.mem_of_mem_drop hc), ?_, fun nil => ?_⟩
    · rw [values, List.map_take]
      exact isWhole_take whole (by omega)
    · rw [List.drop_eq_nil_iff] at nil
      omega
  · refine ⟨isDigit_zeros 1, fun c hc => ?_, rfl, fun nil => ?_⟩
    · exact (List.mem_append.mp hc).elim (isDigit_zeros _ c) (digits c)
    · exact absurd (List.append_eq_nil_iff.mp nil).2 Nat.toDigits_ne_nil
  · refine ⟨fun c hc => digits c (List.mem_of_mem_take hc), fun c hc => digits c (List.mem_of_mem_drop hc), ?_, nofun⟩
    rw [values, List.map_take]
    exact isWhole_take whole Nat.one_pos

/-- A layout has the word and the power of its decimal, or as an integer, one more zero. -/
theorem layout_value (x : Decimal) :
    x.layout.word = x.digits ∧ x.layout.exponent = x.exponent ∨
      0 ≤ x.exponent ∧ (Nat.toDigits 10 x.digits).length + x.exponent ≤ 16 ∧
        x.layout.word = x.digits * 10 ^ (x.exponent.toNat + 1) ∧ x.layout.exponent = -1 := by
  have value := Nat.ofDigitChars_toDigits (b := 10) (n := x.digits) (by decide) (by decide)
  have some : 0 < (Nat.toDigits 10 x.digits).length := Nat.length_toDigits_pos
  rw [layout]
  split_ifs with integer inside small <;> simp only [Bool.and_eq_true, decide_eq_true_eq] at *
  · refine .inr ⟨integer.1, integer.2, ?_, rfl⟩
    rw [word, Nat.ofDigitChars_append, Nat.ofDigitChars_append, value, Nat.ofDigitChars_replicate_zero]
    show 10 * (10 ^ x.exponent.toNat * x.digits) + 0 = _
    ring
  · refine .inl ⟨?_, ?_⟩
    · rw [word, List.take_append_drop, value]
    · rw [Layout.exponent, Option.getD_none, List.length_drop]
      omega
  · refine .inl ⟨?_, ?_⟩
    · rw [word, Nat.ofDigitChars_append, Nat.ofDigitChars_append, Nat.ofDigitChars_replicate_zero]
      exact value
    · rw [Layout.exponent, Option.getD_none, List.length_append, List.length_replicate]
      omega
  · refine .inl ⟨?_, ?_⟩
    · rw [word, List.take_append_drop, value]
    · rw [Layout.exponent, Option.getD_some, List.length_drop]
      omega

theorem Moderate.layout {x : Decimal} (h : x.Moderate) : x.layout.Moderate := by
  have low := h.low
  have high := h.high
  have digits : (Nat.toDigits 10 x.digits).length ≤ 18 :=
    (Nat.length_toDigits_le_iff (by decide) (by decide)).mpr (h.digits.trans_lt (by decide))
  have written : x.digits < 10 ^ (Nat.toDigits 10 x.digits).length :=
    (Nat.length_toDigits_le_iff (by decide) Nat.length_toDigits_pos).mp le_rfl
  have few : x.layout.decimals.length ≤ 1000 ∧ (x.layout.power.getD 0).natAbs ≤ 1000 := by
    rw [Decimal.layout]
    split_ifs <;> simp only [Bool.and_eq_true, decide_eq_true_eq] at * <;> constructor <;> simp <;> omega
  rcases x.layout_value with ⟨word, exponent⟩ | ⟨whole, short, word, exponent⟩
  · exact ⟨plain_layout h.pos, word ▸ h.digits, by rw [word, exponent]; exact h.fits, few.1, few.2⟩
  · refine ⟨plain_layout h.pos, ?_, fun positive => by omega, few.1, few.2⟩
    calc x.layout.word = x.digits * 10 ^ (x.exponent.toNat + 1) := word
      _ ≤ 10 ^ (Nat.toDigits 10 x.digits).length * 10 ^ (x.exponent.toNat + 1) := Nat.mul_le_mul_right _ written.le
      _ ≤ 10 ^ 17 := by rw [← Nat.pow_add]; exact Nat.pow_le_pow_right (by decide) (by omega)

end Decimal

/-! ### The text of a double -/

theorem moderate_zero : (Layout.mk ['0'] ['0'] none).Moderate :=
  ⟨⟨Decimal.isDigit_zeros 1, Decimal.isDigit_zeros 1, rfl, nofun⟩, by decide, fun h => absurd h (by decide), by decide, by decide⟩

/-- The text of a finite double is a numeral, and it is read as a finite double. -/
theorem legible {x : Float} (finite : x.isFinite = true) :
    ∃ n y, Written.takeNumeral (floatText x).toList = some (n, []) ∧ (Written.numeral n).float? = some y ∧
      y.isFinite = true := by
  have below : x.toBits.toNat % Word.size 63 < 2047 * 2 ^ 52 := Double.toBits_lt finite
  obtain ⟨l, moderate, magnitude⟩ : ∃ l : Layout, l.Moderate ∧
      (if x.toBits.toNat % Word.size 63 == 0 then ['0', '.', '0'] else (shortest (x.toBits.toNat % Word.size 63)).text) =
        l.text := by
    by_cases zero : x.toBits.toNat % Word.size 63 = 0
    · exact ⟨_, moderate_zero, by rw [if_pos (by simpa using zero)]; rfl⟩
    · exact ⟨_, (shortest_spec zero below).layout, by rw [if_neg (by simpa using zero), Decimal.text_layout]⟩
  have text : (floatText x).toList =
      (if !decide (x.toBits.toNat < Word.size 63) then ['-'] else []) ++ l.text := by
    rw [floatText, String.toList_ofList, magnitude]
    by_cases positive : x.toBits.toNat < Word.size 63 <;> simp [positive]
  obtain ⟨y, read, finite⟩ := moderate.read (!decide (x.toBits.toNat < Word.size 63))
  exact ⟨_, y, text ▸ moderate.toPlain.takeNumeral _, read, finite⟩

/-- The double that the text of a double is read as. -/
@[irreducible] def reread (x : Float) : Float :=
  ((Written.takeNumeral (floatText x).toList).bind fun r => (Written.numeral r.1).float?).getD x

theorem reread_spec {x : Float} (finite : x.isFinite = true) :
    ReadsAs Written.float? (.float x) (reread x) ∧ (reread x).isFinite = true := by
  obtain ⟨n, y, taken, read, finite'⟩ := legible finite
  have text : (Json.float x).compact = floatText x := by
    rw [Json.float, if_pos finite, compact, Number.text, if_pos finite]
  have same : reread x = y := by rw [reread, taken, Option.bind_some, read, Option.getD_some]
  rw [same]
  exact ⟨⟨_, reads_numeral (text ▸ taken), read⟩, finite'⟩

end TickerBoard.Json
