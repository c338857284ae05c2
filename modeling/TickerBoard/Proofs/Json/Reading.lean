import Mathlib.Data.List.Forall2
import TickerBoard.Proofs.Json.Numerals
import TickerBoard.Proofs.Table

/-! JSON texts, read back.

`Reads` says that the text of a value, with whatever may follow a value behind
it, is taken apart to a tree, and `ReadsAs` that the tree means something to a
decoder. Lists and records are read whatever blanks stand between their parts
(`recovers_list`, `recovers_record`). So texts, numerals, lists and records are gone
through from the parts to the whole (`reads_list`, `reads_record`), and every value
of a known shape that is written is read back if its doubles are (`ReadsBack`). -/
namespace TickerBoard.Json

/-! ### Texts -/

namespace Written

theorem hexDigit?_digitChar : ∀ n < 16, hexDigit? (Nat.digitChar n) = some n := by decide

theorem takeCodes_simple {e : Char} {code : Nat} (h : simpleEscape? e = some code) (rest : List Char) :
    takeCodes ('\\' :: e :: rest) = (takeCodes rest).map fun (codes, rest) => (code :: codes, rest) := by
  have other : e ≠ 'u' := by
    rintro rfl
    cases h
  rw [takeCodes.eq_3]
  · rw [h]
    cases takeCodes rest <;> rfl
  · rintro a b c d more same
    exact absurd same other

/-- A character that is written is read as its code. -/
theorem takeCodes_escapedChar (c : Char) (rest : List Char) :
    takeCodes (escapedChar c ++ rest) = (takeCodes rest).map fun (codes, rest) => (c.toNat :: codes, rest) := by
  by_cases simple : c ∈ ['"', '\\', '\x08', '\t', '\n', '\x0c', '\r']
  · simp only [List.mem_cons, List.not_mem_nil, or_false] at simple
    rcases simple with rfl | rfl | rfl | rfl | rfl | rfl | rfl <;> exact takeCodes_simple rfl rest
  · simp only [List.mem_cons, List.not_mem_nil, or_false, not_or] at simple
    obtain ⟨quote, backslash, b, t, n, f, r⟩ := simple
    by_cases control : c.toNat < 0x20
    · have high := hexDigit?_digitChar (c.toNat / 16) (by omega)
      have low := hexDigit?_digitChar (c.toNat % 16) (by omega)
      have code : ((0 * 16 + 0) * 16 + c.toNat / 16) * 16 + c.toNat % 16 = c.toNat := by omega
      have zero : hexDigit? '0' = some 0 := rfl
      simp only [escapedChar, beq_iff_eq, quote, backslash, b, t, n, f, r, if_false, control, if_true, List.cons_append,
        List.nil_append, takeCodes, zero, high, low, Option.bind_eq_bind, Option.bind_some, code]
      cases takeCodes rest <;> rfl
    · simp only [escapedChar, beq_iff_eq, quote, backslash, b, t, n, f, r, if_false, control, List.cons_append,
        List.nil_append]
      rw [takeCodes.eq_4]
      · simp [control, backslash]
      · exact quote
      · exact fun _ _ _ _ _ same _ => backslash same
      · exact fun _ _ same _ => backslash same

/-- No character is half of a surrogate pair. -/
theorem no_surrogate (c : Char) : isHigh c.toNat = false ∧ isLow c.toNat = false := by
  have valid : c.toNat < 0xd800 ∨ 0xdfff < c.toNat := by
    rcases c.valid with low | high
    · exact .inl low
    · exact .inr high.1
  simp only [isHigh, isLow, Bool.and_eq_false_iff, decide_eq_false_iff_not]
  omega

theorem charsOf?_codes (cs : List Char) : charsOf? (cs.map Char.toNat) = some cs := by
  induction cs with
  | nil => rfl
  | cons c rest ih =>
    obtain ⟨high, low⟩ := no_surrogate c
    cases rest with
    | nil => simp [charsOf?, high, low, Char.ofNat_toNat]
    | cons d more =>
      simp only [List.map_cons] at ih ⊢
      simp [charsOf?, high, low, ih, Char.ofNat_toNat]

theorem takeText_quoted (s : String) (rest : List Char) :
    takeText (s.toList.flatMap escapedChar ++ '"' :: rest) = some (some s, rest) := by
  have codes : ∀ cs : List Char, takeCodes (cs.flatMap escapedChar ++ '"' :: rest) = some (cs.map Char.toNat, rest) := by
    intro cs
    induction cs with
    | nil => rfl
    | cons c more ih => rw [List.flatMap_cons, List.append_assoc, takeCodes_escapedChar, ih]; rfl
  rw [takeText, codes]
  simp [charsOf?_codes, String.ofList_toList]

end Written

/-! ### Values -/

/-- The text of a value, in front of whatever may follow a value, is taken apart to a tree. -/
def Reads (j : Json) (w : Written) : Prop :=
  ∀ fuel rest, 2 * j.compact.toList.length ≤ fuel → Stops rest →
    Written.takeValue fuel (j.compact.toList ++ rest) = some (w, rest)

namespace Written

theorem skipSpace_cons {c : Char} (h : isSpace c = false) (rest : List Char) : skipSpace (c :: rest) = c :: rest :=
  List.dropWhile_cons_of_neg (by simp [h])

theorem head_of_takeNumeral {cs left : List Char} {n : Numeral} (h : takeNumeral cs = some (n, left)) :
    ∃ c more, cs = c :: more ∧ (c = '-' ∨ c.isDigit = true) := by
  cases cs with
  | nil => cases h
  | cons c more =>
    refine ⟨c, more, rfl, ?_⟩
    by_cases minus : c = '-'
    · exact .inl minus
    · right
      by_contra other
      have none_taken : takeDigits (c :: more) = ([], c :: more) := by
        simp [takeDigits, other]
      rw [takeNumeral_plain (by simpa using minus), unsignedNumeral, none_taken] at h
      cases h

/-- A value that begins like a numeral is one. -/
theorem takeValue_numeral {c : Char} (h : c = '-' ∨ c.isDigit = true) (fuel : Nat) (more : List Char) :
    takeValue (fuel + 1) (c :: more) = (takeNumeral (c :: more)).map fun (n, rest) => (.numeral n, rest) := by
  have other : ∀ d : Char, d ≠ '-' → d.isDigit = false → c ≠ d := by
    rintro d minus digit rfl
    rcases h with rfl | isDigit
    · exact minus rfl
    · rw [digit] at isDigit
      cases isDigit
  have blank : isSpace c = false := by
    simp [isSpace, other]
  rw [takeValue, skipSpace_cons blank]
  split
  case h_7 => rfl
  all_goals
    rename_i same
    exact absurd (List.cons.inj same).1 (other _ (by decide) rfl)

end Written

theorem reads_text (s : String) : Reads (.text s) (.text (some s)) := by
  intro fuel rest enough _
  have text : (Json.text s).compact.toList = '"' :: (s.toList.flatMap escapedChar ++ ['"']) := by
    simp [compact, quoted]
  rw [text] at enough ⊢
  obtain ⟨k, rfl⟩ : ∃ k, fuel = k + 1 := ⟨fuel - 1, by simp only [List.length_cons] at enough; omega⟩
  have read := Written.takeText_quoted s rest
  simp only [List.cons_append, List.append_assoc, List.nil_append]
  rw [Written.takeValue, Written.skipSpace_cons rfl]
  simp [read]

theorem reads_numeral {j : Json} {n : Numeral} (h : Written.takeNumeral j.compact.toList = some (n, [])) :
    Reads j (.numeral n) := by
  intro fuel rest enough stop
  obtain ⟨c, more, text, first⟩ := Written.head_of_takeNumeral h
  have read := Written.takeNumeral_append h stop
  rw [text] at enough read ⊢
  obtain ⟨k, rfl⟩ : ∃ k, fuel = k + 1 := ⟨fuel - 1, by simp only [List.length_cons] at enough; omega⟩
  rw [List.cons_append] at read ⊢
  rw [Written.takeValue_numeral first, read]
  rfl

/-! ### Blanks and commas -/

/-- The text, in front of whatever may follow a value, is taken apart to a tree. -/
def Recovers (cs : List Char) (w : Written) : Prop :=
  ∀ fuel rest, 2 * cs.length ≤ fuel → Stops rest → Written.takeValue fuel (cs ++ rest) = some (w, rest)

/-- Nothing but blanks. -/
def Blank (cs : List Char) : Prop := ∀ c ∈ cs, Written.isSpace c = true

theorem blank_nil : Blank [] := nofun

theorem Blank.stops {gap cs : List Char} (blank : Blank gap) (h : Stops cs) : Stops (gap ++ cs) := by
  cases gap with
  | nil => exact h
  | cons c rest =>
    have space : c = ' ' ∨ c = '\n' ∨ c = '\t' ∨ c = '\r' := by
      simpa [Written.isSpace, or_assoc] using blank c (List.mem_cons_self ..)
    refine stops_cons ?_
    rcases space with rfl | rfl | rfl | rfl <;> exact ⟨rfl, by decide⟩

/-- Texts with commas between them, each behind a gap. -/
def spread (gap : List Char) : List (List Char) → List Char
  | [] => []
  | [cs] => gap ++ cs
  | cs :: next :: rest => gap ++ (cs ++ ',' :: spread gap (next :: rest))

namespace Written
variable {gap close : List Char}

theorem skipSpace_append (blank : Blank gap) (cs : List Char) : skipSpace (gap ++ cs) = skipSpace cs :=
  List.dropWhile_append_of_pos blank

theorem takeValue_append (blank : Blank gap) (fuel : Nat) (cs : List Char) :
    takeValue fuel (gap ++ cs) = takeValue fuel cs := by
  cases fuel with
  | zero => rfl
  | succ k => rw [takeValue, takeValue, skipSpace_append blank]

/-! ### Lists -/

/-- What is read as a value begins with no closing bracket. -/
theorem not_closing_of_takeValue {fuel : Nat} {cs : List Char} {r : Written × List Char} (h : takeValue fuel cs = some r)
    (more : List Char) : skipSpace cs ≠ ']' :: more := by
  intro same
  cases fuel with
  | zero => cases h
  | succ k =>
    rw [takeValue, same] at h
    cases h

theorem not_closing_of_takeItems {fuel : Nat} {cs : List Char} {r : List Written × List Char}
    (h : takeItems fuel cs = some r) (more : List Char) : skipSpace cs ≠ ']' :: more := by
  cases fuel with
  | zero => cases h
  | succ k =>
    rw [takeItems] at h
    cases value : takeValue k cs with
    | none =>
      rw [value] at h
      cases h
    | some r => exact not_closing_of_takeValue value more

theorem takeItems_spread (blank : Blank gap) (blank' : Blank close) {texts : List (List Char)} {ws : List Written}
    (reads : List.Forall₂ Recovers texts ws) (some_text : texts ≠ []) (fuel : Nat) (rest : List Char)
    (enough : 2 * (spread gap texts).length + 1 ≤ fuel) :
    takeItems fuel (spread gap texts ++ (close ++ ']' :: rest)) = some (ws, rest) := by
  induction reads generalizing fuel with
  | nil => exact absurd rfl some_text
  | @cons cs w others ws own reads ih =>
    obtain ⟨k, rfl⟩ : ∃ k, fuel = k + 1 := ⟨fuel - 1, by omega⟩
    cases others with
    | nil =>
      cases reads
      rw [spread, List.length_append] at enough
      have read := own k (close ++ ']' :: rest) (by omega) (blank'.stops (stops_cons ⟨rfl, by decide⟩))
      rw [spread, List.append_assoc, takeItems, takeValue_append blank, read]
      simp only [skipSpace_append blank', skipSpace_cons (c := ']') rfl]
    | cons next others =>
      rw [spread, List.length_append, List.length_append, List.length_cons] at enough
      have read := own k (',' :: (spread gap (next :: others) ++ (close ++ ']' :: rest))) (by omega)
        (stops_cons ⟨rfl, by decide⟩)
      have behind := ih (List.cons_ne_nil _ _) k (by omega)
      rw [spread, List.append_assoc, List.append_assoc, List.cons_append, takeItems, takeValue_append blank, read]
      simp only [skipSpace_cons (c := ',') rfl, behind, Option.map_some]

end Written

theorem recovers_list_nil : Recovers ['[', ']'] (.list []) := by
  intro fuel rest enough _
  obtain ⟨k, rfl⟩ : ∃ k, fuel = k + 1 := ⟨fuel - 1, by simp at enough; omega⟩
  rfl

theorem recovers_list {gap close : List Char} (blank : Blank gap) (blank' : Blank close) {texts : List (List Char)}
    {ws : List Written} (reads : List.Forall₂ Recovers texts ws) (some_text : texts ≠ []) :
    Recovers ('[' :: (spread gap texts ++ (close ++ [']']))) (.list ws) := by
  intro fuel rest enough _
  rw [List.length_cons, List.length_append] at enough
  obtain ⟨k, rfl⟩ : ∃ k, fuel = k + 1 := ⟨fuel - 1, by omega⟩
  have read := Written.takeItems_spread blank blank' reads some_text k rest (by simp at enough; omega)
  rw [List.cons_append, Written.takeValue, Written.skipSpace_cons rfl]
  simp only [List.append_assoc, List.singleton_append]
  split
  · rename_i closing
    exact absurd closing (Written.not_closing_of_takeItems read _)
  · rw [read]
    rfl

theorem toList_compactItems (items : List Json) :
    (compactItems items).toList = spread [] (items.map fun j => j.compact.toList) := by
  induction items with
  | nil => rfl
  | cons item rest ih =>
    cases rest with
    | nil => simp [compactItems, spread]
    | cons next rest =>
      have text : spread [] ((item :: next :: rest).map fun j => j.compact.toList) =
          item.compact.toList ++ ',' :: spread [] ((next :: rest).map fun j => j.compact.toList) := rfl
      rw [text, ← ih]
      simp [compactItems]

theorem reads_list {items : List Json} {ws : List Written} (reads : List.Forall₂ Reads items ws) :
    Reads (.list items) (.list ws) := by
  cases items with
  | nil =>
    cases reads
    exact recovers_list_nil
  | cons item others =>
    have text : (Json.list (item :: others)).compact.toList =
        '[' :: (spread [] ((item :: others).map fun j => j.compact.toList) ++ ([] ++ [']'])) := by
      rw [← toList_compactItems]
      simp [compact]
    have parts : List.Forall₂ Recovers ((item :: others).map fun j => j.compact.toList) ws :=
      List.forall₂_map_left_iff.mpr reads
    have read := recovers_list blank_nil blank_nil parts (by simp)
    rwa [← text] at read

/-! ### Records -/

namespace Written

/-- A field of a record and what it is taken apart to. -/
def ReadsField (field : String × Json) (w : Option String × Written) : Prop :=
  w.1 = some field.1 ∧ Reads field.2 w.2

/-- The text of a name and the text under it, with a gap behind the colon. -/
def fieldText (gap : List Char) (field : String × List Char) : List Char :=
  '"' :: (field.1.toList.flatMap escapedChar ++ '"' :: ':' :: (gap ++ field.2))

/-- The text of a field is taken apart to a name and a tree. -/
def RecoversField (field : String × List Char) (w : Option String × Written) : Prop :=
  w.1 = some field.1 ∧ Recovers field.2 w.2

variable {gap close space : List Char}

theorem takeFields_spread (blank : Blank gap) (blank' : Blank close) (blank'' : Blank space)
    {fields : List (String × List Char)} {ws : List (Option String × Written)}
    (reads : List.Forall₂ RecoversField fields ws) (some_field : fields ≠ []) (fuel : Nat) (rest : List Char)
    (enough : 2 * (spread gap (fields.map (fieldText space))).length + 1 ≤ fuel) :
    takeFields fuel (spread gap (fields.map (fieldText space)) ++ (close ++ '\x7d' :: rest)) = some (ws, rest) := by
  induction reads generalizing fuel with
  | nil => exact absurd rfl some_field
  | @cons field w others ws own reads ih =>
    obtain ⟨key, cs⟩ := field
    obtain ⟨name, w⟩ := w
    obtain ⟨rfl, own⟩ := own
    have own : Recovers cs w := own
    obtain ⟨k, rfl⟩ : ∃ k, fuel = k + 1 := ⟨fuel - 1, by omega⟩
    cases others with
    | nil =>
      cases reads
      simp only [List.map_cons, List.map_nil, spread, fieldText, List.length_append, List.length_cons] at enough
      have read := own k (close ++ '\x7d' :: rest) (by omega) (blank'.stops (stops_cons ⟨rfl, by decide⟩))
      have front := takeText_quoted key (':' :: (space ++ (cs ++ (close ++ '\x7d' :: rest))))
      simp only [List.map_cons, List.map_nil, spread, fieldText, List.cons_append, List.append_assoc]
      simp only [takeFields, skipSpace_append blank, skipSpace_cons (c := '"') rfl, front,
        skipSpace_cons (c := ':') rfl, takeValue_append blank'', read, skipSpace_append blank',
        skipSpace_cons (c := '\x7d') rfl]
    | cons next others =>
      simp only [List.map_cons, spread, fieldText, List.length_append, List.length_cons] at enough
      have read := own k (',' :: (spread gap ((next :: others).map (fieldText space)) ++ (close ++ '\x7d' :: rest)))
        (by omega) (stops_cons ⟨rfl, by decide⟩)
      have front := takeText_quoted key (':' :: (space ++ (cs ++
        ',' :: (spread gap ((next :: others).map (fieldText space)) ++ (close ++ '\x7d' :: rest)))))
      have behind := ih (List.cons_ne_nil _ _) k (by simp only [List.map_cons, fieldText]; omega)
      have text : spread gap (((key, cs) :: next :: others).map (fieldText space)) =
          gap ++ (fieldText space (key, cs) ++ ',' :: spread gap ((next :: others).map (fieldText space))) := rfl
      rw [text]
      simp only [fieldText, List.cons_append, List.append_assoc] at behind read front ⊢
      simp only [takeFields, skipSpace_append blank, skipSpace_cons (c := '"') rfl, front,
        skipSpace_cons (c := ':') rfl, takeValue_append blank'', read, skipSpace_cons (c := ',') rfl, behind,
        Option.map_some]

end Written

theorem recovers_record_nil : Recovers ['\x7b', '\x7d'] (.record []) := by
  intro fuel rest enough _
  obtain ⟨k, rfl⟩ : ∃ k, fuel = k + 1 := ⟨fuel - 1, by simp at enough; omega⟩
  rfl

theorem recovers_record {gap close space : List Char} (blank : Blank gap) (blank' : Blank close) (blank'' : Blank space)
    {fields : List (String × List Char)} {ws : List (Option String × Written)}
    (reads : List.Forall₂ Written.RecoversField fields ws) (some_field : fields ≠ []) :
    Recovers ('\x7b' :: (spread gap (fields.map (Written.fieldText space)) ++ (close ++ ['\x7d']))) (.record ws) := by
  intro fuel rest enough _
  rw [List.length_cons, List.length_append] at enough
  obtain ⟨k, rfl⟩ : ∃ k, fuel = k + 1 := ⟨fuel - 1, by omega⟩
  have read := Written.takeFields_spread blank blank' blank'' reads some_field k rest (by simp at enough; omega)
  -- The first thing behind the brace is the quote of a name.
  obtain ⟨more, front⟩ : ∃ more, spread gap (fields.map (Written.fieldText space)) = gap ++ '"' :: more := by
    cases fields with
    | nil => exact absurd rfl some_field
    | cons field others => cases others <;> exact ⟨_, rfl⟩
  rw [List.cons_append, Written.takeValue, Written.skipSpace_cons rfl]
  simp only [front, List.append_assoc, List.cons_append, List.nil_append] at read ⊢
  rw [Written.skipSpace_append blank, Written.skipSpace_cons rfl, read]
  rfl

theorem toList_compactFields (fields : List (String × Json)) :
    (compactFields fields).toList =
      spread [] ((fields.map fun e => (e.1, e.2.compact.toList)).map (Written.fieldText [])) := by
  induction fields with
  | nil => rfl
  | cons field rest ih =>
    obtain ⟨key, value⟩ := field
    cases rest with
    | nil => simp [compactFields, spread, Written.fieldText, quoted]
    | cons next rest =>
      have text : spread [] ((((key, value) :: next :: rest).map fun e => (e.1, e.2.compact.toList)).map
          (Written.fieldText [])) = Written.fieldText [] (key, value.compact.toList) ++
            ',' :: spread [] (((next :: rest).map fun e => (e.1, e.2.compact.toList)).map (Written.fieldText [])) := rfl
      rw [text, ← ih]
      simp [compactFields, Written.fieldText, quoted]

theorem reads_record {fields : List (String × Json)} {ws : List (Option String × Written)}
    (reads : List.Forall₂ Written.ReadsField fields ws) : Reads (.record fields) (.record ws) := by
  cases fields with
  | nil =>
    cases reads
    exact recovers_record_nil
  | cons field others =>
    have text : (Json.record (field :: others)).compact.toList = '\x7b' ::
        (spread [] (((field :: others).map fun e => (e.1, e.2.compact.toList)).map (Written.fieldText [])) ++
          ([] ++ ['\x7d'])) := by
      rw [← toList_compactFields]
      simp [compact]
    have parts : List.Forall₂ Written.RecoversField ((field :: others).map fun e => (e.1, e.2.compact.toList)) ws :=
      List.forall₂_map_left_iff.mpr reads
    have read := recovers_record blank_nil blank_nil blank_nil parts (by simp)
    rwa [← text] at read

/-! ### What a decoder makes of a text -/

/-- The text of a value means something to a decoder. -/
def ReadsAs {α : Type} (decode : Written → Option α) (j : Json) (a : α) : Prop :=
  ∃ w, Reads j w ∧ decode w = some a

/-- A text that consists of the value is read so. -/
theorem ReadsAs.ofText? {α : Type} {decode : Written → Option α} {j : Json} {a : α} (h : ReadsAs decode j a) :
    (Written.ofText? j.compact).bind decode = some a := by
  obtain ⟨w, reads, decoded⟩ := h
  have read := reads (2 * j.compact.toList.length + 2) [] (by omega) stops_nil
  rw [List.append_nil] at read
  have whole : Written.ofText? j.compact = some w := by
    simp only [Written.ofText?, read]
    rfl
  rw [whole]
  exact decoded

theorem readsAs_text (s : String) : ReadsAs Written.text? (.text s) s := ⟨_, reads_text s, rfl⟩

theorem readsAs_int (low high : Int) {n : Int} (in_word : Word.least 64 ≤ n ∧ n < Word.size 64)
    (bounds : low ≤ n ∧ n ≤ high) :
    ReadsAs (Written.int? low high) (.int n) n := by
  have text : (Json.int n).compact = (Number.int n).text := by rw [Json.int, compact]
  refine ⟨_, reads_numeral (text ▸ takeNumeral_int n), ?_⟩
  rw [Written.int?, Written.number?, read?_ofInt in_word.1 in_word.2]
  simp [bounds]

theorem readsAs_nat {n : Nat} (h : n < Word.size 64) : ReadsAs (Written.nat? 64) (.int n) n := by
  have least : Word.least 64 = -9223372036854775808 := rfl
  obtain ⟨w, reads, decoded⟩ := readsAs_int 0 ((Word.size 64 : Int) - 1) (n := n) (by omega) (by omega)
  refine ⟨w, reads, ?_⟩
  rw [Written.nat?, decoded]
  rfl

theorem readsAs_seconds {t : Instant} (inside : t.inCalendar = true) (whole : t.ms % 1000 = 0) :
    ReadsAs Written.seconds? (.int t.seconds) t := by
  have first : Instant.first.ms = -8334601228800000 := by decide
  have last : Instant.last.ms = 8210266876799999 := by decide
  have bounds := Instant.inCalendar_iff.mp inside
  have least : Word.least 64 = -9223372036854775808 := rfl
  have greatest : Word.greatest 64 = 9223372036854775807 := rfl
  have size : Word.size 64 = 18446744073709551616 := rfl
  have small : -8334601228800 ≤ t.seconds ∧ t.seconds ≤ 8210266876799 := by
    unfold Instant.seconds
    omega
  obtain ⟨w, reads, decoded⟩ := readsAs_int (Word.least 64) (Word.greatest 64) (n := t.seconds)
    (by omega) (by omega)
  have back : (⟨t.seconds * 1000⟩ : Instant) = t := congrArg Instant.mk (by unfold Instant.seconds; omega)
  refine ⟨w, reads, ?_⟩
  rw [Written.seconds?, Written.signed?, decoded, Option.bind_some, Instant.ofSeconds?, Instant.ofMs?, back]
  exact if_pos inside

theorem readsAs_day {d : Day} (inside : d.inCalendar = true) : ReadsAs Written.day? (.text d.text) d := by
  refine ⟨_, reads_text d.text, ?_⟩
  rw [Written.day?, Written.text?, Option.bind_some, Day.ofText?_text inside]

/-- A double is finite, and its text is a numeral that is read as the double. -/
def ReadsBack (x : Float) : Prop :=
  x.isFinite = true ∧ ∃ n, Written.takeNumeral (floatText x).toList = some (n, []) ∧ (Written.numeral n).float? = some x

theorem readsAs_float {x : Float} (h : ReadsBack x) : ReadsAs Written.float? (.float x) x := by
  obtain ⟨finite, n, taken, read⟩ := h
  have text : (Json.float x).compact = floatText x := by
    rw [Json.float, if_pos finite, compact, Number.text, if_pos finite]
  exact ⟨_, reads_numeral (text ▸ taken), read⟩

/-- A list is read as that of what its items are read as. -/
theorem readsAs_map {α β : Type} {decode : Written → Option β} {f : α → Json} {g : α → β} {as : List α}
    (h : ∀ a ∈ as, ReadsAs decode (f a) (g a)) : ReadsAs (Written.listOf? decode) (listOf f as) (as.map g) := by
  obtain ⟨ws, reads, decoded⟩ : ∃ ws, List.Forall₂ Reads (as.map f) ws ∧ ws.mapM decode = some (as.map g) := by
    induction as with
    | nil => exact ⟨[], .nil, rfl⟩
    | cons a rest ih =>
      obtain ⟨w, own, meaning⟩ := h a (List.mem_cons_self ..)
      obtain ⟨ws, reads, decoded⟩ := ih fun b hb => h b (List.mem_cons_of_mem _ hb)
      exact ⟨w :: ws, .cons own reads, by simp [List.mapM_cons, meaning, decoded]⟩
  exact ⟨_, reads_list reads, decoded⟩

theorem readsAs_list {α : Type} {decode : Written → Option α} {f : α → Json} {as : List α}
    (h : ∀ a ∈ as, ReadsAs decode (f a) a) : ReadsAs (Written.listOf? decode) (listOf f as) as := by
  simpa using readsAs_map (g := id) h

/-- A table by names, whose names ascend. -/
theorem readsAs_table {α : Type} {decode : Written → Option α} {f : α → Json} {t : Table String α}
    (h : ∀ e ∈ t.entries, ReadsAs decode (f e.2) e.2) (ascending : t.Ascending) :
    ReadsAs (Written.tableOf? decode) (.record (t.entries.map fun e => (e.1, f e.2))) t := by
  obtain ⟨ws, reads, decoded⟩ : ∃ ws, List.Forall₂ Written.ReadsField (t.entries.map fun e => (e.1, f e.2)) ws ∧
      (ws.mapM fun (field : Option String × Written) => do pure (← field.1, ← decode field.2)) = some t.entries := by
    clear ascending
    generalize t.entries = es at h ⊢
    induction es with
    | nil => exact ⟨[], .nil, rfl⟩
    | cons e rest ih =>
      obtain ⟨w, own, meaning⟩ := h e (List.mem_cons_self ..)
      obtain ⟨ws, reads, decoded⟩ := ih fun x hx => h x (List.mem_cons_of_mem _ hx)
      refine ⟨(some e.1, w) :: ws, .cons ⟨rfl, own⟩ reads, ?_⟩
      rw [List.mapM_cons, decoded]
      simp [meaning]
  refine ⟨_, reads_record reads, ?_⟩
  rw [Written.tableOf?, decoded]
  exact congrArg some (Table.ofList_entries ascending)

end TickerBoard.Json
