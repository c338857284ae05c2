/-! White space as Unicode's property `White_Space` has it, and trimming.

Symbols, configured names and brokerage texts are trimmed by this class, not
by the ASCII blanks: a no-break space around a ticker is no part of it. -/
namespace TickerBoard.Text

def isBlank (c : Char) : Bool :=
  let n := c.toNat
  (0x09 ≤ n && n ≤ 0x0d) || n == 0x20 || n == 0x85 || n == 0xa0 || n == 0x1680 ||
    (0x2000 ≤ n && n ≤ 0x200a) || n == 0x2028 || n == 0x2029 || n == 0x202f || n == 0x205f ||
    n == 0x3000

def skipBlanks (cs : List Char) : List Char := cs.dropWhile isBlank

/-- The text without the blanks at its ends. -/
def trim (s : String) : String :=
  String.ofList (skipBlanks (skipBlanks s.toList).reverse).reverse

theorem mem_skipBlanks {c : Char} (kept : isBlank c = false) {cs : List Char} (h : c ∈ cs) : c ∈ skipBlanks cs := by
  have split := List.takeWhile_append_dropWhile (p := isBlank) (l := cs)
  rw [← split] at h
  rcases List.mem_append.mp h with skipped | left
  · have blank : isBlank c = true := List.all_takeWhile (p := isBlank) |> List.all_eq_true.mp |> (· c skipped)
    exact absurd blank (by simp [kept])
  · exact left

/-- What is not blank stays. -/
theorem mem_trim {c : Char} (kept : isBlank c = false) {s : String} (h : c ∈ s.toList) : c ∈ (trim s).toList := by
  rw [trim, String.toList_ofList, List.mem_reverse]
  exact mem_skipBlanks kept (List.mem_reverse.mpr (mem_skipBlanks kept h))

example : trim "\u00a0 ab c\u2003\n" = "ab c" := by decide +kernel

end TickerBoard.Text
