/-! Finite tables: values under keys, held as the list of entries in ascending
order of their keys.

Everything the board keeps by name or by time is such a table: listeners by
symbol, bars by instant, pattern lists by chart label, contracts by expiry. A
look-up takes the first entry of its key, so the laws of `find?` need no
order; the order is what a listing of the table shows. -/
namespace TickerBoard

/-- Values of `υ` under keys of `κ`. -/
structure Table (κ υ : Type) where
  entries : List (κ × υ)
deriving Repr, DecidableEq

namespace Table
variable {κ υ ω : Type}

def empty : Table κ υ := ⟨[]⟩

instance : Inhabited (Table κ υ) := ⟨empty⟩

def keys (t : Table κ υ) : List κ := t.entries.map (·.1)

def values (t : Table κ υ) : List υ := t.entries.map (·.2)

def size (t : Table κ υ) : Nat := t.entries.length

/-- Keeps the entries that `p` admits. -/
def filter (p : κ → υ → Bool) (t : Table κ υ) : Table κ υ :=
  ⟨t.entries.filter fun e => p e.1 e.2⟩

def mapValues (f : υ → ω) (t : Table κ υ) : Table κ ω :=
  ⟨t.entries.map fun e => (e.1, f e.2)⟩

section Lookup
variable [DecidableEq κ]

def lookup (k : κ) : List (κ × υ) → Option υ
  | [] => none
  | e :: rest => if e.1 = k then some e.2 else lookup k rest

def find? (t : Table κ υ) (k : κ) : Option υ := lookup k t.entries

def contains (t : Table κ υ) (k : κ) : Bool := (t.find? k).isSome

def findD (t : Table κ υ) (k : κ) (default : υ) : υ := (t.find? k).getD default

/-- Drops every entry of the key. -/
def erase (t : Table κ υ) (k : κ) : Table κ υ :=
  ⟨t.entries.filter fun e => e.1 ≠ k⟩

/-- Changes the value of a key that is present. -/
def modify (t : Table κ υ) (k : κ) (f : υ → υ) : Table κ υ :=
  ⟨t.entries.map fun e => if e.1 = k then (e.1, f e.2) else e⟩

variable [Ord κ]

/-- Puts the entry before the first greater key, or in place of its own. -/
def place (k : κ) (v : υ) : List (κ × υ) → List (κ × υ)
  | [] => [(k, v)]
  | e :: rest =>
    if e.1 = k then (k, v) :: rest
    else if compare k e.1 = .lt then (k, v) :: e :: rest
    else e :: place k v rest

/-- Adds or replaces the value of a key. -/
def insert (t : Table κ υ) (k : κ) (v : υ) : Table κ υ := ⟨place k v t.entries⟩

/-- Adds or replaces the value of a key by what `f` makes of the present one. -/
def upsert (t : Table κ υ) (k : κ) (f : Option υ → υ) : Table κ υ :=
  t.insert k (f (t.find? k))

/-- The table of a list of entries, in which the last entry of a key counts. -/
def ofList (es : List (κ × υ)) : Table κ υ :=
  es.foldl (fun t e => t.insert e.1 e.2) empty

end Lookup

/-! ### Look-ups after each operation -/

section Laws
variable [DecidableEq κ]

@[simp] theorem find?_empty (k : κ) : (empty : Table κ υ).find? k = none := rfl

theorem lookup_place [Ord κ] (k k' : κ) (v : υ) (es : List (κ × υ)) :
    lookup k' (place k v es) = if k = k' then some v else lookup k' es := by
  induction es with
  | nil => simp [place, lookup]
  | cons e rest ih =>
    by_cases he : e.1 = k
    · by_cases hk : k = k' <;> simp [place, lookup, he, hk]
    · by_cases hlt : compare k e.1 = .lt
      · simp [place, lookup, he, hlt]
      · by_cases hk : k = k'
        · subst hk
          simp [place, lookup, he, hlt, ih]
        · simp [place, lookup, he, hlt, ih, hk]

@[simp] theorem find?_insert [Ord κ] (t : Table κ υ) (k k' : κ) (v : υ) :
    (t.insert k v).find? k' = if k = k' then some v else t.find? k' :=
  lookup_place k k' v t.entries

theorem lookup_filter_ne (k k' : κ) (es : List (κ × υ)) :
    lookup k' (es.filter fun e => e.1 ≠ k) = if k = k' then none else lookup k' es := by
  induction es with
  | nil => simp [lookup]
  | cons e rest ih =>
    by_cases he : e.1 = k
    · by_cases hk : k = k'
      · simpa [he, hk] using ih
      · have : e.1 ≠ k' := fun h => hk (he.symm.trans h)
        simpa [he, hk, lookup, this] using ih
    · by_cases hk : k = k'
      · subst hk
        simpa [he, lookup] using ih
      · by_cases he' : e.1 = k'
        · subst he'
          simp [he, hk, lookup]
        · simpa [he, hk, lookup, he'] using ih

@[simp] theorem find?_erase (t : Table κ υ) (k k' : κ) :
    (t.erase k).find? k' = if k = k' then none else t.find? k' :=
  lookup_filter_ne k k' t.entries

@[simp] theorem find?_modify (t : Table κ υ) (k k' : κ) (f : υ → υ) :
    (t.modify k f).find? k' = if k = k' then (t.find? k').map f else t.find? k' := by
  show lookup k' (t.entries.map _) = _
  unfold find?
  induction t.entries with
  | nil => simp [lookup]
  | cons e rest ih =>
    by_cases he : e.1 = k <;> by_cases he' : e.1 = k' <;> by_cases hk : k = k' <;>
      simp_all [lookup]

@[simp] theorem find?_upsert [Ord κ] (t : Table κ υ) (k k' : κ) (f : Option υ → υ) :
    (t.upsert k f).find? k' = if k = k' then some (f (t.find? k)) else t.find? k' := by
  simp [upsert]

end Laws
end Table
end TickerBoard
