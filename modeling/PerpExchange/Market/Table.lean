import PerpExchange.Identity

/-!
A table with one entry per market.

Inserting replaces, so a look-up finds what was inserted last.
-/

namespace PerpExchange

/-- Entries by market, the last inserted first. -/
structure MarketTable (α : Type) where
  entries : List (MarketIndex × α)

namespace MarketTable

variable {α : Type}

def empty : MarketTable α := ⟨[]⟩

def get? (t : MarketTable α) (i : MarketIndex) : Option α :=
  (t.entries.find? (·.1 == i)).map (·.2)

def insert (t : MarketTable α) (i : MarketIndex) (a : α) : MarketTable α :=
  ⟨(i, a) :: t.entries.filter (·.1 != i)⟩

@[simp] theorem get?_empty (i : MarketIndex) : (empty : MarketTable α).get? i = none := rfl

theorem get?_insert (t : MarketTable α) (i j : MarketIndex) (a : α) :
    (t.insert i a).get? j = if i = j then some a else t.get? j := by
  unfold get? insert
  by_cases h : i = j
  · simp [h]
  · have hb : (i == j) = false := by simpa using h
    simp only [List.find?_cons, hb, h, if_false]
    congr 1
    induction t.entries with
    | nil => rfl
    | cons e rest ih =>
      by_cases he : e.1 = i
      · have : (e.1 == j) = false := by simpa [he] using h
        simp [he, ih, h]
      · simp [he, List.find?_cons, ih]

end MarketTable

end PerpExchange
