import Mathlib.Data.List.Basic

/-!
# Sessions in a sequence

A sequence of sessions: each has a first and a last element and data in between, and the last session
may still go on (`Sessions.list`). The rules say how such a sequence grows at its end.
-/

namespace Sessions

variable {α β : Type*} {start stop : α} {data : β → α} {xs : List α} {whole : List (List β)}
  {ds es : List β}

/-- The elements of a session that is over. -/
def round (start stop : α) (data : β → α) (ds : List β) : List α := start :: (ds.map data ++ [stop])

/-- The elements of a session that goes on. -/
def current (start : α) (data : β → α) : Option (List β) → List α
  | none => []
  | some ds => start :: ds.map data

/-- The sessions of `whole` one after another, and what there is of the next one. -/
def list (start stop : α) (data : β → α) (whole : List (List β)) (live : Option (List β)) : List α :=
  whole.flatMap (round start stop data) ++ current start data live

theorem list_start (h : xs = list start stop data whole none) :
    xs ++ [start] = list start stop data whole (some []) := by
  rw [h, list, current, List.append_nil]
  rfl

theorem list_data (h : xs = list start stop data whole (some ds)) :
    xs ++ es.map data = list start stop data whole (some (ds ++ es)) := by
  rw [h, list, current, List.append_assoc, List.cons_append, ← List.map_append]
  rfl

theorem list_stop (h : xs = list start stop data whole (some ds)) :
    xs ++ [stop] = list start stop data (whole ++ [ds]) none := by
  rw [h, list, current, List.append_assoc, List.cons_append, list, current, List.append_nil,
    List.flatMap_append, List.flatMap_singleton]
  rfl

end Sessions
