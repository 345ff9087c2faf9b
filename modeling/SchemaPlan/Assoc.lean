/-!
# Association lists

Lists of named values in which the order of the entries stays as it was given. Looking up a name is
`List.lookup`; here is what sets and removes one.
-/

namespace SchemaPlan.Assoc

variable {α : Type} {key : String} {value : α} {entries : List (String × α)}

/-- Set the value of a name, in its place if the name is there and at the end if not. -/
def set (key : String) (value : α) : List (String × α) → List (String × α)
  | [] => [(key, value)]
  | (k, v) :: rest => if k = key then (key, value) :: rest else (k, v) :: set key value rest

/-- Remove a name. -/
def erase (key : String) (entries : List (String × α)) : List (String × α) :=
  entries.filter fun (k, _) => k ≠ key

theorem lookup_set_self (key : String) (value : α) (entries : List (String × α)) :
    (set key value entries).lookup key = some value := by
  induction entries with
  | nil => simp [set]
  | cons first rest ih =>
    obtain ⟨k, v⟩ := first
    simp only [set]
    split
    · simp
    · next h =>
      have hb : (key == k) = false := by simpa using Ne.symm h
      rw [List.lookup_cons, hb]
      exact ih

theorem mem_of_lookup (h : entries.lookup key = some value) : (key, value) ∈ entries := by
  obtain ⟨before, after, rfl, -⟩ := List.lookup_eq_some_iff.1 h
  exact List.mem_append_right _ List.mem_cons_self

/-- Where names are different, each entry is found by its name. -/
theorem lookup_of_mem (hdistinct : (entries.map Prod.fst).Nodup) (h : (key, value) ∈ entries) :
    entries.lookup key = some value := by
  obtain ⟨before, after, rfl⟩ := List.append_of_mem h
  refine List.lookup_eq_some_iff.2 ⟨before, after, rfl, fun e he => ?_⟩
  rw [List.map_append, List.map_cons, List.nodup_append] at hdistinct
  exact bne_iff_ne.2 fun heq =>
    hdistinct.2.2 e.1 (List.mem_map_of_mem he) key List.mem_cons_self heq.symm

end SchemaPlan.Assoc
