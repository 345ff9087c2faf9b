import SchemaPlan.Proofs.Resolver.Embedded
import SchemaPlan.Proofs.Selection

/-!
# Adding to what is held in memory

The resources in memory are kept in the order of their paths. Whether a resource is one of a
callback is told by its path, so an addition either stays among the callbacks or among the others
(`withoutCallbacks_add`), and callbacks that are added between other resources leave these as they
are (`withoutCallbacks_addAll`). A scan for scripts sees nothing but these (`scanned_eq`).
-/

namespace SchemaPlan

namespace Dict

variable {α : Type} {key : String} {value : α} {entries : List (String × α)}

theorem insertEntry_of_forall_lt (h : ∀ e ∈ entries, key < e.1) :
    insertEntry key value entries = (key, value) :: entries := by
  cases entries with
  | nil => rfl
  | cons e rest => exact if_pos (h e List.mem_cons_self)

/-- The entry of a new key is put in between the others. -/
theorem exists_insertEntry_of_notMem (value : α) (h : ∀ e ∈ entries, key ≠ e.1) :
    ∃ before after, entries = before ++ after ∧
      insertEntry key value entries = before ++ (key, value) :: after := by
  induction entries with
  | nil => exact ⟨[], [], rfl, rfl⟩
  | cons first rest ih =>
    obtain ⟨k, v⟩ := first
    obtain ⟨hfirst, hrest⟩ := List.forall_mem_cons.1 h
    simp only [insertEntry]
    by_cases hlt : key < k
    · exact ⟨[], (k, v) :: rest, rfl, if_pos hlt⟩
    · obtain ⟨before, after, rfl, hinsert⟩ := ih hrest
      refine ⟨(k, v) :: before, after, rfl, ?_⟩
      rw [if_neg hlt, if_neg hfirst, hinsert]
      rfl

/-- Entries may be selected by their keys before or after one is set. -/
theorem filter_insertEntry (p : String → Bool) (key : String) (value : α)
    (h : entries.Pairwise fun a b => a.1 < b.1) :
    (insertEntry key value entries).filter (fun e => p e.1) =
      if p key then insertEntry key value (entries.filter fun e => p e.1)
      else entries.filter fun e => p e.1 := by
  induction entries with
  | nil => cases hp : p key <;> simp [insertEntry, hp]
  | cons first rest ih =>
    obtain ⟨k, v⟩ := first
    have hfirst := (List.pairwise_cons.1 h).1
    have ih := ih (List.pairwise_cons.1 h).2
    simp only [insertEntry]
    split
    · next hlt =>
      -- all of the entries come after the new one
      have hall : ∀ e ∈ ((k, v) :: rest).filter fun e => p e.1, key < e.1 := by
        intro e he
        rcases List.mem_cons.1 (List.mem_filter.1 he).1 with rfl | he
        · exact hlt
        · exact String.lt_trans hlt (hfirst e he)
      rw [List.filter_cons, insertEntry_of_forall_lt hall]
    · next hlt =>
      split
      · next heq =>
        subst heq
        cases hp : p key <;> simp [hp, insertEntry]
      · next hne =>
        rw [List.filter_cons, List.filter_cons, ih]
        cases hk : p k with
        | false => rfl
        | true => cases hp : p key <;> simp [insertEntry, hlt, hne]

end Dict

/-- Slashes in front do not count for the last segment. -/
theorem lastSegment_dropWhile (path : String) :
    lastSegment (String.ofList (path.toList.dropWhile (· = '/'))) = lastSegment path := by
  have hsplit : path.toList.takeWhile (· = '/') ++ path.toList.dropWhile (· = '/') = path.toList :=
    List.takeWhile_append_dropWhile
  rcases List.eq_nil_or_concat (path.toList.takeWhile (· = '/')) with hnil | ⟨front, c, hfront⟩
  · rw [hnil, List.nil_append] at hsplit
    rw [hsplit, String.ofList_toList]
  · have hc : c = '/' := by
      have hmem : c ∈ path.toList.takeWhile (· = '/') := by simp [hfront]
      exact of_decide_eq_true (List.all_eq_true.1 List.all_takeWhile c hmem)
    subst hc
    refine (@lastSegment_eq_of_append _ _ front ?_).symm
    rw [hfront, List.concat_eq_append, List.append_assoc] at hsplit
    rw [String.toList_ofList]
    exact hsplit.symm

/-- Whether a path is that of a callback. -/
def Config.isCallbackPath (c : Config) (path : String) : Bool :=
  isCallbackName (lastSegment path) c.suffix

namespace Bundle

variable {c : Config} {resources resources' : Bundle}

/-- The path that a resource is kept under. -/
def key (path : String) : String := String.ofList (path.toList.dropWhile (· = '/'))

theorem lastSegment_key (path : String) : lastSegment (key path) = lastSegment path :=
  lastSegment_dropWhile path

/-- Add resources one after the other. -/
def addAll (resources : Bundle) (added : List (String × List UInt8)) : Bundle :=
  added.foldl (fun resources r => resources.add r.1 r.2) resources

/-- The resources that are no callbacks. -/
def withoutCallbacks (resources : Bundle) (c : Config) : List (String × List UInt8) :=
  resources.entries.toList.filter fun e => !c.isCallbackPath e.1

/-- A callback is added to the callbacks, and anything else to the rest. -/
theorem withoutCallbacks_add (resources : Bundle) (c : Config) (path : String)
    (content : List UInt8) :
    (resources.add path content).withoutCallbacks c =
      if c.isCallbackPath path then resources.withoutCallbacks c
      else Dict.insertEntry (String.ofList (path.toList.dropWhile (· = '/'))) content
        (resources.withoutCallbacks c) := by
  have hpath : c.isCallbackPath (String.ofList (path.toList.dropWhile (· = '/'))) =
      c.isCallbackPath path := by
    rw [Config.isCallbackPath, lastSegment_dropWhile, Config.isCallbackPath]
  refine (Dict.filter_insertEntry (fun path => !c.isCallbackPath path)
    (String.ofList (path.toList.dropWhile (· = '/'))) content resources.entries.ascending).trans ?_
  rw [hpath]
  cases c.isCallbackPath path <;> rfl

/-- Callbacks that are added between other resources leave these as they are. -/
theorem withoutCallbacks_addAll {added added' : List (String × List UInt8)}
    (h : Selection.Interspersed (fun r => c.isCallbackPath r.1) added added')
    (hsame : resources'.withoutCallbacks c = resources.withoutCallbacks c) :
    (resources'.addAll added').withoutCallbacks c =
      (resources.addAll added).withoutCallbacks c := by
  induction h generalizing resources resources' with
  | nil => exact hsame
  | kept r _ ih =>
    refine ih ?_
    rw [withoutCallbacks_add, withoutCallbacks_add, hsame]
  | put hr _ ih =>
    refine ih ?_
    rw [withoutCallbacks_add, if_pos hr, hsame]

end Bundle

/-- What is scanned for scripts are resources that are no callbacks. -/
theorem Config.scanned_eq (c : Config) (storage : Storage) (l : Location) (repeatable : Bool) :
    c.scanned storage l repeatable =
      (storage.embedded.withoutCallbacks c).filter fun e =>
        Text.startsWith (Bundle.base l).toList e.1.toList &&
          (c.scheme repeatable).covers (lastSegment e.1) := by
  rw [scanned, Bundle.below, Bundle.withoutCallbacks, List.filter_filter, List.filter_filter]
  refine List.filter_congr fun e _ => ?_
  rw [wants, isCallbackPath, Bool.and_comm]
  cases isCallbackName (lastSegment e.1) c.suffix <;> simp [Bool.and_comm]

end SchemaPlan
