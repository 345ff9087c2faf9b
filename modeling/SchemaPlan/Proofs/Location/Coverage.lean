import Mathlib.Data.List.Nodup
import SchemaPlan.Proofs.Location.Roots
import SchemaPlan.Proofs.Location.Segments
import SchemaPlan.Proofs.Storage.Bundle

/-!
# What the roots cover

An embedded location covers the paths that begin with its own path and a slash; the one of the empty
path covers all. Since no embedded path ends with a slash, one embedded location encloses another
exactly if it covers its path (`encloses_iff`), and of two locations that cover one path the one
encloses the other unless they are the same. So whatever some configured location covers is covered
by exactly one root: by the one that holds that location (`exists_root_covers`), and by no other
because no root encloses another (`eq_of_covers`).
-/

namespace SchemaPlan.Location

/-! ### Locations that can be made -/

/-- A location as one can be made. -/
inductive Made : Location → Prop where
  /-- The embedded location of a path. -/
  | embedded (path : String) : Made (embedded path)
  /-- The location of a directory. -/
  | filesystem {path : String} {l : Location} : filesystem path = .ok l → Made l

theorem made_of_parse {descriptor : String} {l : Location} (h : parse descriptor = .ok l) :
    l.Made := by
  simp only [parse] at h
  split at h
  · cases h
    exact .embedded _
  split at h
  · exact .filesystem h
  split at h
  · exact .filesystem h
  · cases h

theorem made_of_parseAll {descriptors : List String} {ls : List Location}
    (h : parseAll descriptors = .ok ls) : ∀ l ∈ ls, l.Made := by
  intro l hl
  obtain ⟨descriptor, -, hparse⟩ := (Traversal.mem_of_mapM_eq_ok h).1 hl
  exact made_of_parse hparse

/-- Segments joined by slashes do not end with one. -/
theorem getLast?_intercalate_ne {segments : List (List Char)} (h : ∀ s ∈ segments, IsSegment s) :
    (['/'].intercalate segments).getLast? ≠ some '/' := by
  induction segments with
  | nil => simp
  | cons s segments ih =>
    cases segments with
    | nil =>
      rw [List.intercalate_singleton]
      exact fun hlast => (h s List.mem_cons_self).noSlash (List.mem_of_getLast? hlast)
    | cons t segments =>
      have ih := ih fun s hs => h s (List.mem_cons_of_mem _ hs)
      have hne : ['/'].intercalate (t :: segments) ≠ [] := by
        have ht := (h t (List.mem_cons_of_mem _ List.mem_cons_self)).ne_nil
        cases segments with
        | nil => simpa using ht
        | cons u segments => simp [List.intercalate_cons_cons]
      rwa [List.intercalate_cons_cons, List.getLast?_append_of_ne_nil _ hne]

/-- No embedded path ends with a slash. -/
theorem getLast?_path_ne {l : Location} (h : l.Made) (hl : l.isEmbedded) :
    l.path.toList.getLast? ≠ some '/' := by
  cases h with
  | embedded path =>
    show (String.ofList (['/'].intercalate (segments path))).toList.getLast? ≠ some '/'
    rw [String.toList_ofList]
    exact getLast?_intercalate_ne fun s hs => isSegment_of_mem_segments hs
  | @filesystem path _ h =>
    unfold filesystem at h
    split at h
    · cases h
    · cases h
      exact absurd hl Bool.false_ne_true

/-! ### Enclosing and covering -/

variable {k l : Location} {ls : List Location}

/-- Whether a location covers a path in memory. -/
def covers (l : Location) (path : List Char) : Bool :=
  l.isEmbedded && Text.startsWith (Bundle.base l).toList path

theorem covers_iff {path : List Char} :
    l.covers path ↔ l.isEmbedded ∧ (Bundle.base l).toList <+: path := by
  rw [covers, Bool.and_eq_true, Text.startsWith_iff]

theorem toList_base_of_path_ne (h : l.path ≠ "") :
    (Bundle.base l).toList = l.path.toList ++ ['/'] := by
  rw [Bundle.base, if_neg h]
  exact String.toList_append

theorem base_of_path_eq (h : l.path = "") : Bundle.base l = "" := if_pos h

/-- Embedded locations with one path are one. -/
theorem eq_of_path_eq (hk : k.isEmbedded) (hl : l.isEmbedded) (h : k.path = l.path) : k = l := by
  obtain ⟨medium, path⟩ := k
  obtain ⟨medium', path'⟩ := l
  cases (of_decide_eq_true hk : medium = .embedded)
  cases (of_decide_eq_true hl : medium' = .embedded)
  cases h
  rfl

/-- An embedded location encloses those that it covers the path of. -/
theorem encloses_iff (hk : k.Made) (hembedded : k.isEmbedded) :
    k.encloses l ↔ l.isEmbedded ∧ k.path ≠ l.path ∧
      (Bundle.base k).toList <+: l.path.toList := by
  have hmedium : k.medium = .embedded := of_decide_eq_true hembedded
  have hl : k.medium = l.medium ↔ l.isEmbedded := by
    rw [isEmbedded, decide_eq_true_iff, hmedium, eq_comm]
  rw [encloses_iff_text, hl]
  refine and_congr_right fun _ => and_congr_right fun _ => ?_
  by_cases hroot : k.path = ""
  · rw [base_of_path_eq hroot]
    exact iff_of_true (.inl ⟨hembedded, hroot⟩) List.nil_prefix
  have hlast : ¬ ['/'] <:+ k.path.toList := by
    rintro ⟨front, hfront⟩
    exact getLast?_path_ne hk hembedded (by rw [← hfront, List.getLast?_concat])
  simp only [hroot, hlast, and_false, false_or, or_false]
  rw [toList_base_of_path_ne hroot]
  constructor
  · rintro ⟨rest, heq, hrest⟩
    rwa [heq, List.prefix_append_right_inj]
  · rintro ⟨rest, heq⟩
    exact ⟨'/' :: rest, by rw [← heq, List.append_assoc]; rfl, rest, rfl⟩

theorem base_prefix_of_encloses (hk : k.Made) (hembedded : k.isEmbedded) (h : k.encloses l) :
    (Bundle.base k).toList <+: (Bundle.base l).toList := by
  obtain ⟨-, -, hprefix⟩ := (encloses_iff hk hembedded).1 h
  by_cases hl : l.path = ""
  · rw [hl] at hprefix
    rw [List.prefix_nil.1 hprefix]
    exact List.nil_prefix
  · rw [toList_base_of_path_ne hl]
    exact hprefix.trans (List.prefix_append _ _)

/-- What covers a path with a slash behind it is the location of that path, or covers the path. -/
theorem path_eq_or_covered {path : String}
    (h : (Bundle.base k).toList <+: path.toList ++ ['/']) :
    k.path = path ∨ (Bundle.base k).toList <+: path.toList := by
  by_cases hk : k.path = ""
  · rw [base_of_path_eq hk]
    exact .inr List.nil_prefix
  rcases List.prefix_concat_iff.1 h with h | h
  · rw [toList_base_of_path_ne hk, List.append_cancel_right_eq] at h
    exact .inl (String.toList_injective h)
  · exact .inr h

/-- Of two embedded locations that cover one path the one with the shorter path encloses the other.
-/
theorem encloses_of_bases (hk : k.Made) (hkembedded : k.isEmbedded) (hlembedded : l.isEmbedded)
    (hne : k ≠ l) (h : (Bundle.base k).toList <+: (Bundle.base l).toList) : k.encloses l := by
  have hpath : k.path ≠ l.path := fun heq => hne (eq_of_path_eq hkembedded hlembedded heq)
  refine (encloses_iff hk hkembedded).2 ⟨hlembedded, hpath, ?_⟩
  by_cases hl : l.path = ""
  · rwa [base_of_path_eq hl, ← hl] at h
  · rw [toList_base_of_path_ne hl] at h
    exact (path_eq_or_covered h).resolve_left hpath

/-- A location holds a package exactly if it covers the path of the package with a slash behind it.
-/
theorem holds_iff (hk : k.Made) (hembedded : k.isEmbedded) (package : Location) :
    k.holds package ↔ package.isEmbedded ∧ k.covers (package.path.toList ++ ['/']) := by
  unfold holds
  rw [Bool.or_eq_true, decide_eq_true_eq, encloses_iff hk hembedded, covers_iff]
  constructor
  · rintro (rfl | ⟨hpackage, -, hprefix⟩)
    · refine ⟨hembedded, hembedded, ?_⟩
      by_cases hpath : k.path = ""
      · rw [base_of_path_eq hpath]
        exact List.nil_prefix
      · rw [toList_base_of_path_ne hpath]
    · exact ⟨hpackage, hembedded, hprefix.trans (List.prefix_append _ _)⟩
  · rintro ⟨hpackage, -, hprefix⟩
    by_cases hpath : k.path = package.path
    · exact .inl (eq_of_path_eq hembedded hpackage hpath)
    · exact .inr ⟨hpackage, hpath, (path_eq_or_covered hprefix).resolve_left hpath⟩

theorem any_holds (hls : ∀ l ∈ ls, l.Made) (package : Location) :
    (ls.any fun l => l.isEmbedded && l.holds package) =
      (package.isEmbedded && ls.any (·.covers (package.path.toList ++ ['/']))) := by
  rw [Bool.eq_iff_iff, Bool.and_eq_true, List.any_eq_true, List.any_eq_true]
  constructor
  · rintro ⟨l, hl, h⟩
    obtain ⟨hembedded, hholds⟩ := Bool.and_eq_true_iff.1 h
    obtain ⟨hpackage, hcovers⟩ := (holds_iff (hls l hl) hembedded package).1 hholds
    exact ⟨hpackage, l, hl, hcovers⟩
  · rintro ⟨hpackage, l, hl, hcovers⟩
    have hembedded := (covers_iff.1 hcovers).1
    exact ⟨l, hl, Bool.and_eq_true_iff.2
      ⟨hembedded, (holds_iff (hls l hl) hembedded package).2 ⟨hpackage, hcovers⟩⟩⟩

/-! ### Roots -/

/-- What a configured location covers lies in an embedded root. -/
theorem exists_root_covers (hls : ∀ l ∈ ls, l.Made) (hl : l ∈ ls) {path : List Char}
    (hpath : l.covers path) : ∃ k ∈ roots ls, k.covers path := by
  obtain ⟨hembedded, hprefix⟩ := covers_iff.1 hpath
  obtain ⟨k, hk, rfl | hencloses⟩ := exists_root hl
  · exact ⟨k, hk, hpath⟩
  have hkembedded : k.isEmbedded := by
    rwa [isEmbedded, (encloses_iff_text.1 hencloses).1]
  have hbase := base_prefix_of_encloses (hls k (mem_roots_iff.1 hk).1) hkembedded hencloses
  exact ⟨k, hk, covers_iff.2 ⟨hkembedded, hbase.trans hprefix⟩⟩

/-- No path is covered by two roots. -/
theorem eq_of_covers (hls : ∀ l ∈ ls, l.Made) (hk : k ∈ roots ls) (hl : l ∈ roots ls)
    {path : List Char} (hkpath : k.covers path) (hlpath : l.covers path) : k = l := by
  obtain ⟨hk, hkroot⟩ := mem_roots_iff.1 hk
  obtain ⟨hl, hlroot⟩ := mem_roots_iff.1 hl
  obtain ⟨hkembedded, hkprefix⟩ := covers_iff.1 hkpath
  obtain ⟨hlembedded, hlprefix⟩ := covers_iff.1 hlpath
  by_contra hne
  rcases List.prefix_or_prefix_of_prefix hkprefix hlprefix with h | h
  · exact hlroot k hk (encloses_of_bases (hls k hk) hkembedded hlembedded hne h)
  · exact hkroot l hl (encloses_of_bases (hls l hl) hlembedded hkembedded (Ne.symm hne) h)

/-- The roots cover what the configured locations cover. -/
theorem any_covers_roots (hls : ∀ l ∈ ls, l.Made) (path : List Char) :
    (roots ls).any (·.covers path) = ls.any (·.covers path) := by
  rw [Bool.eq_iff_iff, List.any_eq_true, List.any_eq_true]
  constructor
  · rintro ⟨k, hk, hcovers⟩
    exact ⟨k, (mem_roots_iff.1 hk).1, hcovers⟩
  · rintro ⟨l, hl, hcovers⟩
    exact exists_root_covers hls hl hcovers

theorem nodup_roots (ls : List Location) : (roots ls).Nodup := by
  have hdistinct : (distinct ls).Nodup := by
    refine (Distinct.pairwise_firsts _ ls).imp fun {a b} h heq => ?_
    rw [decide_eq_true heq] at h
    cases h
  exact hdistinct.filter _

/-- Among the roots the one that covers a path stands between such as do not. -/
theorem exists_split_roots (hls : ∀ l ∈ ls, l.Made) (hl : l ∈ ls) {path : List Char}
    (hpath : l.covers path) :
    ∃ before k after, roots ls = before ++ k :: after ∧ k.covers path ∧
      ∀ j ∈ before ++ after, j.covers path = false := by
  obtain ⟨k, hk, hkpath⟩ := exists_root_covers hls hl hpath
  obtain ⟨before, after, hsplit⟩ := List.append_of_mem hk
  refine ⟨before, k, after, hsplit, hkpath, fun j hj => Bool.eq_false_iff.2 fun hjpath => ?_⟩
  have hjroot : j ∈ roots ls := by
    rw [hsplit]
    exact List.mem_append.2 ((List.mem_append.1 hj).imp_right (List.mem_cons_of_mem k))
  have hnodup := nodup_roots ls
  rw [hsplit, List.nodup_middle, List.nodup_cons] at hnodup
  exact hnodup.1 (eq_of_covers hls hjroot hk hjpath hkpath ▸ hj)

/-- The roots share no path. -/
theorem pairwise_roots (hls : ∀ l ∈ ls, l.Made) :
    (roots ls).Pairwise fun k l => ∀ path, ¬ (k.covers path ∧ l.covers path) := by
  refine List.Pairwise.imp_of_mem (fun {k l} hk hl hne path h => ?_) (nodup_roots ls)
  exact hne (eq_of_covers hls hk hl h.1 h.2)

end SchemaPlan.Location
