import SchemaPlan.Proofs.Distinct
import SchemaPlan.Proofs.Migration.Order
import SchemaPlan.Proofs.Version.Numbers

/-!
# What duplicates are hashed by

Versions are compared with zeros put after the shorter one, but they are hashed by what is left when
the zeros at the end are taken off. Both see the same: taking off zeros is compatible with taking
off the first component (`withoutZeros_eq_iff`), which is the step of comparing. So versions and
migrations are equal exactly if they are hashed by the same, and a hash table keeps one of each
class.
-/

namespace SchemaPlan

open Std

/-! ### Versions -/

namespace Version

/-- Some components up to the last one that is not zero. -/
def withoutZeros (as : List String) : List String := (as.reverse.dropWhile (· = "0")).reverse

theorem withoutZeros_cons (a : String) (as : List String) :
    withoutZeros (a :: as) =
      if withoutZeros as = [] ∧ a = "0" then [] else a :: withoutZeros as := by
  unfold withoutZeros
  rw [List.reverse_cons, List.dropWhile_append]
  simp only [List.isEmpty_iff, List.reverse_eq_nil_iff]
  by_cases hnil : as.reverse.dropWhile (· = "0") = []
  · by_cases ha : a = "0"
    · simp [hnil, ha]
    · simp [hnil, ha]
  · simp [hnil]

/-- What is left depends on the first component and on what is left of the others; a missing first
component is taken for zero. -/
theorem withoutZeros_eq (as : List String) :
    withoutZeros as =
      if withoutZeros as.tail = [] ∧ as.headD "0" = "0" then []
      else as.headD "0" :: withoutZeros as.tail := by
  cases as with
  | nil => rfl
  | cons a as => exact withoutZeros_cons a as

/-- Taking off zeros is compatible with taking off the first component. -/
theorem withoutZeros_eq_iff {as bs : List String} :
    withoutZeros as = withoutZeros bs ↔
      as.headD "0" = bs.headD "0" ∧ withoutZeros as.tail = withoutZeros bs.tail := by
  rw [withoutZeros_eq as, withoutZeros_eq bs]
  generalize as.headD "0" = a, withoutZeros as.tail = s, bs.headD "0" = b, withoutZeros bs.tail = t
  by_cases ha : s = [] ∧ a = "0"
  · by_cases hb : t = [] ∧ b = "0"
    · rw [if_pos ha, if_pos hb, ha.1, ha.2, hb.1, hb.2]
      exact iff_of_true rfl ⟨rfl, rfl⟩
    · rw [if_pos ha, if_neg hb]
      refine iff_of_false (by rintro ⟨⟩) ?_
      rintro ⟨rfl, rfl⟩
      exact hb ha
  · by_cases hb : t = [] ∧ b = "0"
    · rw [if_neg ha, if_pos hb]
      refine iff_of_false (by rintro ⟨⟩) ?_
      rintro ⟨rfl, rfl⟩
      exact ha hb
    · rw [if_neg ha, if_neg hb, List.cons.injEq]

/-- Components compare as equal exactly if they are the same up to zeros at the end. -/
theorem compareComponents_eq_eq_iff {as bs : List String} :
    compareComponents as bs = .eq ↔ withoutZeros as = withoutZeros bs := by
  induction as, bs using tails_induction with
  | nil => exact iff_of_true rfl rfl
  | tails as bs ih =>
    rw [compareComponents_eq, Ordering.then_eq_eq, compareNumerals_eq_eq_iff, withoutZeros_eq_iff,
      ih]

/-- Versions are equal exactly if they are hashed by the same components. -/
theorem same_iff_withoutTrailingZeros {v w : Version} :
    v.same w ↔ v.withoutTrailingZeros = w.withoutTrailingZeros :=
  same_iff.trans compareComponents_eq_eq_iff

theorem sameOptional_iff_map {v w : Option Version} :
    sameOptional v w ↔ v.map withoutTrailingZeros = w.map withoutTrailingZeros := by
  cases v with
  | none => cases w <;> simp [sameOptional, compareOptional]
  | some v =>
    cases w with
    | none => simp [sameOptional, compareOptional]
    | some w =>
      rw [Option.map_some, Option.map_some, Option.some.injEq, ← same_iff_withoutTrailingZeros]
      rfl

/-- Versions that were read are equal exactly if their texts denote the same numbers. -/
theorem same_iff_numbers {v w : Version} {a b : String} (hv : parse a = .ok v)
    (hw : parse b = .ok w) : v.same w ↔ numbers v.text = numbers w.text :=
  same_iff.trans (cmp_compares_numbers (parse_text hv) (parse_text hw)).eq_eq

/-- `held` are some of the versions `vs`, one for each sequence of numbers that is among them. -/
structure OneOfEach (held vs : List Version) : Prop where
  sublist : held.Sublist vs
  nodup : (held.map fun v => numbers v.text).Nodup
  covers {v : Version} : v ∈ vs → ∃ m ∈ held, numbers m.text = numbers v.text

/-- A hash table of versions keeps one of each class. -/
theorem oneOfEach_firsts {vs : List Version} {finds : Version → Version → Bool}
    (hvs : ∀ v ∈ vs, ∃ text, parse text = .ok v)
    (hfinds : Distinct.FindsByHash withoutTrailingZeros same finds) :
    OneOfEach (Distinct.firsts finds vs) vs := by
  rw [hfinds.firsts_eq fun v w => same_iff_withoutTrailingZeros.1]
  have hsublist := Distinct.firsts_sublist same vs
  have hnumbers : ∀ v ∈ vs, ∀ w ∈ vs, (v.same w ↔ numbers v.text = numbers w.text) := by
    intro v hv w hw
    obtain ⟨a, ha⟩ := hvs v hv
    obtain ⟨b, hb⟩ := hvs w hw
    exact same_iff_numbers ha hb
  refine ⟨hsublist, ?_, fun {v} hv => ?_⟩
  · refine List.pairwise_map.2 ((Distinct.pairwise_firsts same vs).imp_of_mem ?_)
    intro v w hv hw hdiffer heq
    rw [(hnumbers v (hsublist.subset hv) w (hsublist.subset hw)).2 heq] at hdiffer
    cases hdiffer
  · have hclasses : OrdersClasses cmp same := .of_transCmp fun _ _ => same_iff
    obtain ⟨m, hm, hmv⟩ := Distinct.exists_mem_firsts hclasses.equivalence hv
    exact ⟨m, hm, (hnumbers m (hsublist.subset hm) v hv).1 hmv⟩

end Version

/-! ### Migrations -/

namespace Migration

theorem same_iff_fingerprint {x y : Migration} : x.same y ↔ x.fingerprint = y.fingerprint := by
  rw [same_iff, ← Version.sameOptional_iff, Version.sameOptional_iff_map]
  simp only [fingerprint, Prod.mk.injEq]

/-- **Equality, hashing and order agree**: versions are equal exactly if they are hashed by the same
components, and a hash table keeps one version for each sequence of numbers. Being duplicates is an
equivalence; duplicates are those migrations that are hashed by the same, so a hash table keeps the
first of them, and they are in one place and compare alike with every other migration. -/
theorem fingerprint_coherent :
    (∀ v w : Version, v.same w ↔ v.withoutTrailingZeros = w.withoutTrailingZeros) ∧
      (∀ {vs : List Version} {finds : Version → Version → Bool},
        (∀ v ∈ vs, ∃ text, Version.parse text = .ok v) →
        Distinct.FindsByHash Version.withoutTrailingZeros Version.same finds →
        Version.OneOfEach (Distinct.firsts finds vs) vs) ∧
      (Equivalence fun x y : Migration => x.same y = true) ∧
      (∀ x y : Migration, x.same y ↔ x.fingerprint = y.fingerprint) ∧
      (∀ {ms : List Migration} {finds : Migration → Migration → Bool},
        Distinct.FindsByHash fingerprint same finds →
        Distinct.firsts finds ms = Distinct.firsts same ms) ∧
      ∀ {x y : Migration}, x.same y →
        x.cmp y = .eq ∧ ∀ z : Migration, x.cmp z = y.cmp z ∧ z.cmp x = z.cmp y := by
  refine ⟨fun v w => Version.same_iff_withoutTrailingZeros, Version.oneOfEach_firsts,
    equivalence_same, fun x y => same_iff_fingerprint, fun {ms finds} hfinds => ?_,
    fun {x y} hsame => ?_⟩
  · exact hfinds.firsts_eq (fun x y => same_iff_fingerprint.1) ms
  · have hplace := cmp_eq_of_same hsame
    exact ⟨hplace, fun z => ⟨TransCmp.congr_left hplace, TransCmp.congr_right hplace⟩⟩

/-- Versions of which one is written in two ways. -/
def writtenTwice : List Version := [⟨["1"], "1"⟩, ⟨["1", "0"], "01.0"⟩, ⟨["2"], "2"⟩]

/-- Hashing by the number of components alone, so that `1` and `2` collide. -/
def countHash (components : List String) : UInt64 := UInt64.ofNat components.length

/-- A script for users, kept in some directory. -/
def usersScript (directory : String) (version : Version) : Migration :=
  ⟨some version, "users", "users.sql", some 1, .sql, directory ++ "/users.sql", .idle⟩

theorem fingerprint_coherent_writtenTwice :
    Version.OneOfEach (Distinct.firsts (fun v w => countHash v.withoutTrailingZeros ==
        countHash w.withoutTrailingZeros && v.same w) writtenTwice) writtenTwice ∧
      (usersScript "a" ⟨["1"], "1"⟩).fingerprint =
        (usersScript "b" ⟨["1", "0"], "01.0"⟩).fingerprint ∧
      ∀ z, (usersScript "a" ⟨["1"], "1"⟩).cmp z = (usersScript "b" ⟨["1", "0"], "01.0"⟩).cmp z := by
  obtain ⟨-, hversions, -, hfingerprint, -, hplaces⟩ := fingerprint_coherent
  have hread : ∀ v ∈ writtenTwice, ∃ text, Version.parse text = .ok v := by
    intro v hv
    simp only [writtenTwice, List.mem_cons, List.not_mem_nil, or_false] at hv
    rcases hv with rfl | rfl | rfl
    · exact ⟨"1", by decide⟩
    · exact ⟨"01.0", by decide⟩
    · exact ⟨"2", by decide⟩
  have hsame : (usersScript "a" ⟨["1"], "1"⟩).same (usersScript "b" ⟨["1", "0"], "01.0"⟩) := by
    decide
  exact ⟨hversions hread (Distinct.findsByHash_of_hash _ _ countHash), (hfingerprint _ _).1 hsame,
    fun z => ((hplaces hsame).2 z).1⟩

end Migration

end SchemaPlan
