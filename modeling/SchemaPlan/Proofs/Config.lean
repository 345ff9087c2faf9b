import SchemaPlan.Config
import SchemaPlan.Proofs.Traversal

/-!
# When a configuration passes its check

A configuration passes its check exactly if the marks that must not be empty are not, the markers
differ, and every configured location is one (`result_check_eq_ok_iff`). Nothing is said about the
length of the marks around placeholders, which decides on whether there is a replacer.
-/

namespace SchemaPlan.Config

variable {c : Config}

/-! ### Name schemes -/

/-- The name scheme of one kind of scripts. -/
def scheme (c : Config) : (repeatable : Bool) → NameScheme
  | false => c.versionedScheme
  | true => c.repeatableScheme

@[simp] theorem suffix_scheme (c : Config) (repeatable : Bool) :
    (c.scheme repeatable).suffix = c.suffix := by
  cases repeatable <;> rfl

@[simp] theorem separator_scheme (c : Config) (repeatable : Bool) :
    (c.scheme repeatable).separator = c.separator := by
  cases repeatable <;> rfl

/-! ### The check -/

/-- The marks fit together. -/
structure Marked (c : Config) : Prop where
  versioned : c.versionedMarker ≠ ""
  repeatable : c.repeatableMarker ≠ ""
  separator : c.separator ≠ ""
  differ : c.versionedMarker ≠ c.repeatableMarker
  placeholders : c.replacePlaceholders → c.placeholderOpening ≠ "" ∧ c.placeholderClosing ≠ ""

/-- The marks around placeholders, where these are replaced, are not too long for an automaton. -/
def MarksFit (c : Config) : Prop :=
  c.replacePlaceholders →
    Replacer.automatonSize c.placeholderOpening c.placeholderClosing ≤ Replacer.maxAutomatonSize

theorem checkMarks_eq_ok_iff : c.checkMarks = .ok () ↔ c.Marked := by
  unfold checkMarks
  constructor
  · intro h
    split at h
    · cases h
    next hversioned =>
    split at h
    · cases h
    next hrepeatable =>
    split at h
    · cases h
    next hseparator =>
    split at h
    · cases h
    next hdiffer =>
    split at h
    · cases h
    next hplaceholders =>
    simp only [String.isEmpty_iff, Bool.and_eq_true, Bool.or_eq_true, not_and, not_or] at *
    exact ⟨hversioned, hrepeatable, hseparator, hdiffer, hplaceholders⟩
  · rintro ⟨hversioned, hrepeatable, hseparator, hdiffer, hplaceholders⟩
    have hmarks : ¬ (c.replacePlaceholders &&
        (c.placeholderOpening.isEmpty || c.placeholderClosing.isEmpty)) = true := by
      simp only [String.isEmpty_iff, Bool.and_eq_true, Bool.or_eq_true, not_and, not_or]
      exact hplaceholders
    rw [if_neg (mt String.isEmpty_iff.1 hversioned), if_neg (mt String.isEmpty_iff.1 hrepeatable),
      if_neg (mt String.isEmpty_iff.1 hseparator), if_neg hdiffer, if_neg hmarks]

theorem result_check_eq_ok_iff :
    c.check.result = .ok () ↔ c.checkMarks = .ok () ∧ ∃ ls, c.roots.result = .ok ls := by
  simp only [check, ResolveM.result_bind_eq_ok_iff, ResolveM.result_ofExcept,
    ResolveM.result_pure, and_true]
  exact ⟨fun ⟨_, hmarks, hroots⟩ => ⟨hmarks, hroots⟩, fun ⟨hmarks, hroots⟩ => ⟨(), hmarks, hroots⟩⟩

/-- What is wrong with the marks is reported as an error of the configuration. -/
theorem exists_config_of_checkMarks {e : PlanError} (h : c.checkMarks = .error e) :
    ∃ reason, e = .config reason := by
  unfold checkMarks at h
  repeat' split at h
  all_goals cases h
  all_goals exact ⟨_, rfl⟩

/-- If all locations can be read, the check fails with an error of the configuration. -/
theorem exists_config_of_check {ls : List Location} (hroots : c.roots.result = .ok ls)
    {e : PlanError} (h : c.check.result = .error e) : ∃ reason, e = .config reason := by
  rw [check, ResolveM.result_bind, ResolveM.result_ofExcept, ResolveM.result_bind, hroots] at h
  cases hmarks : c.checkMarks with
  | error e' =>
    rw [hmarks] at h
    cases h
    exact exists_config_of_checkMarks hmarks
  | ok u =>
    rw [hmarks] at h
    cases h

/-- A location that cannot be read is reported as such. -/
theorem exists_invalidLocation_of_roots {e : PlanError} (h : c.roots.result = .error e) :
    ∃ reason, e = .invalidLocation reason := by
  have hfilesystem : ∀ path, Location.filesystem path = .error e →
      ∃ reason, e = .invalidLocation reason := by
    intro path hpath
    unfold Location.filesystem at hpath
    split at hpath
    · cases hpath
      exact ⟨_, rfl⟩
    · cases hpath
  rw [roots, Location.result_parseRoots, Traversal.map_eq_error_iff] at h
  obtain ⟨descriptor, -, hparse⟩ := Traversal.exists_of_mapM_eq_error h
  simp only [Location.parse] at hparse
  split at hparse
  · cases hparse
  split at hparse
  · exact hfilesystem _ hparse
  split at hparse
  · exact hfilesystem _ hparse
  · cases hparse
    exact ⟨_, rfl⟩

/-- What the check finds is no conflict. -/
theorem isConflict_of_check {e : PlanError} (h : c.check.result = .error e) :
    e.isConflict = false := by
  simp only [check, ResolveM.result_bind, ResolveM.result_ofExcept,
    Traversal.bind_eq_error_iff] at h
  rcases h with hmarks | ⟨_, -, hroots | ⟨_, -, ⟨⟩⟩⟩
  · obtain ⟨reason, rfl⟩ := exists_config_of_checkMarks hmarks
    rfl
  · obtain ⟨reason, rfl⟩ := exists_invalidLocation_of_roots hroots
    rfl

theorem exists_config_of_replacer {e : PlanError} (h : c.replacer = .error e) :
    ∃ reason, e = .config reason := by
  unfold replacer Replacer.make at h
  repeat' split at h
  all_goals cases h
  all_goals exact ⟨_, rfl⟩

/-- Of marks that fit together there is a replacer unless they are too long. -/
theorem replacer_of_marked (h : c.Marked) (hreplace : c.replacePlaceholders) :
    c.replacer =
      if Replacer.maxAutomatonSize <
          Replacer.automatonSize c.placeholderOpening c.placeholderClosing then
        .error (.config "invalid placeholder delimiters: compiled regex exceeded size limit")
      else .ok ⟨c.placeholders, c.placeholderOpening, c.placeholderClosing⟩ := by
  obtain ⟨hopening, hclosing⟩ := h.placeholders hreplace
  have hempty : (c.placeholderOpening.isEmpty || c.placeholderClosing.isEmpty) = false := by
    rw [Bool.or_eq_false_iff, Bool.eq_false_iff, Bool.eq_false_iff, ne_eq, ne_eq,
      String.isEmpty_iff, String.isEmpty_iff]
    exact ⟨hopening, hclosing⟩
  rw [replacer, Replacer.make, hempty, if_neg Bool.false_ne_true]

/-- Where placeholders are replaced, there is a replacer of marks that fit together if these are not
too long. -/
theorem exists_replacer?_iff (h : c.Marked) :
    (∃ replacer, (if c.replacePlaceholders then c.replacer.map some else .ok none) =
      .ok replacer) ↔ c.MarksFit := by
  unfold MarksFit
  cases hreplace : c.replacePlaceholders with
  | false => exact iff_of_true ⟨none, rfl⟩ nofun
  | true =>
    rw [if_pos rfl, replacer_of_marked h hreplace, imp_iff_right rfl, ← Nat.not_lt]
    split
    · next hlong => exact iff_of_false nofun (not_not_intro hlong)
    · next hshort => exact iff_of_true ⟨_, rfl⟩ hshort

end SchemaPlan.Config
