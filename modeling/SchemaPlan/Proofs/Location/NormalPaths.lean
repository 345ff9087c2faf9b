import SchemaPlan.Proofs.Location.ReadingBack

/-!
# Paths in normal form

The locations that can be made are those whose path is in normal form: in memory segments with
single slashes between them, and on disk a path without separators to take off (`made_iff_normal`).
All of them can be read from a descriptor (`exists_parse_iff_normal`).
-/

namespace SchemaPlan.Location

variable {l : Location}

/-- The locations in normal form. -/
inductive Normal : Location → Prop where
  /-- In memory, segments with single slashes between them. -/
  | embedded {ss : List (List Char)} (h : ∀ s ∈ ss, IsSegment s) : Normal ⟨.embedded, pathOf ss⟩
  /-- On disk, a path without separators to take off. -/
  | filesystem {path : String} (hne : path ≠ "") (htrimmed : IsTrimmed path) :
      Normal ⟨.filesystem, path⟩

/-- The locations that can be made are those in normal form. -/
theorem made_iff_normal : l.Made ↔ l.Normal := by
  constructor
  · intro h
    cases h with
    | embedded path =>
      rw [embedded_eq]
      exact .embedded fun s hs => isSegment_of_mem_segments hs
    | filesystem h =>
      obtain ⟨hmedium, htrims⟩ := filesystem_eq_ok_iff_trims.1 h
      obtain ⟨medium, left⟩ := l
      cases hmedium
      exact .filesystem htrims.ne_empty htrims.isTrimmed
  · intro h
    cases h with
    | embedded h =>
      rw [← embedded_pathOf h]
      exact .embedded _
    | filesystem hne htrimmed =>
      exact .filesystem (filesystem_eq_ok_iff_trims.2 ⟨rfl, trims_self hne htrimmed⟩)

/-- Each location in normal form can be read, and no other one. -/
theorem exists_parse_iff_normal : (∃ descriptor, parse descriptor = .ok l) ↔ l.Normal := by
  rw [← made_iff_normal]
  constructor
  · rintro ⟨descriptor, h⟩
    exact made_of_parse h
  · intro h
    obtain ⟨path, hmake⟩ := h.exists_make
    exact ⟨_, parse_display_slash hmake⟩

/-- **Normal form**: the path of an embedded location joins the segments that the given path spells,
and two paths make the same location exactly if they have the same segments. Only the empty path is
that of no directory. Any other one is cut between two characters, so that no separator is at its
end; of a path of separators the first byte is left, which is a whole character. A normal path makes
its own location. -/
theorem normal_paths (path : String) :
    (∀ s ∈ segments path, IsSegment s) ∧
      (∀ ss, Spells path.toList ss ↔ segments path = ss) ∧
      (embedded path).path = pathOf (segments path) ∧
      embedded (embedded path).path = embedded path ∧
      (∀ path', embedded path' = embedded path ↔ segments path' = segments path) ∧
      (∀ e, filesystem path = .error e ↔
        path = "" ∧ e = .invalidLocation "filesystem location must not be empty") ∧
      (path ≠ "" → ∃ left, filesystem path = .ok ⟨.filesystem, left⟩ ∧ left ≠ "" ∧
        Trims path left ∧ IsTrimmed left ∧
        (∃ cut : path.Pos, (path.sliceTo cut).copy = left ∧
          ((∀ c ∈ path.toList, isSeparator c) → cut.offset.byteIdx = 1)) ∧
        filesystem left = .ok ⟨.filesystem, left⟩) := by
  refine ⟨fun s hs => isSegment_of_mem_segments hs, fun ss => spells_iff,
    congrArg Location.path (embedded_eq path), ?again,
    fun path' => embedded_eq_iff, fun e => filesystem_eq_error_iff, fun hne => ?directory⟩
  case again => exact embedded_eq_iff.2 (segments_embedded path)
  case directory =>
    have htrims : Trims path (String.ofList (withoutTrailing path.toList)) :=
      trims_iff.2 ⟨hne, String.toList_ofList.symm⟩
    have hself := trims_self htrims.ne_empty htrims.isTrimmed
    exact ⟨_, filesystem_eq_ok_iff_trims.2 ⟨rfl, htrims⟩, htrims.ne_empty, htrims,
      htrims.isTrimmed, htrims.exists_cut, filesystem_eq_ok_iff_trims.2 ⟨rfl, hself⟩⟩

/-- A backslash is a segment in memory and a separator on disk. -/
theorem normal_paths_backslash :
    segments "./\\." = segments "\\//" ∧ embedded "./\\." = embedded "\\//" ∧
      embedded "\\//" = ⟨.embedded, "\\"⟩ ∧ "\\//" ≠ "" ∧
      filesystem "\\//" = .ok ⟨.filesystem, "\\"⟩ ∧ Trims "\\//" "\\" ∧
      (∃ cut : String.Pos "\\//", (String.sliceTo "\\//" cut).copy = "\\" ∧
        cut.offset.byteIdx = 1) := by
  obtain ⟨-, -, -, -, hsame, -, hdirectory⟩ := normal_paths "\\//"
  obtain ⟨left, hleft, -, htrims, -, ⟨cut, hcut, hbyte⟩, -⟩ := hdirectory (by decide)
  obtain rfl : "\\" = left := congrArg Location.path (Except.ok.inj hleft)
  have hsegments : segments "./\\." = segments "\\//" := by decide
  exact ⟨hsegments, (hsame _).2 hsegments, by decide, by decide, hleft, htrims, cut, hcut,
    hbyte (by simp [isSeparator])⟩

end SchemaPlan.Location
