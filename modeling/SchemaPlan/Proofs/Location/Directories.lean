import SchemaPlan.Location
import SchemaPlan.Proofs.Text.Search

/-!
# Paths of directories

The path of a directory is kept up to its last character that is no separator, or up to its first
one if it has no other (`Trims`). What is kept ends between two characters, also where it is one
byte of the path (`Trims.exists_cut`), and nothing more is taken off it (`trims_self`).
-/

namespace SchemaPlan.Location

variable {l : Location} {path left : String} {c : Char} {s rest : List Char}

/-! ### What is left of a path -/

/-- Whether a path has no separator at its end, or is a single one. -/
def IsTrimmed (path : String) : Prop :=
  (∀ c ∈ path.toList.getLast?, ¬ isSeparator c) ∨ ∃ c, isSeparator c ∧ path = String.singleton c

/-- `Trims path left`: what is left of the path of a directory. -/
inductive Trims (path left : String) : Prop where
  /-- The separators behind the last character that is none are taken off. -/
  | behind {front rest : List Char} {c : Char} (path_eq : path.toList = front ++ c :: rest)
      (left_eq : left.toList = front ++ [c]) (hc : ¬ isSeparator c)
      (hrest : ∀ d ∈ rest, isSeparator d)
  /-- If there are only separators, the first one is left. -/
  | first {rest : List Char} {c : Char} (path_eq : path.toList = c :: rest)
      (left_eq : left.toList = [c]) (hall : ∀ d ∈ c :: rest, isSeparator d)

theorem withoutTrailing_of_ne_nil {s : List Char} (h : s.rdropWhile isSeparator ≠ []) :
    withoutTrailing s = s.rdropWhile isSeparator := by
  unfold withoutTrailing
  split
  · next hnil => exact absurd hnil h
  · rfl

theorem withoutTrailing_of_eq_nil {s : List Char} (h : s.rdropWhile isSeparator = []) :
    withoutTrailing s = s.take 1 := by
  unfold withoutTrailing
  split
  · rfl
  · next hne => exact absurd h hne

theorem withoutTrailing_append (hc : ¬ isSeparator c) (front : List Char)
    (hrest : ∀ d ∈ rest, isSeparator d) :
    withoutTrailing (front ++ c :: rest) = front ++ [c] := by
  have hdrop : (front ++ c :: rest).rdropWhile isSeparator = front ++ [c] := by
    rw [Text.rdropWhile_append hc, List.rdropWhile_eq_nil_iff.2 hrest]
  rw [withoutTrailing_of_ne_nil (by simp [hdrop]), hdrop]

theorem withoutTrailing_of_forall (h : ∀ d ∈ s, isSeparator d) : withoutTrailing s = s.take 1 :=
  withoutTrailing_of_eq_nil (List.rdropWhile_eq_nil_iff.2 h)

theorem trims_iff : Trims path left ↔ path ≠ "" ∧ withoutTrailing path.toList = left.toList := by
  constructor
  · rintro (⟨hpath, hleft, hc, hrest⟩ | ⟨hpath, hleft, hall⟩)
    · rw [ne_eq, ← String.toList_eq_nil_iff, hpath, hleft, withoutTrailing_append hc _ hrest]
      exact ⟨by simp, rfl⟩
    · rw [ne_eq, ← String.toList_eq_nil_iff, hpath, hleft, withoutTrailing_of_forall hall]
      exact ⟨by simp, rfl⟩
  · rintro ⟨hne, hleft⟩
    -- by whether anything is left before the separators at the end
    by_cases hnil : path.toList.rdropWhile isSeparator = []
    · obtain ⟨c, rest, hpath⟩ := List.exists_cons_of_ne_nil (mt String.toList_eq_nil_iff.1 hne)
      have hall := List.rdropWhile_eq_nil_iff.1 hnil
      rw [withoutTrailing_of_forall hall, hpath] at hleft
      exact .first hpath hleft.symm (hpath ▸ hall)
    · rw [withoutTrailing_of_ne_nil hnil] at hleft
      have hlast := List.dropLast_append_getLast hnil
      have hwhole := List.rdropWhile_append_rtakeWhile (p := isSeparator) (l := path.toList)
      rw [← hlast, List.append_assoc] at hwhole
      exact .behind hwhole.symm (hleft.symm.trans hlast.symm) (List.rdropWhile_last_not _ _ hnil)
        fun d hd => List.mem_rtakeWhile_imp hd

theorem filesystem_eq_ok_iff :
    filesystem path = .ok l ↔
      path ≠ "" ∧ l = ⟨.filesystem, String.ofList (withoutTrailing path.toList)⟩ := by
  unfold filesystem
  by_cases h : path = ""
  · simp [h]
  · rw [if_neg (by simpa using h), Except.ok.injEq]
    exact ⟨fun heq => ⟨h, heq.symm⟩, fun hl => hl.2.symm⟩

theorem filesystem_eq_ok_iff_trims :
    filesystem path = .ok l ↔ l.medium = .filesystem ∧ Trims path l.path := by
  rw [filesystem_eq_ok_iff, trims_iff]
  constructor
  · rintro ⟨hne, rfl⟩
    exact ⟨rfl, hne, String.toList_ofList.symm⟩
  · rintro ⟨hmedium, hne, hleft⟩
    refine ⟨hne, ?_⟩
    obtain ⟨medium, left⟩ := l
    cases hmedium
    rw [hleft, String.ofList_toList]

theorem filesystem_eq_error_iff {e : PlanError} :
    filesystem path = .error e ↔
      path = "" ∧ e = .invalidLocation "filesystem location must not be empty" := by
  unfold filesystem
  by_cases h : path = ""
  · rw [if_pos (by simpa using h), Except.error.injEq, eq_comm, and_iff_right h]
  · rw [if_neg (by simpa using h)]
    refine iff_of_false ?_ fun he => h he.1
    rintro ⟨⟩

theorem Trims.isPrefix (h : Trims path left) : left.toList <+: path.toList := by
  rcases h with @⟨front, rest, c, hpath, hleft, -, -⟩ | ⟨hpath, hleft, -⟩
  · rw [hpath, hleft, List.append_cons front c rest]
    exact List.prefix_append _ rest
  · rw [hpath, hleft]
    exact List.prefix_append [_] _

theorem eq_singleton_of_toList (h : left.toList = [c]) : left = String.singleton c :=
  String.toList_injective (h.trans (String.toList_singleton c).symm)

theorem utf8ByteSize_of_isSeparator (h : left.toList = [c]) (hc : isSeparator c) :
    left.utf8ByteSize = 1 := by
  rw [eq_singleton_of_toList h]
  simp only [isSeparator, Bool.or_eq_true, decide_eq_true_eq] at hc
  rcases hc with rfl | rfl <;> rfl

/-- What is left is cut off between two characters. Where it is one byte, that is a character. -/
theorem Trims.exists_cut (h : Trims path left) :
    ∃ cut : path.Pos, (path.sliceTo cut).copy = left ∧
      ((∀ c ∈ path.toList, isSeparator c) → cut.offset.byteIdx = 1) := by
  obtain ⟨rest, hrest⟩ := h.isPrefix
  have heq : path = left ++ String.ofList rest := by
    rw [← String.toList_inj, String.toList_append, String.toList_ofList, hrest]
  have hvalid : String.Pos.Raw.IsValid path left.rawEndPos :=
    String.Pos.Raw.isValid_iff_exists_append.2 ⟨_, _, heq, rfl⟩
  have hsplits : (String.Pos.mk left.rawEndPos hvalid).Splits left (String.ofList rest) :=
    ⟨heq, rfl⟩
  refine ⟨_, hsplits.copy_sliceTo_eq, fun hall => ?_⟩
  rcases h with ⟨hpath, -, hc, -⟩ | ⟨-, hleft, hseparator⟩
  · exact absurd (hall _ (by simp [hpath])) hc
  -- each of the separators is encoded as one byte
  · exact utf8ByteSize_of_isSeparator hleft (hseparator _ List.mem_cons_self)

theorem Trims.isTrimmed (h : Trims path left) : IsTrimmed left := by
  rcases h with ⟨-, hleft, hc, -⟩ | ⟨-, hleft, hall⟩
  · refine .inl fun d hd => ?_
    rw [hleft, List.getLast?_concat] at hd
    cases hd
    exact hc
  · exact .inr ⟨_, hall _ List.mem_cons_self, eq_singleton_of_toList hleft⟩

theorem Trims.ne_empty (h : Trims path left) : left ≠ "" := by
  rw [ne_eq, ← String.toList_eq_nil_iff]
  rcases h with ⟨-, hleft, -, -⟩ | ⟨-, hleft, -⟩ <;> simp [hleft]

/-- Of what is left nothing more is taken off. -/
theorem trims_self (hne : path ≠ "") (htrimmed : IsTrimmed path) : Trims path path := by
  rcases htrimmed with hlast | ⟨c, hc, rfl⟩
  · rcases List.eq_nil_or_concat path.toList with hnil | ⟨front, c, hpath⟩
    · exact absurd (String.toList_eq_nil_iff.1 hnil) hne
    · rw [List.concat_eq_append] at hpath
      exact .behind hpath hpath (hlast c (by rw [hpath, List.getLast?_concat]; rfl)) (by simp)
  · exact .first (String.toList_singleton c) (String.toList_singleton c) (by simpa using hc)

/-- A slash behind a path is taken off as well. -/
theorem Trims.append_slash (h : Trims path left) : Trims (path ++ "/") left := by
  have hslash : (path ++ "/").toList = path.toList ++ ['/'] := String.toList_append
  have hall : ∀ {s : List Char}, (∀ c ∈ s, isSeparator c) → ∀ c ∈ s ++ ['/'], isSeparator c := by
    intro s hs c hc
    rcases List.mem_append.1 hc with hc | hc
    · exact hs c hc
    · rw [List.mem_singleton.1 hc]
      rfl
  rcases h with ⟨hpath, hleft, hc, hrest⟩ | ⟨hpath, hleft, hrest⟩
  · refine .behind ?_ hleft hc (hall hrest)
    rw [hslash, hpath, List.append_assoc, List.cons_append]
  · exact .first (hslash.trans (congrArg (· ++ ['/']) hpath)) hleft (hall hrest)

end SchemaPlan.Location
