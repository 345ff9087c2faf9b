import Mathlib.Data.List.Forall2
import SchemaPlan.Proofs.Text.Search

/-!
# Replacing one text by another

A needle whose first character is not in it again does not overlap with itself. So a text in which
it stands is replaced apart in front of it and behind it (`replaceAll_append`), and parts that are
joined by needles are replaced one by one (`replaceAll_intercalate`). No two changes of length make
up for each other: the whole is what the parts joined by the new text would be only if each part
stays as it is (`replaceAll_intercalate_eq_iff`), and it does so unless the needle stands in it
(`replaceAll_eq_self_iff`).
-/

namespace SchemaPlan.Text

/-! ### Joined parts -/

section

variable {α : Type*} {between : List α} {parts parts' : List (List α)}

theorem length_intercalate_le
    (h : List.Forall₂ (fun part part' => part.length ≤ part'.length) parts parts') :
    (between.intercalate parts).length ≤ (between.intercalate parts').length := by
  induction h with
  | nil => rfl
  | @cons part part' parts parts' hpart hparts ih =>
    cases hparts with
    | nil => simpa using hpart
    | cons _ _ =>
      simp only [List.intercalate_cons_cons, List.length_append] at ih ⊢
      omega

/-- Joined parts of which none is longer than that of the other side are the same ones. -/
theorem eq_of_intercalate_eq
    (h : List.Forall₂ (fun part part' => part.length ≤ part'.length) parts parts')
    (heq : between.intercalate parts = between.intercalate parts') : parts = parts' := by
  induction h with
  | nil => rfl
  | @cons part part' parts parts' hpart hparts ih =>
    cases hparts with
    | nil => simpa using heq
    | @cons next next' rest rest' hnext hrest =>
      have hle : (between.intercalate (next :: rest)).length ≤
          (between.intercalate (next' :: rest')).length :=
        length_intercalate_le (.cons hnext hrest)
      rw [List.intercalate_cons_cons, List.intercalate_cons_cons] at heq
      have hlength := congrArg List.length heq
      simp only [List.length_append] at hlength
      rw [List.append_assoc, List.append_assoc] at heq
      obtain ⟨rfl, hbehind⟩ := List.append_inj heq (by omega)
      rw [ih (List.append_cancel_left hbehind)]

end

/-! ### Occurrences of a needle -/

variable {c : Char} {needle new s x y : List Char} {parts : List (List Char)}

/-- Induction on a text that takes away a needle where there is one, and otherwise a character. -/
@[elab_as_elim]
theorem needle_induction (hne : needle ≠ []) {motive : List Char → Prop} (nil : motive [])
    (here : ∀ s, motive s → motive (needle ++ s))
    (skip : ∀ c s, ¬ needle <+: c :: s → motive s → motive (c :: s)) (s : List Char) :
    motive s := by
  induction hlength : s.length using Nat.strongRecOn generalizing s with
  | ind k ih =>
    subst hlength
    cases s with
    | nil => exact nil
    | cons c s =>
      by_cases h : needle <+: c :: s
      · obtain ⟨behind, hbehind⟩ := h
        have hlt : behind.length < (c :: s).length := by
          rw [← hbehind, List.length_append]
          exact Nat.lt_add_of_pos_left (List.length_pos_iff.2 hne)
        exact hbehind ▸ here behind (ih _ hlt behind rfl)
      · exact skip c s h (ih _ (Nat.lt_succ_self s.length) s rfl)

theorem replaceAll_nil (needle new : List Char) : replaceAll needle new [] = [] := rfl

theorem replaceAll_cons (h : ¬ needle <+: c :: s) :
    replaceAll needle new (c :: s) = c :: replaceAll needle new s := by
  rw [replaceAll, replaceFrom, if_neg (mt startsWith_iff.1 h)]
  rfl

theorem replaceAll_needle (hne : needle ≠ []) (new s : List Char) :
    replaceAll needle new (needle ++ s) = new ++ replaceAll needle new s := by
  obtain ⟨d, rest, rfl⟩ := List.exists_cons_of_ne_nil hne
  have hstarts : startsWith (d :: rest) (d :: (rest ++ s)) :=
    startsWith_iff.2 (List.prefix_append (d :: rest) s)
  rw [List.cons_append, replaceAll, replaceFrom, if_pos hstarts, replaceFrom_eq_drop,
    List.length_cons, Nat.add_sub_cancel, List.drop_left]
  rfl

theorem replaceAll_of_not_infix (h : ¬ needle <:+: s) : replaceAll needle new s = s := by
  induction s with
  | nil => rfl
  | cons c s ih =>
    rw [List.infix_cons_iff, not_or] at h
    rw [replaceAll_cons h.1, ih h.2]

theorem replaceAll_self (hne : needle ≠ []) (s : List Char) : replaceAll needle needle s = s := by
  induction s using needle_induction hne with
  | nil => rfl
  | here s ih => rw [replaceAll_needle hne, ih]
  | skip c s h ih => rw [replaceAll_cons h, ih]

theorem length_le_length_replaceAll (hne : needle ≠ []) (h : needle.length ≤ new.length)
    (s : List Char) : s.length ≤ (replaceAll needle new s).length := by
  induction s using needle_induction hne with
  | nil => rfl
  | here s ih =>
    rw [replaceAll_needle hne, List.length_append, List.length_append]
    omega
  | skip c s hskip ih =>
    rw [replaceAll_cons hskip, List.length_cons, List.length_cons]
    omega

theorem length_replaceAll_le_length (hne : needle ≠ []) (h : new.length ≤ needle.length)
    (s : List Char) : (replaceAll needle new s).length ≤ s.length := by
  induction s using needle_induction hne with
  | nil => rfl
  | here s ih =>
    rw [replaceAll_needle hne, List.length_append, List.length_append]
    omega
  | skip c s hskip ih =>
    rw [replaceAll_cons hskip, List.length_cons, List.length_cons]
    omega

/-! ### Needles that do not overlap -/

/-- Whether a needle has a first character, and this is not in it again. -/
def FirstOnce (needle : List Char) : Prop := ∃ d rest, needle = d :: rest ∧ d ∉ rest

theorem FirstOnce.ne_nil (h : FirstOnce needle) : needle ≠ [] := by
  obtain ⟨d, rest, rfl, -⟩ := h
  exact List.cons_ne_nil d rest

/-- A needle that begins in front of another one ends there, too. -/
theorem FirstOnce.prefix_of_prefix_append (h : FirstOnce needle)
    (hstart : needle <+: c :: x ++ needle ++ y) : needle <+: c :: x := by
  obtain ⟨d, rest, rfl, hd⟩ := h
  rw [List.append_assoc, List.cons_append, List.cons_prefix_cons] at hstart
  obtain ⟨rfl, hrest⟩ := hstart
  refine List.cons_prefix_cons.2 ⟨rfl, ?_⟩
  rcases List.prefix_or_prefix_of_prefix hrest (List.prefix_append x _) with hx | ⟨z, rfl⟩
  · exact hx
  · cases z with
    | nil => rw [List.append_nil]
    | cons e z =>
      rw [List.prefix_append_right_inj, List.cons_append, List.cons_prefix_cons] at hrest
      exact absurd (List.mem_append_right x (hrest.1 ▸ List.mem_cons_self)) hd

/-- A text with a needle in it is replaced in front of that and behind it. -/
theorem replaceAll_append (h : FirstOnce needle) (new x y : List Char) :
    replaceAll needle new (x ++ needle ++ y) =
      replaceAll needle new x ++ new ++ replaceAll needle new y := by
  induction x using needle_induction h.ne_nil with
  | nil => rw [List.nil_append, replaceAll_needle h.ne_nil, replaceAll_nil, List.nil_append]
  | here x ih =>
    rw [List.append_assoc, List.append_assoc, replaceAll_needle h.ne_nil, ← List.append_assoc, ih,
      replaceAll_needle h.ne_nil]
    simp only [List.append_assoc]
  | skip c x hskip ih =>
    have hwhole := mt (h.prefix_of_prefix_append (y := y)) hskip
    rw [List.cons_append, List.cons_append] at hwhole ⊢
    rw [replaceAll_cons hwhole, ih, replaceAll_cons hskip]
    rfl

/-- Parts that are joined by needles are replaced one by one. -/
theorem replaceAll_intercalate (h : FirstOnce needle) (new : List Char)
    (parts : List (List Char)) :
    replaceAll needle new (needle.intercalate parts) =
      new.intercalate (parts.map (replaceAll needle new)) := by
  induction parts with
  | nil => rfl
  | cons part parts ih =>
    cases parts with
    | nil => simp
    | cons next parts =>
      rw [List.intercalate_cons_cons, replaceAll_append h, ih]
      simp only [List.map_cons, List.intercalate_cons_cons]

/-- The whole is the parts joined by the new text only if each part stays as it is. -/
theorem replaceAll_intercalate_eq_iff (h : FirstOnce needle) :
    replaceAll needle new (needle.intercalate parts) = new.intercalate parts ↔
      ∀ part ∈ parts, replaceAll needle new part = part := by
  rw [replaceAll_intercalate h]
  constructor
  · intro heq
    have hsame : parts.map (replaceAll needle new) = parts := by
      rcases Nat.le_total needle.length new.length with hle | hle
      · refine (eq_of_intercalate_eq ?_ heq.symm).symm
        exact List.forall₂_map_right_iff.2 (List.forall₂_same.2 fun part _ =>
          length_le_length_replaceAll h.ne_nil hle part)
      · refine eq_of_intercalate_eq ?_ heq
        exact List.forall₂_map_left_iff.2 (List.forall₂_same.2 fun part _ =>
          length_replaceAll_le_length h.ne_nil hle part)
    exact List.map_inj_left.1 (hsame.trans (List.map_id' parts).symm)
  · intro hsame
    rw [List.map_congr_left hsame, List.map_id']

/-- A text stays as it is unless a needle in it is replaced by something else. -/
theorem replaceAll_eq_self_iff (h : FirstOnce needle) :
    replaceAll needle new s = s ↔ ¬ needle <:+: s ∨ new = needle := by
  constructor
  · intro hsame
    by_contra hno
    rw [not_or, not_not] at hno
    obtain ⟨⟨x, y, rfl⟩, hnew⟩ := hno
    rw [replaceAll_append h] at hsame
    have hjoined : [].intercalate [x, needle, y] =
        [].intercalate [replaceAll needle new x, new, replaceAll needle new y] := by
      simpa using hsame.symm
    have hparts : [x, needle, y] = [replaceAll needle new x, new, replaceAll needle new y] := by
      rcases Nat.le_total needle.length new.length with hle | hle
      · refine eq_of_intercalate_eq ?_ hjoined
        exact .cons (length_le_length_replaceAll h.ne_nil hle x) (.cons hle
          (.cons (length_le_length_replaceAll h.ne_nil hle y) .nil))
      · refine (eq_of_intercalate_eq ?_ hjoined.symm).symm
        exact .cons (length_replaceAll_le_length h.ne_nil hle x) (.cons hle
          (.cons (length_replaceAll_le_length h.ne_nil hle y) .nil))
    exact hnew (List.cons.inj (List.cons.inj hparts).2).1.symm
  · rintro (hnone | rfl)
    · exact replaceAll_of_not_infix hnone
    · exact replaceAll_self h.ne_nil s

end SchemaPlan.Text
