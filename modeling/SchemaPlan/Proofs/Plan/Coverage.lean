import SchemaPlan.Proofs.Location.Coverage
import SchemaPlan.Proofs.Plan.Building
import SchemaPlan.Proofs.Resolver.Embedded
import SchemaPlan.Proofs.Selection

/-!
# Each artifact once

Of the configured locations only the roots are scanned. That loses nothing and brings nothing twice:
what is held in memory in or below some configured location is found in exactly one root, so a pass
of the default resolvers makes one migration of each code unit there, and of each script there one
for each kind that its name is of. What is in none of the configured locations is left alone.
-/

namespace SchemaPlan

namespace CompositeParts

variable {parts : CompositeParts} {storage : Storage} {l : Location} {ls : List Location}

/-- The units of a family in or below some embedded locations, without the callbacks. -/
def unitsIn (parts : CompositeParts) (ls : List Location) (kind : UnitKind) : List CodeUnit :=
  (parts.units.ofKind kind).filter fun u =>
    ls.any (fun l => l.isEmbedded && l.holds u.package) && !isCallbackName u.name ""

/-- The scripts of a kind that some locations cover, without the callbacks. -/
def scriptsIn (parts : CompositeParts) (ls : List Location) (storage : Storage)
    (repeatable : Bool) : List (String × List UInt8) :=
  storage.embedded.entries.toList.filter fun script =>
    ls.any (·.covers script.1.toList) && parts.issued.config.wants repeatable script.1

/-- What was found holds one migration of each unit and of each script in memory that is in some
locations, and nothing else of that sort. -/
structure FoundOnce (parts : CompositeParts) (ls : List Location) (storage : Storage)
    (found : List Migration) : Prop where
  units : ∀ kind, ∃ ms,
    List.Forall₂ (fun u m => u.migration parts.issued.config kind = .ok m) (parts.unitsIn ls kind)
      ms ∧
    (found.filter fun m => m.kind = kind.artifact).Perm ms
  scripts : ∀ repeatable,
    ((found.filter fun m => m.fromMemory && m.isRepeatable == repeatable).map
      Migration.physicalLocation).Perm ((parts.scriptsIn ls storage repeatable).map placeInMemory)

/-! ### One root -/

theorem unitsIn_singleton (parts : CompositeParts) (l : Location) (kind : UnitKind) :
    parts.unitsIn [l] kind = if l.isEmbedded then parts.units.within kind l else [] := by
  unfold unitsIn CodeUnits.within
  simp only [List.any_cons, List.any_nil, Bool.or_false]
  cases l.isEmbedded with
  | false => exact List.filter_eq_nil_iff.2 fun u _ => by simp
  | true => simp

theorem scriptsIn_singleton (parts : CompositeParts) (l : Location) (storage : Storage)
    (repeatable : Bool) :
    parts.scriptsIn [l] storage repeatable =
      if l.isEmbedded then parts.issued.config.scanned storage l repeatable else [] := by
  unfold scriptsIn Config.scanned Bundle.below Location.covers
  simp only [List.any_cons, List.any_nil, Bool.or_false, List.filter_filter]
  cases l.isEmbedded with
  | false => exact List.filter_eq_nil_iff.2 fun u _ => by simp
  | true => simp [Bool.and_comm]

/-- The resolver of a family of units makes a migration of each unit in its location. -/
theorem units_of_resolve {kind : UnitKind} {found : List Migration}
    (h : ((Composite.unitResolver parts kind l).toResolver.resolve
      ⟨parts.issued, parts.database⟩ storage).result = .ok found) :
    (∃ ms, List.Forall₂ (fun u m => u.migration parts.issued.config kind = .ok m)
        (parts.unitsIn [l] kind) ms ∧ found.Perm ms) ∧
      ∀ m ∈ found, m.kind = kind.artifact ∧ m.fromMemory = false := by
  obtain ⟨ms, hms, rfl⟩ := (UnitResolver.result_resolve_eq_ok_iff rfl).1 h
  rw [unitsIn_singleton]
  refine ⟨⟨ms, hms, Migration.sort_perm ms⟩, fun m hm => ?_⟩
  obtain ⟨u, -, hu⟩ := Traversal.exists_mem_of_forall₂ hms (Migration.mem_sort.1 hm)
  obtain ⟨_, -, -, rfl⟩ := CodeUnit.migration_eq_ok_iff.1 hu
  exact ⟨rfl, rfl⟩

/-- In an embedded location the scripts of a kind are found in memory, once. -/
theorem scripts_of_foundIn (hscanner : parts.scanner.ReadsBundle) {replacer : Option Replacer}
    {scripts : List Migration}
    (h : (Composite.scriptResolver parts replacer l).foundIn storage replacer l = .ok scripts)
    (repeatable : Bool) :
    (((Migration.sort scripts).filter fun m => m.fromMemory && m.isRepeatable == repeatable).map
      Migration.physicalLocation).Perm
        ((parts.scriptsIn [l] storage repeatable).map placeInMemory) := by
  rw [scriptsIn_singleton]
  cases hl : l.isEmbedded with
  | false =>
    have hmemory := SqlResolver.fromMemory_of_mem_foundIn hscanner rfl hl h
    rw [List.filter_eq_nil_iff.2 fun m hm => by simp [hmemory m (Migration.mem_sort.1 hm)]]
    exact .refl _
  | true =>
    obtain ⟨ms, hms, rfl⟩ := (SqlResolver.foundIn_eq_ok_iff_scanned hscanner hl).1 h
    have hkind : ∀ kind, ∀ m ∈ ms kind, m.fromMemory = true ∧ m.isRepeatable = kind := by
      intro kind m hm
      obtain ⟨script, -, hscript⟩ := Traversal.exists_mem_of_forall₂ (hms kind) hm
      exact SqlResolver.of_migrationOf rfl rfl hscript
    have hselected : ∀ kind,
        (ms kind).filter (fun m => m.fromMemory && m.isRepeatable == repeatable) =
          if kind = repeatable then ms kind else [] := by
      intro kind
      split
      · next heq =>
        refine List.filter_eq_self.2 fun m hm => ?_
        rw [(hkind kind m hm).1, (hkind kind m hm).2, heq, beq_self_eq_true, Bool.and_self]
      · next hne =>
        refine List.filter_eq_nil_iff.2 fun m hm => ?_
        rw [(hkind kind m hm).1, (hkind kind m hm).2, beq_eq_false_iff_ne.2 hne]
        exact Bool.false_ne_true
    have hboth :
        (ms false ++ ms true).filter (fun m => m.fromMemory && m.isRepeatable == repeatable) =
          ms repeatable := by
      rw [List.filter_append, hselected, hselected]
      cases repeatable with
      | false => exact List.append_nil _
      | true => rfl
    have hperm := (Migration.sort_perm (ms false ++ ms true)).filter
      fun m => m.fromMemory && m.isRepeatable == repeatable
    rw [hboth] at hperm
    rw [if_pos rfl]
    exact (hperm.map _).trans (.of_eq (SqlResolver.places_of_migrationOf (hms repeatable)))

/-- The default resolvers of one location find what is in it, once. -/
theorem foundOnce_singleton (hscanner : parts.scanner.ReadsBundle) {replacer : Option Replacer}
    (hreplacer : Composite.sharedReplacer parts.issued.config = .ok replacer)
    {found : List Migration}
    (h : Traversal.gather (fun r => (r.resolve ⟨parts.issued, parts.database⟩ storage).result)
      (Composite.resolversOf parts replacer l) = .ok found) :
    parts.FoundOnce [l] storage found := by
  rw [Composite.resolversOf_eq] at h
  obtain ⟨_, _, hsql, hunits, rfl⟩ := Traversal.gather_cons_eq_ok_iff.1 h
  obtain ⟨code, _, hcode, hlast, rfl⟩ := Traversal.gather_cons_eq_ok_iff.1 hunits
  obtain ⟨statements, _, hstatements, hnil, rfl⟩ := Traversal.gather_cons_eq_ok_iff.1 hlast
  rw [Traversal.gather_nil] at hnil
  cases hnil
  rw [Composite.result_resolve_scriptResolver hreplacer] at hsql
  obtain ⟨scripts, hscripts, rfl⟩ := Traversal.map_eq_ok_iff.1 hsql
  have hsql : ∀ m ∈ Migration.sort scripts, m.kind = .sql := fun m hm =>
    SqlResolver.kind_of_mem_foundIn hscripts m (Migration.mem_sort.1 hm)
  obtain ⟨⟨codeUnits, hcodeUnits, hcodePerm⟩, hcode⟩ := units_of_resolve hcode
  obtain ⟨⟨statementUnits, hstatementUnits, hstatementPerm⟩, hstatements⟩ :=
    units_of_resolve hstatements
  refine ⟨fun kind => ?_, fun repeatable => ?_⟩
  · simp only [List.filter_append, List.append_nil]
    rw [List.filter_eq_nil_iff.2 fun m hm => by rw [hsql m hm]; cases kind <;> decide,
      List.nil_append]
    cases kind with
    | code =>
      refine ⟨codeUnits, hcodeUnits, ?_⟩
      rwa [List.filter_eq_self.2 fun m hm => decide_eq_true (hcode m hm).1,
        List.filter_eq_nil_iff.2 fun m hm => by rw [(hstatements m hm).1]; decide, List.append_nil]
    | statements =>
      refine ⟨statementUnits, hstatementUnits, ?_⟩
      rwa [List.filter_eq_nil_iff.2 fun m hm => by rw [(hcode m hm).1]; decide, List.nil_append,
        List.filter_eq_self.2 fun m hm => decide_eq_true (hstatements m hm).1]
  · have hnone : ∀ {ms : List Migration} {kind : UnitKind},
        (∀ m ∈ ms, m.kind = kind.artifact ∧ m.fromMemory = false) →
        ms.filter (fun m => m.fromMemory && m.isRepeatable == repeatable) = [] := fun hms =>
      List.filter_eq_nil_iff.2 fun m hm => by simp [(hms m hm).2]
    rw [List.filter_append, List.filter_append, List.filter_append, hnone hcode, hnone hstatements]
    simp only [List.filter_nil, List.append_nil]
    exact scripts_of_foundIn hscanner hscripts repeatable

/-! ### All roots -/

theorem unitsIn_cons_perm (hls : ∀ k ∈ l :: ls, k.Made)
    (hl : ∀ path, ¬ (l.covers path = true ∧ ls.any (·.covers path) = true)) (kind : UnitKind) :
    (parts.unitsIn [l] kind ++ parts.unitsIn ls kind).Perm (parts.unitsIn (l :: ls) kind) := by
  have hhead : ∀ k ∈ [l], k.Made := fun k hk => hls k (List.mem_singleton.1 hk ▸ List.mem_cons_self)
  have htail : ∀ k ∈ ls, k.Made := fun k hk => hls k (List.mem_cons_of_mem l hk)
  refine (Selection.filter_append_filter_perm fun u _ => ?_).trans
    (.of_eq (List.filter_congr fun u _ => ?_))
  · rw [Location.any_holds hhead, Location.any_holds htail]
    simp only [List.any_cons, List.any_nil, Bool.or_false, Bool.and_eq_true]
    exact fun h => hl _ ⟨h.1.1.2, h.2.1.2⟩
  · simp only [List.any_cons, List.any_nil, Bool.or_false, Bool.and_or_distrib_right]

theorem scriptsIn_cons_perm
    (hl : ∀ path, ¬ (l.covers path = true ∧ ls.any (·.covers path) = true)) (repeatable : Bool) :
    (parts.scriptsIn [l] storage repeatable ++ parts.scriptsIn ls storage repeatable).Perm
      (parts.scriptsIn (l :: ls) storage repeatable) := by
  refine (Selection.filter_append_filter_perm fun script _ => ?_).trans
    (.of_eq (List.filter_congr fun script _ => ?_))
  · simp only [List.any_cons, List.any_nil, Bool.or_false, Bool.and_eq_true]
    exact fun h => hl _ ⟨h.1.1, h.2.1⟩
  · simp only [List.any_cons, List.any_nil, Bool.or_false, Bool.and_or_distrib_right]

/-- Going on to another location that shares no path with those before keeps what is found once. -/
theorem FoundOnce.cons (hls : ∀ k ∈ l :: ls, k.Made)
    (hl : ∀ path, ¬ (l.covers path = true ∧ ls.any (·.covers path) = true))
    {found found' : List Migration} (h : parts.FoundOnce [l] storage found)
    (h' : parts.FoundOnce ls storage found') :
    parts.FoundOnce (l :: ls) storage (found ++ found') := by
  refine ⟨fun kind => ?_, fun repeatable => ?_⟩
  · obtain ⟨ms, hms, hperm⟩ := h.units kind
    obtain ⟨ms', hms', hperm'⟩ := h'.units kind
    obtain ⟨all, hall, hallPerm⟩ := Selection.exists_perm_of_forall₂
      (List.rel_append hms hms') (unitsIn_cons_perm hls hl kind)
    refine ⟨all, hall, ?_⟩
    rw [List.filter_append]
    exact (hperm.append hperm').trans hallPerm
  · rw [List.filter_append, List.map_append]
    refine ((h.scripts repeatable).append (h'.scripts repeatable)).trans ?_
    rw [← List.map_append]
    exact (scriptsIn_cons_perm hl repeatable).map _

theorem foundOnce_nil (parts : CompositeParts) (storage : Storage) :
    parts.FoundOnce [] storage [] where
  units kind := by
    have hunits : parts.unitsIn [] kind = [] :=
      List.filter_eq_nil_iff.2 fun _ _ => Bool.false_ne_true
    rw [hunits]
    exact ⟨[], .nil, .refl _⟩
  scripts repeatable := by
    have hscripts : parts.scriptsIn [] storage repeatable = [] :=
      List.filter_eq_nil_iff.2 fun _ _ => Bool.false_ne_true
    rw [hscripts]
    exact .refl _

/-- The default resolvers of locations that share no paths find what is in them, once. -/
theorem foundOnce_of_gather (hscanner : parts.scanner.ReadsBundle) {replacer : Option Replacer}
    (hreplacer : Composite.sharedReplacer parts.issued.config = .ok replacer)
    (hls : ∀ l ∈ ls, l.Made)
    (hshared : ls.Pairwise fun k l => ∀ path, ¬ (k.covers path ∧ l.covers path))
    {found : List Migration}
    (h : Traversal.gather (fun l => Traversal.gather
      (fun r => (r.resolve ⟨parts.issued, parts.database⟩ storage).result)
      (Composite.resolversOf parts replacer l)) ls = .ok found) :
    parts.FoundOnce ls storage found := by
  induction ls generalizing found with
  | nil =>
    rw [Traversal.gather_nil] at h
    cases h
    exact foundOnce_nil parts storage
  | cons l ls ih =>
    rw [List.pairwise_cons] at hshared
    obtain ⟨head, tail, hhead, htail, rfl⟩ := Traversal.gather_cons_eq_ok_iff.1 h
    refine .cons hls (fun path hpath => ?_) (foundOnce_singleton hscanner hreplacer hhead)
      (ih (fun k hk => hls k (List.mem_cons_of_mem l hk)) hshared.2 htail)
    obtain ⟨k, hk, hcovers⟩ := List.any_eq_true.1 hpath.2
    exact hshared.1 k hk path ⟨hpath.1, hcovers⟩

/-- What is found once in the roots is found once in the configured locations. -/
theorem foundOnce_of_roots (hls : ∀ l ∈ ls, l.Made) {found : List Migration}
    (h : parts.FoundOnce (Location.roots ls) storage found) : parts.FoundOnce ls storage found := by
  have hroots : ∀ k ∈ Location.roots ls, k.Made := fun k hk => hls k (Location.mem_roots_iff.1 hk).1
  have hunits : ∀ kind,
      parts.unitsIn (Location.roots ls) kind = parts.unitsIn ls kind := fun kind =>
    List.filter_congr fun u _ => by
      rw [Location.any_holds hroots, Location.any_holds hls, Location.any_covers_roots hls]
  have hscripts : ∀ repeatable, parts.scriptsIn (Location.roots ls) storage repeatable =
      parts.scriptsIn ls storage repeatable := fun repeatable =>
    List.filter_congr fun script _ => by rw [Location.any_covers_roots hls]
  exact ⟨fun kind => hunits kind ▸ h.units kind, fun repeatable =>
    hscripts repeatable ▸ h.scripts repeatable⟩

theorem length_defaultResolvers (hdefaults : parts.issued.config.skipDefaultResolvers = false)
    (replacer : Option Replacer) (ls : List Location) :
    (Composite.defaultResolvers parts replacer ls).length = 3 * ls.length := by
  rw [Composite.defaultResolvers, hdefaults, if_neg Bool.false_ne_true, List.length_flatMap]
  have hthree : ∀ l, (Composite.resolversOf parts replacer l).length = 3 := fun _ => rfl
  simp only [hthree, List.map_const', List.sum_replicate_nat]
  exact Nat.mul_comm _ _

/-- The default resolvers of a composite resolver, which are its first ones and three for each root,
find what is in the configured locations, once. -/
theorem foundOnce_of_build (hls : ∀ l ∈ ls, l.Made) (hscanner : parts.scanner.ReadsBundle)
    (hdefaults : parts.issued.config.skipDefaultResolvers = false)
    (hparse : Location.parseAll parts.issued.config.locations = .ok ls) {c : Composite}
    (hc : (Composite.build parts).result = .ok c) {founds : List (List Migration)}
    (h : List.Forall₂ (fun r found => (r.resolve c.settings storage).result = .ok found)
      (c.resolvers.take (3 * (Location.roots ls).length)) founds) :
    parts.FoundOnce ls storage founds.flatten := by
  obtain ⟨-, roots, replacer, named, hroots, hreplacer, -, rfl⟩ :=
    Composite.result_build_eq_ok_iff.1 hc
  rw [Config.roots, Location.result_parseRoots, hparse] at hroots
  cases hroots
  rw [List.append_assoc, ← length_defaultResolvers hdefaults replacer, List.take_left] at h
  have hgather : Traversal.gather
      (fun r => (r.resolve ⟨parts.issued, parts.database⟩ storage).result)
      (Composite.defaultResolvers parts replacer (Location.roots ls)) = .ok founds.flatten := by
    rw [Traversal.gather, Traversal.mapM_eq_ok_iff.2 h]
    rfl
  rw [Composite.defaultResolvers, hdefaults, if_neg Bool.false_ne_true, Traversal.gather_flatMap]
    at hgather
  exact foundOnce_of_roots hls (foundOnce_of_gather hscanner hreplacer
    (fun k hk => hls k (Location.mem_roots_iff.1 hk).1) (Location.pairwise_roots hls) hgather)

end CompositeParts

/-! ### Scans of the roots -/

/-- A scan of a location finds a resource at a place. -/
def Bundle.FindsAt (resources : Bundle) (front back : String) (l : Location) (place : String) :
    Prop :=
  ∃ found, (resources.scan l front back).result = .ok found ∧
    ∃ r ∈ found, r.physicalLocation = place

theorem Bundle.findsAt_iff {resources : Bundle} {front back place : String} {l : Location} :
    resources.FindsAt front back l place ↔
      ∃ script ∈ resources.entries.toList, l.covers script.1.toList ∧
        hasAffixes front back (lastSegment script.1) ∧ placeInMemory script = place := by
  unfold FindsAt
  rw [result_scan]
  constructor
  · rintro ⟨_, ⟨⟩, r, hr, hplace⟩
    split at hr
    · next hl =>
      rw [found_eq, List.mem_map] at hr
      obtain ⟨script, hscript, rfl⟩ := hr
      obtain ⟨hbelow, haffixes⟩ := List.mem_filter.1 hscript
      obtain ⟨hmem, hbase⟩ := mem_below_iff.1 hbelow
      exact ⟨script, hmem, Location.covers_iff.2 ⟨hl, hbase⟩, haffixes, hplace⟩
    · cases hr
  · rintro ⟨script, hmem, hcovers, haffixes, hplace⟩
    obtain ⟨hl, hbase⟩ := Location.covers_iff.1 hcovers
    refine ⟨_, rfl, resource (base l) script, ?_, hplace⟩
    rw [if_pos hl, found_eq]
    exact List.mem_map_of_mem (List.mem_filter.2 ⟨mem_below_iff.2 ⟨hmem, hbase⟩, haffixes⟩)

/-- What some configured location covers is covered by one root. -/
theorem Location.existsUnique_covers {ls : List Location} (hls : ∀ l ∈ ls, l.Made)
    {path : List Char} (h : ∃ l ∈ ls, l.covers path) : ∃! k, k ∈ roots ls ∧ k.covers path := by
  rw [← List.any_eq_true, ← any_covers_roots hls, List.any_eq_true] at h
  obtain ⟨k, hk, hcovers⟩ := h
  exact ⟨k, ⟨hk, hcovers⟩, fun l hl => eq_of_covers hls hl.1 hk hl.2 hcovers⟩

/-- What the scan of a configured location finds is found by the scan of one root. -/
theorem Bundle.existsUnique_findsAt {ls : List Location} (hls : ∀ l ∈ ls, l.Made)
    {resources : Bundle} {front back place : String}
    (h : ∃ l ∈ ls, resources.FindsAt front back l place) :
    ∃! k, k ∈ Location.roots ls ∧ resources.FindsAt front back k place := by
  obtain ⟨l, hl, hfinds⟩ := h
  obtain ⟨script, hmem, hcovers, haffixes, hplace⟩ := findsAt_iff.1 hfinds
  obtain ⟨k, ⟨hk, hkcovers⟩, hunique⟩ := Location.existsUnique_covers hls ⟨l, hl, hcovers⟩
  refine ⟨k, ⟨hk, findsAt_iff.2 ⟨script, hmem, hkcovers, haffixes, hplace⟩⟩, fun k' hk' => ?_⟩
  obtain ⟨script', -, hcovers', -, hplace'⟩ := findsAt_iff.1 hk'.2
  have hpath : script'.1 = script.1 :=
    (String.append_right_inj Medium.embedded.scheme).1 (hplace'.trans hplace.symm)
  exact hunique k' ⟨hk'.1, hpath ▸ hcovers'⟩

/-- A package in or below a configured embedded location is in or below one root. -/
theorem Location.existsUnique_holds {ls : List Location} (hls : ∀ l ∈ ls, l.Made)
    {package : Location} (h : ∃ l ∈ ls, l.isEmbedded ∧ l.holds package) :
    ∃! k, k ∈ roots ls ∧ k.isEmbedded ∧ k.holds package := by
  obtain ⟨l, hl, hembedded, hholds⟩ := h
  obtain ⟨hpackage, hcovers⟩ := (holds_iff (hls l hl) hembedded package).1 hholds
  obtain ⟨k, ⟨hk, hkcovers⟩, hunique⟩ := existsUnique_covers hls ⟨l, hl, hcovers⟩
  have hmade : ∀ k ∈ roots ls, k.Made := fun k hk => hls k (mem_roots_iff.1 hk).1
  have hkembedded := (covers_iff.1 hkcovers).1
  refine ⟨k, ⟨hk, hkembedded, (holds_iff (hmade k hk) hkembedded package).2 ⟨hpackage, hkcovers⟩⟩,
    fun k' ⟨hk', hembedded', hholds'⟩ => ?_⟩
  exact hunique k' ⟨hk', ((holds_iff (hmade k' hk') hembedded' package).1 hholds').2⟩

/-- **Each artifact once**: whatever some configured location has in memory is in one root, so a
pass of the default resolvers finds each unit and each script there once, and nothing from
elsewhere. -/
theorem CompositeParts.foundOnce_in_roots (ls : List Location) (hls : ∀ l ∈ ls, l.Made) :
    (∀ (resources : Bundle) (front back place : String),
      (∃ l ∈ ls, resources.FindsAt front back l place) →
        ∃! k, k ∈ Location.roots ls ∧ resources.FindsAt front back k place) ∧
    (∀ package : Location, (∃ l ∈ ls, l.isEmbedded ∧ l.holds package) →
      ∃! k, k ∈ Location.roots ls ∧ k.isEmbedded ∧ k.holds package) ∧
    (Location.roots ls).Nodup ∧
    ∀ (parts : CompositeParts) (c : Composite) (storage : Storage)
      (founds : List (List Migration)),
      parts.scanner.ReadsBundle → parts.issued.config.skipDefaultResolvers = false →
        Location.parseAll parts.issued.config.locations = .ok ls →
          (Composite.build parts).result = .ok c →
            List.Forall₂ (fun r found => (r.resolve c.settings storage).result = .ok found)
              (c.resolvers.take (3 * (Location.roots ls).length)) founds →
              parts.FoundOnce ls storage founds.flatten :=
  ⟨fun _ _ _ _ => Bundle.existsUnique_findsAt hls, fun _ => Location.existsUnique_holds hls,
    Location.nodup_roots ls, fun _ _ _ _ hscanner hdefaults hparse hc hfound =>
      foundOnce_of_build hls hscanner hdefaults hparse hc hfound⟩

/-! ### Nested packages -/

/-- A package that is configured twice, with another one below it and one beside it. -/
def nestedPackages : List Location :=
  [.embedded "db.late", .embedded "db", .embedded "app", .embedded "db"]

/-- A storage with a script in the innermost package and one that is in no package. -/
def storingPages : Storage where
  embedded := ⟨Dict.ofList [("db/late/V1__Users.sql", [49]), ("web/V3__Pages.sql", [50])]⟩

namespace CompositeParts

/-- Parts with the nested packages for locations, a unit below the innermost one and a unit that is
in no package. -/
def inNestedPackages : CompositeParts where
  issued := ⟨1, { Config.standard with
    locations := ["embedded:db.late", "embedded:db", "embedded:app", "embedded:db"] }⟩
  scanner := .standard
  units.code :=
    [{ package := .embedded "db/late/fix", name := "V2__Fill", scripts := [], origin := "Fill" },
     { package := .embedded "web", name := "V4__Link", scripts := [], origin := "Link" }]

/-- The default resolvers of the roots among the nested packages. -/
def nestedResolvers : List Resolver :=
  Composite.defaultResolvers inNestedPackages (some ⟨Dict.empty, "$\x7b", "\x7d"⟩)
    [.embedded "db", .embedded "app"]

theorem roots_nestedPackages :
    Location.roots nestedPackages = [.embedded "db", .embedded "app"] := by decide

theorem parseAll_inNestedPackages :
    Location.parseAll inNestedPackages.issued.config.locations = .ok nestedPackages := by
  decide +kernel

theorem result_build_inNestedPackages :
    (Composite.build inNestedPackages).result =
      .ok ⟨nestedResolvers, ⟨inNestedPackages.issued, none⟩⟩ := by
  have hroots : inNestedPackages.issued.config.roots.result =
      .ok [.embedded "db", .embedded "app"] := by
    rw [Config.roots, Location.result_parseRoots, parseAll_inNestedPackages,
      ← roots_nestedPackages]
    rfl
  exact Composite.result_build_eq_ok_iff.2 ⟨rfl, _, _, [], hroots, rfl, rfl, rfl⟩

/-- In a pass over the nested packages the first resolver finds the script, the one after it finds
the unit, and the others find nothing. -/
theorem exists_founds_nestedResolvers :
    ∃ founds, List.Forall₂ (fun r found =>
        (r.resolve ⟨inNestedPackages.issued, none⟩ storingPages).result = .ok found)
        nestedResolvers founds ∧
      founds.map (List.map Migration.script) =
        [["late/V1__Users.sql"], ["db/late/fix/V2__Fill"], [], [], [], []] := by
  have hpass : (nestedResolvers.mapM fun r : Resolver =>
      (r.resolve ⟨inNestedPackages.issued, none⟩ storingPages).result).map
        (List.map (List.map Migration.script)) =
      .ok [["late/V1__Users.sql"], ["db/late/fix/V2__Fill"], [], [], [], []] := by
    decide +kernel
  obtain ⟨founds, hfounds, hscripts⟩ := Traversal.map_eq_ok_iff.1 hpass
  exact ⟨founds, Traversal.mapM_eq_ok_iff.1 hfounds, hscripts⟩

theorem foundOnce_in_nestedPackages :
    (∀ l ∈ nestedPackages, l.Made) ∧
      Location.roots nestedPackages = [.embedded "db", .embedded "app"] ∧
      (∃! k, k ∈ Location.roots nestedPackages ∧
        storingPages.embedded.FindsAt "V" ".sql" k "embedded:db/late/V1__Users.sql") ∧
      (∃! k, k ∈ Location.roots nestedPackages ∧ k.isEmbedded ∧
        k.holds (.embedded "db/late/fix")) ∧
      ∃ c founds, (Composite.build inNestedPackages).result = .ok c ∧
        List.Forall₂ (fun r found => (r.resolve c.settings storingPages).result = .ok found)
          (c.resolvers.take (3 * (Location.roots nestedPackages).length)) founds ∧
        founds.map (List.map Migration.script) =
          [["late/V1__Users.sql"], ["db/late/fix/V2__Fill"], [], [], [], []] ∧
        inNestedPackages.FoundOnce nestedPackages storingPages founds.flatten := by
  have hmade : ∀ l ∈ nestedPackages, l.Made := by
    simp only [nestedPackages, List.forall_mem_cons]
    exact ⟨.embedded _, .embedded _, .embedded _, .embedded _, List.forall_mem_nil _⟩
  obtain ⟨hscans, hpackages, -, hpasses⟩ := foundOnce_in_roots nestedPackages hmade
  refine ⟨hmade, roots_nestedPackages, hscans storingPages.embedded _ _ _ ?_, hpackages _ ?_,
    ⟨nestedResolvers, ⟨inNestedPackages.issued, none⟩⟩, ?_⟩
  · exact ⟨.embedded "db", by decide, Bundle.findsAt_iff.2
      ⟨("db/late/V1__Users.sql", [49]), by decide, by decide, by decide, by decide⟩⟩
  · exact ⟨.embedded "db", by decide, by decide, by decide⟩
  · obtain ⟨founds, hfounds, hscripts⟩ := exists_founds_nestedResolvers
    have htake : nestedResolvers.take (3 * (Location.roots nestedPackages).length) =
        nestedResolvers := by
      rw [roots_nestedPackages]
      rfl
    rw [← htake] at hfounds
    exact ⟨founds, result_build_inNestedPackages, hfounds, hscripts,
      hpasses inNestedPackages _ storingPages founds Scanner.readsBundle_standard rfl
        parseAll_inNestedPackages result_build_inNestedPackages hfounds⟩

end CompositeParts

end SchemaPlan
