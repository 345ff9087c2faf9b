import SchemaPlan.Proofs.Location.Coverage
import SchemaPlan.Proofs.Plan.Defaults
import SchemaPlan.Proofs.Resolver.Kinds
import SchemaPlan.Proofs.Storage.Additions

/-!
# Adding one script

A script that is added to the resources in memory adds one migration to the plan if its name can be
read, it holds text, and no migration of the plan is in its place: all others keep their order and
every part of them (`plan_with_new_script`). What carries the proof is that a migration `Joins` a
list: it has a place of its own, and all other places stay as they are. The new script is put in
between the scanned scripts of one location for one kind, so its migration joins what is found there
(`exists_foundIn_add`); going on to other scripts and locations, sorting and keeping the first of
duplicates keep it so; and in the sorted list that a plan is, a migration that joins is put in
between the others (`Joins.exists_insert`).
-/

namespace SchemaPlan

open Std

/-! ### Joining a list -/

namespace Migration

/-- A migration joins a list and thereby makes another one: it has a place of its own there, and in
all other places the lists agree. -/
structure Joins (m : Migration) (ms ns : List Migration) : Prop where
  free : m.place ms = []
  own : m.place ns = [m]
  others : ∀ a : Migration, a.cmp m ≠ .eq → a.place ns = a.place ms

variable {m : Migration} {ms ns before after : List Migration}

/-- Put in between migrations in other places, a migration joins them. -/
theorem joins_insert (h : m.place (before ++ after) = []) :
    m.Joins (before ++ after) (before ++ m :: after) := by
  refine ⟨h, ?_, fun a ha => ?_⟩
  · rw [place_append, List.append_eq_nil_iff] at h
    unfold place at h ⊢
    simp [h]
  · simp [place, ha]

namespace Joins

/-- The list may be part of another one. -/
theorem append (h : m.Joins ms ns) (hbefore : m.place before = []) (hafter : m.place after = []) :
    m.Joins (before ++ (ms ++ after)) (before ++ (ns ++ after)) where
  free := by simp [place_append, h.free, hbefore, hafter]
  own := by simp [place_append, h.own, hbefore, hafter]
  others a ha := by simp [place_append, h.others a ha]

theorem sort (h : m.Joins ms ns) : m.Joins (Migration.sort ms) (Migration.sort ns) where
  free := by rw [place_sort, h.free]
  own := by rw [place_sort, h.own]
  others a ha := by rw [place_sort, place_sort, h.others a ha]

theorem candidates (h : m.Joins ms ns) : m.Joins (Plan.candidates ms) (Plan.candidates ns) where
  free := by rw [Plan.place_candidates, h.free, Distinct.firsts_nil]
  own := by
    rw [Plan.place_candidates, h.own]
    rfl
  others a ha := by rw [Plan.place_candidates, Plan.place_candidates, h.others a ha]

/-- A migration that joins a sorted list is put in between the others. -/
theorem exists_insert (h : m.Joins ms ns) (hms : ms.Pairwise fun a b => (a.cmp b).isLE)
    (hns : ns.Pairwise fun a b => (a.cmp b).isLE) :
    ∃ before after, ms = before ++ after ∧ ns = before ++ m :: after := by
  have hm : m ∈ ns := (mem_place.1 (h.own ▸ List.mem_singleton_self m)).1
  obtain ⟨before, after, rfl⟩ := List.append_of_mem hm
  have hothers : (before ++ after).Pairwise fun a b => (a.cmp b).isLE :=
    hns.sublist (List.Sublist.append_left (List.sublist_cons_self m after) before)
  refine ⟨before, after, eq_of_place_eq hms hothers fun a => ?_, rfl⟩
  by_cases ha : a.cmp m = .eq
  · -- nothing but `m` is in its place
    have hown := h.own
    simp only [place, List.filter_append, List.filter_cons, cmp_self, beq_self_eq_true,
      if_true] at hown
    have hnil : m.place before = [] ∧ m.place after = [] := by
      have hlength := congrArg List.length hown
      simp only [List.length_append, List.length_cons, List.length_nil] at hlength
      exact ⟨List.length_eq_zero_iff.1 (by unfold place; omega),
        List.length_eq_zero_iff.1 (by unfold place; omega)⟩
    rw [place_congr ha, place_congr ha, place_append, h.free, hnil.1, hnil.2]
    rfl
  · rw [← h.others a ha]
    simp [place, ha]

end Joins

end Migration

namespace Plan

variable {m : Migration} {found found' : List Migration} {plan : Plan}

/-- Where a plan has nothing in the place of a migration, nothing was found there. -/
theorem MadeOf.place_eq_nil (h : plan.MadeOf found) (hfree : ∀ a ∈ plan.migrations, m.cmp a ≠ .eq) :
    m.place found = [] := by
  refine Migration.place_eq_nil_iff.2 fun a ha hcmp => ?_
  have hcount : 0 < plan.migrations.countP a.same := by
    rw [h.complete a ha]
    exact Nat.one_pos
  obtain ⟨b, hb, hsame⟩ := List.countP_pos_iff.1 hcount
  exact hfree b hb (TransCmp.eq_trans hcmp (Migration.cmp_eq_of_same hsame))

/-- The plan gets one entry from a migration that joins what was found. -/
theorem ofFound_of_joins (h : m.Joins found found') (hplan : ofFound found = .ok plan) :
    ∃ before after, plan.migrations = before ++ after ∧
      ofFound found' = .ok ⟨before ++ m :: after⟩ := by
  obtain ⟨hmigrations, hstrict⟩ := ofFound_eq_ok_iff.1 hplan
  have hsorted := pairwise_candidates found'
  obtain ⟨before, after, hold, hnew⟩ :=
    h.candidates.exists_insert (pairwise_candidates found) hsorted
  refine ⟨before, after, hmigrations.trans hold, ofFound_eq_ok_iff.2 ⟨hnew.symm, ?_⟩⟩
  have hfree := h.candidates.free
  rw [hold, Migration.place_eq_nil_iff] at hfree
  rw [hold] at hstrict
  rw [hnew] at hsorted ⊢
  -- no two are in one place, neither with the new one nor among the others
  have hdiffer : (before ++ m :: after).Pairwise fun a b => a.cmp b ≠ .eq := by
    refine (List.pairwise_middle fun {a b} hab heq => hab (OrientedCmp.eq_symm heq)).2 ?_
    refine List.pairwise_cons.2 ⟨hfree, hstrict.imp fun {a b} hlt heq => ?_⟩
    rw [hlt] at heq
    cases heq
  exact (hsorted.and hdiffer).imp fun {a b} hab =>
    (Ordering.isLE_iff_eq_lt_or_eq_eq.1 hab.1).resolve_right hab.2

end Plan

/-! ### What is scanned -/

namespace Config

variable {c : Config} {files : FileTree} {memory : Bundle} {path : String} {content : List UInt8}
  {l : Location} {repeatable : Bool}

/-- An addition is scanned in the locations that cover it, for the kinds that want it. -/
theorem scanned_add (hl : l.isEmbedded) :
    c.scanned ⟨files, memory.add path content⟩ l repeatable =
      if l.covers (Bundle.key path).toList && c.wants repeatable path then
        Dict.insertEntry (Bundle.key path) content (c.scanned ⟨files, memory⟩ l repeatable)
      else c.scanned ⟨files, memory⟩ l repeatable := by
  have hcovers (p : String) :
      Text.startsWith (Bundle.base l).toList p.toList = l.covers p.toList := by
    rw [Location.covers, hl, Bool.true_and]
  have hscanned (resources : Bundle) : c.scanned ⟨files, resources⟩ l repeatable =
      resources.entries.toList.filter fun e => l.covers e.1.toList && c.wants repeatable e.1 := by
    rw [scanned, Bundle.below, List.filter_filter]
    exact List.filter_congr fun e _ => by rw [hcovers, Bool.and_comm]
  have hwants : c.wants repeatable (Bundle.key path) = c.wants repeatable path := by
    rw [wants, wants, Bundle.lastSegment_key]
  rw [hscanned, hscanned, ← hwants]
  exact Dict.filter_insertEntry
    (fun p => l.covers p.toList && c.wants repeatable p) (Bundle.key path) content
    memory.entries.ascending

/-- A script under a path that is free and lies below a configured location, whose name can be read
as one of one kind. -/
structure NewScript (c : Config) (memory : Bundle) (path : String) (content : List UInt8)
    (repeatable : Bool) (title : Title) : Prop where
  new : Bundle.key path ∉ memory.entries.keys
  below : ∃ ls, Location.parseAll c.locations = .ok ls ∧ ∃ l ∈ ls,
    l.covers (Bundle.key path).toList
  covers : (c.scheme repeatable).covers (lastSegment path)
  named : (c.scheme repeatable).read (lastSegment path) repeatable = .ok title
  noCallback : isCallbackName (lastSegment path) c.suffix = false
  text : ∃ text, Text.decodeText content = .ok text

namespace NewScript

variable {title : Title} (h : c.NewScript memory path content repeatable title)

include h

theorem wants : c.wants repeatable path = true := by
  rw [Config.wants, h.covers, h.noCallback]
  rfl

theorem not_wants (hmarkers : c.MarkersDiffer) : c.wants (!repeatable) path = false := by
  rw [Config.wants, hmarkers.not_covers h.covers, Bool.false_and]

/-- For its kind it is put in between the scanned scripts. -/
theorem exists_scanned_add (hl : l.isEmbedded) (hcovers : l.covers (Bundle.key path).toList) :
    ∃ before after, c.scanned ⟨files, memory⟩ l repeatable = before ++ after ∧
      c.scanned ⟨files, memory.add path content⟩ l repeatable =
        before ++ (Bundle.key path, content) :: after := by
  rw [scanned_add hl, hcovers, h.wants]
  refine Dict.exists_insertEntry_of_notMem content fun e he heq => h.new ?_
  exact List.mem_map.2 ⟨e, (Bundle.mem_below_iff.1 (List.mem_filter.1 he).1).1, heq.symm⟩

end NewScript

end Config

/-! ### What is found in a location -/

namespace SqlResolver

variable {r : SqlResolver} {files : FileTree} {memory : Bundle} {replacer : Option Replacer}
  {l : Location} {path : String} {content : List UInt8} {repeatable : Bool} {title : Title}

/-- The migration of a script whose name can be read and that holds text. -/
theorem exists_migrationOf_newScript (hread : r.readName = .byFilename)
    (hmake : r.makeExecutor = .standard)
    (h : r.issued.config.NewScript memory path content repeatable title)
    (hcovers : l.covers (Bundle.key path).toList) (storage : Storage)
    (replacer : Option Replacer) :
    ∃ m, r.migrationOf storage replacer l repeatable (Bundle.key path, content) = .ok m ∧
      m.version = title.version ∧ m.description = title.description ∧ m.kind = .sql ∧
      m.physicalLocation = placeInMemory (Bundle.key path, content) := by
  have hbytes : (Bundle.resource (Bundle.base l) (Bundle.key path, content)).bytes storage.files =
      .ok content := Bundle.bytes_resource ..
  have htitle : (r.issued.config.scheme repeatable).read
      (Bundle.resource (Bundle.base l) (Bundle.key path, content)).filename repeatable =
        .ok title := by
    have hprefix : (Bundle.base l).toList <+: (Bundle.key path, content).1.toList :=
      (Location.covers_iff.1 hcovers).2
    rw [Bundle.filename_resource hprefix, Bundle.lastSegment_key, h.named]
  exact exists_migration_of_read hread hmake htitle (Resource.exists_text hbytes h.text) replacer

/-- In a location that covers a new script, its migration joins what is found. -/
theorem exists_foundIn_add (hscanner : r.scanner.ReadsBundle) (hl : l.isEmbedded)
    (hmarkers : r.issued.config.MarkersDiffer)
    (h : r.issued.config.NewScript memory path content repeatable title)
    (hcovers : l.covers (Bundle.key path).toList) {m : Migration}
    (hm : r.migrationOf ⟨files, memory⟩ replacer l repeatable (Bundle.key path, content) = .ok m)
    {found : List Migration} (hfound : r.foundIn ⟨files, memory⟩ replacer l = .ok found)
    (hfree : m.place found = []) :
    ∃ found', r.foundIn ⟨files, memory.add path content⟩ replacer l = .ok found' ∧
      m.Joins found found' := by
  obtain ⟨ms, hms, rfl⟩ := (foundIn_eq_ok_iff_scanned hscanner hl).1 hfound
  obtain ⟨before, after, hold, hnew⟩ := h.exists_scanned_add hl hcovers
  have hkind := hms repeatable
  rw [hold] at hkind
  obtain ⟨front, back, hsplit, hforall⟩ := Traversal.forall₂_insert hkind hm
  rw [← hnew] at hforall
  -- for the other kind there is nothing new
  have hother : List.Forall₂ (fun script m =>
      r.migrationOf ⟨files, memory.add path content⟩ replacer l (!repeatable) script = .ok m)
      (r.issued.config.scanned ⟨files, memory.add path content⟩ l (!repeatable))
      (ms !repeatable) := by
    rw [Config.scanned_add hl, h.not_wants hmarkers, Bool.and_false]
    exact hms !repeatable
  cases repeatable with
  | false =>
    refine ⟨front ++ m :: (back ++ ms true), (foundIn_eq_ok_iff_scanned hscanner hl).2
      ⟨fun kind => cond kind (ms true) (front ++ m :: back), ?_, by simp⟩, ?_⟩
    · exact Bool.forall_bool.2 ⟨hforall, hother⟩
    · rw [hsplit, List.append_assoc] at hfree ⊢
      exact Migration.joins_insert hfree
  | true =>
    refine ⟨(ms false ++ front) ++ m :: back, (foundIn_eq_ok_iff_scanned hscanner hl).2
      ⟨fun kind => cond kind (front ++ m :: back) (ms false), ?_, by simp⟩, ?_⟩
    · exact Bool.forall_bool.2 ⟨hother, hforall⟩
    · rw [hsplit, ← List.append_assoc] at hfree ⊢
      exact Migration.joins_insert hfree

/-- In a location that does not cover an addition, the same is found. -/
theorem foundIn_add_of_not_covers {given : GivenScanner} (hscanner : r.scanner = given.scanner)
    (hreads : given.scanner.ReadsBundle) (h : l.covers (Bundle.key path).toList = false) :
    r.foundIn ⟨files, memory.add path content⟩ replacer l =
      r.foundIn ⟨files, memory⟩ replacer l := by
  refine foundIn_congr rfl fun kind => ?_
  rw [hscanner]
  cases hl : l.isEmbedded with
  | false =>
    refine congrArg (Except.map _) (given.result_scan_of_files ?_ hl _ _)
    rfl
  | true =>
    have hscripts (resources : Bundle) : (given.scanner.scan ⟨files, resources⟩ l
        (r.issued.config.scheme kind).marker (r.issued.config.scheme kind).suffix).result.map
          (scripts (r.issued.config.scheme kind)) =
        .ok ((r.issued.config.scanned ⟨files, resources⟩ l kind).map
          (Bundle.resource (Bundle.base l))) := by
      rw [hreads.embedded _ _ _ hl, Except.map, ← scripts_found]
    rw [hscripts, hscripts, Config.scanned_add hl, h, Bool.false_and]
    rfl

end SqlResolver

/-! ### Plans -/

/-- No migration of a plan is in the place that a title stands for. -/
def Title.FreeIn (title : Title) (plan : Plan) : Prop :=
  ∀ m : Migration, m.version = title.version → m.description = title.description →
    ∀ a ∈ plan.migrations, m.cmp a ≠ .eq

namespace CompositeParts

variable {parts : CompositeParts} {given : GivenScanner} {files : FileTree} {memory : Bundle}
  {replacer : Option Replacer} {l : Location} {path : String} {content : List UInt8}
  {repeatable : Bool} {title : Title}

/-- In a location that covers a new script, its migration joins what the default resolvers find. -/
theorem exists_foundAt_add (hscanner : parts.scanner.ReadsBundle) (hl : l.isEmbedded)
    (hmarkers : parts.issued.config.MarkersDiffer)
    (hreplacer : Composite.sharedReplacer parts.issued.config = .ok replacer)
    (h : parts.issued.config.NewScript memory path content repeatable title)
    (hcovers : l.covers (Bundle.key path).toList) {m : Migration}
    (hm : (Composite.scriptResolver parts replacer l).migrationOf ⟨files, memory⟩ replacer l
      repeatable (Bundle.key path, content) = .ok m) {found : List Migration}
    (hfound : parts.foundAt ⟨files, memory⟩ replacer l = .ok found) (hfree : m.place found = []) :
    ∃ found', parts.foundAt ⟨files, memory.add path content⟩ replacer l = .ok found' ∧
      m.Joins found found' := by
  obtain ⟨scripts, code, statements, hscripts, hcode, hstatements, rfl⟩ :=
    (foundAt_eq_ok_iff hreplacer).1 hfound
  rw [Migration.place_append, List.append_eq_nil_iff, Migration.place_sort] at hfree
  obtain ⟨scripts', hscripts', hjoins⟩ := SqlResolver.exists_foundIn_add
    (r := Composite.scriptResolver parts replacer l) hscanner hl hmarkers h hcovers hm hscripts
      hfree.1
  refine ⟨_, (foundAt_eq_ok_iff hreplacer).2
    ⟨scripts', code, statements, hscripts', hcode, hstatements, rfl⟩, ?_⟩
  exact hjoins.sort.append (rfl : m.place [] = []) hfree.2

/-- In a location that does not cover an addition, the default resolvers find the same. -/
theorem foundAt_add_of_not_covers (hscanner : parts.scanner = given.scanner)
    (hreads : given.scanner.ReadsBundle)
    (hreplacer : Composite.sharedReplacer parts.issued.config = .ok replacer)
    (h : l.covers (Bundle.key path).toList = false) :
    parts.foundAt ⟨files, memory.add path content⟩ replacer l =
      parts.foundAt ⟨files, memory⟩ replacer l := by
  have hscripts : (Composite.scriptResolver parts replacer l).foundIn
      ⟨files, memory.add path content⟩ replacer l = _ :=
    SqlResolver.foundIn_add_of_not_covers hscanner hreads h
  rw [foundAt_eq hreplacer, foundAt_eq hreplacer, hscripts]

/-- **Adding one script adds one entry**: the default resolvers with markers of which none begins
with the other make a plan; then a script is added in memory, below a configured location, whose
name can be read as one of one kind, in whose place the plan has nothing. The new plan is the old
one with one more entry in between, which is that of the script. -/
theorem plan_with_new_script (hscanner : parts.scanner = given.scanner)
    (hreads : given.scanner.ReadsBundle) (hdefaults : parts.DefaultsOnly)
    (hskip : parts.issued.config.skipDefaultResolvers = false)
    (hmarkers : parts.issued.config.MarkersDiffer) {plan : Plan}
    (hplan : parts.answer ⟨files, memory⟩ = .ok plan)
    (h : parts.issued.config.NewScript memory path content repeatable title)
    (hfree : title.FreeIn plan) :
    ∃ m before after, plan.migrations = before ++ after ∧
      parts.answer ⟨files, memory.add path content⟩ = .ok ⟨before ++ m :: after⟩ ∧
      m.version = title.version ∧ m.description = title.description ∧ m.kind = .sql ∧
      m.physicalLocation = placeInMemory (Bundle.key path, content) := by
  rw [answer_of_defaultsOnly hdefaults, Traversal.bind_eq_ok_iff] at hplan
  obtain ⟨⟨roots, replacer⟩, hprepared, hplan⟩ := hplan
  obtain ⟨hroots, hreplacer⟩ := of_prepared_eq_ok hprepared
  obtain ⟨ls, hls, l, hl, hcovers⟩ := h.below
  have hmade := Location.made_of_parseAll hls
  rw [Config.roots, Location.result_parseRoots, hls] at hroots
  obtain rfl : Location.roots ls = roots := Except.ok.inj hroots
  obtain ⟨before, k, after, hsplit, hkcovers, hothers⟩ :=
    Location.exists_split_roots hmade hl hcovers
  have hdefault (storage : Storage) : parts.foundByDefaults storage replacer (Location.roots ls) =
      Traversal.gather (parts.foundAt storage replacer) (before ++ k :: after) := by
    rw [foundByDefaults, hskip, hsplit]
    rfl
  have hsame (j : Location) (hj : j ∈ before ++ after) :
      parts.foundAt ⟨files, memory.add path content⟩ replacer j =
        parts.foundAt ⟨files, memory⟩ replacer j :=
    foundAt_add_of_not_covers hscanner hreads hreplacer (hothers j hj)
  -- what was found before, and the same with the new migration in it
  obtain ⟨found, hfound, hplan⟩ := Traversal.bind_eq_ok_iff.1 hplan
  rw [hdefault] at hfound
  obtain ⟨first, own, last, hfirst, hown, hlast, rfl⟩ :=
    Traversal.gather_append_cons_eq_ok_iff.1 hfound
  obtain ⟨m, hm, hversion, hdescription, hkind, hplace⟩ :=
    SqlResolver.exists_migrationOf_newScript (r := Composite.scriptResolver parts replacer k) rfl
      rfl h hkcovers ⟨files, memory⟩ replacer
  have hnone := (Plan.madeOf_of_ofFound hplan).place_eq_nil (hfree m hversion hdescription)
  rw [Migration.place_append, Migration.place_append, List.append_eq_nil_iff,
    List.append_eq_nil_iff] at hnone
  obtain ⟨hfirstnone, hownnone, hlastnone⟩ := hnone
  obtain ⟨own', hown', hjoins⟩ := exists_foundAt_add (hscanner ▸ hreads)
    (Location.covers_iff.1 hkcovers).1 hmarkers hreplacer h hkcovers hm hown hownnone
  obtain ⟨front, back, hentries, hnew⟩ :=
    Plan.ofFound_of_joins (hjoins.append hfirstnone hlastnone) hplan
  refine ⟨m, front, back, hentries, ?_, hversion, hdescription, hkind, hplace⟩
  rw [answer_of_defaultsOnly hdefaults, Traversal.bind_eq_ok_iff]
  refine ⟨_, hprepared, Traversal.bind_eq_ok_iff.2 ⟨_, ?_, hnew⟩⟩
  rw [hdefault]
  refine Traversal.gather_append_cons_eq_ok_iff.2 ⟨first, own', last, ?_, hown', ?_, rfl⟩
  · rw [← hfirst]
    exact Traversal.gather_congr fun j hj => hsame j (List.mem_append_left _ hj)
  · rw [← hlast]
    exact Traversal.gather_congr fun j hj => hsame j (List.mem_append_right _ hj)

/-- One script in one of two packages. -/
def inOnePackage : Bundle := ({} : Bundle).add "app/V2__Users.sql" [51]

/-- What the name of a new script in the other package says. -/
def itemsTitle : Title := ⟨some ⟨["1", "5"], "1.5"⟩, "Items"⟩

theorem newScript_items :
    twoPackages.issued.config.NewScript inOnePackage "/db/V1.5__Items.sql" [52] false
      itemsTitle where
  new := by decide +kernel
  below := ⟨_, rfl, ⟨.embedded, "db"⟩, List.mem_cons_self, by decide +kernel⟩
  covers := by decide +kernel
  named := by rfl
  noCallback := by decide +kernel
  text := ⟨"4", by rfl⟩

theorem plan_with_new_script_items :
    twoPackages.DefaultsOnly ∧ twoPackages.issued.config.MarkersDiffer ∧
      ∃ plan, twoPackages.answer ⟨{}, inOnePackage⟩ = .ok plan ∧ itemsTitle.FreeIn plan ∧
        ∃ m before after, plan.migrations = before ++ after ∧
          twoPackages.answer ⟨{}, inOnePackage.add "/db/V1.5__Items.sql" [52]⟩ =
            .ok ⟨before ++ m :: after⟩ ∧
          m.physicalLocation = "embedded:db/V1.5__Items.sql" := by
  have hdefaults : twoPackages.DefaultsOnly := ⟨rfl, rfl⟩
  have hmarkers : twoPackages.issued.config.MarkersDiffer := by
    rw [Config.MarkersDiffer, Bool.forall_bool]
    exact ⟨by decide, by decide⟩
  have hanswer : (twoPackages.answer ⟨{}, inOnePackage⟩).map
      (fun plan => plan.migrations.map Migration.version) = .ok [some ⟨["2"], "2"⟩] := by
    decide +kernel
  obtain ⟨plan, hplan, hversions⟩ := Traversal.map_eq_ok_iff.1 hanswer
  have hfree : itemsTitle.FreeIn plan := by
    intro m hm _ a ha heq
    have ha := List.mem_singleton.1 (hversions ▸ List.mem_map_of_mem ha)
    rcases Migration.cmp_eq_eq_iff.1 heq with ⟨v, w, hv, hw, hsame⟩ | ⟨hnone, -⟩
    · obtain rfl := Option.some.inj (hm.symm.trans hv)
      obtain rfl := Option.some.inj (ha.symm.trans hw)
      exact absurd hsame (by decide)
    · cases hm.symm.trans hnone
  have hscanner : twoPackages.scanner = GivenScanner.embedded.scanner := rfl
  obtain ⟨m, before, after, hentries, hnew, -, -, -, hplace⟩ := plan_with_new_script hscanner
    Scanner.readsBundle_embedded hdefaults rfl hmarkers hplan newScript_items hfree
  refine ⟨hdefaults, hmarkers, plan, hplan, hfree, m, before, after, hentries, hnew, ?_⟩
  rw [hplace]
  decide +kernel

end CompositeParts

end SchemaPlan
