import SchemaPlan.Proofs.Config
import SchemaPlan.Proofs.Migration.Order
import SchemaPlan.Proofs.Plan.Faults
import SchemaPlan.Proofs.Resolver.Kinds
import SchemaPlan.Proofs.Resolver.Relocation
import SchemaPlan.Proofs.Resolver.Units

/-!
# Names of scripts and of code units

The name of a code unit is read by a scheme without suffix, that of a script by the configured one;
which scheme it is, a unit is told by looking at the marker of repeatable migrations first, a script
by two scans. The two ways agree: a unit with some name and a script with the same name and the
suffix behind it get the same title, or neither name can be read (`names_agree`). For a script that
is held by a directory there is one more way to fail, at a path that is too long
(`alike_or_failsOverlong`).

For both there is a result that `Reports` what the name says. That the names say the same is
`read_append_suffix` for one scheme, and `readName_of_marker` and `onlyOf_append_suffix` for the
choice of the scheme, which needs that no marker begins with the other. A script is alone if it is
all that a resolver goes through (`reports_of_queue`), be it that a scanner sees nothing else or
that a tree has no other file.
-/

namespace SchemaPlan

/-! ### Results that report a name -/

/-- The only migration of a result has a title. -/
def Gives (result : Except PlanError (List Migration)) (title : Title) : Prop :=
  ∃ m, result = .ok [m] ∧ m.version = title.version ∧ m.description = title.description

/-- A result fails because of a name. -/
def FailsAtName (result : Except PlanError (List Migration)) : Prop :=
  ∃ e identifier reason, result = .error e ∧ e.innermost = .invalidName identifier reason

/-- A result reports what a name says: its title if it has one, and else that it is bad. -/
structure Reports (name : Except PlanError Title) (result : Except PlanError (List Migration)) :
    Prop where
  title : ∀ title, name = .ok title → Gives result title
  error : ∀ e, name = .error e → FailsAtName result

/-- Results that are good alike are bad alike. -/
theorem exists_error_congr {ε α : Type} {x y : Except ε α} (h : ∀ a, x = .ok a ↔ y = .ok a) :
    (∃ e, x = .error e) ↔ ∃ e, y = .error e := by
  cases x with
  | ok a => rw [(h a).1 rfl]
  | error e =>
    cases y with
    | ok a => cases (h a).2 rfl
    | error e' => exact ⟨fun _ => ⟨e', rfl⟩, fun _ => ⟨e, rfl⟩⟩

namespace Reports

variable {name name' : Except PlanError Title} {result result' : Except PlanError (List Migration)}

theorem gives_iff (h : Reports name result) {title : Title} :
    Gives result title ↔ name = .ok title := by
  refine ⟨fun ⟨m, hresult, hversion, hdescription⟩ => ?_, h.title title⟩
  cases hname : name with
  | error e =>
    obtain ⟨_, _, _, herror, -⟩ := h.error e hname
    cases hresult.symm.trans herror
  | ok title' =>
    obtain ⟨m', hresult', hversion', hdescription'⟩ := h.title title' hname
    cases hresult.symm.trans hresult'
    obtain ⟨version, description⟩ := title
    obtain ⟨version', description'⟩ := title'
    cases hversion.symm.trans hversion'
    cases hdescription.symm.trans hdescription'
    rfl

theorem failsAtName_iff (h : Reports name result) :
    FailsAtName result ↔ ∃ e, name = .error e := by
  refine ⟨fun ⟨e, _, _, hresult, _⟩ => ?_, fun ⟨e, he⟩ => h.error e he⟩
  cases hname : name with
  | error e' => exact ⟨e', rfl⟩
  | ok title =>
    obtain ⟨m, hresult', -⟩ := h.title title hname
    cases hresult.symm.trans hresult'

/-- Results that report names which say the same give the same title, or both fail at the name. -/
theorem alike (h : Reports name result) (h' : Reports name' result')
    (hname : ∀ title, name = .ok title ↔ name' = .ok title) :
    (∀ title, Gives result title ↔ Gives result' title) ∧
      (FailsAtName result ↔ FailsAtName result') := by
  constructor
  · intro title
    rw [h.gives_iff, h'.gives_iff, hname]
  · rw [h.failsAtName_iff, h'.failsAtName_iff]
    exact exists_error_congr hname

end Reports

/-! ### Names with and without suffix -/

namespace NameScheme

variable {scheme : NameScheme} {name : String} {repeatable : Bool} {title : Title}

/-- The scheme without its suffix. -/
def bare (scheme : NameScheme) : NameScheme := { scheme with suffix := "" }

theorem withoutSuffix_bare (unmarked : List Char) :
    scheme.bare.withoutSuffix unmarked = unmarked := by
  have h := withoutSuffix_append scheme.bare unmarked
  rwa [bare, String.toList_empty, List.append_nil] at h

/-- A suffix behind a name makes no difference to what the name says. -/
theorem read_append_suffix (hmarker : scheme.marker.toList <+: name.toList) :
    scheme.read (name ++ scheme.suffix) repeatable = .ok title ↔
      scheme.bare.read name repeatable = .ok title := by
  obtain ⟨body, hname⟩ := hmarker
  rw [read_eq_ok_iff, read_eq_ok_iff]
  constructor
  · rintro ⟨unmarked, version, rest, hunmarked, hcut, hsays⟩
    have heq : unmarked = body ++ scheme.suffix.toList := by
      rw [String.toList_append, ← hname, List.append_assoc] at hunmarked
      exact (List.append_cancel_left hunmarked).symm
    rw [heq, withoutSuffix_append] at hcut
    exact ⟨body, version, rest, hname.symm, by rwa [withoutSuffix_bare], hsays⟩
  · rintro ⟨unmarked, version, rest, hunmarked, hcut, hsays⟩
    have heq : unmarked = body := List.append_cancel_left (hunmarked.symm.trans hname.symm)
    rw [heq, withoutSuffix_bare] at hcut
    refine ⟨body ++ scheme.suffix.toList, version, rest, ?_, ?_, hsays⟩
    · rw [String.toList_append, ← hname, List.append_assoc]
    · rwa [withoutSuffix_append]

end NameScheme

/-! ### Which scheme it is -/

/-- A name is that of a callback with the suffix behind it if it is one without. -/
theorem isCallbackName_append_suffix (name suffix : String) :
    isCallbackName (name ++ suffix) suffix = isCallbackName name "" := by
  have hbare : Text.dropSuffix? "".toList name.toList = some name.toList := by
    have h := Text.dropSuffix?_append name.toList "".toList
    rwa [String.toList_empty, List.append_nil] at h
  rw [isCallbackName, isCallbackName, String.toList_append, Text.dropSuffix?_append, hbare]
  rfl

/-- Whether a name is that of a script of one kind, and not of the other. -/
structure Config.OnlyOf (c : Config) (repeatable : Bool) (filename : String) : Prop where
  script : isCallbackName filename c.suffix = false
  covered : (c.scheme repeatable).covers filename
  uncovered : (c.scheme !repeatable).covers filename = false

namespace Config.OnlyOf

variable {c : Config} {repeatable : Bool}

theorem covers_eq {filename : String} (h : c.OnlyOf repeatable filename) (kind : Bool) :
    (c.scheme kind).covers filename = (kind == repeatable) := by
  rcases Bool.eq_or_eq_not kind repeatable with rfl | rfl
  · rw [h.covered, beq_self_eq_true]
  · rw [h.uncovered]
    cases repeatable <;> rfl

theorem wants_eq {path : String} (h : c.OnlyOf repeatable (lastSegment path)) (kind : Bool) :
    c.wants kind path = (kind == repeatable) := by
  rw [wants, h.covers_eq, h.script]
  exact Bool.and_true _

end Config.OnlyOf

section Marker

variable {c : Config} {repeatable : Bool} {name : String}
  (hmarker : (c.scheme repeatable).marker.toList <+: name.toList)

include hmarker

/-- The name of a unit is read by the scheme whose marker it begins with. -/
theorem CodeUnit.readName_of_marker (h : c.MarkersDiffer) :
    readName c name = (c.scheme repeatable).bare.read name repeatable := by
  unfold readName
  cases repeatable with
  | true =>
    have hstarts : Text.startsWith c.repeatableMarker.toList name.toList :=
      Text.startsWith_iff.2 hmarker
    rw [if_pos hstarts]
    rfl
  | false =>
    have hstarts : Text.startsWith c.versionedMarker.toList name.toList :=
      Text.startsWith_iff.2 hmarker
    have hother : ¬ Text.startsWith c.repeatableMarker.toList name.toList := fun hstarts =>
      h.not_prefix hmarker (Text.startsWith_iff.1 hstarts)
    rw [if_neg hother, if_pos hstarts]
    rfl

/-- With the suffix behind it a name gives the title that it is for a unit. -/
theorem CodeUnit.readName_eq_ok_iff (h : c.MarkersDiffer) {title : Title} :
    readName c name = .ok title ↔
      (c.scheme repeatable).read (name ++ c.suffix) repeatable = .ok title := by
  rw [readName_of_marker hmarker h, ← Config.suffix_scheme c repeatable]
  exact (NameScheme.read_append_suffix hmarker).symm

theorem Config.covers_append_suffix : (c.scheme repeatable).covers (name ++ c.suffix) := by
  obtain ⟨body, hname⟩ := hmarker
  refine hasAffixes_iff.2 ⟨body, ?_⟩
  rw [String.toList_append, ← hname, suffix_scheme]

/-- With the suffix behind it a name that is no callback's is that of a script of one kind. -/
theorem Config.onlyOf_append_suffix (h : c.MarkersDiffer)
    (hcallback : isCallbackName name "" = false) : c.OnlyOf repeatable (name ++ c.suffix) where
  script := (isCallbackName_append_suffix name c.suffix).trans hcallback
  covered := covers_append_suffix hmarker
  uncovered := h.not_covers (covers_append_suffix hmarker)

end Marker

/-- There is nothing to sort where one migration is found. -/
theorem Migration.map_sort_singleton (x : Except PlanError Migration)
    (mark : PlanError → PlanError) :
    ((x.map ([·])).mapError mark).map sort = (x.map ([·])).mapError mark := by
  cases x with
  | error e => rfl
  | ok m => exact congrArg Except.ok (List.mergeSort_singleton m)

/-! ### A script that is alone -/

/-- All that a scanner sees in a location is one resource, which holds text. -/
structure Scanner.SeesOnly (scanner : Scanner) (storage : Storage) (l : Location)
    (resource : Resource) : Prop where
  /-- A scan finds the resource if its name has the marks that are looked for, and nothing else. -/
  scan : ∀ front back, (scanner.scan storage l front back).result =
    .ok (if hasAffixes front back resource.filename then [resource] else [])
  text : ∃ text, resource.text storage.files = .ok text

/-- In a package that holds one text, a scanner that reads what is in memory sees only this. -/
theorem Scanner.seesOnly_of_below {scanner : Scanner} {storage : Storage} {l : Location}
    {script : String × List UInt8} (hscanner : scanner.ReadsBundle) (hl : l.isEmbedded)
    (hbelow : storage.embedded.below l = [script])
    (htext : ∃ text, Text.decodeText script.2 = .ok text) :
    scanner.SeesOnly storage l (Bundle.resource (Bundle.base l) script) where
  scan front back := by
    have hscript : script ∈ storage.embedded.below l := hbelow ▸ List.mem_singleton_self script
    rw [hscanner.embedded storage _ _ hl, Bundle.found_eq, hbelow, List.filter_singleton,
      Bundle.filename_resource (Bundle.mem_below_iff.1 hscript).2]
    cases hasAffixes front back (lastSegment script.1) <;> rfl
  text := Resource.exists_text (Bundle.bytes_resource ..) htext

namespace SqlResolver

variable {r : SqlResolver} {scanner : Scanner} {storage : Storage} {replacer : Option Replacer}
  {c : Config} {l : Location} {resource : Resource} {repeatable : Bool} {revision : Nat}

/-! ### What is gone through -/

/-- A script that is all that a scanner sees is all that a resolver goes through. -/
theorem queue_of_seesOnly (h : r.scanner.SeesOnly storage l resource)
    (honly : r.issued.config.OnlyOf repeatable resource.filename) :
    r.queue storage l = .ok [(repeatable, resource)] := by
  have hscripts : ∀ kind, r.scriptsOf storage l kind =
      .ok (if kind == repeatable then [(kind, resource)] else []) := by
    intro kind
    have hscan : (r.scanner.scan storage l (r.issued.config.scheme kind).marker
        (r.issued.config.scheme kind).suffix).result =
          .ok (if kind == repeatable then [resource] else []) := by
      rw [h.scan, ← NameScheme.covers, honly.covers_eq]
    have hscript : scripts (r.issued.config.scheme kind) [resource] = [resource] := by
      rw [scripts, List.filter_singleton, Config.suffix_scheme, honly.script]
      rfl
    rw [scriptsOf_of_scan hscan]
    cases kind == repeatable with
    | false => rfl
    | true => rw [if_pos rfl, hscript, if_pos rfl, List.map_singleton]
  rw [queue, hscripts, hscripts]
  cases repeatable <;> rfl

/-- The only file of a tree is all that a resolver goes through, if it is a script. -/
theorem scriptsIn_singleton {tree : Dict (List UInt8)} {file : String × List UInt8}
    (htree : tree.toList = [file]) (honly : c.OnlyOf repeatable (lastSegment file.1)) :
    c.scriptsIn tree = [(repeatable, file)] := by
  rw [Config.scriptsIn, htree, List.filter_singleton, List.filter_singleton, honly.wants_eq,
    honly.wants_eq]
  cases repeatable <;> rfl

/-! ### What is found -/

/-- What is found with a script that is alone is its migration, or fails as this does. -/
theorem exists_result_of_queue (hmarks : c.Marked) (hfit : c.MarksFit)
    (hqueue : (forLocation l scanner ⟨revision, c⟩).queue storage l =
      .ok [(repeatable, resource)]) :
    ∃ replacer, ((forLocation l scanner ⟨revision, c⟩).resolve storage).result =
      (((forLocation l scanner ⟨revision, c⟩).migration storage.files replacer
        (c.scheme repeatable) repeatable resource).map ([·])).mapError
          (.resolver name l.display) := by
  obtain ⟨replacer, hreplacer⟩ := (Config.exists_activeReplacer_iff hmarks).2 hfit
  refine ⟨replacer, ?_⟩
  rw [result_resolve_of_active rfl hreplacer, foundIn_of_queue hqueue, trial, List.mapM_cons,
    List.mapM_nil]
  show _ = Except.mapError _ (Except.map _ (attempt _ storage replacer (repeatable, resource)))
  cases attempt _ storage replacer (repeatable, resource) with
  | error e => rfl
  | ok m => exact congrArg Except.ok (List.mergeSort_singleton m)

/-- A script that is alone and has a bad name fails at it, whatever it holds. -/
theorem failsAtName_of_queue (hmarks : c.Marked) (hfit : c.MarksFit)
    (hqueue : (forLocation l scanner ⟨revision, c⟩).queue storage l = .ok [(repeatable, resource)])
    {e : PlanError} (he : (c.scheme repeatable).read resource.filename repeatable = .error e) :
    FailsAtName ((forLocation l scanner ⟨revision, c⟩).resolve storage).result := by
  obtain ⟨replacer, hresult⟩ := exists_result_of_queue hmarks hfit hqueue
  obtain ⟨reason, rfl⟩ := NameScheme.exists_invalidName_of_read he
  have hmigration : (forLocation l scanner ⟨revision, c⟩).migration storage.files replacer
      (c.scheme repeatable) repeatable resource =
        .error (.invalidName resource.filename reason) := by
    rw [migration_of_standard rfl]
    show (c.scheme repeatable).read resource.filename repeatable >>= _ = _
    rw [he]
    rfl
  rw [hresult, hmigration]
  exact ⟨_, _, _, rfl, rfl⟩

/-- What is found with a script that is alone and holds text is what its name says, as the name of
the kind that it is of. -/
theorem reports_of_queue (hmarks : c.Marked) (hfit : c.MarksFit)
    (hqueue : (forLocation l scanner ⟨revision, c⟩).queue storage l = .ok [(repeatable, resource)])
    (htext : ∃ text, resource.text storage.files = .ok text) :
    Reports ((c.scheme repeatable).read resource.filename repeatable)
      ((forLocation l scanner ⟨revision, c⟩).resolve storage).result where
  title title htitle := by
    obtain ⟨replacer, hresult⟩ := exists_result_of_queue hmarks hfit hqueue
    obtain ⟨m, hm, hversion, hdescription, -⟩ := exists_migration_of_read
      (r := forLocation l scanner ⟨revision, c⟩) rfl rfl htitle htext replacer
    rw [hresult, hm]
    exact ⟨m, rfl, hversion, hdescription⟩
  error _ he := failsAtName_of_queue hmarks hfit hqueue he

/-- Wherever a tree of one script is held, what is found with it is what its name says, unless a
path is too long. -/
theorem reports_or_failsOverlong (hmarks : c.Marked) (hfit : c.MarksFit) {tree : Dict (List UInt8)}
    {file : String × List UInt8} (h : storage.Holds tree l) (htree : tree.toList = [file])
    (htext : ∃ text, Text.decodeText file.2 = .ok text)
    (honly : c.OnlyOf repeatable (lastSegment file.1)) (revision : Nat) :
    Reports ((c.scheme repeatable).read (lastSegment file.1) repeatable)
        ((forLocation l .standard ⟨revision, c⟩).resolve storage).result ∨
      (forLocation l .standard ⟨revision, c⟩).FailsOverlong storage l := by
  rcases queue_eq h ⟨revision, c⟩ with hqueue | ⟨e, he, hfound⟩
  swap
  · obtain ⟨replacer, hreplacer⟩ := (Config.exists_activeReplacer_iff hmarks).2 hfit
    exact .inr ⟨e, he, (result_resolve_of_active rfl hreplacer).trans
      (congrArg (Except.map Migration.sort) (hfound replacer))⟩
  replace hqueue : (forLocation l .standard ⟨revision, c⟩).queue storage l =
      .ok [(repeatable, l.resourceAt file)] := by
    rw [hqueue, scriptsIn_singleton htree honly]
    rfl
  rw [← Location.filename_resourceAt l file]
  rcases h.bytes_resourceAt (htree ▸ List.mem_singleton_self file) with hbytes | ⟨e, he, hbytes⟩
  · exact .inl (reports_of_queue hmarks hfit hqueue (Resource.exists_text hbytes htext))
  -- a bad name is found out before the script is read
  cases hread : (c.scheme repeatable).read (l.resourceAt file).filename repeatable with
  | error e =>
    exact .inl ⟨by rintro _ ⟨⟩, fun _ _ => failsAtName_of_queue hmarks hfit hqueue hread⟩
  | ok title =>
    obtain ⟨replacer, hresult⟩ := exists_result_of_queue hmarks hfit hqueue
    have hmigration : (forLocation l .standard ⟨revision, c⟩).migration storage.files replacer
        (c.scheme repeatable) repeatable (l.resourceAt file) = .error e := by
      rw [migration_of_standard rfl]
      show (c.scheme repeatable).read (l.resourceAt file).filename repeatable >>= _ = _
      rw [hread]
      show ChecksumPolicy.resourceChecksum _ storage.files (l.resourceAt file) >>= _ = _
      rw [ChecksumPolicy.resourceChecksum_of_bytes_eq_error hbytes]
      rfl
    refine .inr ⟨e, he, ?_⟩
    rw [hresult, hmigration]
    rfl

end SqlResolver

/-! ### A unit that is alone -/

/-- All that is registered in or below the location of a resolver is one unit, which says nothing
about itself. -/
structure UnitResolver.HasOnly (r : UnitResolver) (l : Location) (u : CodeUnit) : Prop where
  bound : r.location? = some l
  embedded : l.isEmbedded
  registered : (r.units.ofKind r.kind).filter (fun u => l.holds u.package) = [u]
  untitled : u.title = none

/-- What is found with a unit that is alone is what its name says. -/
theorem UnitResolver.reports_of_hasOnly {r : UnitResolver} {l : Location} {u : CodeUnit}
    (h : r.HasOnly l u) (hcallback : isCallbackName u.name "" = false) :
    Reports (CodeUnit.readName r.issued.config u.name) r.resolve.result := by
  have hwithin : r.units.within r.kind l = [u] := by
    have hfilter : r.units.within r.kind l =
        ((r.units.ofKind r.kind).filter fun u => l.holds u.package).filter
          fun u => !isCallbackName u.name "" := by
      rw [List.filter_filter, CodeUnits.within]
      exact List.filter_congr fun u _ => Bool.and_comm _ _
    rw [hfilter, h.registered, List.filter_singleton, hcallback]
    rfl
  have htitle : u.titleOf r.issued.config = CodeUnit.readName r.issued.config u.name := by
    rw [CodeUnit.titleOf, h.untitled]
  have hresult : r.resolve.result =
      ((u.migration r.issued.config r.kind).map ([·])).mapError
        (.resolver r.kind.name l.display) := by
    rw [result_resolve h.bound, result_migrationsIn, h.embedded, if_pos rfl, hwithin,
      ← Migration.map_sort_singleton, List.mapM_cons, List.mapM_nil]
    cases u.migration r.issued.config r.kind <;> rfl
  constructor
  · intro title hname
    obtain ⟨m, hm, hversion, hdescription⟩ : ∃ m,
        u.migration r.issued.config r.kind = .ok m ∧ m.version = title.version ∧
          m.description = title.description :=
      ⟨_, CodeUnit.migration_eq_ok_iff.2 ⟨title, htitle.trans hname,
        CodeUnit.allBlank_of_titleOf (htitle.trans hname), rfl⟩, rfl, rfl⟩
    rw [hresult, hm]
    exact ⟨m, rfl, hversion, hdescription⟩
  · intro e he
    obtain ⟨reason, rfl⟩ := CodeUnit.exists_invalidName_of_readName he
    have hmigration : u.migration r.issued.config r.kind =
        .error (.invalidName u.name reason) := by
      rw [CodeUnit.migration, htitle, he]
      rfl
    rw [hresult, hmigration]
    exact ⟨_, _, _, rfl, rfl⟩

/-! ### Both -/

section Both

variable {c : Config} {scanner : Scanner} {storage : Storage} {l l' : Location}
  {resource : Resource} {r : UnitResolver} {u : CodeUnit}

/-- A unit that is alone and what reports its name with the suffix behind it are named alike. -/
theorem UnitResolver.HasOnly.alike (hunit : r.HasOnly l' u) (hconfig : r.issued.config = c)
    (hmarkers : c.MarkersDiffer) {repeatable : Bool}
    (hmarker : (c.scheme repeatable).marker.toList <+: u.name.toList)
    (hcallback : isCallbackName u.name "" = false) {result : Except PlanError (List Migration)}
    (h : Reports ((c.scheme repeatable).read (u.name ++ c.suffix) repeatable) result) :
    (∀ title, Gives r.resolve.result title ↔ Gives result title) ∧
      (FailsAtName r.resolve.result ↔ FailsAtName result) := by
  have hunits : Reports (CodeUnit.readName c u.name) r.resolve.result :=
    hconfig ▸ UnitResolver.reports_of_hasOnly hunit hcallback
  exact hunits.alike h fun _ => CodeUnit.readName_eq_ok_iff hmarker hmarkers

/-- **Scripts and code units are named alike**: where no marker begins with the other and the marks
around placeholders are not too long, a unit that says nothing about itself and a script that has
the name of the unit with the suffix behind it, each alone in its location, give the same title, or
both fail at the name. -/
theorem names_agree (hcheck : c.check.result = .ok ()) (hmarkers : c.MarkersDiffer)
    (hfit : c.MarksFit) (hunit : r.HasOnly l' u) (hconfig : r.issued.config = c)
    (hscript : scanner.SeesOnly storage l resource)
    (hname : resource.filename = u.name ++ c.suffix)
    (hmarker : ∃ repeatable, (c.scheme repeatable).marker.toList <+: u.name.toList)
    (hcallback : isCallbackName u.name "" = false) (revision : Nat) :
    (∀ title, Gives r.resolve.result title ↔
        Gives ((SqlResolver.forLocation l scanner ⟨revision, c⟩).resolve storage).result title) ∧
      (FailsAtName r.resolve.result ↔
        FailsAtName ((SqlResolver.forLocation l scanner ⟨revision, c⟩).resolve storage).result) := by
  obtain ⟨repeatable, hmarker⟩ := hmarker
  have hmarks := Config.checkMarks_eq_ok_iff.1 (Config.result_check_eq_ok_iff.1 hcheck).1
  have honly : c.OnlyOf repeatable resource.filename :=
    hname ▸ Config.onlyOf_append_suffix hmarker hmarkers hcallback
  have hscripts := SqlResolver.reports_of_queue hmarks hfit
    (SqlResolver.queue_of_seesOnly (r := .forLocation l scanner ⟨revision, c⟩) hscript honly)
    hscript.text
  rw [hname] at hscripts
  exact hunit.alike hconfig hmarkers hmarker hcallback hscripts

/-- A unit and a script that is the only file in a directory or a package are named alike too, unless
a path is too long. -/
theorem alike_or_failsOverlong (hcheck : c.check.result = .ok ()) (hmarkers : c.MarkersDiffer)
    (hfit : c.MarksFit) (hunit : r.HasOnly l' u) (hconfig : r.issued.config = c)
    {tree : Dict (List UInt8)} {file : String × List UInt8} (htree : storage.Holds tree l)
    (hfile : tree.toList = [file]) (htext : ∃ text, Text.decodeText file.2 = .ok text)
    (hname : lastSegment file.1 = u.name ++ c.suffix)
    (hmarker : ∃ repeatable, (c.scheme repeatable).marker.toList <+: u.name.toList)
    (hcallback : isCallbackName u.name "" = false) (revision : Nat) :
    ((∀ title, Gives r.resolve.result title ↔
        Gives ((SqlResolver.forLocation l .standard ⟨revision, c⟩).resolve storage).result title) ∧
      (FailsAtName r.resolve.result ↔
        FailsAtName ((SqlResolver.forLocation l .standard ⟨revision, c⟩).resolve storage).result)) ∨
      (SqlResolver.forLocation l .standard ⟨revision, c⟩).FailsOverlong storage l := by
  obtain ⟨repeatable, hmarker⟩ := hmarker
  have hmarks := Config.checkMarks_eq_ok_iff.1 (Config.result_check_eq_ok_iff.1 hcheck).1
  have honly : c.OnlyOf repeatable (lastSegment file.1) :=
    hname ▸ Config.onlyOf_append_suffix hmarker hmarkers hcallback
  have hscripts := SqlResolver.reports_or_failsOverlong hmarks hfit htree hfile htext honly revision
  rw [hname] at hscripts
  exact hscripts.imp_left (hunit.alike hconfig hmarkers hmarker hcallback)

end Both

/-- A unit whose name says everything. -/
def initUnit : CodeUnit :=
  { package := ⟨.embedded, ""⟩, name := "V1__Init", scripts := [], origin := "Init" }

/-- The resolver of that unit alone. -/
def initUnits (c : Config) : UnitResolver where
  kind := .code
  units := { code := [initUnit] }
  issued := ⟨1, c⟩
  location? := some ⟨.embedded, ""⟩

theorem hasOnly_initUnits (c : Config) : (initUnits c).HasOnly ⟨.embedded, ""⟩ initUnit :=
  ⟨rfl, rfl, rfl, rfl⟩

/-- A script with the name of that unit, alone in memory. -/
def initScript : Resource :=
  Bundle.resource (Bundle.base ⟨.embedded, ""⟩) ("V1__Init.sql", [])

theorem seesOnly_initScript :
    Scanner.embedded.SeesOnly (Config.holding "V1__Init.sql") ⟨.embedded, ""⟩ initScript :=
  Scanner.seesOnly_of_below Scanner.readsBundle_embedded rfl (Config.below_holding "V1__Init.sql")
    ⟨"", rfl⟩

theorem names_agree_init :
    Config.standard.check.result = .ok () ∧ Config.standard.MarkersDiffer ∧
      Config.standard.MarksFit ∧
      Gives (initUnits .standard).resolve.result ⟨some ⟨["1"], "1"⟩, "Init"⟩ ∧
      Gives ((SqlResolver.forLocation ⟨.embedded, ""⟩ .embedded ⟨1, .standard⟩).resolve
        (Config.holding "V1__Init.sql")).result ⟨some ⟨["1"], "1"⟩, "Init"⟩ := by
  have hcheck : Config.standard.check.result = .ok () := by rfl
  have hmarkers : Config.standard.MarkersDiffer := by
    rw [Config.MarkersDiffer, Bool.forall_bool]
    exact ⟨by decide, by decide⟩
  have hfit : Config.standard.MarksFit := fun _ => by decide
  have hagree := names_agree hcheck hmarkers hfit (hasOnly_initUnits .standard) rfl
    seesOnly_initScript (by decide) ⟨false, by decide⟩ (by decide) 1
  have hunit : Gives (initUnits .standard).resolve.result ⟨some ⟨["1"], "1"⟩, "Init"⟩ :=
    (UnitResolver.reports_of_hasOnly (hasOnly_initUnits .standard) (by decide)).title _ (by rfl)
  exact ⟨hcheck, hmarkers, hfit, hunit, (hagree.1 _).1 hunit⟩

/-- The check lets an opening mark pass that is too long, but with it the script has no title. -/
theorem not_names_agree_overlongMark :
    ¬ ∀ (c : Config) (scanner : Scanner) (storage : Storage) (l l' : Location)
      (resource : Resource) (r : UnitResolver) (u : CodeUnit), c.check.result = .ok () →
      c.MarkersDiffer → r.HasOnly l' u → r.issued.config = c →
      scanner.SeesOnly storage l resource → resource.filename = u.name ++ c.suffix →
      (∃ repeatable, (c.scheme repeatable).marker.toList <+: u.name.toList) →
      isCallbackName u.name "" = false → ∀ revision,
      (∀ title, Gives r.resolve.result title ↔
          Gives ((SqlResolver.forLocation l scanner ⟨revision, c⟩).resolve storage).result title) ∧
        (FailsAtName r.resolve.result ↔ FailsAtName
          ((SqlResolver.forLocation l scanner ⟨revision, c⟩).resolve storage).result) := by
  intro hall
  have hcheck := CompositeParts.check_overlongMark
  have hmarks := Config.checkMarks_eq_ok_iff.1 (Config.result_check_eq_ok_iff.1 hcheck).1
  have hmarkers : CompositeParts.overlongMark.issued.config.MarkersDiffer := by
    rw [Config.MarkersDiffer, Bool.forall_bool]
    exact ⟨by decide, by decide⟩
  have hread : CodeUnit.readName CompositeParts.overlongMark.issued.config initUnit.name =
      .ok ⟨some ⟨["1"], "1"⟩, "Init"⟩ := by rfl
  have hunit := (UnitResolver.reports_of_hasOnly
    (hasOnly_initUnits CompositeParts.overlongMark.issued.config) (by decide)).title _ hread
  have hagree := hall _ _ _ _ _ _ _ _ hcheck hmarkers (hasOnly_initUnits _) rfl
    seesOnly_initScript (by decide) ⟨false, by decide⟩ (by decide) 1
  obtain ⟨m, hresult, -⟩ := (hagree.1 _).1 hunit
  rw [SqlResolver.result_resolve_of_bound _ _ rfl] at hresult
  obtain ⟨replacer, hreplacer, -⟩ := Traversal.bind_eq_ok_iff.1 hresult
  exact CompositeParts.not_marksFit_overlongMark
    ((Config.exists_activeReplacer_iff hmarks).1 ⟨replacer, hreplacer⟩)

end SchemaPlan
