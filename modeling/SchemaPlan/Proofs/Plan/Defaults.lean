import SchemaPlan.Proofs.Plan.Standalone

/-!
# What the default resolvers find

Where no resolvers are named and none are added, the answer of a composite resolver is the plan of
what the default resolvers find, root by root (`answer_of_defaultsOnly`). In each root the scripts
come first, then the two families of code units (`foundAt_eq`). So two composite resolvers are
compared by what they find in one root.
-/

namespace SchemaPlan.CompositeParts

/-- A composite resolver of these parts has no resolvers but its default ones. -/
structure DefaultsOnly (parts : CompositeParts) : Prop where
  unnamed : parts.issued.config.resolvers = []
  extras : parts.extras = []

variable {parts : CompositeParts} {replacer : Option Replacer} {storage : Storage}

/-- What the default resolvers of one location find. -/
def foundAt (parts : CompositeParts) (storage : Storage) (replacer : Option Replacer)
    (l : Location) : Except PlanError (List Migration) :=
  Traversal.gather (parts.asked parts.issued storage) (Composite.resolversOf parts replacer l)

/-- What all default resolvers find; without them that is nothing. -/
def foundByDefaults (parts : CompositeParts) (storage : Storage) (replacer : Option Replacer)
    (roots : List Location) : Except PlanError (List Migration) :=
  if parts.issued.config.skipDefaultResolvers then .ok []
  else Traversal.gather (parts.foundAt storage replacer) roots

/-- In one location the scripts are found first, then the units of each family. -/
theorem foundAt_eq (hreplacer : Composite.sharedReplacer parts.issued.config = .ok replacer)
    (storage : Storage) (l : Location) :
    parts.foundAt storage replacer l =
      Traversal.gather id
        [((Composite.scriptResolver parts replacer l).foundIn storage replacer l).map
            Migration.sort,
          (Composite.unitResolver parts .code l).resolve.result,
          (Composite.unitResolver parts .statements l).resolve.result] := by
  rw [← Composite.result_resolve_scriptResolver hreplacer l parts.database]
  rfl

/-- The default resolvers of a location find something if each of them does. -/
theorem foundAt_eq_ok_iff (hreplacer : Composite.sharedReplacer parts.issued.config = .ok replacer)
    {l : Location} {found : List Migration} :
    parts.foundAt storage replacer l = .ok found ↔
      ∃ scripts code statements,
        (Composite.scriptResolver parts replacer l).foundIn storage replacer l = .ok scripts ∧
          (Composite.unitResolver parts .code l).resolve.result = .ok code ∧
          (Composite.unitResolver parts .statements l).resolve.result = .ok statements ∧
          Migration.sort scripts ++ (code ++ statements) = found := by
  simp only [foundAt_eq hreplacer, Traversal.gather_cons_eq_ok_iff, Traversal.gather_nil,
    Traversal.map_eq_ok_iff, id, Except.ok.injEq]
  constructor
  · rintro ⟨_, _, ⟨scripts, hscripts, rfl⟩, ⟨code, _, hcode, hlast, rfl⟩, rfl⟩
    obtain ⟨statements, _, hstatements, rfl, rfl⟩ := hlast
    exact ⟨scripts, code, statements, hscripts, hcode, hstatements, by rw [List.append_nil]⟩
  · rintro ⟨scripts, code, statements, hscripts, hcode, hstatements, rfl⟩
    exact ⟨_, _, ⟨scripts, hscripts, rfl⟩, ⟨code, _, hcode, ⟨statements, [], hstatements, rfl, rfl⟩,
      by rw [List.append_nil]⟩, rfl⟩

/-- What goes wrong in a location is reported with the resolver and the location. -/
theorem resolver_of_foundAt_eq_error
    (hreplacer : Composite.sharedReplacer parts.issued.config = .ok replacer) {l : Location}
    {e : PlanError} (h : parts.foundAt storage replacer l = .error e) :
    ∃ name cause, e = .resolver name l.display cause := by
  have hunits : ∀ kind, (Composite.unitResolver parts kind l).resolve.result = .error e →
      ∃ name cause, e = .resolver name l.display cause := by
    intro kind hkind
    rw [UnitResolver.result_resolve rfl, Traversal.map_eq_error_iff] at hkind
    obtain ⟨cause, -, rfl⟩ := Traversal.mapError_eq_error_iff.1 hkind
    exact ⟨_, cause, rfl⟩
  rw [foundAt_eq hreplacer, Traversal.gather_eq_error_iff] at h
  obtain ⟨x, hx, he⟩ := Traversal.exists_of_mapM_eq_error h
  simp only [List.mem_cons, List.not_mem_nil, or_false] at hx
  rcases hx with rfl | rfl | rfl
  · obtain ⟨cause, -, rfl⟩ := SqlResolver.foundIn_eq_error_iff.1 (Traversal.map_eq_error_iff.1 he)
    exact ⟨_, cause, rfl⟩
  · exact hunits .code he
  · exact hunits .statements he

/-- Two resolvers of code units find the same in a location if they have the same units there and
read them alike. -/
theorem result_resolve_unitResolver_congr {a b : CompositeParts} {kind : UnitKind} {l : Location}
    (hwithin : a.units.within kind l = b.units.within kind l)
    (hmigration : ∀ u : CodeUnit,
      u.migration a.issued.config kind = u.migration b.issued.config kind) :
    (Composite.unitResolver a kind l).resolve.result =
      (Composite.unitResolver b kind l).resolve.result := by
  rw [UnitResolver.result_resolve rfl, UnitResolver.result_resolve rfl,
    UnitResolver.result_migrationsIn, UnitResolver.result_migrationsIn]
  show (Except.mapError _ (if l.isEmbedded then (a.units.within kind l).mapM fun u =>
    CodeUnit.migration a.issued.config kind u else _)).map _ = _
  simp only [hmigration, hwithin]
  rfl

/-- With the default resolvers only, the answer is the plan of what they find. -/
theorem answer_of_defaultsOnly (h : parts.DefaultsOnly) (storage : Storage) :
    parts.answer storage =
      parts.prepared >>= fun (roots, replacer) =>
        parts.foundByDefaults storage replacer roots >>= Plan.ofFound := by
  rw [answer_eq_bind parts h.unnamed, h.extras]
  refine bind_congr fun (roots, replacer) => ?_
  show Traversal.gather _ (Composite.defaultResolvers parts replacer roots ++ []) >>= _ =
    parts.foundByDefaults storage replacer roots >>= _
  rw [List.append_nil, Composite.defaultResolvers, foundByDefaults]
  split
  · rfl
  · rw [Traversal.gather_flatMap]
    rfl

/-- A configuration that passes its check is prepared if the marks around placeholders fit. -/
theorem exists_prepared (hcheck : parts.issued.config.check.result = .ok ())
    (hfit : parts.issued.config.MarksFit) :
    ∃ roots replacer, parts.issued.config.roots.result = .ok roots ∧
      Composite.sharedReplacer parts.issued.config = .ok replacer ∧
      parts.prepared = .ok (roots, replacer) := by
  obtain ⟨hmarks, roots, hroots⟩ := Config.result_check_eq_ok_iff.1 hcheck
  obtain ⟨replacer, hreplacer⟩ :=
    (Composite.exists_sharedReplacer_iff (Config.checkMarks_eq_ok_iff.1 hmarks)).2 hfit
  refine ⟨roots, replacer, hroots, hreplacer, ?_⟩
  rw [prepared, hcheck, hroots, hreplacer]
  rfl

end SchemaPlan.CompositeParts
