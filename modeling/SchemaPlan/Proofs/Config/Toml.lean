import SchemaPlan.Config.Toml
import SchemaPlan.Proofs.Toml.Documents

/-!
# Written configurations read back

A configuration that is written and read back is the same (`ofToml_toToml`), whatever its texts are
made of. The written form is a line for each setting and one for each placeholder below a header
(`toList_toToml`); reading it gives a table with the values as they were written (`read?_toToml`),
and each field finds its own value there (`ofEntries_entries`). Expanding environment variables
first changes nothing as long as none is set.
-/

namespace SchemaPlan

open Toml (Value Entries Line)

/-! ### Dictionaries -/

namespace Dict

variable {α : Type}

theorem insertEntry_eq_append {key : String} {value : α} {entries : List (String × α)}
    (h : ∀ e ∈ entries, e.1 < key) : insertEntry key value entries = entries ++ [(key, value)] := by
  induction entries with
  | nil => rfl
  | cons e entries ih =>
    rw [List.forall_mem_cons] at h
    have hne : key ≠ e.1 := fun heq => String.lt_irrefl _ (heq ▸ h.1)
    rw [insertEntry, if_neg (String.lt_asymm h.1), if_neg hne, ih h.2, List.cons_append]

theorem foldl_insert_entries (entries : List (String × α)) (d : Dict α)
    (h : (d.entries ++ entries).Pairwise fun a b => a.1 < b.1) :
    (entries.foldl (fun d e => d.insert e.1 e.2) d).entries = d.entries ++ entries := by
  induction entries generalizing d with
  | nil => simp
  | cons e entries ih =>
    have hinsert : (d.insert e.1 e.2).entries = d.entries ++ [e] :=
      insertEntry_eq_append fun b hb =>
        (List.pairwise_append.1 h).2.2 b hb e List.mem_cons_self
    rw [List.foldl_cons, ih, hinsert, List.append_assoc, List.singleton_append]
    rwa [hinsert, List.append_assoc, List.singleton_append]

theorem eq_of_entries_eq {d e : Dict α} (h : d.entries = e.entries) : d = e := by
  cases d
  cases e
  cases h
  rfl

/-- A dictionary is made of its entries. -/
theorem ofList_toList (d : Dict α) : ofList d.toList = d :=
  eq_of_entries_eq (foldl_insert_entries d.entries empty d.ascending)

end Dict

/-! ### Environment variables -/

theorem Environment.expand_empty (s : List Char) : expand empty s = s := by
  have hone (names : List (List Char)) : names.foldl (expandOne empty) s = s := by
    induction names with
    | nil => rfl
    | cons name names ih => exact ih
  exact hone (references s)

namespace Config

/-! ### The lines of a configuration -/

/-- The lines of the settings before the placeholders. -/
def settingLines (c : Config) : List Line :=
  [⟨"locations", _, _, Toml.writes_writeArray c.locations⟩,
   ⟨"sql_migration_prefix", _, _, Toml.writes_writeText c.versionedMarker⟩,
   ⟨"repeatable_sql_migration_prefix", _, _, Toml.writes_writeText c.repeatableMarker⟩,
   ⟨"sql_migration_separator", _, _, Toml.writes_writeText c.separator⟩,
   ⟨"sql_migration_suffix", _, _, Toml.writes_writeText c.suffix⟩,
   ⟨"checksum_policy", _, _, Toml.writes_writeText c.checksumPolicy.name⟩,
   ⟨"skip_default_resolvers", _, _, Toml.writes_writeBool c.skipDefaultResolvers⟩,
   ⟨"resolvers", _, _, Toml.writes_writeArray c.resolvers⟩,
   ⟨"placeholder_replacement", _, _, Toml.writes_writeBool c.replacePlaceholders⟩,
   ⟨"placeholder_prefix", _, _, Toml.writes_writeText c.placeholderOpening⟩,
   ⟨"placeholder_suffix", _, _, Toml.writes_writeText c.placeholderClosing⟩]

/-- The keys of the settings. -/
def settingKeys : List String :=
  standard.settingLines.map Line.key

/-- The lines of the placeholders. -/
def placeholderLines (c : Config) : List Line :=
  c.placeholders.toList.map fun e => ⟨e.1, _, _, Toml.writes_writeText e.2⟩

/-- The table that a configuration is written as. -/
def entries (c : Config) : Entries :=
  c.settingLines.map Line.entry ++
    [("placeholders", .table .header (c.placeholderLines.map Line.entry))]

theorem writeSettings_eq (c : Config) :
    c.writeSettings = c.settingLines.flatMap Line.text := by
  simp only [writeSettings, settingLines, List.flatMap_cons, List.flatMap_nil, Line.text]

theorem writePlaceholders_eq (c : Config) :
    c.writePlaceholders = '\n' :: '[' :: ("placeholders".toList ++ ']' :: '\n' ::
      c.placeholderLines.flatMap Line.text) := by
  have hheader : "\n[placeholders]\n".toList =
      '\n' :: '[' :: ("placeholders".toList ++ [']', '\n']) := by decide
  have hlines : c.writePlaceholders =
      "\n[placeholders]\n".toList ++ c.placeholderLines.flatMap Line.text := by
    rw [placeholderLines, List.flatMap_map]
    rfl
  rw [hlines]
  refine (congrArg (· ++ c.placeholderLines.flatMap Line.text) hheader).trans ?_
  simp only [List.cons_append, List.append_assoc, List.nil_append]

theorem toList_toToml (c : Config) :
    c.toToml.toList = c.settingLines.flatMap Line.text ++
      '\n' :: '[' :: ("placeholders".toList ++ ']' :: '\n' ::
        c.placeholderLines.flatMap Line.text) := by
  rw [toToml, String.toList_ofList, writeSettings_eq, writePlaceholders_eq]

theorem readStatements_toToml (c : Config) (fuel : Nat) :
    Toml.readStatements (fuel + 1 + c.placeholderLines.length + 2 + c.settingLines.length)
        c.toToml.toList =
      some (c.settingLines.map (.assign ·.assignment) ++
        .header ⟨[], "placeholders", false⟩ ::
          c.placeholderLines.map (.assign ·.assignment)) := by
  have hbelow := Toml.readStatements_lines c.placeholderLines (fuel + 1) []
  have hend : Toml.readStatements (fuel + 1) [] = some [] := rfl
  have hblank (s : List Char) (fuel : Nat) :
    Toml.readStatements (fuel + 1) ('\n' :: s) = Toml.readStatements fuel s := rfl
  have hbare : ∀ c ∈ "placeholders".toList, Toml.isBareKeyChar c :=
    List.all_eq_true.1 (by decide : "placeholders".toList.all Toml.isBareKeyChar = true)
  rw [List.append_nil, hend, Option.map_some, List.append_nil] at hbelow
  rw [toList_toToml, Toml.readStatements_lines, hblank,
    Toml.readStatements_header (by decide) hbare, hbelow, Option.map_some, Option.map_some]

theorem read?_toToml (c : Config) : Toml.read? c.toToml.toList = some c.entries := by
  have hmark : Toml.dropByteOrderMark c.toToml.toList = c.toToml.toList := by
    rw [toList_toToml]
    exact Toml.dropByteOrderMark_lines _ _ _
  have hlength : c.settingLines.length + c.placeholderLines.length + 2 ≤
      c.toToml.toList.length := by
    have hsettings := Toml.length_le_length_text c.settingLines
    have hplaceholders := Toml.length_le_length_text c.placeholderLines
    rw [toList_toToml]
    simp only [List.length_append, List.length_cons]
    omega
  obtain ⟨fuel, hfuel⟩ := Nat.exists_eq_add_of_le hlength
  have hread := c.readStatements_toToml fuel
  have hkeys : c.placeholderLines.map Line.key = c.placeholders.keys := by
    rw [placeholderLines, List.map_map]
    rfl
  have hsettings : c.settingLines.map Line.key = settingKeys := rfl
  have hbuild := Toml.build?_lines c.settingLines c.placeholderLines "placeholders"
    (hsettings ▸ by decide) (hsettings ▸ by decide) (hkeys ▸ c.placeholders.nodup_keys)
  have hsteps : c.toToml.toList.length + 1 =
      fuel + 1 + c.placeholderLines.length + 2 + c.settingLines.length := by omega
  rw [Toml.read?]
  simp only [hmark, hsteps, hread, Option.bind_eq_bind, Option.bind_some]
  rw [hbuild, entries]

/-! ### The fields -/

theorem field_eq_ok {α : Type} {read? : Value → Option α} {key : String} {default_ a : α}
    {e : Entries} {v : Value} (hlookup : e.lookup key = some v) (hread : read? v = some a) :
    field read? key default_ e = .ok a := by
  simp [field, hlookup, hread]

/-- What each item was made of is read from it. -/
theorem mapM_map_eq_some {α β : Type} (make : α → β) (read? : β → Option α)
    (h : ∀ a, read? (make a) = some a) (items : List α) :
    (items.map make).mapM read? = some items := by
  induction items with
  | nil => rfl
  | cons item items ih =>
    rw [List.map_cons, List.mapM_cons, h, ih]
    rfl

theorem textsOf?_array (items : List String) :
    textsOf? (.array (items.map .string)) = some items :=
  mapM_map_eq_some Value.string textOf? (fun _ => rfl) items

/-- The text of an entry. -/
def entryOf? (e : String × Value) : Option (String × String) :=
  (textOf? e.2).map fun text => (e.1, text)

theorem dictOf?_table (origin : Toml.Origin) (e : Entries) :
    dictOf? (.table origin e) = (e.mapM entryOf?).map Dict.ofList := by
  rw [dictOf?, bind_pure_comp]
  rfl

theorem dictOf?_placeholderLines (c : Config) :
    dictOf? (.table .header (c.placeholderLines.map Line.entry)) = some c.placeholders := by
  have hlines : c.placeholderLines.map Line.entry =
      c.placeholders.toList.map fun e => (e.1, Value.string e.2) := by
    rw [placeholderLines, List.map_map]
    rfl
  rw [hlines, dictOf?_table, mapM_map_eq_some _ entryOf? (fun _ => rfl), Option.map_some,
    Dict.ofList_toList]

/-- Each field finds the value that was written for it. -/
theorem ofEntries_entries (c : Config) : ofEntries c.entries = .ok c := by
  have hlocations : field textsOf? "locations" standard.locations c.entries = .ok c.locations :=
    field_eq_ok rfl (textsOf?_array c.locations)
  have hversioned : field textOf? "sql_migration_prefix" standard.versionedMarker c.entries =
      .ok c.versionedMarker := field_eq_ok rfl rfl
  have hrepeatable : field textOf? "repeatable_sql_migration_prefix" standard.repeatableMarker
      c.entries = .ok c.repeatableMarker := field_eq_ok rfl rfl
  have hseparator : field textOf? "sql_migration_separator" standard.separator c.entries =
      .ok c.separator := field_eq_ok rfl rfl
  have hsuffix : field textOf? "sql_migration_suffix" standard.suffix c.entries =
      .ok c.suffix := field_eq_ok rfl rfl
  have hpolicy : field policyOf? "checksum_policy" standard.checksumPolicy c.entries =
      .ok c.checksumPolicy := field_eq_ok rfl (ChecksumPolicy.ofName?_name c.checksumPolicy)
  have hskip : field boolOf? "skip_default_resolvers" standard.skipDefaultResolvers c.entries =
      .ok c.skipDefaultResolvers := field_eq_ok rfl rfl
  have hresolvers : field textsOf? "resolvers" standard.resolvers c.entries = .ok c.resolvers :=
    field_eq_ok rfl (textsOf?_array c.resolvers)
  have hreplace : field boolOf? "placeholder_replacement" standard.replacePlaceholders c.entries =
      .ok c.replacePlaceholders := field_eq_ok rfl rfl
  have hopening : field textOf? "placeholder_prefix" standard.placeholderOpening c.entries =
      .ok c.placeholderOpening := field_eq_ok rfl rfl
  have hclosing : field textOf? "placeholder_suffix" standard.placeholderClosing c.entries =
      .ok c.placeholderClosing := field_eq_ok rfl rfl
  have hplaceholders : field dictOf? "placeholders" standard.placeholders c.entries =
      .ok c.placeholders := field_eq_ok rfl (dictOf?_placeholderLines c)
  simp only [ofEntries, hlocations, hversioned, hrepeatable, hseparator, hsuffix, hpolicy, hskip,
    hresolvers, hreplace, hopening, hclosing, hplaceholders]
  rfl

/-- **Written configurations read back as they were**: with no environment variable set, the text
of a configuration is read as that configuration, whatever characters its texts hold. -/
theorem ofToml_toToml (c : Config) : ofToml Environment.empty c.toToml = .ok c := by
  rw [ofToml, Environment.expand_empty, read?_toToml]
  exact ofEntries_entries c

end Config

end SchemaPlan
