import SchemaPlan.Proofs.Storage.Bundle

/-!
# What scanners find

A scan of a directory finds files and nothing else (`content_of_scan`). So the scanners that are
given read what is held in memory in the embedded locations and only there, and what they find there
is what the bundle holds (`ReadsBundle`).
-/

namespace SchemaPlan

namespace FileTree

variable {files : FileTree} {l : Location} {front back : String}

/-- What comes of the findings in a directory: their files by path, unless a directory among them
cannot be listed. -/
def ofFindings (findings : List Finding) : Except PlanError (List Resource) :=
  match findings.findSome? Finding.unlistedPath? with
  | some path => .error (.io path "the directory cannot be listed")
  | none => .ok ((findings.filterMap Finding.resource?).mergeSort fun a b => a.path ≤ b.path)

/-- A scan of a location on disk is decided by the findings there; where there is no directory,
nothing is found. -/
theorem result_scan (files : FileTree) (hl : l.isFilesystem) (front back : String) :
    (files.scan l front back).result =
      match files.findings (hasAffixes front back) l.path with
      | none => .ok []
      | some findings => ofFindings findings := by
  unfold scan
  rw [hl, if_neg (by decide)]
  cases files.findings (hasAffixes front back) l.path with
  | none => rfl
  | some findings =>
    show _ = ofFindings findings
    unfold ofFindings
    rw [ResolveM.result_bind]
    cases findings.findSome? Finding.unlistedPath? <;> rfl

/-- What is found is sorted by path. -/
theorem pairwise_mergeSort_path (resources : List Resource) :
    (resources.mergeSort fun a b => a.path ≤ b.path).Pairwise fun a b => a.path ≤ b.path := by
  refine (List.pairwise_mergeSort ?_ ?_ resources).imp fun hle => of_decide_eq_true hle
  · intro a b c hab hbc
    exact decide_eq_true (String.le_trans (of_decide_eq_true hab) (of_decide_eq_true hbc))
  · intro a b
    simpa using String.le_total a.path b.path

/-- Where every directory can be listed, all files are found. -/
theorem ofFindings_of_listed {findings : List Finding} (h : ∀ p, .unlisted p ∉ findings) :
    ofFindings findings =
      .ok ((findings.filterMap Finding.resource?).mergeSort fun a b => a.path ≤ b.path) := by
  have hnone : findings.findSome? Finding.unlistedPath? = none := by
    refine List.findSome?_eq_none_iff.2 fun finding hfinding => ?_
    cases finding with
    | file relative p => rfl
    | skippedLink p => rfl
    | unlisted p => exact absurd hfinding (h p)
  rw [ofFindings, hnone]

/-- Otherwise there is an error at a directory that cannot be listed. -/
theorem ofFindings_of_unlisted {findings : List Finding} {p : String}
    (h : .unlisted p ∈ findings) :
    ∃ q, .unlisted q ∈ findings ∧
      ofFindings findings = .error (.io q "the directory cannot be listed") := by
  unfold ofFindings
  cases hfound : findings.findSome? Finding.unlistedPath? with
  | none => exact absurd (List.findSome?_eq_none_iff.1 hfound _ h) (by simp [Finding.unlistedPath?])
  | some q =>
    obtain ⟨finding, hfinding, hq⟩ := List.exists_of_findSome?_eq_some hfound
    cases finding with
    | file relative p => cases hq
    | skippedLink p => cases hq
    | unlisted p =>
      cases hq
      exact ⟨q, hfinding, rfl⟩

theorem Finding.resource?_eq_some_iff {finding : Finding} {r : Resource} :
    finding.resource? = some r ↔
      ∃ relative path, finding = .file relative path ∧ r = .ofFile relative path := by
  cases finding with
  | file relative path =>
    constructor
    · intro h
      cases h
      exact ⟨relative, path, rfl, rfl⟩
    · rintro ⟨_, _, h, rfl⟩
      cases h
      rfl
  | skippedLink path => exact iff_of_false (by rintro ⟨⟩) (by rintro ⟨_, _, ⟨⟩, -⟩)
  | unlisted path => exact iff_of_false (by rintro ⟨⟩) (by rintro ⟨_, _, ⟨⟩, -⟩)

/-- Where something is found, all directories are listed, and what is found is a file of them. -/
theorem mem_of_ofFindings_eq_ok {findings : List Finding} {found : List Resource}
    (h : ofFindings findings = .ok found) :
    (∀ p, .unlisted p ∉ findings) ∧
      ∀ r ∈ found, ∃ relative p, .file relative p ∈ findings ∧ r = .ofFile relative p := by
  have hlisted : ∀ p, .unlisted p ∉ findings := by
    intro p hp
    obtain ⟨q, -, herror⟩ := ofFindings_of_unlisted hp
    rw [herror] at h
    cases h
  rw [ofFindings_of_listed hlisted] at h
  cases h
  refine ⟨hlisted, fun r hr => ?_⟩
  obtain ⟨finding, hfinding, hresource⟩ := List.mem_filterMap.1 (List.mem_mergeSort.1 hr)
  obtain ⟨relative, p, rfl, rfl⟩ := Finding.resource?_eq_some_iff.1 hresource
  exact ⟨relative, p, hfinding, rfl⟩

theorem content_of_ofFindings {findings : List Finding} {found : List Resource}
    (h : ofFindings findings = .ok found) {r : Resource} (hr : r ∈ found) :
    ∃ path, r.content = .file path := by
  obtain ⟨relative, p, -, rfl⟩ := (mem_of_ofFindings_eq_ok h).2 r hr
  exact ⟨p, rfl⟩

theorem result_scan_of_not_filesystem (files : FileTree) (hl : l.isFilesystem = false)
    (front back : String) : (files.scan l front back).result = .ok [] := by
  unfold scan
  rw [hl]
  rfl

/-- All that a scan of a directory fails at is a directory that cannot be listed. -/
theorem io_of_scan_eq_error {e : PlanError} (h : (files.scan l front back).result = .error e) :
    ∃ path reason, e = .io path reason := by
  cases hl : l.isFilesystem with
  | false =>
    rw [result_scan_of_not_filesystem files hl] at h
    cases h
  | true =>
    rw [result_scan files hl] at h
    split at h
    · cases h
    · unfold ofFindings at h
      split at h
      · cases h
        exact ⟨_, _, rfl⟩
      · cases h

/-- What is found on disk is in files. -/
theorem content_of_scan {found : List Resource}
    (h : (files.scan l front back).result = .ok found) {r : Resource} (hr : r ∈ found) :
    ∃ path, r.content = .file path := by
  cases hl : l.isFilesystem with
  | false =>
    rw [result_scan_of_not_filesystem files hl] at h
    cases h
    cases hr
  | true =>
    rw [result_scan files hl] at h
    split at h
    · cases h
      cases hr
    · exact content_of_ofFindings h hr

end FileTree

namespace Scanner

/-- A scanner that finds what is held in memory in the embedded locations, and nothing of it
elsewhere. -/
structure ReadsBundle (scanner : Scanner) : Prop where
  embedded : ∀ (storage : Storage) {l : Location} (front back : String), l.isEmbedded →
    (scanner.scan storage l front back).result = .ok (storage.embedded.found l front back)
  elsewhere : ∀ {storage : Storage} {l : Location} {front back : String} {found : List Resource},
    l.isEmbedded = false → (scanner.scan storage l front back).result = .ok found →
      ∀ r ∈ found, ∃ path, r.content = .file path

theorem readsBundle_embedded : embedded.ReadsBundle where
  embedded storage l front back hl := by
    show (storage.embedded.scan l front back).result = _
    rw [Bundle.result_scan, if_pos hl]
  elsewhere {storage l front back found} hl hfound := by
    change (storage.embedded.scan l front back).result = _ at hfound
    rw [Bundle.result_scan, hl] at hfound
    cases hfound
    exact List.forall_mem_nil _

theorem scan_standard (storage : Storage) (l : Location) :
    standard.scan storage l =
      if l.isEmbedded then storage.embedded.scan l else storage.files.scan l := by
  obtain ⟨medium, path⟩ := l
  cases medium <;> rfl

theorem readsBundle_standard : standard.ReadsBundle where
  embedded storage l front back hl := by
    rw [scan_standard, if_pos hl, Bundle.result_scan, if_pos hl]
  elsewhere {storage l front back found} hl hfound r hr := by
    rw [scan_standard, hl] at hfound
    exact FileTree.content_of_scan hfound hr

/-- A scanner that scans directories. -/
def ReadsFiles (scanner : Scanner) : Prop :=
  ∀ (storage : Storage) {l : Location} (front back : String), l.isFilesystem →
    (scanner.scan storage l front back).result = (storage.files.scan l front back).result

theorem readsFiles_standard : standard.ReadsFiles := by
  rintro storage ⟨medium, path⟩ front back hl
  cases (of_decide_eq_true hl : medium = .filesystem)
  rfl

theorem readsFiles_withoutEmbedded : withoutEmbedded.ReadsFiles :=
  fun storage _ front back hl => readsFiles_standard { storage with embedded := {} } front back hl

/-- Where nothing is held in memory, a scan finds what is on disk and nothing else. -/
theorem result_scan_withoutEmbedded (storage : Storage) (l : Location) (front back : String) :
    (withoutEmbedded.scan storage l front back).result =
      (storage.files.scan l front back).result := by
  obtain ⟨medium, path⟩ := l
  cases medium with
  | filesystem => exact readsFiles_withoutEmbedded storage front back rfl
  | embedded =>
    have hl : (⟨.embedded, path⟩ : Location).isEmbedded := rfl
    rw [FileTree.result_scan_of_not_filesystem storage.files rfl]
    refine (readsBundle_standard.embedded { storage with embedded := {} } front back hl).trans ?_
    exact congrArg Except.ok (Bundle.found_eq {} _ front back)

end Scanner

/-! ### The scanners that are given -/

/-- The scanners that are given. -/
inductive GivenScanner where
  /-- The one for directories. -/
  | files
  /-- The one for what is held in memory. -/
  | embedded
  /-- The one for both. -/
  | standard
  /-- The one for both in a program that holds nothing in memory. -/
  | withoutEmbedded
deriving DecidableEq

namespace GivenScanner

variable {l : Location} {front back : String}

/-- The scanner itself. -/
def scanner : GivenScanner → Scanner
  | files => .files
  | embedded => .embedded
  | standard => .standard
  | withoutEmbedded => .withoutEmbedded

/-- What is held in memory as far as a scanner finds it. -/
def memory : GivenScanner → Storage → Bundle
  | files, _ | withoutEmbedded, _ => {}
  | embedded, storage | standard, storage => storage.embedded

/-- In an embedded location a scanner finds what is held in memory. -/
theorem result_scan_of_embedded (given : GivenScanner) (storage : Storage) (front back : String)
    (hl : l.isEmbedded) :
    (given.scanner.scan storage l front back).result =
      .ok ((given.memory storage).found l front back) := by
  have hnone : ({} : Bundle).found l front back = [] := Bundle.found_eq {} l front back
  cases given with
  | files =>
    have hdisk : l.isFilesystem = false := by
      obtain ⟨medium, path⟩ := l
      cases (of_decide_eq_true hl : medium = .embedded)
      rfl
    exact (FileTree.result_scan_of_not_filesystem storage.files hdisk front back).trans
      (congrArg _ hnone.symm)
  | embedded => exact Scanner.readsBundle_embedded.embedded storage front back hl
  | standard => exact Scanner.readsBundle_standard.embedded storage front back hl
  | withoutEmbedded =>
    exact Scanner.readsBundle_standard.embedded { storage with embedded := {} } front back hl

/-- On disk a scan does not depend on what is held in memory. -/
theorem result_scan_of_files (given : GivenScanner) {storage storage' : Storage}
    (hfiles : storage'.files = storage.files) (hl : l.isEmbedded = false) (front back : String) :
    (given.scanner.scan storage' l front back).result =
      (given.scanner.scan storage l front back).result := by
  have hstandard : ∀ storage : Storage,
      Scanner.standard.scan storage l front back = storage.files.scan l front back := by
    intro storage
    rw [Scanner.scan_standard, hl]
    rfl
  cases given with
  | files =>
    show (storage'.files.scan l front back).result = (storage.files.scan l front back).result
    rw [hfiles]
  | embedded =>
    show (storage'.embedded.scan l front back).result = (storage.embedded.scan l front back).result
    rw [Bundle.result_scan, Bundle.result_scan, hl]
    rfl
  | standard =>
    show (Scanner.standard.scan storage' l front back).result =
      (Scanner.standard.scan storage l front back).result
    rw [hstandard, hstandard, hfiles]
  | withoutEmbedded =>
    show (Scanner.standard.scan { storage' with embedded := {} } l front back).result =
      (Scanner.standard.scan { storage with embedded := {} } l front back).result
    rw [hstandard, hstandard]
    show (storage'.files.scan l front back).result = (storage.files.scan l front back).result
    rw [hfiles]

/-- A scan fails only on disk. -/
theorem io_of_scan_eq_error (given : GivenScanner) {storage : Storage} {e : PlanError}
    (h : (given.scanner.scan storage l front back).result = .error e) :
    l.isFilesystem ∧ ∃ path reason, e = .io path reason := by
  cases hl : l.medium with
  | embedded =>
    rw [given.result_scan_of_embedded storage front back (decide_eq_true hl)] at h
    cases h
  | filesystem =>
    have hdisk : l.isFilesystem := decide_eq_true hl
    refine ⟨hdisk, ?_⟩
    cases given with
    | files => exact FileTree.io_of_scan_eq_error h
    | embedded =>
      rw [scanner] at h
      change (storage.embedded.scan l front back).result = _ at h
      rw [Bundle.result_scan] at h
      cases h
    | standard =>
      exact FileTree.io_of_scan_eq_error ((Scanner.readsFiles_standard _ _ _ hdisk).symm.trans h)
    | withoutEmbedded =>
      exact FileTree.io_of_scan_eq_error
        ((Scanner.readsFiles_withoutEmbedded _ _ _ hdisk).symm.trans h)

/-- What is found can be read except on disk. -/
theorem io_of_bytes_eq_error (given : GivenScanner) {storage : Storage} {files : FileTree}
    {resources : List Resource} {e : PlanError}
    (hscan : (given.scanner.scan storage l front back).result = .ok resources) {r : Resource}
    (hr : r ∈ resources) (h : r.bytes files = .error e) :
    l.isFilesystem ∧ ∃ path reason, e = .io path reason := by
  constructor
  · cases hl : l.medium with
    | filesystem => exact decide_eq_true hl
    | embedded =>
      rw [given.result_scan_of_embedded storage front back (decide_eq_true hl),
        Except.ok.injEq, Bundle.found_eq] at hscan
      subst hscan
      obtain ⟨entry, -, rfl⟩ := List.mem_map.1 hr
      rw [Bundle.bytes_resource] at h
      cases h
  · unfold Resource.bytes at h
    split at h
    · cases h
    · split at h
      · cases h
      · cases h
        exact ⟨_, _, rfl⟩

end GivenScanner

end SchemaPlan
