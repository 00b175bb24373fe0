import SCLOrkTools.Confab.CacheAccounting

/- Where a cached file is looked for. Its path is made up in three places: download and checkCache
   put it together from the key and the extension, and checkExistingEntries takes it from the
   directory and splits it into the two. -/
namespace Confab
open ByteStrings GuardedRun

namespace CacheManager

def Found (m : CacheManager) (key : UInt64) (path : Path) : Prop :=
  ∃ content writeTime, m.files path = some (content, writeTime) ∧
    ∀ now, m.checkCache key now = some (path, m.withFile path (some (content, now)))

structure Located (m : CacheManager) (key : UInt64) (path : Path) : Prop where
  queued : path ∈ m.queued
  present : m.files path ≠ none
  hit : ∃ fileExtension, m.extensionMap.lookup key = some fileExtension ∧
    m.hitPath key fileExtension = path

/-- The name of the file is a key and an extension that is split off again. -/
def Named (m : CacheManager) (path : Path) : Prop :=
  ∃ key fileExtension, IsExtension fileExtension ∧ 46 ∉ fileExtension.tail ∧
    path = m.filePath key fileExtension

end CacheManager

section Calls
variable (XXH64 : List Byte → UInt64)

def CacheManager.Accepts (m : CacheManager) (validate : Bool) (path : Path) : Prop :=
  ∃ content writeTime, m.files path = some (content, writeTime) ∧
    (validate → validFile XXH64 (fileKey path) content)

def Writes (key : UInt64) (path : Path) (m : CacheManager) : CacheCall → Prop
  | .checkExistingEntries validate entries => path ∈ entries ∧ m.Accepts XXH64 validate path ∧
    fileKey path = key ∧
    ∀ next, m.step XXH64 (.checkExistingEntries validate entries) = some next →
      next.files path ≠ none
  | .checkCache _ _ => False
  | .download get other fileSize chunks fileExtension writeTime => other = key ∧
    ∃ next, m.download XXH64 get other fileSize chunks fileExtension writeTime =
      some (some path, next)

def Removes (path : Path) (m : CacheManager) : CacheCall → Prop
  | .checkExistingEntries validate entries =>
    ∀ next, m.step XXH64 (.checkExistingEntries validate entries) = some next →
      next.files path = none
  | _ => False

/-- A directory_iterator leaves out no file. -/
def Enumerates (m : CacheManager) : CacheCall → Prop
  | .checkExistingEntries _ entries => ∀ path, m.files path ≠ none → path ∈ entries
  | _ => True

/-- The path of the directory ends with a slash. A file is downloaded again with the extension
    that is recorded for its key, and a download that fails is of a file that is not in the queue.
    The names of the files that are accepted can be split, and have different keys. -/
def Reproducible (m : CacheManager) : CacheCall → Prop
  | .checkExistingEntries validate _ => ∀ path, m.Accepts XXH64 validate path →
    m.cachePath.getLast? = some 47 ∧ m.Named path ∧
    ∀ other, m.Accepts XXH64 validate other → fileKey path = fileKey other → path = other
  | .checkCache _ _ => True
  | .download get key fileSize chunks fileExtension _ =>
    (Delivers XXH64 get key fileSize chunks → m.cachePath.getLast? = some 47 ∧
      ∀ recorded, m.extensionMap.lookup key = some recorded →
        m.filePath key recorded = m.filePath key fileExtension) ∧
    (¬ Delivers XXH64 get key fileSize chunks → m.filePath key fileExtension ∉ m.queued)

end Calls
section Lookups
variable {m : CacheManager} {key other : UInt64} {path : Path} {fileExtension : List Byte}

theorem found_of_located (located : m.Located key path) : m.Found key path := by
  obtain ⟨-, present, fileExtension, recorded, rfl⟩ := located
  obtain ⟨⟨content, writeTime⟩, there⟩ := Option.ne_none_iff_exists'.mp present
  refine ⟨content, writeTime, there, fun now => ?_⟩
  simp only [CacheManager.checkCache, recorded, there, Option.map_some]
  rfl

theorem lookup_insert {extensionMap : List (UInt64 × List Byte)} :
    (if key ∈ extensionMap.map Prod.fst then extensionMap
      else (key, fileExtension) :: extensionMap).lookup other =
      if other = key then some ((extensionMap.lookup key).getD fileExtension)
      else extensionMap.lookup other := by
  by_cases there : key ∈ extensionMap.map Prod.fst
  · rw [if_pos there]
    split
    · rename_i same
      obtain ⟨⟨_, recorded⟩, mem, rfl⟩ := List.mem_map.mp there
      have found := List.lookup_isSome_iff.mpr ⟨_, mem, beq_self_eq_true _⟩
      obtain ⟨first, found⟩ := Option.isSome_iff_exists.mp found
      rw [same, found, Option.getD_some]
    · rfl
  · have absent : extensionMap.lookup key = none := by
      apply List.lookup_eq_none_iff.mpr
      intro e mem
      refine bne_iff_ne.mpr fun same => there ?_
      rw [same]
      exact List.mem_map_of_mem mem
    rw [if_neg there, List.lookup_cons, absent, Option.getD_none]
    split
    · rename_i same
      rw [if_pos (beq_iff_eq.mp same)]
    · rename_i differs
      rw [if_neg fun same => by simp [same] at differs]

theorem lookup_evict {extensionMap : List (UInt64 × List Byte)} (kept : other ≠ key) :
    (extensionMap.filter (·.1 ≠ key)).lookup other = extensionMap.lookup other := by
  induction extensionMap with
  | nil => rfl
  | cons e rest ih =>
    by_cases gone : e.1 = key
    · rw [List.filter_cons_of_neg (by simpa using gone), ih, List.lookup_cons, gone,
        beq_eq_false_iff_ne.mpr kept]
    · rw [List.filter_cons_of_pos (by simpa using gone), List.lookup_cons, List.lookup_cons, ih]

end Lookups
section Steps
variable {XXH64 : List Byte → UInt64} {m next : CacheManager} {key : UInt64} {path : Path}

theorem located_withFile (located : m.Located key path) {other : Path}
    {file : Option (List Byte × Int)} (kept : path = other → file ≠ none) :
    (m.withFile other file).Located key path := by
  refine ⟨located.queued, ?_, located.hit⟩
  by_cases same : path = other
  · subst same
    have written : (m.withFile path file).files path = file := Function.update_self _ _ _
    rw [written]
    exact kept rfl
  · have before : (m.withFile other file).files path = m.files path :=
      Function.update_of_ne same _ _
    rw [before]
    exact located.present

theorem located_checkCache {other : UInt64} {now : Int} (located : m.Located key path)
    (step : m.step XXH64 (.checkCache other now) = some next) : next.Located key path := by
  rcases checkCache_cases step with rfl | ⟨_, _, _, -, -, rfl⟩
  · exact located
  · exact located_withFile located fun _ => Option.some_ne_none _

variable {other : UInt64} {fileSize : Nat} {fileExtension bytes : List Byte} {writeTime : Int}

theorem located_track (located : m.Located key path) :
    (m.track other fileSize fileExtension bytes writeTime).Located key path := by
  obtain ⟨queued, present, recorded, found, hit⟩ :=
    located_withFile located fun _ => Option.some_ne_none (bytes, writeTime)
  refine ⟨List.mem_cons_of_mem _ queued, present, recorded, ?_, hit⟩
  refine lookup_insert.trans ?_
  split
  · rename_i same
    subst same
    have before : m.extensionMap.lookup key = some recorded := found
    rw [before, Option.getD_some]
  · exact found

theorem track_lookup :
    (m.track key fileSize fileExtension bytes writeTime).extensionMap.lookup key =
      some ((m.extensionMap.lookup key).getD fileExtension) :=
  lookup_insert.trans (if_pos rfl)

theorem track_located_iff :
    (m.track key fileSize fileExtension bytes writeTime).Located key
        (m.filePath key fileExtension) ↔
      m.hitPath key ((m.extensionMap.lookup key).getD fileExtension) =
        m.filePath key fileExtension := by
  constructor
  · rintro ⟨-, -, recorded, found, hit⟩
    rw [track_lookup] at found
    rwa [Option.some.inj found]
  · intro same
    refine ⟨List.mem_cons_self, ?_, _, track_lookup, same⟩
    simp [CacheManager.track]

theorem together_iff : m.hitPath key ((m.extensionMap.lookup key).getD fileExtension) =
    m.filePath key fileExtension ↔ m.cachePath.getLast? = some 47 ∧
      ∀ recorded, m.extensionMap.lookup key = some recorded →
        m.filePath key recorded = m.filePath key fileExtension := by
  rw [hitPath_eq_filePath_iff]
  cases m.extensionMap.lookup key with
  | none => simp
  | some recorded => simp

theorem track_found_iff :
    (m.track key fileSize fileExtension bytes writeTime).Found key (m.filePath key fileExtension) ↔
      m.cachePath.getLast? = some 47 ∧ ∀ recorded, m.extensionMap.lookup key = some recorded →
        m.filePath key recorded = m.filePath key fileExtension := by
  rw [← together_iff]
  constructor
  · rintro ⟨content, _, -, hit⟩
    have now := hit 0
    simp only [CacheManager.checkCache, @track_lookup m key] at now
    obtain ⟨_, _, same⟩ := Option.map_eq_some_iff.mp now
    exact congrArg Prod.fst same
  · intro same
    exact found_of_located (track_located_iff.mpr same)

end Steps
section Restart
variable {XXH64 : List Byte → UInt64} {m s next : CacheManager} {validate : Bool} {path : Path}

variable (XXH64) in
def Filed (m : CacheManager) (validate : Bool) (s : CacheManager) : Prop :=
  ∀ path ∈ s.queued, m.Accepts XXH64 validate path ∧
    s.extensionMap.lookup (fileKey path) = some (stemExtension path).2

variable (XXH64) in
def Distinct (m : CacheManager) (validate : Bool) : Prop :=
  ∀ path other, m.Accepts XXH64 validate path → m.Accepts XXH64 validate other →
    fileKey path = fileKey other → path = other

theorem checkEntry_filed (distinct : Distinct XXH64 m validate)
    (keys : ∀ key, key ∈ s.extensionMap.map Prod.fst ↔ ∃ path ∈ s.queued, fileKey path = key)
    (same : s.files path = m.files path) (fresh : path ∉ s.queued)
    (filed : Filed XXH64 m validate s) :
    Filed XXH64 m validate (s.checkEntry XXH64 validate path) := by
  rcases checkEntry_cases XXH64 s validate path with
    ⟨-, none⟩ | removed | ⟨_, _, file, valid, added⟩
  · rwa [none]
  · rw [removed]
    exact filed
  · have accepts : m.Accepts XXH64 validate path := ⟨_, _, same ▸ file, valid⟩
    have other_key {other : Path} (mem : other ∈ s.queued) : fileKey other ≠ fileKey path := by
      intro shared
      exact fresh (distinct other path (filed other mem).1 accepts shared ▸ mem)
    have unrecorded : s.extensionMap.lookup (fileKey path) = Option.none := by
      apply List.lookup_eq_none_iff.mpr
      intro e mem
      refine bne_iff_ne.mpr fun shared => ?_
      obtain ⟨other, inside, found⟩ := (keys e.1).mp (List.mem_map_of_mem mem)
      exact other_key inside (found.trans shared.symm)
    rw [added]
    intro other mem
    rw [lookup_insert, unrecorded, Option.getD_none]
    rcases List.mem_cons.mp mem with rfl | before
    · exact ⟨accepts, if_pos rfl⟩
    · rw [if_neg (other_key before)]
      exact filed other before

theorem enumeration_filed (distinct : Distinct XXH64 m validate) {entries : List Path}
    (nodup : entries.Nodup)
    (keys : ∀ key, key ∈ s.extensionMap.map Prod.fst ↔ ∃ path ∈ s.queued, fileKey path = key)
    (same : ∀ path ∈ entries, s.files path = m.files path)
    (fresh : ∀ path ∈ entries, path ∉ s.queued)
    (filed : Filed XXH64 m validate s) :
    Filed XXH64 m validate (entries.foldl (CacheManager.checkEntry XXH64 validate) s) := by
  induction entries generalizing s with
  | nil => exact filed
  | cons path entries ih =>
    obtain ⟨new, nodup⟩ := List.nodup_cons.mp nodup
    have here := checkEntry_filed distinct keys (same path List.mem_cons_self)
      (fresh path List.mem_cons_self) filed
    rw [List.foldl_cons]
    apply ih nodup (checkEntry_keys keys) _ _ here
    · intro other mem
      have before := same other (List.mem_cons_of_mem path mem)
      have different : other ≠ path := fun at_path => new (at_path ▸ mem)
      rcases checkEntry_cases XXH64 s validate path with ⟨-, none⟩ | removed | ⟨_, _, -, -, added⟩
      · rwa [none]
      · rw [removed]
        exact (Function.update_of_ne different _ _).trans before
      · rwa [added]
    · intro other mem inside
      obtain ⟨paths, -⟩ := checkEntry_frame XXH64 s validate path
      rcases List.mem_cons.mp (paths inside) with at_path | old
      · exact new (at_path ▸ mem)
      · exact fresh other (List.mem_cons_of_mem path mem) old

theorem evicted_filed (balanced : Balanced s) (filed : Filed XXH64 m validate s)
    {oldest : Int × Path} {content : List Byte} (mem : oldest ∈ s.timeQueue) :
    Filed XXH64 m validate (s.evicted oldest content) := by
  intro path inside
  obtain ⟨before, other⟩ := (evicted_queued balanced.tallied.tracks mem path).mp inside
  obtain ⟨accepts, recorded⟩ := filed path before
  refine ⟨accepts, ?_⟩
  have kept : fileKey path ≠ fileKey oldest.2 := fun shared =>
    other (balanced.apart path before oldest.2 (List.mem_map_of_mem mem) shared)
  exact (lookup_evict kept).trans recorded

theorem checkEntries_cachePath (entries : List Path) :
    (entries.foldl (CacheManager.checkEntry XXH64 validate) s).cachePath = s.cachePath := by
  induction entries generalizing s with
  | nil => rfl
  | cons path entries ih =>
    rw [List.foldl_cons, ih]
    rcases checkEntry_cases XXH64 s validate path with ⟨-, none⟩ | removed | ⟨_, _, -, -, added⟩
    · rw [none]
    · rw [removed]
      rfl
    · rw [added]

theorem checkExistingEntries_filed {entries : List Path} (listing : m.Listing entries)
    (all : ∀ path, m.files path ≠ none → path ∈ entries) (distinct : Distinct XXH64 m validate)
    (ends : m.checkExistingEntries XXH64 validate entries = some next) :
    next.cachePath = m.cachePath ∧ next.Covers ∧ Filed XXH64 m validate next := by
  obtain ⟨tallied, covers⟩ := enumeration_tallied XXH64 listing all validate
  have filed : Filed XXH64 m validate (m.enumerated XXH64 validate entries) :=
    enumeration_filed distinct listing.1
      (fun key => by simp [CacheManager.queued, CacheManager.reset]) (fun _ _ => rfl)
      (fun _ _ => List.not_mem_nil) (fun _ mem => by cases mem)
  have apart : (m.enumerated XXH64 validate entries).Apart :=
    fun path mem other inside => distinct path other (filed path mem).1 (filed other inside).1
  have cachePath : (m.enumerated XXH64 validate entries).cachePath = m.cachePath :=
    checkEntries_cachePath entries
  rw [checkExistingEntries_eq, CacheManager.makeRoomFor] at ends
  suffices kept : next.cachePath = m.cachePath ∧ Balanced next ∧ Filed XXH64 m validate next from
    ⟨kept.1, kept.2.1.covers, kept.2.2⟩
  refine makeRoomTurns_keeps
    (fun s => s.cachePath = m.cachePath ∧ Balanced s ∧ Filed XXH64 m validate s) ?_ ?_
    ⟨cachePath, ⟨tallied, apart, fun path there => (covers path there).2⟩, filed⟩ ends
  · rintro s oldest content realWriteTime ⟨cachePath, balanced, filed⟩ mem -
    refine ⟨cachePath, balanced_requeued balanced mem, fun path inside => ?_⟩
    exact filed path ((requeued_queued mem path).mp inside)
  · rintro s oldest content realWriteTime ⟨cachePath, balanced, filed⟩ mem file
    exact ⟨(evicted_cachePath oldest content).trans cachePath, balanced_evicted balanced mem file,
      evicted_filed balanced filed mem⟩

theorem checkExistingEntries_located {entries : List Path}
    (all : ∀ path, m.files path ≠ none → path ∈ entries)
    (reproducible : Reproducible XXH64 m (.checkExistingEntries validate entries))
    (step : m.step XXH64 (.checkExistingEntries validate entries) = some next)
    (left : next.files path ≠ none) :
    m.cachePath.getLast? = some 47 ∧ m.Named path ∧ next.Located (fileKey path) path := by
  simp only [CacheManager.step] at step
  split at step
  · rename_i listing
    obtain ⟨cachePath, covers, filed⟩ := checkExistingEntries_filed listing all
      (fun path other accepts => (reproducible path accepts).2.2 other) step
    have queued := covers path left
    obtain ⟨accepts, recorded⟩ := filed path queued
    obtain ⟨slash, named, -⟩ := reproducible path accepts
    refine ⟨slash, named, queued, left, _, recorded, ?_⟩
    obtain ⟨key, fileExtension, extension, single, rfl⟩ := named
    have hit : next.hitPath key fileExtension = m.hitPath key fileExtension := by
      rw [CacheManager.hitPath, cachePath, CacheManager.hitPath]
    rw [stemExtension_filePath extension single, fileKey_filePath extension, hit,
      hitPath_slash slash]
  · cases step

theorem located_named {key : UInt64} (slash : m.cachePath.getLast? = some 47)
    (located : m.Located key path) (named : m.Named path) : fileKey path = key := by
  obtain ⟨-, -, recorded, -, hit⟩ := located
  obtain ⟨other, fileExtension, extension, -, rfl⟩ := named
  rw [hitPath_slash slash] at hit
  rw [fileKey_filePath extension, (filePath_key hit).1]

end Restart
section Runs
variable {XXH64 : List Byte → UInt64} {m next : CacheManager} {key : UInt64} {path : Path}

theorem download_returned {get : UInt64 → UInt64 → Option FlatAssetData} {chunks : UInt64}
    {fileSize : Nat} {fileExtension : List Byte} {writeTime : Int}
    (returned : m.download XXH64 get key fileSize chunks fileExtension writeTime =
      some (some path, next)) :
    Delivers XXH64 get key fileSize chunks ∧ path = m.filePath key fileExtension := by
  obtain ⟨d, turns, ends⟩ := Option.map_eq_some_iff.mp returned
  split at ends
  · rename_i good
    have matching := not_or.mp good.2
    cases ends
    exact ⟨⟨d, turns, good.1, not_not.mp matching.1, not_not.mp matching.2⟩, rfl⟩
  · cases ends

theorem writes_located {c : CacheCall} (enumerates : Enumerates m c)
    (reproducible : Reproducible XXH64 m c) (writes : Writes XXH64 key path m c)
    (step : m.step XXH64 c = some next) : next.Located key path := by
  cases c with
  | checkExistingEntries validate entries =>
    obtain ⟨-, -, rfl, left⟩ := writes
    exact (checkExistingEntries_located enumerates reproducible step (left next step)).2.2
  | checkCache => exact writes.elim
  | download get other fileSize chunks fileExtension writeTime =>
    obtain ⟨rfl, after, returned⟩ := writes
    obtain ⟨delivers, rfl⟩ := download_returned returned
    rcases download_cases step with ⟨-, bytes, rfl, rfl⟩ | ⟨fails, rfl⟩
    · exact track_located_iff.mpr (together_iff.mpr (reproducible.1 delivers))
    · exact absurd delivers fails

/-- A file that was found is found again, unless it is removed. -/
theorem step_located {c : CacheCall} (enumerates : Enumerates m c)
    (reproducible : Reproducible XXH64 m c) (located : m.Located key path)
    (stays : ¬ Removes XXH64 path m c) (step : m.step XXH64 c = some next) :
    next.Located key path := by
  cases c with
  | checkExistingEntries validate entries =>
    have left : next.files path ≠ none := by
      intro gone
      apply stays
      intro after ends
      cases step.symm.trans ends
      exact gone
    obtain ⟨slash, named, found⟩ :=
      checkExistingEntries_located enumerates reproducible step left
    rwa [located_named slash located named] at found
  | checkCache => exact located_checkCache located step
  | download get other fileSize chunks fileExtension writeTime =>
    rcases download_cases step with ⟨-, bytes, -, rfl⟩ | ⟨fails, rfl⟩
    · exact located_track located
    · refine located_withFile located fun same => ?_
      exact absurd (same ▸ located.queued) (reproducible.2 fails)

/-- In every run whose calls are reproducible, a file that was written is found until it is
    removed, whatever the directory holds at its start. -/
theorem cached_file_found {cachePath : Path} {maxSize : Nat}
    {files : Path → Option (List Byte × Int)} {calls : List CacheCall}
    (enumerated : Along (CacheManager.step XXH64) Enumerates (.new cachePath maxSize files) calls)
    (reproducible : Along (CacheManager.step XXH64) (Reproducible XXH64)
      (.new cachePath maxSize files) calls)
    (ran : run (CacheManager.step XXH64) (.new cachePath maxSize files) calls = some m)
    (written : Since (CacheManager.step XXH64) (Writes XXH64 key path) (Removes XXH64 path)
      (.new cachePath maxSize files) calls) : m.Found key path := by
  have kept := run_history
    (fun past s => run (CacheManager.step XXH64) (.new cachePath maxSize files) past = some s ∧
      (Since (CacheManager.step XXH64) (Writes XXH64 key path) (Removes XXH64 path)
        (.new cachePath maxSize files) past → s.Located key path))
    ?_ [] ⟨rfl, fun before => absurd before since_nil⟩ (along_and enumerated reproducible) ran
  · exact found_of_located (kept.2 written)
  · rintro past s c next ⟨front, located⟩ ⟨enumerates, reproducible⟩ step
    refine ⟨run_snoc.mpr ⟨s, front, step⟩, fun since => ?_⟩
    rcases (since_snoc front step).mp since with writes | ⟨before, stays⟩
    · exact writes_located enumerates reproducible writes step
    · exact step_located enumerates reproducible (located before) stays step

end Runs

def onePage : CacheCall := .download (fun _ _ => some ⟨[1], byteKey⟩) byteKey 1 1 [46, 112] 0

theorem onePage_step (m : CacheManager) :
    m.step shortHash onePage = some (m.track byteKey 1 [46, 112] [1] 0) := by
  rfl

theorem onePage_since (m : CacheManager) :
    Since (CacheManager.step shortHash) (Writes shortHash byteKey (m.filePath byteKey [46, 112]))
      (Removes shortHash (m.filePath byteKey [46, 112])) m [onePage] := by
  have writes : Writes shortHash byteKey (m.filePath byteKey [46, 112]) m onePage := ⟨rfl, _, rfl⟩
  have nothing : run (CacheManager.step shortHash) m [] = some m := rfl
  exact (since_snoc nothing (onePage_step m)).mpr (.inl writes)

def slashedCache : CacheManager := .new [99, 47] 8 fun _ => none

theorem cached_file_found_page :
    ∃ m, run (CacheManager.step shortHash) slashedCache [onePage, .checkCache byteKey 7] = some m ∧
      m.Found byteKey (slashedCache.filePath byteKey [46, 112]) := by
  refine ⟨_, rfl, ?_⟩
  refine cached_file_found ?_ ?_ (rfl : run (CacheManager.step shortHash)
    (.new [99, 47] 8 fun _ => none) [onePage, .checkCache byteKey 7] = some _) ?_
  · exact ⟨trivial, fun _ _ => ⟨trivial, fun _ _ => trivial⟩⟩
  · refine ⟨⟨fun _ => ⟨by decide, fun recorded found => by cases found⟩, fun _ => ?_⟩, ?_⟩
    · exact List.not_mem_nil
    exact fun _ _ => ⟨trivial, fun _ _ => trivial⟩
  · have first : run (CacheManager.step shortHash) slashedCache [onePage] = some _ := rfl
    exact (since_snoc first rfl).mpr (.inr ⟨onePage_since slashedCache, not_false⟩)

/-- Without the slash the file is there, but checkCache asks for the time of another and throws. -/
theorem cached_file_missed :
    ∃ m, run (CacheManager.step shortHash) bareCache [onePage] = some m ∧
      Since (CacheManager.step shortHash)
        (Writes shortHash byteKey (bareCache.filePath byteKey [46, 112]))
        (Removes shortHash (bareCache.filePath byteKey [46, 112])) bareCache [onePage] ∧
      m.files (bareCache.filePath byteKey [46, 112]) = some ([1], 0) ∧
        m.checkCache byteKey 7 = none ∧
          ¬ m.Found byteKey (bareCache.filePath byteKey [46, 112]) := by
  refine ⟨bareCache.track byteKey 1 [46, 112] [1] 0, rfl, onePage_since bareCache, ?_, ?_, ?_⟩
  · simp [CacheManager.track]
  · decide +kernel
  · intro found
    exact absurd (track_found_iff.mp found).1 (by decide)

end Confab
