import Mathlib.Data.List.Basic
import SignalPatch.Files.PatchFile

/-!
# The last edit is not missed

A patch file is watched while someone edits it: writes, deletes and writes it again, also
between any two looks that a poll or a load takes at it.  A poll that reports nothing about a
file that is there has nothing to report: the last attempt has read what stands in the file.
Where edits keep out of attempts and only polls attempt, each version is attempted once.
-/

namespace SignalPatch

namespace PatchFile

theorem isStale_iff {patchFile : PatchFile} {time : Int} :
    patchFile.isStale time = true ↔
      ∀ last, patchFile.lastModified = some last → last < time := by
  obtain ⟨lastModified⟩ := patchFile
  cases lastModified with
  | none => simp [isStale]
  | some last => simp [isStale]

/-- A version of a file: when it was written, and its bytes. -/
structure Version where
  time : Int
  bytes : ByteArray

/-- A file that is edited, which may be absent, and the time of the latest write. -/
structure EditedFile where
  version : Option Version
  latest : Int
  time_le : ∀ current ∈ version, current.time ≤ latest

inductive Edit where
  /-- Bytes are written, later than all before by one and a delay. -/
  | write (delay : Nat) (bytes : ByteArray)
  | delete

namespace EditedFile

def edit (file : EditedFile) : Edit → EditedFile
  | .write delay bytes =>
      ⟨some ⟨file.latest + 1 + delay, bytes⟩, file.latest + 1 + delay, by
        rintro _ ⟨⟩
        exact Int.le_refl _⟩
  | .delete => ⟨none, file.latest, by rintro _ ⟨⟩⟩

def editAll (file : EditedFile) (edits : List Edit) : EditedFile :=
  edits.foldl edit file

/-- The time of modification that a look at the file finds. -/
def modified (file : EditedFile) : Option Int :=
  file.version.map Version.time

/-- An edit that leaves a version has written it behind all that was written before. -/
theorem edit_after {file : EditedFile} {edit : Edit} {version : Version}
    (present : (file.edit edit).version = some version) : file.latest < version.time := by
  cases edit with
  | write delay bytes =>
      cases present
      simp only
      omega
  | delete => cases present

theorem latest_le_edit (file : EditedFile) (edit : Edit) :
    file.latest ≤ (file.edit edit).latest := by
  cases edit with
  | write delay bytes =>
      simp only [EditedFile.edit]
      omega
  | delete => exact Int.le_refl _

theorem latest_le_editAll (file : EditedFile) (edits : List Edit) :
    file.latest ≤ (file.editAll edits).latest := by
  induction edits generalizing file with
  | nil => exact Int.le_refl _
  | cons edit others ih => exact Int.le_trans (file.latest_le_edit edit) (ih (file.edit edit))

/-- What stands in a file behind some edits stood there before, or is newer than all before. -/
theorem of_editAll {file : EditedFile} {edits : List Edit} {version : Version}
    (present : (file.editAll edits).version = some version) :
    file.version = some version ∨ file.latest < version.time := by
  induction edits generalizing file with
  | nil => exact .inl present
  | cons edit others ih =>
      right
      rcases ih present with unchanged | newer
      · exact edit_after unchanged
      · exact Int.lt_of_le_of_lt (file.latest_le_edit edit) newer

end EditedFile

/-- What is read where a version of a file is expected. -/
def contentOf (version : Option Version) : FileContent :=
  match version with
  | none => .error .notFound
  | some version => .ok version.bytes

/-- A watched file, the edits that land behind the next looks at it, and what was read of it. -/
structure Scene where
  file : EditedFile
  /-- The edits behind each of the next looks. -/
  pending : List (List Edit)
  /-- The version that the last look at the content found. -/
  found : Option Version

namespace Scene

/-- The edits behind a look have landed. -/
def behindLook (scene : Scene) : Scene :=
  match scene.pending with
  | [] => scene
  | edits :: others => { scene with file := scene.file.editAll edits, pending := others }

/-- Looks behind which edits land. -/
def access : FileAccess Scene where
  modified := modifyGet fun scene => (scene.file.modified, scene.behindLook)
  content := modifyGet fun scene =>
    (contentOf scene.file.version, { scene with found := scene.file.version }.behindLook)

/-- The file once all edits have landed. -/
def settled (scene : Scene) : EditedFile :=
  scene.pending.foldl EditedFile.editAll scene.file

end Scene

/-- An attempt to load a file: the time that was recorded, the version that was read, the result. -/
structure Attempt where
  modified : Option Int
  version : Option Version
  result : Except ReloadError Patch

/-- An attempt has read a version, decoded its bytes and compiled their text. -/
structure Attempt.Compiles (attempt : Attempt) (version : Version) : Prop where
  version_eq : attempt.version = some version
  compiled : ∀ text patch, String.fromUTF8? version.bytes = some text →
    compile text = .ok patch → attempt.result = .ok patch
  faulty : ∀ text fault, String.fromUTF8? version.bytes = some text →
    compile text = .error fault → attempt.result = .error (.compile fault)
  undecoded : String.fromUTF8? version.bytes = none → attempt.result = .error (.file .notText)

theorem Attempt.compiles_of_result_eq {attempt : Attempt} {version : Version}
    (versionEq : attempt.version = some version)
    (resultEq : attempt.result = FileContent.patch (.ok version.bytes)) :
    attempt.Compiles version where
  version_eq := versionEq
  compiled text patch decoded compiled := by
    simp only [resultEq, FileContent.patch, FileContent.text, decoded, compiled]
  faulty text fault decoded faulty := by
    simp only [resultEq, FileContent.patch, FileContent.text, decoded, faulty]
  undecoded undecoded := by
    simp only [resultEq, FileContent.patch, FileContent.text, undecoded]

/-- A patch file, the file that it watches, and the attempts to load it so far. -/
structure Watch where
  file : EditedFile
  patchFile : PatchFile
  attempts : List Attempt

/-- What happens to a watched file.  Edits may land between the looks that are taken at it. -/
inductive Happening where
  | edit (edit : Edit)
  /-- A load, with edits between the look at the time and that at the content. -/
  | load (within : List Edit)
  /-- A poll, with edits between its look at the time and its load, and within the load. -/
  | poll (before within : List Edit)

/-- Whether only polls attempt to load, and no edit lands within an attempt. -/
def Happening.IsCalm : Happening → Prop
  | .edit _ => True
  | .load _ => False
  | .poll _ within => within = []

namespace Watch

/-- A file that nobody has attempted to load yet. -/
def start (file : EditedFile) : Watch :=
  ⟨file, .unread, []⟩

def editAll (watch : Watch) (edits : List Edit) : Watch :=
  { watch with file := watch.file.editAll edits }

def load (watch : Watch) (within : List Edit) : Watch :=
  let ((result, patchFile), scene) :=
    (loadThrough Scene.access).run ⟨watch.file, [within], none⟩
  ⟨scene.settled, patchFile, watch.attempts ++ [⟨patchFile.lastModified, scene.found, result⟩]⟩

/-- The answer of a poll, and the watch behind it. -/
def poll (watch : Watch) (before within : List Edit) :
    Option (Except ReloadError Patch) × Watch :=
  let ((result, patchFile), scene) :=
    (watch.patchFile.pollThrough Scene.access).run ⟨watch.file, [before, within], none⟩
  let attempt := result.map (Attempt.mk patchFile.lastModified scene.found)
  (result, ⟨scene.settled, patchFile, watch.attempts ++ attempt.toList⟩)

def act (watch : Watch) : Happening → Watch
  | .edit edit => watch.editAll [edit]
  | .load within => watch.load within
  | .poll before within => (watch.poll before within).2

def actAll (watch : Watch) (happenings : List Happening) : Watch :=
  happenings.foldl act watch

/-- Whether the file is there, and newer than what the last attempt has recorded, if it has. -/
def IsDue (watch : Watch) : Prop :=
  ∃ version, watch.file.version = some version ∧
    ∀ last, watch.patchFile.lastModified = some last → last < version.time

/-- A load reads the content as it stands behind the edits, and records the time before them. -/
theorem load_eq (watch : Watch) (within : List Edit) :
    watch.load within =
      ⟨watch.file.editAll within, ⟨watch.file.modified⟩, watch.attempts ++
        [⟨watch.file.modified, (watch.file.editAll within).version,
          (contentOf (watch.file.editAll within).version).patch⟩]⟩ :=
  rfl

/-- The first look of a poll decides whether there is an attempt, and edits land behind it. -/
theorem run_pollThrough (patchFile : PatchFile) (file : EditedFile) (before within : List Edit) :
    (patchFile.pollThrough Scene.access).run ⟨file, [before, within], none⟩ =
      match file.modified with
      | none => ((none, patchFile), ⟨file.editAll before, [within], none⟩)
      | some time =>
          if patchFile.isStale time then
            ((some (contentOf ((file.editAll before).editAll within).version).patch,
                ⟨(file.editAll before).modified⟩),
              ⟨(file.editAll before).editAll within, [],
                ((file.editAll before).editAll within).version⟩)
          else ((none, patchFile), ⟨file.editAll before, [within], none⟩) := by
  have lookEq : Scene.access.modified.run ⟨file, [before, within], none⟩ =
      pure (file.modified, ⟨file.editAll before, [within], none⟩) :=
    rfl
  rw [pollThrough, StateT.run_bind, lookEq, pure_bind]
  cases file.modified with
  | none => rfl
  | some time =>
      dsimp only
      split
      · rfl
      · rfl

theorem poll_of_due {watch : Watch} (due : watch.IsDue) (before within : List Edit) :
    (watch.poll before within).1.isSome = true ∧
      (watch.poll before within).2 = (watch.editAll before).load within := by
  obtain ⟨version, present, newer⟩ := due
  have modifiedEq : watch.file.modified = some version.time := congrArg _ present
  simp only [poll, run_pollThrough, modifiedEq, isStale_iff.mpr newer, ↓reduceIte,
    Option.isSome_some, true_and]
  rfl

theorem poll_of_not_due {watch : Watch} (undue : ¬ watch.IsDue) (before within : List Edit) :
    (watch.poll before within).1 = none ∧
      (watch.poll before within).2 = watch.editAll (before ++ within) := by
  have editsEq : watch.editAll (before ++ within) =
      ⟨(watch.file.editAll before).editAll within, watch.patchFile, watch.attempts ++ []⟩ := by
    rw [List.append_nil, editAll, EditedFile.editAll, List.foldl_append]
    rfl
  cases present : watch.file.version with
  | none =>
      have modifiedEq : watch.file.modified = none := congrArg _ present
      simp only [poll, run_pollThrough, modifiedEq, editsEq, true_and]
      rfl
  | some version =>
      have modifiedEq : watch.file.modified = some version.time := congrArg _ present
      have seen : watch.patchFile.isStale version.time = false := by
        by_contra stale
        exact undue ⟨version, present, isStale_iff.mp (Bool.of_not_eq_false stale)⟩
      simp only [poll, run_pollThrough, modifiedEq, seen, editsEq, Bool.false_eq_true,
        ↓reduceIte, true_and]
      rfl

theorem poll_isSome_iff (watch : Watch) (before within : List Edit) :
    (watch.poll before within).1.isSome = true ↔ watch.IsDue := by
  by_cases due : watch.IsDue
  · simp only [(poll_of_due due before within).1, due]
  · simp only [(poll_of_not_due due before within).1, due, Option.isSome_none, Bool.false_eq_true]

end Watch

/--
An attempt has read what stands in the file, unless that was written after the time that the
attempt has recorded.
-/
structure Attempt.Covers (attempt : Attempt) (file : EditedFile) : Prop where
  result_eq : attempt.result = (contentOf attempt.version).patch
  modified_le : ∀ time, attempt.modified = some time → time ≤ file.latest
  version_eq : ∀ time version, attempt.modified = some time → file.version = some version →
    version.time ≤ time → attempt.version = some version

theorem Attempt.Covers.editAll {attempt : Attempt} {file : EditedFile}
    (covers : attempt.Covers file) (edits : List Edit) :
    attempt.Covers (file.editAll edits) where
  result_eq := covers.result_eq
  modified_le time recorded :=
    Int.le_trans (covers.modified_le time recorded) (file.latest_le_editAll edits)
  version_eq time version recorded present old := by
    rcases EditedFile.of_editAll present with unchanged | newer
    · exact covers.version_eq time version recorded unchanged old
    · have recordedLe := covers.modified_le time recorded
      omega

namespace Watch

variable {watch : Watch}

/-- The record is that of the last attempt, which covers the file. -/
structure UpToDate (watch : Watch) : Prop where
  recorded_eq : watch.patchFile.lastModified = watch.attempts.getLast?.bind Attempt.modified
  covers : ∀ attempt ∈ watch.attempts.getLast?, attempt.Covers watch.file

theorem upToDate_start (file : EditedFile) : (start file).UpToDate :=
  ⟨rfl, by rintro _ ⟨⟩⟩

theorem UpToDate.editAll (upToDate : watch.UpToDate) (edits : List Edit) :
    (watch.editAll edits).UpToDate :=
  ⟨upToDate.recorded_eq, fun attempt last => (upToDate.covers attempt last).editAll edits⟩

/-- A load covers the file as it leaves it, whatever came before and happened within. -/
theorem upToDate_load (watch : Watch) (within : List Edit) : (watch.load within).UpToDate := by
  rw [load_eq]
  refine ⟨?_, ?_⟩
  · simp only [List.getLast?_concat]
    rfl
  · intro attempt last
    simp only [List.getLast?_concat] at last
    cases last
    refine ⟨rfl, ?_, fun _ _ _ present _ => present⟩
    intro time recorded
    obtain ⟨version, present, rfl⟩ := Option.map_eq_some_iff.mp recorded
    exact Int.le_trans (watch.file.time_le version present) (watch.file.latest_le_editAll within)

theorem UpToDate.act (upToDate : watch.UpToDate) (happening : Happening) :
    (watch.act happening).UpToDate := by
  cases happening with
  | edit edit => exact upToDate.editAll [edit]
  | load within => exact upToDate_load watch within
  | poll before within =>
      by_cases due : watch.IsDue
      · rw [Watch.act, (poll_of_due due before within).2]
        exact upToDate_load _ within
      · rw [Watch.act, (poll_of_not_due due before within).2]
        exact upToDate.editAll _

theorem UpToDate.actAll (upToDate : watch.UpToDate) (happenings : List Happening) :
    (watch.actAll happenings).UpToDate := by
  induction happenings generalizing watch with
  | nil => exact upToDate
  | cons happening others ih => exact ih (upToDate.act happening)

theorem UpToDate.isDue_iff (upToDate : watch.UpToDate) :
    watch.IsDue ↔ ∃ version, watch.file.version = some version ∧
      ∀ last, watch.attempts.getLast?.bind Attempt.modified = some last → last < version.time := by
  rw [IsDue, upToDate.recorded_eq]

/-- A file that is there and not due was read, as it stands, by the last attempt. -/
theorem UpToDate.exists_last (upToDate : watch.UpToDate) (undue : ¬ watch.IsDue)
    {version : Version} (present : watch.file.version = some version) :
    ∃ attempt, watch.attempts.getLast? = some attempt ∧ attempt.Compiles version := by
  have recorded : ∃ time, watch.patchFile.lastModified = some time ∧ version.time ≤ time := by
    by_contra none
    refine undue ⟨version, present, fun last eq => ?_⟩
    by_contra le
    exact none ⟨last, eq, by omega⟩
  obtain ⟨time, recorded, le⟩ := recorded
  rw [upToDate.recorded_eq] at recorded
  obtain ⟨attempt, last, recorded⟩ := Option.bind_eq_some_iff.mp recorded
  have covers := upToDate.covers attempt last
  have versionEq := covers.version_eq time version recorded present le
  refine ⟨attempt, last, Attempt.compiles_of_result_eq versionEq ?_⟩
  rw [covers.result_eq, versionEq]
  rfl

/-- The versions that were read by attempts. -/
def attempted (watch : Watch) : List Version :=
  watch.attempts.filterMap Attempt.version

/-- Each attempt has read a newer version than those before, and one that is due is newer yet. -/
structure Advances (watch : Watch) : Prop where
  ascending : watch.attempted.Pairwise (fun first second => first.time < second.time)
  time_le : ∀ version ∈ watch.attempted, version.time ≤ watch.file.latest
  due_newer : ∀ current, watch.file.version = some current →
    watch.patchFile.isStale current.time = true →
    ∀ version ∈ watch.attempted, version.time < current.time

theorem advances_start (file : EditedFile) : (start file).Advances :=
  ⟨List.Pairwise.nil, by rintro _ ⟨⟩, by rintro _ _ _ _ ⟨⟩⟩

theorem Advances.editAll (advances : watch.Advances) (edits : List Edit) :
    (watch.editAll edits).Advances where
  ascending := advances.ascending
  time_le version member :=
    Int.le_trans (advances.time_le version member) (watch.file.latest_le_editAll edits)
  due_newer current present stale version member := by
    rcases EditedFile.of_editAll present with unchanged | newer
    · exact advances.due_newer current unchanged stale version member
    · have versionLe := advances.time_le version member
      omega

/-- What an attempt finds that is due is newer than all that was attempted before. -/
theorem Advances.newer (advances : watch.Advances) (due : watch.IsDue) (before : List Edit)
    {current : Version} (present : (watch.editAll before).file.version = some current) :
    ∀ version ∈ watch.attempted, version.time < current.time := by
  rcases EditedFile.of_editAll present with unchanged | newer
  · obtain ⟨version, found, newer⟩ := due
    cases unchanged.symm.trans found
    exact advances.due_newer current unchanged (isStale_iff.mpr newer)
  · intro version member
    have versionLe := advances.time_le version member
    omega

theorem attempted_load (watch : Watch) :
    (watch.load []).attempted = watch.attempted ++ watch.file.version.toList := by
  rw [load_eq, attempted, List.filterMap_append]
  cases present : watch.file.version with
  | none => simp [attempted, EditedFile.editAll, present]
  | some current => simp [attempted, EditedFile.editAll, present]

theorem Advances.load (advances : watch.Advances)
    (newer : ∀ {current}, watch.file.version = some current →
      ∀ version ∈ watch.attempted, version.time < current.time) :
    (watch.load []).Advances where
  ascending := by
    rw [attempted_load, List.pairwise_append]
    refine ⟨advances.ascending, ?_, ?_⟩
    · cases watch.file.version with
      | none => exact List.Pairwise.nil
      | some current => exact List.pairwise_singleton _ _
    · intro version member current present
      exact newer (Option.mem_toList.mp present) version member
  time_le version member := by
    rw [attempted_load] at member
    rcases List.mem_append.mp member with earlier | read
    · exact advances.time_le version earlier
    · exact watch.file.time_le version (Option.mem_toList.mp read)
  -- The time of what was read is the record, so that the same version is not due again.
  due_newer current present stale := by
    have recorded : (watch.load []).patchFile.lastModified = some current.time :=
      congrArg (Option.map Version.time) present
    have later := isStale_iff.mp stale current.time recorded
    omega

theorem Advances.act (advances : watch.Advances) {happening : Happening}
    (calm : happening.IsCalm) : (watch.act happening).Advances := by
  cases happening with
  | edit edit => exact advances.editAll [edit]
  | load within => exact calm.elim
  | poll before within =>
      cases (calm : within = [])
      by_cases due : watch.IsDue
      · rw [Watch.act, (poll_of_due due before []).2]
        exact (advances.editAll before).load (advances.newer due before)
      · rw [Watch.act, (poll_of_not_due due before []).2]
        exact advances.editAll _

theorem Advances.actAll (advances : watch.Advances) {happenings : List Happening}
    (calm : ∀ happening ∈ happenings, happening.IsCalm) :
    (watch.actAll happenings).Advances := by
  induction happenings generalizing watch with
  | nil => exact advances
  | cons happening others ih =>
      obtain ⟨first, rest⟩ := List.forall_mem_cons.mp calm
      exact ih (advances.act first) rest

/--
However a file is edited, also between the looks of polls and loads: where a poll reports
nothing about a file that is there, the last attempt has compiled what stands in it; a poll
attempts exactly if the file is there and newer than the last attempt has recorded; and where
only polls attempt and no edit lands within an attempt, no version is attempted twice.
-/
theorem last_edit_seen (file : EditedFile) (happenings : List Happening) :
    (∀ before within version,
      ((start file).actAll happenings).file.version = some version →
      (((start file).actAll happenings).poll before within).1 = none →
      ∃ attempt, ((start file).actAll happenings).attempts.getLast? = some attempt ∧
        attempt.Compiles version) ∧
    (∀ before within,
      (((start file).actAll happenings).poll before within).1.isSome = true ↔
        ∃ version, ((start file).actAll happenings).file.version = some version ∧
          ∀ last, ((start file).actAll happenings).attempts.getLast?.bind Attempt.modified =
            some last → last < version.time) ∧
    ((∀ happening ∈ happenings, happening.IsCalm) →
      ((start file).actAll happenings).attempted.Pairwise
        (fun first second => first.time < second.time)) := by
  have upToDate := (upToDate_start file).actAll happenings
  refine ⟨?_, ?_, ?_⟩
  · intro before within version present unreported
    refine upToDate.exists_last (fun due => ?_) present
    have reported := (poll_of_due due before within).1
    rw [unreported] at reported
    cases reported
  · intro before within
    exact (poll_isSome_iff _ before within).trans upToDate.isDue_iff
  · intro calm
    exact ((advances_start file).actAll calm).ascending

/-- A save between the two looks of a load is attempted by the next poll. -/
theorem last_edit_seen_racingSave :
    ∃ attempt patch,
      ((start ⟨some ⟨5, "out = 1".toUTF8⟩, 5, by rintro _ ⟨⟩; decide⟩).actAll
          [.load [.write 0 "out = 2".toUTF8], .poll [] []]).attempts.getLast? = some attempt ∧
        attempt.version = some ⟨6, "out = 2".toUTF8⟩ ∧
        compile "out = 2" = .ok patch ∧ attempt.result = .ok patch := by
  have decoded : String.fromUTF8? "out = 2".toUTF8 = some "out = 2" := by decide +kernel
  have compiled : compile "out = 2" = .ok ⟨⟨[.load 2, .write 0], 0⟩, .ofNames ["out"]⟩ := by
    decide +kernel
  obtain ⟨attempt, last, compiles⟩ :=
    (last_edit_seen ⟨some ⟨5, "out = 1".toUTF8⟩, 5, by rintro _ ⟨⟩; decide⟩
      [.load [.write 0 "out = 2".toUTF8], .poll [] []]).1 [] []
      ⟨6, "out = 2".toUTF8⟩ rfl rfl
  exact ⟨attempt, _, last, compiles.version_eq, compiled,
    compiles.compiled _ _ decoded compiled⟩

end Watch

end PatchFile

end SignalPatch
