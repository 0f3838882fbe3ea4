import Cmpath.Engine.Export
import Cmpath.Engine.Task
import Mathlib.Algebra.Order.BigOperators.Group.List
import Mathlib.Algebra.Order.Group.Nat

/-!
# Publishing an archive

`ExportFile` of `native/engine/maintenance.go` writes the archive to a temporary file beside the
destination and publishes it: by a hard link, by the rename of Windows, or by a reservation of the
destination and a rename over it. Each call on the file system may fail; a write may also be short.
-/

namespace Cmpath
open Lib

/-- Why a call on the file system failed. -/
inductive OsError where
  | exist
  | notExist
  | shortWrite
  | fault (code : Nat)
  deriving DecidableEq, Repr

/-- The files under their paths. -/
abbrev Files : Type := Text → Option Text

/-- What the calls of one export come to, where it is not for the files to decide: a code is a
    failure without effect. A write says how much it wrote. -/
structure Disk where
  windows : Bool
  createTemp : Except OsError Text
  encode : Nat → Option Nat
  sync : Option Nat
  close : Option Nat
  link : Option Nat
  lstat : Option Nat
  openReservation : Option Nat
  writeMarker : Nat
  markerError : Option Nat
  syncMarker : Option Nat
  closeMarker : Option Nat
  rename : Option Nat

/-- `exportReservationPrefix` (`maintenance.go:43`). -/
def exportReservationPrefix : Text := Text.lit "cmpath-export-reservation-v1\n"

/-- `filepath.Base` of a path that does not end in a slash. -/
def baseName (path : Text) : Text :=
  (path.reverse.takeWhile fun r => r != .char '/').reverse

/-- The contents of a reservation. -/
def reservationMarker (temporary : Text) : Text :=
  exportReservationPrefix ++ baseName temporary ++ Text.lit "\n"

section Publish

variable (disk : Disk)

/-- `os.Link`. -/
def exportLink (temporary destination : Text) (files : Files) : Except OsError Files :=
  match disk.link with
  | some code => .error (.fault code)
  | none =>
      if (files destination).isSome then .error .exist
      else .ok (Function.update files destination (files temporary))

/-- `exportDestinationExists` (`maintenance.go:125-134`). -/
def exportDestinationExists (path : Text) (files : Files) : Except OsError Bool :=
  match disk.lstat with
  | some code => .error (.fault code)
  | none => .ok (files path).isSome

/-- `os.Rename`. -/
def exportRename (temporary destination : Text) (files : Files) : Except OsError Files :=
  match disk.rename with
  | some code => .error (.fault code)
  | none =>
      .ok (Function.update (Function.update files destination (files temporary)) temporary none)

/-- `removeExportReservation` (`maintenance.go:142-148`). -/
def removeExportReservation (path marker : Text) (files : Files) : Files :=
  if files path = some marker then Function.update files path none else files

/-- The statements of `reserveExportDestination` behind the `defer`, on the file it opened. -/
def writeReservation (marker : Text) : Except OsError Text :=
  match disk.markerError with
  | some code => .error (.fault code)
  | none =>
      if marker.length ≤ disk.writeMarker then
        match disk.syncMarker, disk.closeMarker with
        | some code, _ => .error (.fault code)
        | none, some code => .error (.fault code)
        | none, none => .ok marker
      else .error .shortWrite

/-- `reserveExportDestination` (`maintenance.go:167-202`): what was written is in the file whatever
    comes after it. -/
def reserveExportDestination (path temporary : Text) (files : Files) : Except OsError Text × Files :=
  let marker := reservationMarker temporary
  match disk.openReservation with
  | some code => (.error (.fault code), files)
  | none =>
      if (files path).isSome then (.error .exist, files)
      else
        let files := Function.update files path (some (marker.take disk.writeMarker))
        match writeReservation disk marker with
        | .ok marker => (.ok marker, files)
        | .error e => (.error e, removeExportReservation path marker files)

/-- `publishExport` from the reservation on (`maintenance.go:237-246`). -/
def publishReserved (temporary destination : Text) (files : Files) : Except OsError Text × Files :=
  match reserveExportDestination disk destination temporary files with
  | (.error e, files) => (.error e, files)
  | (.ok marker, files) =>
      match exportRename disk temporary destination files with
      | .error e => (.error e, removeExportReservation destination marker files)
      | .ok files => (.ok (Text.lit "rename_fallback"), files)

/-- `publishExport` (`maintenance.go:207-247`); it returns the method. -/
def publishExport (temporary destination : Text) (files : Files) : Except OsError Text × Files :=
  match exportLink disk temporary destination files with
  | .ok files => (.ok (Text.lit "hard_link"), files)
  | .error linkErr =>
      match exportDestinationExists disk destination files with
      | .error _ => (.error linkErr, files)
      | .ok true => (.error linkErr, files)
      | .ok false =>
          if disk.windows then
            match exportRename disk temporary destination files with
            | .error e => (.error e, files)
            | .ok files => (.ok (Text.lit "rename_fallback"), files)
          else publishReserved disk temporary destination files

end Publish

/-- Why an export failed. -/
inductive ExportFailure where
  | refused (e : Failure)
  | os (e : OsError)

/-- `enc.Encode` into the temporary file: its contents, and the lines written. -/
def encodeLine (disk : Disk) (render : ExportLine → Text) (w : Text × Nat) (line : ExportLine) :
    Except ExportFailure (Text × Nat) :=
  match disk.encode w.2 with
  | some code => .error (.os (.fault code))
  | none => .ok (w.1 ++ render line, w.2 + 1)

/-- More than any table has rows. -/
def Snapshot.bound (snap : Snapshot) : Nat :=
  (exportTables.map fun table => (snap.table table).rows.length).sum + 1

/-- `ExportFile` from the open temporary file on (`maintenance.go:266-280`). -/
def fillAndPublish (disk : Disk) (render : ExportLine → Text) (snap : Snapshot)
    (temporary path : Text) (files : Files) : Except ExportFailure ExportReport × Files :=
  match exportArchive (encodeLine disk render) snap snap.bound ([], 0) with
  | none => (.error (.os .shortWrite), files)
  | some (.error e) => (.error e, files)
  | some (.ok (w, out)) =>
      let files := Function.update files temporary (some w.1)
      match disk.sync, disk.close with
      | some code, _ => (.error (.os (.fault code)), files)
      | none, some code => (.error (.os (.fault code)), files)
      | none, none =>
          match publishExport disk temporary path files with
          | (.error e, files) => (.error (.os e), files)
          | (.ok _, files) => (.ok out, files)

/-- `ExportFile` (`maintenance.go:258-282`); the deferred removal of the temporary file is last. -/
def exportFile (disk : Disk) (render : ExportLine → Text) (snap : Snapshot) (path : Text)
    (files : Files) : Except ExportFailure ExportReport × Files :=
  if textOK path = false then
    (.error (.refused (.problem .invalid "export path is required")), files)
  else
    match disk.createTemp with
    | .error e => (.error (.os e), files)
    | .ok temporary =>
        if (files temporary).isSome then (.error (.os .exist), files)
        else
          let done := fillAndPublish disk render snap temporary path
            (Function.update files temporary (some []))
          (done.1, Function.update done.2 temporary none)

/-! ## What publishing does to the destination -/

/-- The destination has the archive and was absent, or it is as it was. -/
def Settled {ε α : Type} (archive : Text) (before : Option Text) (destination : Text) :
    Except ε α × Files → Prop
  | (.ok _, after) => before = none ∧ after destination = some archive
  | (.error _, after) => after destination = before

section Settled

variable {disk : Disk} {temporary destination archive : Text} {files : Files}

theorem reservationMarker_ne_nil (temporary : Text) : reservationMarker temporary ≠ [] := by
  unfold reservationMarker
  exact List.append_ne_nil_of_right_ne_nil _ (by decide)

theorem removeExportReservation_marker {marker : Text} :
    removeExportReservation destination marker (Function.update files destination (some marker)) =
      Function.update files destination none := by
  unfold removeExportReservation
  rw [if_pos (Function.update_self ..), Function.update_idem]

/-- A reservation that is cut short is not recognized, and stays. -/
theorem removeExportReservation_short {marker : Text} {n : Nat} (short : n < marker.length) :
    removeExportReservation destination marker
        (Function.update files destination (some (marker.take n))) =
      Function.update files destination (some (marker.take n)) := by
  have cut : marker.take n ≠ marker := by
    intro same
    have length := congrArg List.length same
    rw [List.length_take] at length
    omega
  unfold removeExportReservation
  rw [Function.update_self, if_neg fun same => cut (Option.some.inj same)]

theorem writeReservation_ok {marker done : Text} (h : writeReservation disk marker = .ok done) :
    done = marker ∧ marker.length ≤ disk.writeMarker := by
  unfold writeReservation at h
  split at h
  · cases h
  · split at h
    · rename_i whole
      split at h
      · cases h
      · cases h
      · exact ⟨(Except.ok.inj h).symm, whole⟩
    · cases h

/-- With a whole marker, publishing over a reservation settles the destination. -/
theorem publishReserved_settled (absent : files destination = none)
    (apart : temporary ≠ destination) (held : files temporary = some archive)
    (whole : disk.openReservation = none →
      (reservationMarker temporary).length ≤ disk.writeMarker) :
    Settled archive (files destination) destination
      (publishReserved disk temporary destination files) := by
  unfold publishReserved reserveExportDestination
  cases opened : disk.openReservation with
  | some code => exact rfl
  | none =>
    dsimp only
    rw [absent, List.take_of_length_le (whole opened)]
    simp only [Option.isSome_none, Bool.false_eq_true, if_false]
    cases written : writeReservation disk (reservationMarker temporary) with
    | error e =>
      dsimp only
      rw [removeExportReservation_marker]
      exact Function.update_self ..
    | ok marker =>
      obtain rfl := (writeReservation_ok written).1
      dsimp only
      unfold exportRename
      cases disk.rename with
      | some code =>
        dsimp only
        rw [removeExportReservation_marker]
        exact Function.update_self ..
      | none =>
        refine ⟨rfl, ?_⟩
        rw [Function.update_of_ne apart.symm, Function.update_self, Function.update_of_ne apart, held]

/-- A marker that is cut short is left at the destination. -/
theorem publishReserved_short (absent : files destination = none)
    (opened : disk.openReservation = none)
    (short : disk.writeMarker < (reservationMarker temporary).length) :
    ∃ e after, publishReserved disk temporary destination files = (.error e, after) ∧
      (after destination).isSome := by
  unfold publishReserved reserveExportDestination
  rw [opened]
  dsimp only
  rw [absent]
  simp only [Option.isSome_none, Bool.false_eq_true, if_false]
  cases written : writeReservation disk (reservationMarker temporary) with
  | error e =>
    refine ⟨e, _, rfl, ?_⟩
    rw [removeExportReservation_short short, Function.update_self]
    rfl
  | ok marker =>
    have whole := (writeReservation_ok written).2
    omega

/-- The marker is written, and not as a whole. -/
def Disk.CutsMarker (disk : Disk) (temporary : Text) (before : Option Text) : Prop :=
  disk.link.isSome ∧ disk.lstat = none ∧ before = none ∧ disk.windows = false ∧
    disk.openReservation = none ∧ disk.writeMarker < (reservationMarker temporary).length

theorem publishExport_settled_iff (held : files temporary = some archive) :
    Settled archive (files destination) destination
        (publishExport disk temporary destination files) ↔
      ¬ disk.CutsMarker temporary (files destination) := by
  have apart : files destination = none → temporary ≠ destination := by
    rintro absent rfl
    rw [held] at absent
    cases absent
  unfold publishExport exportLink Disk.CutsMarker
  cases link : disk.link with
  | none =>
    dsimp only
    cases there : files destination with
    | none =>
      refine iff_of_true ⟨rfl, ?_⟩ (by simp)
      rw [Function.update_self, held]
    | some old =>
      refine iff_of_true ?_ (by simp)
      unfold exportDestinationExists
      cases disk.lstat with
      | some code => exact there
      | none =>
        simp only [there, Option.isSome_some, if_true]
        exact there
  | some code =>
    dsimp only
    unfold exportDestinationExists
    cases lstat : disk.lstat with
    | some code => exact iff_of_true rfl (by simp)
    | none =>
      dsimp only
      cases there : files destination with
      | some old => exact iff_of_true there (by simp)
      | none =>
        simp only [Option.isSome_none]
        cases windows : disk.windows with
        | true =>
          refine iff_of_true ?_ (by simp)
          simp only [if_true, exportRename]
          cases disk.rename with
          | some code => exact there
          | none =>
            refine ⟨rfl, ?_⟩
            rw [Function.update_of_ne (apart there).symm, Function.update_self, held]
        | false =>
          simp only [Bool.false_eq_true, if_false, Option.isSome_some, true_and]
          constructor
          · rintro settled ⟨opened, short⟩
            obtain ⟨e, after, run, left⟩ := publishReserved_short there opened short
            rw [run] at settled
            rw [show after destination = none from settled] at left
            cases left
          · intro whole
            have settled : Settled archive (files destination) destination
                (publishReserved disk temporary destination files) :=
              publishReserved_settled there (apart there) held
                fun opened => not_lt.mp fun short => whole ⟨opened, short⟩
            rwa [there] at settled

end Settled

/-! ## The whole export -/

section Fill

variable (disk : Disk) (render : ExportLine → Text) (snap : Snapshot)

/-- The text of a complete archive. -/
def Snapshot.text : Text :=
  snap.archive.flatMap render

/-- Every line of the archive is written. -/
def Disk.Encodes : Prop :=
  ∀ i < snap.archive.length, disk.encode i = none

theorem foldlM_encodeLine (lines : List ExportLine) (w : Text × Nat) :
    (∃ e, lines.foldlM (encodeLine disk render) w = .error e ∧
      ¬ ∀ i < lines.length, disk.encode (w.2 + i) = none) ∨
    (lines.foldlM (encodeLine disk render) w = .ok (w.1 ++ lines.flatMap render, w.2 + lines.length) ∧
      ∀ i < lines.length, disk.encode (w.2 + i) = none) := by
  induction lines generalizing w with
  | nil =>
    refine .inr ⟨?_, fun i low => absurd low (Nat.not_lt_zero i)⟩
    rw [List.foldlM_nil, List.flatMap_nil, List.append_nil]
    rfl
  | cons line lines ih =>
    rw [List.foldlM_cons]
    cases here : disk.encode w.2 with
    | some code =>
      refine .inl ⟨.os (.fault code), ?_, fun all => ?_⟩
      · simp only [encodeLine, here]
        rfl
      · have first := all 0 (Nat.zero_lt_succ _)
        rw [Nat.add_zero, here] at first
        cases first
    | none =>
      have step : encodeLine disk render w line = .ok (w.1 ++ render line, w.2 + 1) := by
        simp only [encodeLine, here]
      have shift (i : Nat) : w.2 + 1 + i = w.2 + (i + 1) := by omega
      rw [step]
      rcases ih (w.1 ++ render line, w.2 + 1) with ⟨e, failed, some_⟩ | ⟨done, all⟩
      · refine .inl ⟨e, failed, fun every => some_ fun i low => ?_⟩
        rw [shift]
        exact every (i + 1) (Nat.succ_lt_succ low)
      · refine .inr ⟨?_, fun i low => ?_⟩
        · show lines.foldlM (encodeLine disk render) _ = _
          rw [done, List.flatMap_cons, List.append_assoc, shift, List.length_cons]
        · cases i with
          | zero => exact here
          | succ i =>
            rw [← shift]
            exact all i (Nat.lt_of_succ_lt_succ low)

theorem Snapshot.lt_bound {table : Text} (member : table ∈ exportTables) :
    (snap.table table).rows.length < snap.bound := by
  have below : (snap.table table).rows.length ≤
      (exportTables.map fun table => (snap.table table).rows.length).sum :=
    List.le_sum_of_mem
      (List.mem_map_of_mem (f := fun table => (snap.table table).rows.length) member)
  exact Nat.lt_succ_of_le below

/-- The temporary file gets the complete archive, or a line fails. -/
theorem exportArchive_encodeLine :
    (∃ e, exportArchive (encodeLine disk render) snap snap.bound ([], 0) = some (.error e) ∧
      ¬ disk.Encodes snap) ∨
    (∃ n out, exportArchive (encodeLine disk render) snap snap.bound ([], 0) =
      some (.ok ((snap.text render, n), out)) ∧ disk.Encodes snap) := by
  have all : exportArchive (encodeLine disk render) snap snap.bound ([], 0) = _ :=
    exportArchive_all _ (fun _ member => Snapshot.lt_bound snap member) ([], 0)
  rcases foldlM_encodeLine disk render snap.archive ([], 0) with
    ⟨e, failed, some_⟩ | ⟨done, every⟩
  · rw [failed] at all
    refine .inl ⟨e, all, fun encodes => some_ fun i low => ?_⟩
    rw [Nat.zero_add]
    exact encodes i low
  · rw [done, List.nil_append] at all
    refine .inr ⟨_, _, all, fun i low => ?_⟩
    have here := every i low
    rwa [Nat.zero_add] at here

/-- The export reaches the reservation, and the marker is not written as a whole. -/
def Disk.LeavesMarker (path : Text) (files : Files) : Prop :=
  textOK path = true ∧ ∃ temporary, disk.createTemp = .ok temporary ∧ files temporary = none ∧
    temporary ≠ path ∧ disk.Encodes snap ∧ disk.sync = none ∧ disk.close = none ∧
      disk.CutsMarker temporary (files path)

/-- What `fillAndPublish` returns where publishing fails or not. -/
theorem settled_published {archive path : Text} {before : Option Text} {out : ExportReport}
    (published : Except OsError Text × Files) :
    Settled archive before path
        (match published with
        | (.error e, files) => ((.error (.os e) : Except ExportFailure ExportReport), files)
        | (.ok _, files) => (.ok out, files)) ↔
      Settled archive before path published := by
  rcases published with ⟨answer, after⟩
  cases answer <;> exact Iff.rfl

/-- From the open temporary file on, the destination is settled unless the marker is cut. -/
theorem fillAndPublish_settled_iff {temporary path : Text} (apart : temporary ≠ path)
    (files : Files) :
    Settled (snap.text render) (files path) path
        (fillAndPublish disk render snap temporary path files) ↔
      ¬ (disk.Encodes snap ∧ disk.sync = none ∧ disk.close = none ∧
        disk.CutsMarker temporary (files path)) := by
  have before (contents : Option Text) :
      Function.update files temporary contents path = files path :=
    Function.update_of_ne apart.symm _ _
  unfold fillAndPublish
  rcases exportArchive_encodeLine disk render snap with
    ⟨e, run, partly⟩ | ⟨n, out, run, encodes⟩
  · rw [run]
    exact iff_of_true rfl fun cut => partly cut.1
  · rw [run]
    dsimp only
    cases sync : disk.sync with
    | some code => exact iff_of_true (before _) (by simp)
    | none =>
      cases close : disk.close with
      | some code => exact iff_of_true (before _) (by simp)
      | none =>
        dsimp only
        have published : Settled (snap.text render)
              (Function.update files temporary (some (snap.text render)) path) path
              (publishExport disk temporary path
                (Function.update files temporary (some (snap.text render)))) ↔ _ :=
          publishExport_settled_iff (Function.update_self ..)
        rw [before] at published
        rw [settled_published, published]
        simp [encodes]

/-- A temporary file at the destination itself is not published. -/
theorem fillAndPublish_self (path : Text) (files : Files) :
    ∃ e after, fillAndPublish disk render snap path path files = (.error e, after) := by
  unfold fillAndPublish
  rcases exportArchive_encodeLine disk render snap with
    ⟨e, run, _⟩ | ⟨n, out, run, _⟩
  · rw [run]
    exact ⟨e, _, rfl⟩
  · rw [run]
    dsimp only
    cases disk.sync with
    | some code => exact ⟨_, _, rfl⟩
    | none =>
      cases disk.close with
      | some code => exact ⟨_, _, rfl⟩
      | none =>
        dsimp only
        have held : Function.update files path (some (snap.text render)) path =
            some (snap.text render) := Function.update_self ..
        have published : Settled (snap.text render)
              (Function.update files path (some (snap.text render)) path) path
              (publishExport disk path path
                (Function.update files path (some (snap.text render)))) :=
          (publishExport_settled_iff held).mpr fun cut => by rw [held] at cut; cases cut.2.2.1
        rw [held] at published
        generalize publishExport disk path path
          (Function.update files path (some (snap.text render))) = done at published ⊢
        rcases done with ⟨answer, after⟩
        cases answer with
        | error e => exact ⟨_, _, rfl⟩
        | ok m => cases published.1

/-- `ExportFile` succeeds only with the complete archive at a path that was free, and leaves the path
    as it was where it fails, exactly if it does not cut a marker short. -/
theorem export_file_settled_iff (path : Text) (files : Files) :
    Settled (snap.text render) (files path) path (exportFile disk render snap path files) ↔
      ¬ disk.LeavesMarker snap path files := by
  unfold exportFile Disk.LeavesMarker
  by_cases ok : textOK path = true
  · rw [if_neg (by simp [ok])]
    cases temp : disk.createTemp with
    | error e => exact iff_of_true rfl (by simp)
    | ok temporary =>
      dsimp only
      cases there : files temporary with
      | some old =>
        refine iff_of_true rfl ?_
        rintro ⟨_, other, same, absent, _⟩
        rw [← Except.ok.inj same, there] at absent
        cases absent
      | none =>
        simp only [Option.isSome_none, Bool.false_eq_true, if_false]
        by_cases apart : temporary = path
        · subst apart
          obtain ⟨e, after, run⟩ := fillAndPublish_self disk render snap temporary
            (Function.update files temporary (some []))
          rw [run]
          refine iff_of_true ?_ ?_
          · rw [there]
            exact Function.update_self ..
          · rintro ⟨_, other, same, _, differs, _⟩
            exact differs (Except.ok.inj same).symm
        · have inner := fillAndPublish_settled_iff disk render snap apart
            (Function.update files temporary (some []))
          rw [Function.update_of_ne fun same => apart same.symm] at inner
          have removed : Settled (snap.text render) (files path) path
              ((fillAndPublish disk render snap temporary path
                (Function.update files temporary (some []))).1,
              Function.update (fillAndPublish disk render snap temporary path
                (Function.update files temporary (some []))).2 temporary none) ↔
              Settled (snap.text render) (files path) path (fillAndPublish disk render snap temporary
                path (Function.update files temporary (some []))) := by
            rcases fillAndPublish disk render snap temporary path
              (Function.update files temporary (some [])) with ⟨answer, after⟩
            have same : Function.update after temporary none path = after path :=
              Function.update_of_ne (fun same => apart same.symm) _ _
            cases answer with
            | error e => exact iff_of_eq (congrArg (· = _) same)
            | ok out => exact iff_of_eq (congrArg (_ ∧ · = _) same)
          rw [removed, inner]
          simp [ok, there, apart]
  · rw [if_pos (by simpa using ok)]
    exact iff_of_true rfl fun leaves => ok leaves.1

end Fill

/-- A disk without hard links on which the marker of a reservation is cut after two bytes. -/
def cuttingDisk : Disk where
  windows := false
  createTemp := .ok (Text.lit "d/.cmpath-export-1")
  encode _ := none
  sync := none
  close := none
  link := some 95
  lstat := none
  openReservation := none
  writeMarker := 2
  markerError := some 28
  syncMarker := none
  closeMarker := none
  rename := none

/-- A store without rows. -/
def noRows : Snapshot := ⟨[], fun _ => ⟨[], List.nodup_nil⟩⟩

/-- The export fails and leaves two bytes at a path that was free. -/
theorem export_file_leaves_marker :
    ∃ e after, exportFile cuttingDisk (fun _ => []) noRows (Text.lit "d/a") (fun _ => none) =
      (.error e, after) ∧ after (Text.lit "d/a") = some (Text.lit "cm") := by
  have left : (exportFile cuttingDisk (fun _ => []) noRows (Text.lit "d/a") fun _ => none).2
      (Text.lit "d/a") = some (Text.lit "cm") := by decide +kernel
  have failed : (exportFile cuttingDisk (fun _ => []) noRows (Text.lit "d/a") fun _ => none).1.toBool =
      false := by decide +kernel
  cases answer : (exportFile cuttingDisk (fun _ => []) noRows (Text.lit "d/a") fun _ => none).1 with
  | ok out =>
    rw [answer] at failed
    cases failed
  | error e => exact ⟨e, _, Prod.ext answer rfl, left⟩

end Cmpath
