import SubConverter.Statistics.Dirty

set_option autoImplicit false

namespace SubConverter.Statistics

structure Ledger where
  core : Core
  history : List (PersistentImage × UInt64)
  versions : List UInt64 := []

namespace Ledger

inductive Event where
  | record (now : Int) (country chinaRegion : GeoId) (ruleConversions : UInt64)
  | dashboardSnapshot (now : Int)
  | takeDirtyPatch (now : Int) (stopping : Bool)
  | checkpointImage (now : Int) (stopping : Bool)
  | acknowledgeCheckpoint (version : UInt64)

-- The images from the newest one down to the newest one of this version, if there is one.
def acknowledged (version : UInt64) : List (PersistentImage × UInt64) → List (PersistentImage × UInt64)
  | [] => []
  | entry :: rest => if entry.2 = version then [entry] else entry :: acknowledged version rest

def step (ledger : Ledger) : Event → Option Ledger
  | .record now country chinaRegion ruleConversions =>
    some { ledger with core := ledger.core.record now country chinaRegion ruleConversions }
  | .dashboardSnapshot now => some { ledger with core := (ledger.core.dashboardSnapshot now).2 }
  | .takeDirtyPatch now stopping =>
    let (patch, core) := ledger.core.takeDirtyPatch now stopping
    some { ledger with core, history := ledger.history.map fun entry => (applyPatch entry.1 patch, entry.2) }
  | .checkpointImage now stopping =>
    let (image, version) := ledger.core.checkpointImage now stopping
    some { ledger with history := (image, version) :: ledger.history, versions := version :: ledger.versions }
  | .acknowledgeCheckpoint version =>
    -- Only versions that came with an image are ever acknowledged.
    if version ∈ ledger.versions then
      some { ledger with
        core := ledger.core.acknowledgeCheckpoint version
        history := acknowledged version ledger.history }
    else none

def run (ledger : Ledger) : List Event → Option Ledger
  | [] => some ledger
  | event :: rest => (ledger.step event).bind fun next => next.run rest

def base (ledger : Ledger) : PersistentImage := (ledger.history.getLastD ({}, 0)).1

def startEmpty (now : Int) : Ledger where
  core := Core.startEmpty now
  history := [({}, 0)]

def startFromImage (image : PersistentImage) (now : Int) : Ledger where
  core := Core.startFromImage image now
  history := [(image, 0)]

structure Sound (ledger : Ledger) : Prop where
  nonempty : ledger.history ≠ []
  clean : ∀ entry ∈ ledger.history, ledger.core.Agrees entry.1
  latest : ∀ entry ∈ ledger.history, entry.2 = ledger.core.dirtyVersion → ledger.core.AgreesAll entry.1
  ordered : ledger.history.Pairwise fun newer older => older.2.toNat ≤ newer.2.toNat
  bounded : ∀ entry ∈ ledger.history, entry.2.toNat ≤ ledger.core.dirtyVersion.toNat
  known : ∀ version ∈ ledger.versions, version.toNat ≤ ledger.core.dirtyVersion.toNat ∧
    (version = ledger.core.dirtyVersion → ∃ entry ∈ ledger.history, entry.2 = version)

theorem acknowledged_sublist (version : UInt64) (history : List (PersistentImage × UInt64)) :
    (acknowledged version history).Sublist history := by
  induction history with
  | nil => exact List.Sublist.refl []
  | cons entry rest ih =>
    unfold acknowledged
    split
    · exact (List.nil_sublist rest).cons_cons entry
    · exact ih.cons_cons entry

theorem acknowledged_ne_nil {version : UInt64} {history : List (PersistentImage × UInt64)}
    (nonempty : history ≠ []) : acknowledged version history ≠ [] := by
  cases history with
  | nil => exact absurd rfl nonempty
  | cons entry rest =>
    unfold acknowledged
    split <;> simp

theorem acknowledged_ge {version : UInt64} {history : List (PersistentImage × UInt64)}
    (ordered : history.Pairwise fun newer older => older.2.toNat ≤ newer.2.toNat)
    (present : ∃ entry ∈ history, entry.2 = version) :
    ∀ entry ∈ acknowledged version history, version.toNat ≤ entry.2.toNat := by
  induction history with
  | nil => simp [acknowledged]
  | cons first rest ih =>
    rw [List.pairwise_cons] at ordered
    unfold acknowledged
    split
    · rename_i same
      intro entry member
      rw [List.mem_singleton.mp member, same]
    · rename_i differs
      obtain ⟨found, member, same⟩ := present
      rcases List.mem_cons.mp member with rfl | later
      · exact absurd same differs
      · intro entry kept
        rcases List.mem_cons.mp kept with rfl | old
        · exact same ▸ ordered.1 found later
        · exact ih ordered.2 ⟨found, later, same⟩ entry old

theorem acknowledged_keeps (version : UInt64) {history : List (PersistentImage × UInt64)}
    (ordered : history.Pairwise fun newer older => older.2.toNat ≤ newer.2.toNat)
    {entry : PersistentImage × UInt64} (member : entry ∈ history) (recent : version.toNat ≤ entry.2.toNat) :
    ∃ kept ∈ acknowledged version history, kept.2 = entry.2 := by
  induction history with
  | nil => contradiction
  | cons first rest ih =>
    rw [List.pairwise_cons] at ordered
    unfold acknowledged
    split
    · rename_i same
      refine ⟨first, List.mem_singleton.mpr rfl, ?_⟩
      rcases List.mem_cons.mp member with rfl | later
      · rfl
      · exact UInt64.toNat_inj.mp (Nat.le_antisymm (same ▸ recent) (ordered.1 entry later))
    · rcases List.mem_cons.mp member with rfl | later
      · exact ⟨entry, by simp, rfl⟩
      · obtain ⟨kept, stays, same⟩ := ih ordered.2 later
        exact ⟨kept, List.mem_cons_of_mem _ stays, same⟩

theorem Sound.change {ledger : Ledger} (sound : ledger.Sound) {next : Core} (marks : ledger.core.Marks next)
    (newer : ledger.core.dirtyVersion.toNat < next.dirtyVersion.toNat) :
    ({ ledger with core := next } : Ledger).Sound where
  nonempty := sound.nonempty
  clean := fun entry member => marks.agrees (sound.clean entry member)
  latest := by
    intro entry member same
    have bound := sound.bounded entry member
    rw [same] at bound
    exact absurd bound (not_le.mpr newer)
  ordered := sound.ordered
  bounded := fun entry member => (sound.bounded entry member).trans newer.le
  known := by
    intro version member
    have bound := (sound.known version member).1
    refine ⟨bound.trans newer.le, ?_⟩
    intro same
    rw [same] at bound
    exact absurd bound (not_le.mpr newer)

theorem record_newer (core : Core) (now : Int) (country chinaRegion : GeoId) (ruleConversions : UInt64)
    (room : (core.record now country chinaRegion ruleConversions).dirtyVersion.toNat < 2 ^ 64 - 1) :
    core.dirtyVersion.toNat < (core.record now country chinaRegion ruleConversions).dirtyVersion.toNat := by
  have counted : (core.record now country chinaRegion ruleConversions).dirtyVersion =
      saturatedAddValue (core.advanceTo now).dirtyVersion 1 := rfl
  have one : (1 : UInt64).toNat = 1 := rfl
  rw [counted, saturatedAddValue_toNat, one] at room ⊢
  rcases Core.advanceTo_version core now with ⟨-, moved⟩ | ⟨-, still⟩
  · rw [moved, saturatedAddValue_toNat, one] at room ⊢
    omega
  · rw [still] at room ⊢
    omega

theorem dashboardSnapshot_sound {ledger : Ledger} (sound : ledger.Sound) (now : Int)
    (room : (ledger.core.advanceTo now).dirtyVersion.toNat < 2 ^ 64 - 1) :
    ({ ledger with core := ledger.core.advanceTo now } : Ledger).Sound := by
  have one : (1 : UInt64).toNat = 1 := rfl
  have marks := Core.advanceTo_marks ledger.core now
  rcases Core.advanceTo_version ledger.core now with ⟨-, moved⟩ | ⟨still, version⟩
  · refine sound.change marks ?_
    rw [moved, saturatedAddValue_toNat, one] at room ⊢
    omega
  · obtain ⟨minutes, days, lifetimeGeo⟩ := Core.advanceTo_still ledger.core now still
    refine ⟨sound.nonempty, fun entry member => marks.agrees (sound.clean entry member), ?_, sound.ordered, ?_, ?_⟩
    · intro entry member same
      have all := sound.latest entry member (same.trans version)
      refine ⟨all.lifetimeGeo.trans lifetimeGeo.symm, ?_, ?_⟩
      · rw [minutes]
        exact all.minutes
      · rw [days]
        exact all.days
    · simp only [version]
      exact sound.bounded
    · simp only [version]
      exact sound.known

theorem takeDirtyPatch_sound {ledger : Ledger} (sound : ledger.Sound) (now : Int) (stopping : Bool) :
    ({ ledger with
      core := (ledger.core.takeDirtyPatch now stopping).2
      history := ledger.history.map fun entry =>
        (applyPatch entry.1 (ledger.core.takeDirtyPatch now stopping).1, entry.2) } : Ledger).Sound := by
  have all (entry : PersistentImage × UInt64) (member : entry ∈ ledger.history) :=
    Core.takeDirtyPatch_agreesAll ledger.core entry.1 now stopping (sound.clean entry member)
  refine ⟨by simpa using sound.nonempty, ?_, ?_, ?_, ?_, ?_⟩
  · intro entry member
    obtain ⟨source, listed, rfl⟩ := List.mem_map.mp member
    exact (all source listed).agrees
  · intro entry member _
    obtain ⟨source, listed, rfl⟩ := List.mem_map.mp member
    exact all source listed
  · exact List.pairwise_map.mpr sound.ordered
  · intro entry member
    obtain ⟨source, listed, rfl⟩ := List.mem_map.mp member
    exact sound.bounded source listed
  · intro version member
    refine ⟨(sound.known version member).1, ?_⟩
    intro same
    obtain ⟨source, listed, equal⟩ := (sound.known version member).2 same
    exact ⟨_, List.mem_map_of_mem listed, equal⟩

theorem persistentImage_agreesAll (core : Core) (now : Int) (stopping : Bool) :
    core.AgreesAll (core.persistentImage now stopping) where
  lifetimeGeo := rfl
  minutes := by
    intro i
    rw [Core.persistentImage, BucketRing.image_eq_record, BucketRing.image_eq_record]
    exact BucketRecord.Same.refl _
  days := by
    intro i
    rw [Core.persistentImage, BucketRing.image_eq_record, BucketRing.image_eq_record]
    exact BucketRecord.Same.refl _

theorem checkpointImage_sound {ledger : Ledger} (sound : ledger.Sound) (now : Int) (stopping : Bool) :
    ({ ledger with
      history := (ledger.core.persistentImage now stopping, ledger.core.dirtyVersion) :: ledger.history
      versions := ledger.core.dirtyVersion :: ledger.versions } : Ledger).Sound := by
  have all := persistentImage_agreesAll ledger.core now stopping
  refine ⟨by simp, ?_, ?_, ?_, ?_, ?_⟩
  · intro entry member
    rcases List.mem_cons.mp member with rfl | old
    · exact all.agrees
    · exact sound.clean entry old
  · intro entry member same
    rcases List.mem_cons.mp member with rfl | old
    · exact all
    · exact sound.latest entry old same
  · exact List.pairwise_cons.mpr ⟨sound.bounded, sound.ordered⟩
  · intro entry member
    rcases List.mem_cons.mp member with rfl | old
    · exact le_rfl
    · exact sound.bounded entry old
  · intro version member
    rcases List.mem_cons.mp member with rfl | old
    · exact ⟨le_rfl, fun _ => ⟨_, List.mem_cons_self, rfl⟩⟩
    · refine ⟨(sound.known version old).1, ?_⟩
      intro same
      obtain ⟨entry, listed, equal⟩ := (sound.known version old).2 same
      exact ⟨entry, List.mem_cons_of_mem _ listed, equal⟩

theorem cleared_agrees {core : Core} {image : PersistentImage} (version : UInt64)
    (all : core.AgreesAll image) : (core.acknowledgeCheckpoint version).AgreesAll image := by
  unfold Core.acknowledgeCheckpoint
  split
  · exact all
  · exact ⟨all.lifetimeGeo, all.minutes, all.days⟩

theorem acknowledge_version (core : Core) (version : UInt64) :
    (core.acknowledgeCheckpoint version).dirtyVersion = core.dirtyVersion := by
  unfold Core.acknowledgeCheckpoint
  split <;> rfl

theorem acknowledgeCheckpoint_sound {ledger : Ledger} (sound : ledger.Sound) (version : UInt64)
    (known : version ∈ ledger.versions) :
    ({ ledger with
      core := ledger.core.acknowledgeCheckpoint version
      history := acknowledged version ledger.history } : Ledger).Sound := by
  have sub := acknowledged_sublist version ledger.history
  have bound := (sound.known version known).1
  -- A version that is not the current one changes nothing; the current one is that of every image kept.
  have kept : ∀ entry ∈ acknowledged version ledger.history,
      (ledger.core.acknowledgeCheckpoint version).Agrees entry.1 := by
    intro entry member
    by_cases current : version = ledger.core.dirtyVersion
    · have recent := acknowledged_ge sound.ordered ((sound.known version known).2 current) entry member
      have past := sound.bounded entry (sub.subset member)
      rw [current] at recent
      have same : entry.2 = ledger.core.dirtyVersion := UInt64.toNat_inj.mp (Nat.le_antisymm past recent)
      exact (cleared_agrees version (sound.latest entry (sub.subset member) same)).agrees
    · have unchanged : ledger.core.acknowledgeCheckpoint version = ledger.core := if_pos current
      rw [unchanged]
      exact sound.clean entry (sub.subset member)
  refine ⟨acknowledged_ne_nil sound.nonempty, kept, ?_, sound.ordered.sublist sub, ?_, ?_⟩
  · intro entry member same
    rw [acknowledge_version] at same
    exact cleared_agrees version (sound.latest entry (sub.subset member) same)
  · intro entry member
    simp only [acknowledge_version]
    exact sound.bounded entry (sub.subset member)
  · intro other member
    simp only [acknowledge_version]
    refine ⟨(sound.known other member).1, ?_⟩
    intro same
    obtain ⟨entry, listed, equal⟩ := (sound.known other member).2 same
    obtain ⟨stays, inside, kept⟩ := acknowledged_keeps version sound.ordered listed
      (by rw [equal, same]; exact bound)
    exact ⟨stays, inside, kept.trans equal⟩

theorem step_version {ledger next : Ledger} {event : Event} (stepped : ledger.step event = some next) :
    ledger.core.dirtyVersion.toNat ≤ next.core.dirtyVersion.toNat := by
  have moved (now : Int) : ledger.core.dirtyVersion.toNat ≤ (ledger.core.advanceTo now).dirtyVersion.toNat := by
    have bound := ledger.core.dirtyVersion.toNat_lt
    rcases Core.advanceTo_version ledger.core now with ⟨-, moved⟩ | ⟨-, still⟩
    · rw [moved, saturatedAddValue_toNat]
      omega
    · rw [still]
  cases event with
  | record now country chinaRegion ruleConversions =>
    cases stepped
    have before := moved now
    have counted : (ledger.core.record now country chinaRegion ruleConversions).dirtyVersion =
        saturatedAddValue (ledger.core.advanceTo now).dirtyVersion 1 := rfl
    have bound := (ledger.core.advanceTo now).dirtyVersion.toNat_lt
    simp only [counted, saturatedAddValue_toNat]
    omega
  | dashboardSnapshot now =>
    cases stepped
    exact moved now
  | takeDirtyPatch now stopping =>
    cases stepped
    exact le_rfl
  | checkpointImage now stopping =>
    cases stepped
    exact le_rfl
  | acknowledgeCheckpoint version =>
    simp only [step] at stepped
    split at stepped
    · cases stepped
      rw [acknowledge_version]
    · contradiction

theorem run_version {ledger final : Ledger} {events : List Event} (ran : ledger.run events = some final) :
    ledger.core.dirtyVersion.toNat ≤ final.core.dirtyVersion.toNat := by
  induction events generalizing ledger with
  | nil =>
    cases ran
    exact le_rfl
  | cons event rest ih =>
    obtain ⟨next, stepped, later⟩ := Option.bind_eq_some_iff.mp ran
    exact (step_version stepped).trans (ih later)

theorem step_sound {ledger next : Ledger} {event : Event} (stepped : ledger.step event = some next)
    (room : next.core.dirtyVersion.toNat < 2 ^ 64 - 1) (sound : ledger.Sound) : next.Sound := by
  cases event with
  | record now country chinaRegion ruleConversions =>
    cases stepped
    exact sound.change (Core.record_marks ledger.core now country chinaRegion ruleConversions)
      (record_newer ledger.core now country chinaRegion ruleConversions room)
  | dashboardSnapshot now =>
    cases stepped
    exact dashboardSnapshot_sound sound now room
  | takeDirtyPatch now stopping =>
    cases stepped
    exact takeDirtyPatch_sound sound now stopping
  | checkpointImage now stopping =>
    cases stepped
    exact checkpointImage_sound sound now stopping
  | acknowledgeCheckpoint version =>
    simp only [step] at stepped
    split at stepped
    · rename_i known
      cases stepped
      exact acknowledgeCheckpoint_sound sound version known
    · contradiction

theorem run_sound {ledger final : Ledger} {events : List Event} (ran : ledger.run events = some final)
    (room : final.core.dirtyVersion.toNat < 2 ^ 64 - 1) (sound : ledger.Sound) : final.Sound := by
  induction events generalizing ledger with
  | nil =>
    cases ran
    exact sound
  | cons event rest ih =>
    obtain ⟨next, stepped, later⟩ := Option.bind_eq_some_iff.mp ran
    exact ih later (step_sound stepped (lt_of_le_of_lt (run_version later) room) sound)

theorem start_sound {core : Core} {image : PersistentImage} (agrees : core.Agrees image)
    (versioned : 1 ≤ core.dirtyVersion.toNat) :
    ({ core, history := [(image, 0)] } : Ledger).Sound where
  nonempty := by simp
  clean := by
    intro entry member
    rw [List.mem_singleton.mp member]
    exact agrees
  latest := by
    intro entry member same
    rw [List.mem_singleton.mp member] at same
    rw [← same] at versioned
    contradiction
  ordered := List.pairwise_singleton _ _
  bounded := by
    intro entry member
    rw [List.mem_singleton.mp member]
    exact Nat.zero_le _
  known := by simp

theorem startEmpty_sound (now : Int) : (startEmpty now).Sound := by
  refine start_sound ⟨fun _ _ => rfl, ?_, ?_⟩ le_rfl
  · intro i _
    unfold BucketRing.record
    split
    · exact BucketRing.vacant_same _
    · exact BucketRecord.Same.refl _
  · intro i _
    unfold BucketRing.record
    split
    · exact BucketRing.vacant_same _
    · exact BucketRecord.Same.refl _

theorem restored_agreesAll (image : PersistentImage) (now : Int) (valid : image.Valid)
    (normal : image.Normal) : (Core.restored image now).AgreesAll image where
  lifetimeGeo := rfl
  minutes := by
    simp only [Core.restored]
    exact BucketRing.restoreRing_agreesAll image.minutes _ valid.minutes normal.1
  days := by
    simp only [Core.restored]
    exact BucketRing.restoreRing_agreesAll image.days _ valid.days normal.2

theorem startFromImage_agrees (image : PersistentImage) (now : Int) (valid : image.Valid)
    (normal : image.Normal) : (Core.startFromImage image now).Agrees image := by
  have before := (restored_agreesAll image now valid normal).agrees
  have moved := (Core.advanceTo_marks (Core.restored image now) now).agrees before
  unfold Core.startFromImage
  generalize (Core.restored image now).advanceTo now = core at moved ⊢
  exact ⟨moved.lifetimeGeo, moved.minutes, moved.days⟩

theorem startFromImage_sound (image : PersistentImage) (now : Int) (valid : image.Valid)
    (normal : image.Normal) : (startFromImage image now).Sound := by
  refine start_sound (startFromImage_agrees image now valid normal) ?_
  unfold Core.startFromImage
  generalize (Core.restored image now).advanceTo now = core
  change 1 ≤ (max core.dirtyVersion 1).toNat
  simp only [max]
  split
  · exact le_rfl
  · rename_i large
    have bound := UInt64.not_le.mp large
    rw [UInt64.lt_iff_toNat_lt] at bound
    exact Nat.le_of_lt bound

theorem persistentImage_minutes (core : Core) (now : Int) (stopping : Bool) (i : Fin kMinuteBucketCount) :
    (core.persistentImage now stopping).minutes i = core.minutes.record i := by
  rw [← BucketRing.image_eq_record, Core.persistentImage]

theorem persistentImage_days (core : Core) (now : Int) (stopping : Bool) (i : Fin kDailyBucketCount) :
    (core.persistentImage now stopping).days i = core.days.record i := by
  rw [← BucketRing.image_eq_record, Core.persistentImage]

theorem takeDirtyPatch_same {core : Core} {image : PersistentImage} (agrees : core.Agrees image) (now : Int)
    (stopping : Bool) :
    (applyPatch image (core.takeDirtyPatch now stopping).1).Same (core.persistentImage now stopping) := by
  have all := Core.takeDirtyPatch_agreesAll core image now stopping agrees
  have minutes := (Core.takeDirtyPatch_minutes core now stopping).1
  have days := (Core.takeDirtyPatch_days core now stopping).1
  refine ⟨rfl, rfl, all.lifetimeGeo, ?_, ?_⟩
  · intro i
    have patched := all.minutes i
    rw [minutes] at patched
    rw [persistentImage_minutes]
    exact patched
  · intro i
    have patched := all.days i
    rw [days] at patched
    rw [persistentImage_days]
    exact patched

theorem Sound.base_agrees {ledger : Ledger} (sound : ledger.Sound) : ledger.core.Agrees ledger.base := by
  have last : ledger.history.getLastD ({}, 0) = ledger.history.getLast sound.nonempty := by
    rw [List.getLastD_eq_getLast?, List.getLast?_eq_some_getLast sound.nonempty, Option.getD_some]
  rw [base, last]
  exact sound.clean _ (List.getLast_mem sound.nonempty)

inductive Started : Ledger → Prop
  | empty (now : Int) : Started (startEmpty now)
  | image (image : PersistentImage) (now : Int) (valid : image.Valid) (normal : image.Normal) :
    Started (startFromImage image now)

theorem Started.sound {ledger : Ledger} (started : Started ledger) : ledger.Sound := by
  cases started with
  | empty now => exact startEmpty_sound now
  | image image now valid normal => exact startFromImage_sound image now valid normal

theorem dirty_tracking_complete {ledger final : Ledger} (events : List Event) (started : Started ledger)
    (ran : ledger.run events = some final) (room : final.core.dirtyVersion.toNat < 2 ^ 64 - 1)
    (now : Int) (stopping : Bool) :
    (applyPatch final.base (final.core.takeDirtyPatch now stopping).1).Same
        (final.core.persistentImage now stopping) ∧
      ∀ version, version ≠ final.core.dirtyVersion →
        final.core.acknowledgeCheckpoint version = final.core := by
  have sound := run_sound ran room started.sound
  refine ⟨takeDirtyPatch_same sound.base_agrees now stopping, ?_⟩
  intro version older
  exact if_pos older

theorem step_version_le {ledger next : Ledger} {event : Event} (stepped : ledger.step event = some next) :
    next.core.dirtyVersion.toNat ≤ ledger.core.dirtyVersion.toNat + 2 := by
  have one : (1 : UInt64).toNat = 1 := rfl
  have moved (now : Int) :
      (ledger.core.advanceTo now).dirtyVersion.toNat ≤ ledger.core.dirtyVersion.toNat + 1 := by
    rcases Core.advanceTo_version ledger.core now with ⟨-, moved⟩ | ⟨-, still⟩
    · rw [moved, saturatedAddValue_toNat, one]
      omega
    · rw [still]
      omega
  cases event with
  | record now country chinaRegion ruleConversions =>
    cases stepped
    have before := moved now
    have counted : (ledger.core.record now country chinaRegion ruleConversions).dirtyVersion =
        saturatedAddValue (ledger.core.advanceTo now).dirtyVersion 1 := rfl
    simp only [counted, saturatedAddValue_toNat, one]
    omega
  | dashboardSnapshot now =>
    cases stepped
    exact (moved now).trans (by omega)
  | takeDirtyPatch now stopping =>
    cases stepped
    exact Nat.le_add_right _ 2
  | checkpointImage now stopping =>
    cases stepped
    exact Nat.le_add_right _ 2
  | acknowledgeCheckpoint version =>
    simp only [step] at stepped
    split at stepped
    · cases stepped
      rw [acknowledge_version]
      exact Nat.le_add_right _ 2
    · contradiction

theorem run_version_le {ledger final : Ledger} {events : List Event} (ran : ledger.run events = some final) :
    final.core.dirtyVersion.toNat ≤ ledger.core.dirtyVersion.toNat + 2 * events.length := by
  induction events generalizing ledger with
  | nil =>
    cases ran
    exact le_rfl
  | cons event rest ih =>
    obtain ⟨next, stepped, later⟩ := Option.bind_eq_some_iff.mp ran
    have first := step_version_le stepped
    have others := ih later
    rw [List.length_cons]
    omega

section Exhausted

variable (now : Int) (country chinaRegion : GeoId)

def filled (turns : Nat) (core : Core) : Core :=
  (fun core => core.record now country chinaRegion 0)^[turns] core

theorem run_replicate (turns : Nat) (ledger : Ledger) (rest : List Event) :
    ledger.run (List.replicate turns (.record now country chinaRegion 0) ++ rest) =
      ({ ledger with core := filled now country chinaRegion turns ledger.core } : Ledger).run rest := by
  induction turns generalizing ledger with
  | zero => rfl
  | succ turns ih =>
    rw [List.replicate_succ, List.cons_append]
    exact ih _

theorem filled_minutes (turns : Nat) (core : Core) (still : ¬ core.Moves now)
    (vacant : core.minutes.sealedBuckets = fun _ => {}) :
    (filled now country chinaRegion turns core).minutes.current.stamp = core.minutes.current.stamp ∧
      (filled now country chinaRegion turns core).minutes.sealedBuckets = (fun _ => {}) ∧
      ¬ (filled now country chinaRegion turns core).Moves now ∧
      (filled now country chinaRegion turns core).dirtyVersion.toNat =
        min (core.dirtyVersion.toNat + turns) (2 ^ 64 - 1) := by
  induction turns with
  | zero =>
    refine ⟨rfl, vacant, still, ?_⟩
    have bound := core.dirtyVersion.toNat_lt
    change core.dirtyVersion.toNat = _
    omega
  | succ turns ih =>
    obtain ⟨stamp, blank, idle, version⟩ := ih
    have unfold : filled now country chinaRegion (turns + 1) core =
        (filled now country chinaRegion turns core).record now country chinaRegion 0 :=
      Function.iterate_succ_apply' _ _ _
    obtain ⟨minutes, days, -⟩ := Core.advanceTo_still _ now idle
    have one : (1 : UInt64).toNat = 1 := rfl
    rw [unfold]
    generalize filled now country chinaRegion turns core = before at stamp blank idle version minutes days ⊢
    have same : (before.record now country chinaRegion 0).minutes.current.stamp =
        before.minutes.current.stamp := congrArg (fun ring => ring.current.stamp) minutes
    have sameDay : (before.record now country chinaRegion 0).days.current.stamp =
        before.days.current.stamp := congrArg (fun ring => ring.current.stamp) days
    have sealedSame : (before.record now country chinaRegion 0).minutes.sealedBuckets =
        before.minutes.sealedBuckets := congrArg (fun ring => ring.sealedBuckets) minutes
    refine ⟨same.trans stamp, sealedSame.trans blank, ?_, ?_⟩
    · unfold Core.Moves at idle ⊢
      rw [same, sameDay]
      exact idle
    · have counted : (before.record now country chinaRegion 0).dirtyVersion =
          saturatedAddValue (before.advanceTo now).dirtyVersion 1 := rfl
      rcases Core.advanceTo_version before now with ⟨moved, -⟩ | ⟨-, unmoved⟩
      · exact absurd moved idle
      · rw [counted, unmoved, saturatedAddValue_toNat, one, version]
        omega

end Exhausted

theorem startEmpty_still : ¬ (Core.startEmpty 2000000000).Moves 2000000000 := by
  rintro (later | later)
  · exact absurd later (lt_irrefl _)
  · exact absurd later (lt_irrefl _)

theorem dirty_tracking_complete_late_acknowledgement :
    ∃ final, (startEmpty 2000000000).run [.record 2000000000 538 kInvalidGeoId 0,
        .checkpointImage 2000000000 false, .record 2000000060 538 kInvalidGeoId 0,
        .acknowledgeCheckpoint 2] = some final ∧
      (applyPatch final.base (final.core.takeDirtyPatch 2000000090 false).1).Same
        (final.core.persistentImage 2000000090 false) := by
  obtain ⟨-, -, -, version⟩ := filled_minutes 2000000000 538 kInvalidGeoId 1 (Core.startEmpty 2000000000)
    startEmpty_still rfl
  have second : ((Core.startEmpty 2000000000).record 2000000000 538 kInvalidGeoId 0).dirtyVersion = 2 :=
    UInt64.toNat_inj.mp version
  have ran : ∃ final, (startEmpty 2000000000).run [.record 2000000000 538 kInvalidGeoId 0,
      .checkpointImage 2000000000 false, .record 2000000060 538 kInvalidGeoId 0,
      .acknowledgeCheckpoint 2] = some final := by
    simp only [run, step, Option.bind_some, startEmpty, Core.checkpointImage, second, List.mem_singleton,
      if_true, Option.some.injEq, exists_eq']
  obtain ⟨final, ran⟩ := ran
  refine ⟨final, ran, ?_⟩
  have bound := run_version_le ran
  exact (dirty_tracking_complete _ (Started.empty 2000000000) ran
    (lt_of_le_of_lt bound (by decide)) 2000000090 false).1

theorem record_exhausted (core : Core) (now : Int) (country chinaRegion : GeoId)
    (exhausted : core.dirtyVersion = uint64Max) :
    (core.record now country chinaRegion 0).dirtyVersion = uint64Max := by
  have limit : uint64Max.toNat = 2 ^ 64 - 1 := rfl
  have counted : (core.record now country chinaRegion 0).dirtyVersion =
      saturatedAddValue (core.advanceTo now).dirtyVersion 1 := rfl
  apply UInt64.toNat_inj.mp
  rw [counted, saturatedAddValue_toNat, limit]
  rcases Core.advanceTo_version core now with ⟨-, moved⟩ | ⟨-, still⟩
  · rw [moved, saturatedAddValue_toNat, exhausted, limit]
    omega
  · rw [still, exhausted, limit]
    omega

theorem record_current (core : Core) (now : Int) (country chinaRegion : GeoId) :
    (core.record now country chinaRegion 0).minutes.current.stamp =
        max (now.tdiv 60) core.minutes.current.stamp ∧
      (core.record now country chinaRegion 0).minutes.current.counters.empty = false := by
  have moved : (core.record now country chinaRegion 0).minutes.current.stamp =
      (core.advanceTo now).minutes.current.stamp := rfl
  refine ⟨?_, add_request_not_empty _ _ rfl⟩
  rw [moved, Core.advanceTo_minutes, BucketRing.advance_current]

theorem acknowledge_exhausted (full : Core) (exhausted : full.dirtyVersion = uint64Max)
    (stamp : full.minutes.current.stamp = 33333333) (blank : full.minutes.sealedBuckets = fun _ => {}) :
    ∃ final, ({ core := full, history := [({}, 0)] } : Ledger).run
        [.checkpointImage 2000000000 false, .record 2000000060 538 kInvalidGeoId 0,
          .acknowledgeCheckpoint uint64Max] = some final ∧
      ¬ (applyPatch final.base (final.core.takeDirtyPatch 2000000090 false).1).Same
        (final.core.persistentImage 2000000090 false) := by
  have late := record_exhausted full 2000000060 538 kInvalidGeoId exhausted
  obtain ⟨current, counted⟩ := record_current full 2000000060 538 kInvalidGeoId
  have minute : max ((2000000060 : Int).tdiv 60) 33333333 = 33333334 := by decide
  rw [stamp, minute] at current
  generalize final : full.record 2000000060 538 kInvalidGeoId 0 = core at late current counted
  refine ⟨{ core := core.acknowledgeCheckpoint uint64Max
            history := [(full.persistentImage 2000000000 false, uint64Max)]
            versions := [uint64Max] }, ?_, ?_⟩
  · simp only [run, step, Option.bind_some, Core.checkpointImage, exhausted, final, List.mem_singleton, if_true,
      acknowledged]
  · intro same
    have cleared : core.acknowledgeCheckpoint uint64Max =
        { core with
          dirtyLifetimeGeo := fun _ => false
          minutes := { core.minutes with dirty := fun _ => false }
          days := { core.days with dirty := fun _ => false }
          runtimeDirty := false } := if_neg (not_not.mpr late.symm)
    let slot : Fin kMinuteBucketCount := ⟨26134, by decide⟩
    -- Nothing is marked any more, so the patch leaves the slot as the old image had it.
    have patched : storeBuckets (full.persistentImage 2000000000 false).minutes (Core.dirtyBuckets
        ({ core.minutes with dirty := fun _ => false } : BucketRing kMinuteBucketCount 4)) slot = {} := by
      rw [BucketRing.storeBuckets_dirtyBuckets (by decide), if_neg Bool.false_ne_true,
        persistentImage_minutes, BucketRing.record_other _ _ (by rw [stamp]; decide), blank]
    have active : ({ core.minutes with dirty := fun _ => false } : BucketRing kMinuteBucketCount 4).record slot =
        core.minutes.current.toRecord := by
      refine if_pos ⟨?_, ?_⟩
      · change core.minutes.current.stamp > 0
        rw [current]
        decide
      · change slotIndex kMinuteBucketCount core.minutes.current.stamp = 26134
        rw [current]
        decide
    have stored := (same.minutes slot).1
    rw [persistentImage_minutes, cleared] at stored
    simp only [applyPatch, Core.takeDirtyPatch_minutes, base, List.getLastD_cons, List.getLastD_nil, patched,
      active] at stored
    rcases BucketRing.toRecord_stamp core.minutes.current with ⟨kept, -⟩ | ⟨-, vacant⟩
    · rw [kept, current] at stored
      exact absurd stored (by decide)
    · rw [vacant] at counted
      contradiction

theorem dirty_tracking_complete_exhausted_version :
    ∃ final, (startEmpty 2000000000).run (List.replicate (2 ^ 64) (.record 2000000000 538 kInvalidGeoId 0) ++
        [.checkpointImage 2000000000 false, .record 2000000060 538 kInvalidGeoId 0,
          .acknowledgeCheckpoint uint64Max]) = some final ∧
      ¬ (applyPatch final.base (final.core.takeDirtyPatch 2000000090 false).1).Same
        (final.core.persistentImage 2000000090 false) := by
  obtain ⟨stamp, blank, -, version⟩ := filled_minutes 2000000000 538 kInvalidGeoId (2 ^ 64)
    (Core.startEmpty 2000000000) startEmpty_still rfl
  have limit : uint64Max.toNat = 2 ^ 64 - 1 := rfl
  have exhausted : (filled 2000000000 538 kInvalidGeoId (2 ^ 64) (Core.startEmpty 2000000000)).dirtyVersion =
      uint64Max := by
    apply UInt64.toNat_inj.mp
    rw [version, limit]
    omega
  have start : (Core.startEmpty 2000000000).minutes.current.stamp = 33333333 :=
    (by decide : (2000000000 : Int).tdiv 60 = 33333333)
  rw [start] at stamp
  have dropped := acknowledge_exhausted _ exhausted stamp blank
  simp only [run_replicate, startEmpty]
  exact dropped

end Ledger

end SubConverter.Statistics
