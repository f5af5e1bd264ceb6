import Mixtures.Proofs.Store.Saving

/-!
# Calls that save at the same time

Several calls take their steps in any order, each on a device of its own and with a fresh file of
its own. `Consistent` says what the file system is at any time between two steps: the encodings of
the calls that have succeeded, each in its place and the later one before the earlier one, the
original entries elsewhere, and one more file for every call that is under way. Each kind of step
keeps that, so it holds after every schedule.

* `Consistent.step`, `consistent_run`: one step and a whole schedule.
* `saving_is_atomic`: whoever loads, at any time, sees the complete encoding of the call that
  succeeded last or what was there originally; a call that fails changes nothing.
-/

namespace Mixtures.Store

/-- A call: the device that it meets, the path that it saves to, and the collection. -/
structure SaveCall where
  /-- What the call meets. -/
  device : Device
  /-- Where it saves to. -/
  path : Path
  /-- What it saves. -/
  models : Collection UInt64

/-- No fresh file has the name of the file that a path is the path of. -/
def Device.Avoids (device : Device) (path : Path) : Prop :=
  ∀ (fs : FileSystem) (directory : Place), device.freshName fs directory ∉ path.names.getLast?

/-- A place that a call may have chosen for its fresh file. -/
def SaveCall.MayOpen (call : SaveCall) (place : Place) : Prop :=
  ∃ (fs : FileSystem) (directory : Place),
    place = directory.child (call.device.freshName fs directory)

theorem SaveCall.MayOpen.names_ne_nil {call : SaveCall} {place : Place} (h : call.MayOpen place) :
    place.names ≠ [] := by
  obtain ⟨fs, directory, rfl⟩ := h
  exact Place.names_child_ne_nil _ _

theorem SaveCall.MayOpen.filePlace?_ne {call : SaveCall} {place : Place} (h : call.MayOpen place)
    {path : Path} (havoid : call.device.Avoids path) (fs : FileSystem) :
    fs.filePlace? path ≠ some place := by
  intro htarget
  obtain ⟨fs', directory, rfl⟩ := h
  obtain ⟨parent, name, hname, hchild⟩ := FileSystem.exists_child_of_filePlace? htarget
  obtain ⟨-, rfl⟩ := Place.child_inj.mp hchild
  exact havoid fs' directory hname

/-- How far calls have come, the file system, and the calls that have succeeded, in the order in
which they did. -/
structure Situation (ι : Type) where
  /-- How far each call has come. -/
  progress : ι → Progress
  /-- The file system. -/
  fs : FileSystem
  /-- The calls whose fresh file has taken the name of the destination. -/
  saved : List ι

namespace Situation

variable {ι : Type}

/-- No call has begun. -/
def start (fs : FileSystem) : Situation ι := ⟨fun _ => .ready, fs, []⟩

variable [DecidableEq ι]

/-- A call has made progress. -/
def advance (now : Situation ι) (i : ι) (next : Progress) (fs : FileSystem) : Situation ι where
  progress := Function.update now.progress i next
  fs := fs
  saved := if now.progress i ≠ .finished ∧ next = .finished then now.saved ++ [i] else now.saved

/-- A call takes a step. -/
def step (calls : ι → SaveCall) (now : Situation ι) (i : ι) : Situation ι :=
  let taken := (now.progress i).step (calls i).device (calls i).path (parts (calls i).models) now.fs
  now.advance i taken.1 taken.2

/-- Calls take steps in the order of a schedule. -/
def run (calls : ι → SaveCall) (now : Situation ι) (schedule : List ι) : Situation ι :=
  schedule.foldl (step calls) now

end Situation

section

variable {ι : Type} (calls : ι → SaveCall) (original : FileSystem)

/-- The last of some calls that have saved to a place. -/
def lastSaved (saved : List ι) (place : Place) : Option ι :=
  saved.reverse.find? fun i => original.filePlace? (calls i).path = some place

/-- What is to be found at a place when some calls have succeeded. -/
def settled (saved : List ι) (place : Place) : Option Entry :=
  match lastSaved calls original saved place with
  | some i => some (.file (encode (calls i).models))
  | none => original.lookup place

variable {calls original} {saved : List ι} {place : Place} {i : ι}

theorem settled_append_self (h : original.filePlace? (calls i).path = some place) :
    settled calls original (saved ++ [i]) place = some (.file (encode (calls i).models)) := by
  rw [settled, lastSaved, List.reverse_append, List.reverse_singleton, List.singleton_append,
    List.find?_cons_of_pos (by simpa using h)]

theorem settled_append_of_ne (h : original.filePlace? (calls i).path ≠ some place) :
    settled calls original (saved ++ [i]) place = settled calls original saved place := by
  rw [settled, lastSaved, List.reverse_append, List.reverse_singleton, List.singleton_append,
    List.find?_cons_of_neg (by simpa using h)]
  rfl

end

/-! ## What holds between two steps -/

variable {ι : Type} {calls : ι → SaveCall} {original : FileSystem} {now : Situation ι} {i : ι}

/-- What holds of the fresh file of a call that is under way, in a file system where something is
to be found at some places. -/
structure Drafted (call : SaveCall) (progress : Progress) (fs : FileSystem)
    (found : Place → Option Entry) (fresh : Place) : Prop where
  /-- The call has chosen the place. -/
  mayOpen : call.MayOpen fresh
  /-- Nothing else is to be found there. -/
  free : found fresh = none
  /-- What has been handed over is the encoding, but for what is still to be handed over. -/
  content : ∃ handed, fs.lookup fresh = some (.file handed) ∧
    ∀ rest ∈ progress.pending?, handed ++ rest = encode call.models

/-- What holds between two steps. -/
structure Consistent (calls : ι → SaveCall) (original : FileSystem) (now : Situation ι) : Prop where
  /-- Directories are as they were. -/
  sameDirectories : FileSystem.SameDirectories now.fs original
  /-- The fresh files. -/
  drafted : ∀ i fresh, (now.progress i).fresh? = some fresh →
    Drafted (calls i) (now.progress i) now.fs (settled calls original now.saved) fresh
  /-- Calls have different fresh files. -/
  distinct : ∀ i j fresh, (now.progress i).fresh? = some fresh →
    (now.progress j).fresh? = some fresh → i = j
  /-- Everything else. -/
  lookup_eq : ∀ place, (∀ i, (now.progress i).fresh? ≠ some place) →
    now.fs.lookup place = settled calls original now.saved place
  /-- The calls that have succeeded. -/
  mem_saved_iff : ∀ i, i ∈ now.saved ↔ now.progress i = .finished

/-- Nobody holds a place where nothing is found. -/
theorem Consistent.fresh?_ne_of_lookup_eq_none (h : Consistent calls original now) {place : Place}
    (hnone : now.fs.lookup place = none) (j : ι) : (now.progress j).fresh? ≠ some place := by
  intro hfresh
  obtain ⟨handed, hlookup, -⟩ := (h.drafted j place hfresh).content
  rw [hnone] at hlookup
  cases hlookup

theorem Consistent.fresh?_ne (h : Consistent calls original now) {fresh : Place}
    (hfresh : (now.progress i).fresh? = some fresh) (j : ι) (hj : j ≠ i) :
    (now.progress j).fresh? ≠ some fresh :=
  fun hfresh' => hj (h.distinct j i fresh hfresh' hfresh)

theorem Consistent.lookup_eq_of_ne (h : Consistent calls original now) {place : Place}
    (hown : (now.progress i).fresh? ≠ some place)
    (hother : ∀ j ≠ i, (now.progress j).fresh? ≠ some place) :
    now.fs.lookup place = settled calls original now.saved place := by
  refine h.lookup_eq place fun j => ?_
  by_cases hj : j = i
  · rwa [hj]
  · exact hother j hj

theorem consistent_start (calls : ι → SaveCall) (original : FileSystem) :
    Consistent calls original (.start original) where
  sameDirectories _ := Iff.rfl
  drafted _ _ hfresh := by cases hfresh
  distinct _ _ _ hfresh := by cases hfresh
  lookup_eq _ _ := rfl
  mem_saved_iff _ := by simp [Situation.start]

/-- What is loaded between two steps is what the call that succeeded last has saved there, or else
what was there originally. -/
theorem Consistent.load_eq (h : Consistent calls original now) {path : Path}
    (havoid : ∀ i, (calls i).device.Avoids path) {place : Place}
    (hplace : original.filePlace? path = some place) (size dim : Nat) :
    load now.fs path size dim =
      match lastSaved calls original now.saved place with
      | some i => decodeFile size dim (encode (calls i).models)
      | none => load original path size dim := by
  have hunheld : ∀ i, (now.progress i).fresh? ≠ some place := fun i hfresh =>
    (h.drafted i place hfresh).mayOpen.filePlace?_ne (havoid i) original hplace
  have hplace' : now.fs.filePlace? path = some place :=
    (FileSystem.filePlace?_congr h.sameDirectories path).trans hplace
  have hlookup := h.lookup_eq place hunheld
  rw [load, FileSystem.read_of_filePlace?_eq_some hplace', hlookup, settled]
  cases lastSaved calls original now.saved place with
  | some i => rfl
  | none => rw [load, FileSystem.read_of_filePlace?_eq_some hplace]

/-- Nothing is ever loaded under a path that cannot be the path of a file. -/
theorem Consistent.exists_load_eq_error (h : Consistent calls original now) {path : Path}
    (hplace : original.filePlace? path = none) (size dim : Nat) :
    ∃ error, load now.fs path size dim = .error error := by
  have hplace' : now.fs.filePlace? path = none :=
    (FileSystem.filePlace?_congr h.sameDirectories path).trans hplace
  obtain ⟨fault, hread⟩ := FileSystem.exists_read_of_filePlace?_eq_none hplace'
  rw [load, hread]
  exact ⟨_, rfl⟩

/-! ## One step -/

variable [DecidableEq ι] {next : Progress} {fs : FileSystem}

theorem Situation.saved_advance (h : next = .finished → now.progress i = .finished) :
    (now.advance i next fs).saved = now.saved :=
  if_neg fun hsaved => hsaved.1 (h hsaved.2)

theorem Situation.progress_advance_self : (now.advance i next fs).progress i = next := by
  rw [advance]
  exact Function.update_self i next now.progress

theorem Situation.progress_advance_of_ne {j : ι} (h : j ≠ i) :
    (now.advance i next fs).progress j = now.progress j := by
  rw [advance]
  exact Function.update_of_ne h next now.progress

theorem Situation.mem_saved_advance (h : ∀ j, j ∈ now.saved ↔ now.progress j = .finished)
    (hfinished : now.progress i = .finished → next = .finished) (j : ι) :
    j ∈ (now.advance i next fs).saved ↔ (now.advance i next fs).progress j = .finished := by
  by_cases hj : j = i
  · subst hj
    rw [progress_advance_self, advance]
    dsimp only
    split
    next hnew => simp [hnew.2]
    next hnew =>
      rw [h]
      exact ⟨hfinished, fun hnext => by_contra fun hbefore => hnew ⟨hbefore, hnext⟩⟩
  · rw [progress_advance_of_ne hj, ← h, advance]
    dsimp only
    split <;> simp [hj]

/-- A step of one call keeps what holds if it spares the fresh files of the others, and leaves to
be found what is to be found. -/
theorem Consistent.advance (h : Consistent calls original now)
    (hdirectories : FileSystem.SameDirectories fs now.fs)
    (hfinished : now.progress i = .finished → next = .finished)
    (hown : ∀ fresh, next.fresh? = some fresh →
      Drafted (calls i) next fs (settled calls original (now.advance i next fs).saved) fresh ∧
        ∀ j ≠ i, (now.progress j).fresh? ≠ some fresh)
    (hothers : ∀ j ≠ i, ∀ fresh, (now.progress j).fresh? = some fresh →
      fs.lookup fresh = now.fs.lookup fresh ∧
        settled calls original (now.advance i next fs).saved fresh =
          settled calls original now.saved fresh)
    (hlookup : ∀ place, next.fresh? ≠ some place → (∀ j ≠ i, (now.progress j).fresh? ≠ some place) →
      fs.lookup place = settled calls original (now.advance i next fs).saved place) :
    Consistent calls original (now.advance i next fs) where
  sameDirectories := hdirectories.trans h.sameDirectories
  drafted j fresh hfresh := by
    by_cases hj : j = i
    · subst hj
      rw [Situation.progress_advance_self] at hfresh ⊢
      exact (hown fresh hfresh).1
    · rw [Situation.progress_advance_of_ne hj] at hfresh ⊢
      obtain ⟨hmayOpen, hfree, hcontent⟩ := h.drafted j fresh hfresh
      obtain ⟨hkept, hsettled⟩ := hothers j hj fresh hfresh
      exact ⟨hmayOpen, hsettled.trans hfree, hkept.symm ▸ hcontent⟩
  distinct j k fresh hfresh₁ hfresh₂ := by
    by_cases hj : j = i <;> by_cases hk : k = i
    · rw [hj, hk]
    · subst hj
      rw [Situation.progress_advance_self] at hfresh₁
      rw [Situation.progress_advance_of_ne hk] at hfresh₂
      exact absurd hfresh₂ ((hown fresh hfresh₁).2 k hk)
    · subst hk
      rw [Situation.progress_advance_of_ne hj] at hfresh₁
      rw [Situation.progress_advance_self] at hfresh₂
      exact absurd hfresh₁ ((hown fresh hfresh₂).2 j hj)
    · rw [Situation.progress_advance_of_ne hj] at hfresh₁
      rw [Situation.progress_advance_of_ne hk] at hfresh₂
      exact h.distinct j k fresh hfresh₁ hfresh₂
  lookup_eq place hplace := by
    refine hlookup place ?_ fun j hj => ?_
    · have hown := hplace i
      rwa [Situation.progress_advance_self] at hown
    · have hother := hplace j
      rwa [Situation.progress_advance_of_ne hj] at hother
  mem_saved_iff := Situation.mem_saved_advance h.mem_saved_iff hfinished

/-- A step that does not end a call successfully does not change what is to be found. -/
theorem Consistent.advance_of_unsaved (h : Consistent calls original now)
    (hfinished : (now.progress i).isFinished = next.isFinished)
    (hdirectories : FileSystem.SameDirectories fs now.fs)
    (hown : ∀ fresh, next.fresh? = some fresh →
      Drafted (calls i) next fs (settled calls original now.saved) fresh ∧
        ∀ j ≠ i, (now.progress j).fresh? ≠ some fresh)
    (hothers : ∀ j ≠ i, ∀ fresh, (now.progress j).fresh? = some fresh →
      fs.lookup fresh = now.fs.lookup fresh)
    (hlookup : ∀ place, next.fresh? ≠ some place → (∀ j ≠ i, (now.progress j).fresh? ≠ some place) →
      fs.lookup place = settled calls original now.saved place) :
    Consistent calls original (now.advance i next fs) := by
  have hiff : now.progress i = .finished ↔ next = .finished := by
    rw [← Progress.isFinished_iff, hfinished, Progress.isFinished_iff]
  have hsaved : (now.advance i next fs).saved = now.saved := Situation.saved_advance hiff.mpr
  refine h.advance hdirectories hiff.mp ?_ (fun j hj fresh hfresh => ?_) ?_
  · rwa [hsaved]
  · exact ⟨hothers j hj fresh hfresh, by rw [hsaved]⟩
  · rwa [hsaved]

theorem Consistent.quiet (h : Consistent calls original now)
    (hfresh : next.fresh? = (now.progress i).fresh?)
    (hpending : next.pending? = none ∨ next.pending? = (now.progress i).pending?)
    (hfinished : next.isFinished = (now.progress i).isFinished) :
    Consistent calls original (now.advance i next now.fs) := by
  refine h.advance_of_unsaved hfinished.symm (fun _ => Iff.rfl) (fun fresh hnext => ?_)
    (fun j hj fresh hj' => rfl) fun place hown hother => ?_
  · rw [hfresh] at hnext
    obtain ⟨hmayOpen, hfree, handed, hlookup, hrest⟩ := h.drafted i fresh hnext
    refine ⟨⟨hmayOpen, hfree, handed, hlookup, fun rest hmem => hrest rest ?_⟩, h.fresh?_ne hnext⟩
    exact hpending.resolve_left (Option.ne_none_iff_exists'.mpr ⟨rest, hmem⟩) ▸ hmem
  · exact h.lookup_eq_of_ne (hfresh ▸ hown) hother

/-- The file that is created is nobody else's, and nothing was to be found in its place. -/
theorem Consistent.created (h : Consistent calls original now)
    (hnames : (calls i).device.NamesFresh) (hbefore : now.progress i = .ready) (directory : Place) :
    let fresh := directory.child ((calls i).device.freshName now.fs directory)
    Consistent calls original (now.advance i (.filling fresh 0 [] (parts (calls i).models))
      (now.fs.put fresh (.file []))) := by
  intro fresh
  have hnone : now.fs.lookup fresh = none := hnames now.fs directory
  have hunheld := h.fresh?_ne_of_lookup_eq_none hnone
  have hnonempty : fresh.names ≠ [] := Place.names_child_ne_nil directory _
  refine h.advance_of_unsaved (by rw [hbefore]; rfl)
    (FileSystem.sameDirectories_put hnonempty (FileSystem.ne_directory_of_eq_none hnone))
    (fun place hnext => ?_) (fun j hj place hj' => ?_) fun place hown hother => ?_
  · obtain rfl : fresh = place := Option.some.inj hnext
    refine ⟨⟨⟨now.fs, directory, rfl⟩, ?_, [], FileSystem.lookup_put_self hnonempty, ?_⟩,
      fun j _ => hunheld j⟩
    · rw [← h.lookup_eq fresh hunheld, hnone]
    · rintro rest ⟨⟩
      rfl
  · exact FileSystem.lookup_put_of_ne fun heq => hunheld j (heq ▸ hj')
  · rw [FileSystem.lookup_put_of_ne fun heq => hown (congrArg some heq.symm)]
    exact h.lookup_eq_of_ne (by simp [hbefore, Progress.fresh?]) hother

theorem Consistent.handed (h : Consistent calls original now) {fresh : Place} {bytes rest : Bytes}
    (hbefore : (now.progress i).fresh? = some fresh) (hnext : next.fresh? = some fresh)
    (hpending : (now.progress i).pending? = some (bytes ++ rest))
    (hrest : next.pending? = some rest) :
    Consistent calls original (now.advance i next (now.fs.append fresh bytes)) := by
  obtain ⟨hmayOpen, hfree, handed, hlookup, hdraft⟩ := h.drafted i fresh hbefore
  have hothers := h.fresh?_ne hbefore
  rw [FileSystem.append, hlookup]
  have hfinished : (now.progress i).isFinished = next.isFinished := by
    rw [Progress.isFinished_eq_false_of_fresh? hbefore,
      Progress.isFinished_eq_false_of_fresh? hnext]
  refine h.advance_of_unsaved hfinished (FileSystem.sameDirectories_put hmayOpen.names_ne_nil
      (FileSystem.ne_directory_of_eq_file hlookup))
    (fun place hplace => ?_) (fun j hj place hj' => ?_) fun place hown hother => ?_
  · obtain rfl := Option.some.inj (hnext.symm.trans hplace)
    refine ⟨⟨hmayOpen, hfree, _, FileSystem.lookup_put_self hmayOpen.names_ne_nil, ?_⟩, hothers⟩
    intro left hleft
    obtain rfl := Option.some.inj (hrest.symm.trans hleft)
    rw [List.append_assoc, hdraft _ hpending]
  · exact FileSystem.lookup_put_of_ne fun heq => hothers j hj (heq ▸ hj')
  · rw [FileSystem.lookup_put_of_ne fun heq : place = fresh => hown (heq ▸ hnext)]
    exact h.lookup_eq_of_ne (by rwa [hbefore, ← hnext]) hother

/-- What remains after the fresh file has been removed is what is to be found. -/
theorem Consistent.removed (h : Consistent calls original now) {fresh : Place} {fault : FileFault}
    (hbefore : now.progress i = .broken fresh fault) :
    Consistent calls original (now.advance i (.failed fault) (now.fs.remove fresh)) := by
  have hfresh : (now.progress i).fresh? = some fresh := by
    rw [hbefore]
    rfl
  obtain ⟨hmayOpen, hfree, handed, hlookup, -⟩ := h.drafted i fresh hfresh
  have hothers := h.fresh?_ne hfresh
  refine h.advance_of_unsaved (by rw [hbefore]; rfl) (FileSystem.sameDirectories_remove
      hmayOpen.names_ne_nil (FileSystem.ne_directory_of_eq_file hlookup))
    (fun place hnext => by cases hnext) (fun j hj place hj' => ?_) fun place hown hother => ?_
  · exact FileSystem.lookup_remove_of_ne fun heq => hothers j hj (heq ▸ hj')
  · by_cases hplace : place = fresh
    · rw [hplace, FileSystem.lookup_remove_self hmayOpen.names_ne_nil, hfree]
    · rw [FileSystem.lookup_remove_of_ne hplace]
      refine h.lookup_eq_of_ne ?_ hother
      rw [hfresh]
      exact fun heq => hplace (Option.some.inj heq).symm

/-- The fresh file is complete when it takes the name of the destination, and no one's fresh file
is there. -/
theorem Consistent.renamed (h : Consistent calls original now)
    (havoid : ∀ j, (calls j).device.Avoids (calls i).path) {fresh : Place} {renamed : FileSystem}
    (hbefore : now.progress i = .synced fresh)
    (hrename : now.fs.rename fresh (calls i).path = .ok renamed) :
    Consistent calls original (now.advance i .finished renamed) := by
  have hfresh : (now.progress i).fresh? = some fresh := by
    rw [hbefore]
    rfl
  obtain ⟨hmayOpen, hfree, handed, hlookup, hdraft⟩ := h.drafted i fresh hfresh
  have hothers := h.fresh?_ne hfresh
  have hcontent : handed = encode (calls i).models := by
    simpa using hdraft [] (by rw [hbefore]; rfl)
  obtain ⟨target, entry, htarget, hplace, hsource, rfl⟩ :=
    FileSystem.exists_of_rename_eq_ok hrename
  obtain rfl := Option.some.inj (hlookup.symm.trans hsource)
  have htarget' : original.filePlace? (calls i).path = some target :=
    (FileSystem.filePlace?_congr h.sameDirectories _).symm.trans htarget
  have hunheld : ∀ j place, (now.progress j).fresh? = some place → place ≠ target :=
    fun j place hj heq =>
      (h.drafted j place hj).mayOpen.filePlace?_ne (havoid j) original (heq ▸ htarget')
  have hsaved : (now.advance i .finished ((now.fs.remove fresh).put target (.file handed))).saved =
      now.saved ++ [i] := by
    rw [Situation.advance, hbefore]
    rfl
  have htargetNames := FileSystem.names_ne_nil_of_filePlace? htarget
  refine h.advance ?_ (fun _ => rfl) (fun place hnext => by cases hnext)
    (fun j hj place hj' => ?_) fun place hown hother => ?_
  · refine (FileSystem.sameDirectories_put htargetNames ?_).trans
      (FileSystem.sameDirectories_remove hmayOpen.names_ne_nil
        (FileSystem.ne_directory_of_eq_file hlookup))
    rwa [FileSystem.lookup_remove_of_ne (hunheld i fresh hfresh).symm]
  · have hne := hunheld j place hj'
    rw [hsaved, FileSystem.lookup_put_of_ne hne,
      FileSystem.lookup_remove_of_ne fun heq : place = fresh => hothers j hj (heq ▸ hj')]
    refine ⟨rfl, settled_append_of_ne fun heq => ?_⟩
    exact hne (Option.some.inj (heq.symm.trans htarget'))
  · rw [hsaved]
    by_cases hplace : place = target
    · rw [hplace, FileSystem.lookup_put_self htargetNames, settled_append_self htarget', hcontent]
    · have hsettled : settled calls original (now.saved ++ [i]) place =
          settled calls original now.saved place :=
        settled_append_of_ne fun heq => hplace (Option.some.inj (heq.symm.trans htarget'))
      rw [FileSystem.lookup_put_of_ne hplace, hsettled]
      by_cases hdraftPlace : place = fresh
      · rw [hdraftPlace, FileSystem.lookup_remove_self hmayOpen.names_ne_nil, hfree]
      · rw [FileSystem.lookup_remove_of_ne hdraftPlace]
        refine h.lookup_eq_of_ne ?_ hother
        rw [hfresh]
        exact fun heq => hdraftPlace (Option.some.inj heq).symm

theorem Consistent.effect (hnames : ∀ i, (calls i).device.NamesFresh)
    (havoid : ∀ i j, (calls i).device.Avoids (calls j).path) (h : Consistent calls original now)
    {after : FileSystem} (heffect : Progress.Effect (calls i).device (calls i).path
      (parts (calls i).models) now.fs (now.progress i) next after) :
    Consistent calls original (now.advance i next after) := by
  generalize hbefore : now.progress i = before at heffect
  cases heffect with
  | quiet hfresh hpending hfinished =>
    subst hbefore
    exact h.quiet hfresh hpending hfinished
  | created directory => exact h.created (hnames i) hbefore directory
  | handed hfresh hnext hpending hrest =>
    subst hbefore
    exact h.handed hfresh hnext hpending hrest
  | removed fresh fault => exact h.removed hbefore
  | renamed hrename => exact h.renamed (fun j => havoid j i) hbefore hrename

theorem Consistent.step (hnames : ∀ i, (calls i).device.NamesFresh)
    (havoid : ∀ i j, (calls i).device.Avoids (calls j).path) (h : Consistent calls original now)
    (i : ι) : Consistent calls original (now.step calls i) :=
  h.effect hnames havoid (Progress.step_effect _ _ _ _ _)

/-! ## Whole schedules -/

theorem Consistent.run (hnames : ∀ i, (calls i).device.NamesFresh)
    (havoid : ∀ i j, (calls i).device.Avoids (calls j).path) (h : Consistent calls original now)
    (schedule : List ι) : Consistent calls original (now.run calls schedule) := by
  induction schedule generalizing now with
  | nil => exact h
  | cons i schedule ih => exact ih (h.step hnames havoid i)

/-- **Saving is atomic.** A call that runs alone and fails leaves the file system as it was; if it
succeeds, its path has the whole encoding as content and nothing else has changed; and it succeeds
if its path can be that of a file, its directory can be entered and the system refuses nothing.
When several calls run at the same time, whoever loads between two of their steps sees the complete
encoding of the call that succeeded last, or what was there originally; everything else but the
fresh files of calls under way is as if the calls that have succeeded had run alone one after the
other, and the others not at all.

The system is taken to choose names for fresh files under which nothing exists, other than those
that are loaded from or saved to. -/
theorem saving_is_atomic {ι : Type} [DecidableEq ι] (calls : ι → SaveCall) (original : FileSystem)
    (hnames : ∀ i, (calls i).device.NamesFresh)
    (havoid : ∀ i j, (calls i).device.Avoids (calls j).path) :
    (∀ i, let call := calls i
      let alone := saveWith call.device original call.path call.models
      (∀ error, alone.1 = .error error → alone.2 = original) ∧
      (alone.1 = .ok () → ∃ place, original.filePlace? call.path = some place ∧
        alone.2.read call.path = .ok (encode call.models) ∧
        ∀ other ≠ place, alone.2.lookup other = original.lookup other) ∧
      (call.device.Works →
        ∀ fresh, original.freshPlace call.device.freshName call.path.parent = .ok fresh →
        ∀ place, original.filePlace? call.path = some place →
          original.lookup place ≠ some .directory → alone.1 = .ok ())) ∧
    ∀ schedule, let now := (Situation.start original).run calls schedule
      (∀ path, (∀ i, (calls i).device.Avoids path) → ∀ size dim,
        match original.filePlace? path with
        | some place => load now.fs path size dim =
            match lastSaved calls original now.saved place with
            | some i => decodeFile size dim (encode (calls i).models)
            | none => load original path size dim
        | none => ∃ error, load now.fs path size dim = .error error) ∧
      (∀ place, (∀ i, (now.progress i).fresh? ≠ some place) →
        now.fs.lookup place = settled calls original now.saved place) ∧
      ∀ i, i ∈ now.saved ↔ now.progress i = .finished := by
  refine ⟨fun i => ⟨fun error herror => ?_, fun hok => ?_, ?_⟩, fun schedule => ?_⟩
  · exact saveWith_error (hnames i) herror
  · obtain ⟨place, hplace, hdirectory, hafter⟩ := saveWith_ok (hnames i) hok
    have hnonempty := FileSystem.names_ne_nil_of_filePlace? hplace
    have hdirectories : FileSystem.SameDirectories
        (original.put place (.file (encode (calls i).models))) original :=
      FileSystem.sameDirectories_put hnonempty hdirectory
    refine ⟨place, hplace, ?_, fun other hother => ?_⟩
    · rw [hafter, FileSystem.read_of_filePlace?_eq_some
        ((FileSystem.filePlace?_congr hdirectories _).trans hplace),
        FileSystem.lookup_put_self hnonempty]
    · rw [hafter, FileSystem.lookup_put_of_ne hother]
  · exact fun hworks fresh hfresh place hplace hdirectory =>
      saveWith_of_works (hnames i) hworks hfresh hplace hdirectory
  · have h := (consistent_start calls original).run hnames havoid schedule
    refine ⟨fun path hpath size dim => ?_, h.lookup_eq, h.mem_saved_iff⟩
    cases hplace : original.filePlace? path with
    | some place => exact h.load_eq hpath hplace size dim
    | none => exact h.exists_load_eq_error hplace size dim

/-- A collection without groups. -/
def noGroups : Collection UInt64 where
  size := 1
  dim := 1
  mixtures := []
  hasShape := by simp

/-- A file that is no collection. -/
def scribble : FileSystem := ⟨[(⟨0, ["models"]⟩, .file [1])]⟩

/-- Two calls that save to the same path. One of them meets a device that is full. -/
def twoCalls (works : Bool) : SaveCall where
  device := { fault := fun step => if step = .sync ∧ !works then some .noRoom else none }
  path := ⟨["models"]⟩
  models := noGroups

/-- How far the two calls come. -/
def twoCallsAfter (schedule : List Bool) : Situation Bool :=
  (Situation.start scribble).run twoCalls schedule

theorem saving_is_atomic_twoCalls :
    (∀ works, (twoCalls works).device.NamesFresh) ∧
      (∀ works works', (twoCalls works).device.Avoids (twoCalls works').path) ∧
      load (twoCallsAfter [true, false, true, false]).fs ⟨["models"]⟩ 1 1 =
        load scribble ⟨["models"]⟩ 1 1 ∧
      (twoCallsAfter (List.replicate 20 false ++ List.replicate 20 true)).progress false =
        .failed .noRoom ∧
      load (twoCallsAfter (List.replicate 20 false ++ List.replicate 20 true)).fs ⟨["models"]⟩ 1 1 =
        decodeFile 1 1 (encode noGroups) := by
  have hnames : ∀ works, (twoCalls works).device.NamesFresh :=
    fun _ fs directory => FileSystem.lookup_firstFreeName fs directory
  have havoid : ∀ works works', (twoCalls works).device.Avoids (twoCalls works').path := by
    intro _ _ fs directory hmem
    obtain ⟨rest, hname⟩ := FileSystem.exists_firstFreeName_eq fs directory
    have hmodels : "models" = ".tmp" ++ rest := (Option.some.inj hmem).trans hname
    have hfirst := congrArg (fun name => name.toList.head?) hmodels
    rw [String.toList_append] at hfirst
    cases hfirst
  have hplace : scribble.filePlace? ⟨["models"]⟩ = some ⟨0, ["models"]⟩ := by decide +kernel
  have hpath : ∀ works, (twoCalls works).device.Avoids ⟨["models"]⟩ :=
    fun works => havoid works works
  have h := (saving_is_atomic twoCalls scribble hnames havoid).2
  have hearly := (h [true, false, true, false]).1 ⟨["models"]⟩ hpath 1 1
  have hlate := (h (List.replicate 20 false ++ List.replicate 20 true)).1 ⟨["models"]⟩ hpath 1 1
  have hearlySaved : lastSaved twoCalls scribble
      (twoCallsAfter [true, false, true, false]).saved ⟨0, ["models"]⟩ = none := by decide +kernel
  have hlateSaved : lastSaved twoCalls scribble
      (twoCallsAfter (List.replicate 20 false ++ List.replicate 20 true)).saved ⟨0, ["models"]⟩ =
        some true := by decide +kernel
  rw [hplace] at hearly hlate
  dsimp only at hearly hlate
  rw [← twoCallsAfter] at hearly hlate
  rw [hearlySaved] at hearly
  rw [hlateSaved] at hlate
  exact ⟨hnames, havoid, hearly, by decide +kernel, hlate⟩

end Mixtures.Store
